import BehaviorTree.Proofs.Journal

/-! Comparing two trees by their runs: what their calls answer, and what they ask. Where the trees differ
in form, only some of the requests can agree, and nodes that correspond stand in different positions. A
ledger is a journal that writes down only such entries. It stands for a journal whose entries are named
anew and sorted out, also when the environment behind it stands for another one. -/

set_option autoImplicit false

namespace BehaviorTree

variable {L M V W A B P Q : Type}

inductive Answer where
  | eligible (answer : Bool)
  | progressed (progress : Progress)
  | stepped (result : Option Progress)
  | nothing
  deriving Repr, DecidableEq

namespace Tree

variable [Host W] [Action W A] [Probe W P]

def answer (tree : Tree A P) (world : W) : Call W → Answer
  | .evaluate => .eligible (tree.root.evaluate world).1
  | .tick => .progressed (tree.root.tick world).1
  | .step => .stepped (tree.step world).1
  | .clear | .change _ => .nothing

def answers (tree : Tree A P) (world : W) : List (Call W) → List Answer
  | [] => []
  | next :: rest => tree.answer world next :: (tree.call world next).1.answers (tree.call world next).2 rest

/-- What the calls on a root that was just started return, and what they ask. -/
def playAnswers (root : Node A P) (context : ContextId) (world : W) (calls : List (Call W)) : List Answer :=
  let (tree, world) := start root context world
  tree.answers world calls

def playHistory (root : Node A P) (context : ContextId) (world : W) (calls : List (Call W)) :
    List (Entry Position) :=
  let (tree, world) := start root context world
  tree.history world calls

end Tree

/-- The same call in an environment and in one that stands for it. The host changes both alike. -/
inductive Call.Alike (view : W → V) : Call W → Call V → Prop where
  | evaluate : Alike view .evaluate .evaluate
  | tick : Alike view .tick .tick
  | clear : Alike view .clear .clear
  | step : Alike view .step .step
  | change {outside : W → W} {seen : V → V} : (∀ world, view (outside world) = seen (view world)) →
      Alike view (.change outside) (.change seen)

theorem Call.alike_self (next : Call W) : Call.Alike id next next := by
  cases next with
  | evaluate => exact .evaluate
  | tick => exact .tick
  | clear => exact .clear
  | step => exact .step
  | change outside => exact .change fun _ => rfl

namespace Simulates

variable [Host V] [Action V B] [Probe V Q] [Host W] [Action W A] [Probe W P]
  {view : W → V} {action : A → B} {probe : P → Q} (sim : Simulates view action probe)
include sim

theorem call_exchange (tree : Tree A P) (here : W) {next : Call W} {seen : Call V}
    (alike : Call.Alike view next seen) :
    (tree.exchange action probe).call (view here) seen =
      ((tree.call here next).1.exchange action probe, view (tree.call here next).2) := by
  cases alike with
  | evaluate => simp only [Tree.call, Tree.exchange, sim.evaluate_exchange tree.root here]
  | tick => simp only [Tree.call, Tree.exchange, sim.tick_exchange tree.root here]
  | clear => simp only [Tree.call, Tree.clear, Tree.exchange, sim.clear_exchange tree.root here]
  | step => simp only [Tree.call, sim.step_exchange]
  | change same => simp only [Tree.call, same]

theorem answer_exchange (tree : Tree A P) (here : W) {next : Call W} {seen : Call V}
    (alike : Call.Alike view next seen) :
    (tree.exchange action probe).answer (view here) seen = tree.answer here next := by
  cases alike with
  | evaluate => simp only [Tree.answer, Tree.exchange, sim.evaluate_exchange tree.root here]
  | tick => simp only [Tree.answer, Tree.exchange, sim.tick_exchange tree.root here]
  | step => simp only [Tree.answer, sim.step_exchange]
  | clear | change _ => rfl

end Simulates

namespace Simulates

variable [Host V] [Action V A] [Probe V P] [Host W] [Action W A] [Probe W P] {view : W → V}
  (sim : Simulates view (id : A → A) (id : P → P))
include sim

theorem call_eq (tree : Tree A P) (here : W) {next : Call W} {seen : Call V} (alike : Call.Alike view next seen) :
    tree.call (view here) seen = ((tree.call here next).1, view (tree.call here next).2) := by
  have same := sim.call_exchange tree here alike
  rwa [Tree.exchange_id, Tree.exchange_id] at same

theorem answer_eq (tree : Tree A P) (here : W) {next : Call W} {seen : Call V} (alike : Call.Alike view next seen) :
    tree.answer (view here) seen = tree.answer here next := by
  have same := sim.answer_exchange tree here alike
  rwa [Tree.exchange_id] at same

end Simulates

theorem Simulates.refl [Host W] [Action W A] [Probe W P] : Simulates (id : W → W) (id : A → A) (id : P → P) where
  now _ _ := rfl
  flag _ _ _ := rfl
  report _ _ _ _ := rfl
  visit _ _ := rfl
  fault _ := rfl
  activate _ _ _ := rfl
  check _ _ _ := rfl
  enter _ _ _ := rfl
  execute _ _ _ := rfl
  exit _ _ _ := rfl
  activateProbe _ _ _ := rfl
  checkProbe _ _ _ := rfl

namespace Entry

def isClock : Entry L → Bool
  | .clock _ => true
  | _ => false

def relabel (name : L → M) : Entry L → Entry M
  | .clock context => .clock context
  | .report context node content => .report context node content
  | .visit call => .visit call
  | .fault => .fault
  | .action hook label => .action hook (name label)
  | .probe hook label => .probe hook (name label)

theorem map_relabel_id (entries : List (Entry L)) : entries.map (relabel id) = entries :=
  (List.map_congr_left fun entry _ => by cases entry <;> rfl).trans (List.map_id _)

end Entry

def Tagged.map (name : L → M) (content : A → B) (tagged : Tagged L A) : Tagged M B :=
  ⟨name tagged.label, content tagged.content⟩

def Tagged.relabel (name : L → M) : Tagged L A → Tagged M A := Tagged.map name id

/-- A journal that writes down only the entries to be kept. -/
structure Ledger (L V : Type) (keep : Entry L → Bool) where
  world : V
  entries : List (Entry L)

namespace Ledger

variable {keep : Entry L → Bool}

def of (keep : Entry L → Bool) (world : V) : Ledger L V keep := ⟨world, []⟩

def wrote (ledger : Ledger L V keep) (entry : Entry L) (world : V) : Ledger L V keep :=
  ⟨world, ledger.entries ++ [entry].filter keep⟩

instance [Host V] : Host (Ledger L V keep) where
  now context ledger :=
    let (time, world) := Host.now context ledger.world
    (time, ledger.wrote (.clock context) world)
  flag context key ledger := Host.flag context key ledger.world
  report context node report ledger :=
    ledger.wrote (.report context node report) (Host.report context node report ledger.world)
  visit visit ledger := ledger.wrote (.visit visit) (Host.visit visit ledger.world)
  fault ledger := ledger.wrote .fault (Host.fault ledger.world)

instance [Action V A] : Action (Ledger L V keep) (Tagged L A) where
  activate tagged context ledger :=
    let (content, world) := Action.activate tagged.content context ledger.world
    (⟨tagged.label, content⟩, ledger.wrote (.action .activate tagged.label) world)
  check tagged context ledger :=
    let (answer, content, world) := Action.check tagged.content context ledger.world
    (answer, ⟨tagged.label, content⟩, ledger.wrote (.action .check tagged.label) world)
  enter tagged context ledger :=
    let (content, world) := Action.enter tagged.content context ledger.world
    (⟨tagged.label, content⟩, ledger.wrote (.action .enter tagged.label) world)
  execute tagged context ledger :=
    let (progress, content, world) := Action.execute tagged.content context ledger.world
    (progress, ⟨tagged.label, content⟩, ledger.wrote (.action .execute tagged.label) world)
  exit tagged context ledger :=
    let (content, world) := Action.exit tagged.content context ledger.world
    (⟨tagged.label, content⟩, ledger.wrote (.action .exit tagged.label) world)

instance [Probe V P] : Probe (Ledger L V keep) (Tagged L P) where
  activate tagged context ledger :=
    let (content, world) := Probe.activate tagged.content context ledger.world
    (⟨tagged.label, content⟩, ledger.wrote (.probe .activate tagged.label) world)
  check tagged context ledger :=
    let (answer, content, world) := Probe.check tagged.content context ledger.world
    (answer, ⟨tagged.label, content⟩, ledger.wrote (.probe .check tagged.label) world)

theorem wrote_eq (ledger : Ledger L V keep) {entry : Entry L} (unkept : keep entry = false) (world : V) :
    ledger.wrote entry world = ⟨world, ledger.entries⟩ := by
  simp only [wrote, List.filter_cons_of_neg (Bool.eq_false_iff.mp unkept), List.filter_nil, List.append_nil]

theorem now_eq [Host V] (ledger : Ledger L V keep) {context : ContextId} (unkept : keep (.clock context) = false)
    (still : (Host.now context ledger.world).2 = ledger.world) : (Host.now context ledger).2 = ledger := by
  simp only [Host.now, ledger.wrote_eq unkept, still]

end Ledger

def Journal.kept (view : W → V) (name : L → M) (keep : Entry M → Bool) (journal : Journal L W) : Ledger M V keep :=
  ⟨view journal.world, (journal.entries.map (Entry.relabel name)).filter keep⟩

theorem Journal.kept_wrote (view : W → V) (name : L → M) (keep : Entry M → Bool) (journal : Journal L W)
    (entry : Entry L) (world : W) : (journal.wrote entry world).kept view name keep =
      (journal.kept view name keep).wrote (entry.relabel name) (view world) := by
  simp only [kept, wrote, Ledger.wrote, List.map_append, List.filter_append, List.map_cons, List.map_nil]

theorem Journal.kept_world (view : W → V) (name : L → M) (keep : Entry M → Bool) (journal : Journal L W) :
    (journal.kept view name keep).world = view journal.world := rfl

/-- A ledger answers as the journal does, of which it keeps a part. -/
theorem Simulates.keeping [Host V] [Action V B] [Probe V Q] [Host W] [Action W A] [Probe W P] {view : W → V}
    {action : A → B} {probe : P → Q} (sim : Simulates view action probe) (name : L → M) (keep : Entry M → Bool) :
    Simulates (Journal.kept view name keep) (Tagged.map name action) (Tagged.map name probe) where
  now context here := by simp only [Host.now, Journal.kept_world, Journal.kept_wrote, Entry.relabel, sim.now]
  flag context key here := sim.flag context key here.world
  report context node content here := by
    simp only [Host.report, Journal.kept_world, Journal.kept_wrote, Entry.relabel, sim.report]
  visit call here := by simp only [Host.visit, Journal.kept_world, Journal.kept_wrote, Entry.relabel, sim.visit]
  fault here := by simp only [Host.fault, Journal.kept_world, Journal.kept_wrote, Entry.relabel, sim.fault]
  activate leaf context here := by
    simp only [Action.activate, Tagged.map, Journal.kept_world, Journal.kept_wrote, Entry.relabel, sim.activate]
  check leaf context here := by
    simp only [Action.check, Tagged.map, Journal.kept_world, Journal.kept_wrote, Entry.relabel, sim.check]
  enter leaf context here := by
    simp only [Action.enter, Tagged.map, Journal.kept_world, Journal.kept_wrote, Entry.relabel, sim.enter]
  execute leaf context here := by
    simp only [Action.execute, Tagged.map, Journal.kept_world, Journal.kept_wrote, Entry.relabel, sim.execute]
  exit leaf context here := by
    simp only [Action.exit, Tagged.map, Journal.kept_world, Journal.kept_wrote, Entry.relabel, sim.exit]
  activateProbe question context here := by
    simp only [Probe.activate, Tagged.map, Journal.kept_world, Journal.kept_wrote, Entry.relabel, sim.activateProbe]
  checkProbe question context here := by
    simp only [Probe.check, Tagged.map, Journal.kept_world, Journal.kept_wrote, Entry.relabel, sim.checkProbe]

def Call.noted (keep : Entry L → Bool) : Call V → Call (Ledger L V keep)
  | .evaluate => .evaluate
  | .tick => .tick
  | .clear => .clear
  | .step => .step
  | .change outside => .change fun ledger => ⟨outside ledger.world, ledger.entries⟩

theorem Call.Alike.noted {view : W → V} {next : Call W} {seen : Call V} (alike : Call.Alike view next seen)
    (name : Position → L) (keep : Entry L → Bool) :
    Call.Alike (Journal.kept view name keep) next.watched (seen.noted keep) := by
  cases alike with
  | evaluate => exact .evaluate
  | tick => exact .tick
  | clear => exact .clear
  | step => exact .step
  | change same => exact .change fun journal => by simp only [Journal.kept, same]

theorem Tree.trace_kept [Host V] [Action V A] [Probe V P] [Host W] [Action W A] [Probe W P] {view : W → V}
    (sim : Simulates view (id : A → A) (id : P → P)) (name : Position → L) (keep : Entry L → Bool)
    (tree : Tree A P) (here : W) {next : Call W} {seen : Call V} (alike : Call.Alike view next seen) :
    ((tree.placed.exchange (Tagged.relabel name) (Tagged.relabel name)).call (.of keep (view here))
        (seen.noted keep)).2.entries = ((tree.trace here next).map (Entry.relabel name)).filter keep := by
  -- The trace is what the labelled tree writes into an empty journal, and the ledger stands for that.
  have same := (sim.keeping name keep).call_exchange tree.placed (Journal.of here) (alike.noted name keep)
  exact congrArg (fun result => result.2.entries) same

end BehaviorTree
