import BehaviorTree.Proofs.ActivePath
import BehaviorTree.Proofs.Frame
import BehaviorTree.World

/-! Watching a tree. A journal is an environment that writes down every request before another
environment answers it; actions and probes carry labels, by which the journal names them. Watching
changes nothing: a tree in a journal does what it does without. A tree whose labels are the positions
of its nodes tells by its entries what a call asked, and of whom. -/

set_option autoImplicit false

namespace BehaviorTree

structure Tagged (L A : Type) where
  label : L
  content : A
  deriving Repr, DecidableEq

/-- One request of a tree. -/
inductive Entry (L : Type) where
  | clock (context : ContextId)
  | report (context : Option ContextId) (node : String) (report : Report)
  | visit (visit : Visit)
  | fault
  | action (hook : Hook) (label : L)
  | probe (hook : Hook) (label : L)
  deriving Repr

namespace Entry

variable {L : Type}

def isReport : Entry L → Bool
  | .report _ _ _ => true
  | _ => false

/-- Whether an action is entered, executed or exited. A fault counts as well: where no entry but those
of named actions is found, there was none. -/
def isLifecycle : Entry L → Bool
  | .action .enter _ | .action .execute _ | .action .exit _ | .fault => true
  | _ => false

def executed? : Entry L → Option L
  | .action .execute label => some label
  | _ => none

end Entry

structure Journal (L W : Type) where
  world : W
  entries : List (Entry L)

namespace Journal

variable {L W A P : Type}

def of (world : W) : Journal Position W := ⟨world, []⟩

def wrote (journal : Journal L W) (entry : Entry L) (world : W) : Journal L W :=
  ⟨world, journal.entries ++ [entry]⟩

/-- The entries that are no reports. -/
def asked (journal : Journal L W) : List (Entry L) := journal.entries.filter fun entry => !entry.isReport

def lifecycle (journal : Journal L W) : List (Entry L) := journal.entries.filter Entry.isLifecycle

instance [Host W] : Host (Journal L W) where
  now context journal :=
    let (time, world) := Host.now context journal.world
    (time, journal.wrote (.clock context) world)
  flag context key journal := Host.flag context key journal.world
  report context node report journal :=
    journal.wrote (.report context node report) (Host.report context node report journal.world)
  visit visit journal := journal.wrote (.visit visit) (Host.visit visit journal.world)
  fault journal := journal.wrote .fault (Host.fault journal.world)

instance [Action W A] : Action (Journal L W) (Tagged L A) where
  activate tagged context journal :=
    let (content, world) := Action.activate tagged.content context journal.world
    (⟨tagged.label, content⟩, journal.wrote (.action .activate tagged.label) world)
  check tagged context journal :=
    let (answer, content, world) := Action.check tagged.content context journal.world
    (answer, ⟨tagged.label, content⟩, journal.wrote (.action .check tagged.label) world)
  enter tagged context journal :=
    let (content, world) := Action.enter tagged.content context journal.world
    (⟨tagged.label, content⟩, journal.wrote (.action .enter tagged.label) world)
  execute tagged context journal :=
    let (progress, content, world) := Action.execute tagged.content context journal.world
    (progress, ⟨tagged.label, content⟩, journal.wrote (.action .execute tagged.label) world)
  exit tagged context journal :=
    let (content, world) := Action.exit tagged.content context journal.world
    (⟨tagged.label, content⟩, journal.wrote (.action .exit tagged.label) world)

instance [Probe W P] : Probe (Journal L W) (Tagged L P) where
  activate tagged context journal :=
    let (content, world) := Probe.activate tagged.content context journal.world
    (⟨tagged.label, content⟩, journal.wrote (.probe .activate tagged.label) world)
  check tagged context journal :=
    let (answer, content, world) := Probe.check tagged.content context journal.world
    (answer, ⟨tagged.label, content⟩, journal.wrote (.probe .check tagged.label) world)

variable [Host W] [Action W A] [Probe W P]

/-- Without its entries and labels a journal is the environment that answers. -/
theorem erases : Simulates (world : Journal L W → W) (Tagged.content : Tagged L A → A)
    (Tagged.content : Tagged L P → P) where
  now _ _ := rfl
  flag _ _ _ := rfl
  report _ _ _ _ := rfl
  visit _ _ := rfl
  fault _ := rfl
  activate _ _ _ := rfl
  check _ _ _ := rfl
  enter _ _ _ := rfl
  execute _ _ _ := rfl
  exit _ _ _ := rfl
  activateProbe _ _ _ := rfl
  checkProbe _ _ _ := rfl

omit [Host W] in
theorem hidden : Hidden (Journal L W) (Tagged.label : Tagged L A → L) :=
  ⟨fun _ _ _ => rfl, fun _ _ _ => rfl, fun _ _ _ => rfl, fun _ _ _ => rfl⟩

section Entries
variable (journal : Journal L W) (entry : Entry L) (world : W)

omit [Host W] in
theorem asked_wrote : (journal.wrote entry world).asked = journal.asked ++ if entry.isReport then [] else [entry] := by
  cases kind : entry.isReport <;> simp [asked, wrote, List.filter_append, kind]

omit [Host W] in
theorem lifecycle_wrote :
    (journal.wrote entry world).lifecycle = journal.lifecycle ++ if entry.isLifecycle then [entry] else [] := by
  cases kind : entry.isLifecycle <;> simp [lifecycle, wrote, List.filter_append, kind]

omit [Host W] in
theorem lifecycle_eq : journal.lifecycle = journal.asked.filter Entry.isLifecycle := by
  rw [lifecycle, asked, List.filter_filter]
  refine List.filter_congr fun entry _ => ?_
  cases entry <;> simp [Entry.isReport, Entry.isLifecycle]

end Entries

end Journal

/-! Labels from positions. -/

def Spot.here (position : Position) : Spot Position := (position, position)

theorem Spot.map_here_inj {first second : List Position} :
    first.map Spot.here = second.map Spot.here ↔ first = second :=
  List.map_inj_right fun _ _ same => (Prod.ext_iff.mp same).1

namespace Node

variable {A P : Type}

mutual

def placeAt (position : Position) : Node A P → Node (Tagged Position A) (Tagged Position P)
  | .mk state children => .mk (state.map (.mk position) (.mk position)) (placeFrom position 0 children)

def placeFrom (position : Position) : Nat → List (Node A P) → List (Node (Tagged Position A) (Tagged Position P))
  | _, [] => []
  | index, node :: rest => placeAt (position ++ [index]) node :: placeFrom position (index + 1) rest

end

/-- The tree with every action and every probe labelled by the position of its node. -/
def placed (node : Node A P) : Node (Tagged Position A) (Tagged Position P) := node.placeAt []

theorem placeFrom_getElem? (position : Position) (start index : Nat) (children : List (Node A P)) :
    (placeFrom position start children)[index]? =
      (children[index]?).map (placeAt (position ++ [start + index])) := by
  induction children generalizing start index with
  | nil => rfl
  | cons first rest ih =>
    cases index with
    | zero => rfl
    | succ index => simpa [placeFrom, Nat.add_right_comm, Nat.add_assoc] using ih (start + 1) index

theorem exchange_placeAt (node : Node A P) (position : Position) :
    (node.placeAt position).exchange Tagged.content Tagged.content = node := by
  induction node generalizing position with
  | mk state children ih =>
    have kept : (state.map (Tagged.mk position) (Tagged.mk position)).map Tagged.content Tagged.content = state := by
      obtain ⟨name, kind, gate, cooldown, lastPass, held⟩ := state
      have sameKind : (kind.map (Tagged.mk position)).map Tagged.content = kind := by cases kind <;> rfl
      have sameGate (gate : Gate P) : (gate.map (Tagged.mk position)).map Tagged.content = gate := by
        induction gate with
        | atom | constant | flag => rfl
        | not operand ih => simp only [Gate.map, ih]
        | and left right ihl ihr | or left right ihl ihr => simp only [Gate.map, ihl, ihr]
      cases gate <;> simp [NodeState.map, sameKind, sameGate]
    have below (start : Nat) : (placeFrom position start children).map (exchange Tagged.content Tagged.content) =
        children := by
      clear kept
      induction children generalizing start with
      | nil => rfl
      | cons first rest each =>
        rw [placeFrom, List.map_cons, ih first List.mem_cons_self,
          each fun child member => ih child (List.mem_cons_of_mem _ member)]
    rw [placeAt, exchange_mk, kept, below]

theorem exchange_placed (node : Node A P) : node.placed.exchange Tagged.content Tagged.content = node :=
  exchange_placeAt node []

theorem runningAt_placed (node : Node A P) : node.placed.runningAt = node.runningAt := by
  have same : (node.placed.exchange Tagged.content Tagged.content).runningAt = node.placed.runningAt :=
    runningAt_exchange _
  rw [exchange_placed] at same
  exact same.symm

theorem routeTo?_placed (node : Node A P) : node.placed.routeTo? = node.routeTo? := by
  have same : (node.placed.exchange Tagged.content Tagged.content).routeTo? = node.placed.routeTo? :=
    routeTo?_exchange _
  rw [exchange_placed] at same
  exact same.symm

theorem atRest_placed {node : Node A P} : node.placed.AtRest ↔ node.AtRest := by
  have same : (node.placed.exchange Tagged.content Tagged.content).AtRest ↔ node.placed.AtRest := atRest_exchange
  rw [exchange_placed] at same
  exact same.symm

theorem settled_placed {lax : Prop} {node : Node A P} : node.placed.Settled lax ↔ node.Settled lax := by
  have same : (node.placed.exchange Tagged.content Tagged.content).Settled lax ↔ node.placed.Settled lax :=
    settled_exchange
  rw [exchange_placed] at same
  exact same.symm

theorem steady_placed {node : Node A P} : node.placed.Steady ↔ node.Steady := by
  rw [← settled_false, settled_placed, settled_false]

def Labelled (node : Node (Tagged Position A) (Tagged Position P)) : Prop :=
  ∀ position found lifecycle, node.at? position = some found → found.state.kind = .action lifecycle →
    lifecycle.action.label = position

theorem label_placeAt {position : Position} {node : Node A P} {start : Position}
    {found : Node (Tagged Position A) (Tagged Position P)} {lifecycle : Lifecycle (Tagged Position A)}
    (reached : (node.placeAt start).at? position = some found) (kind : found.state.kind = .action lifecycle) :
    lifecycle.action.label = start ++ position := by
  induction position generalizing node start with
  | nil =>
    cases node with
    | mk state children =>
      cases reached
      rw [placeAt, state_mk, NodeState.map] at kind
      cases held : state.kind with
      | action inner =>
        rw [held] at kind
        cases kind
        exact (List.append_nil start).symm
      | sequence | selector | inert | relay =>
        rw [held] at kind
        cases kind
  | cons index rest ih =>
    cases node with
    | mk state children =>
      obtain ⟨child, selected, below⟩ := at?_cons_eq_some.mp reached
      rw [placeAt, children_mk, placeFrom_getElem?, Nat.zero_add] at selected
      obtain ⟨inner, _, rfl⟩ := Option.map_eq_some_iff.mp selected
      rw [ih below, List.append_assoc]
      rfl

theorem labelled_placed (node : Node A P) : node.placed.Labelled := fun _ _ _ reached kind => by
  rw [label_placeAt reached kind, List.nil_append]

/-- Labels are part of the shape, so calls keep them. -/
theorem Labelled.congr {node other : Node (Tagged Position A) (Tagged Position P)}
    (labelled : node.Labelled) (same : other.shape Tagged.label = node.shape Tagged.label) : other.Labelled := by
  intro position found lifecycle reached kind
  have shaped : (node.shape Tagged.label).at? position = some (found.shape Tagged.label) := by
    rw [← same, at?_shape, reached, Option.map_some]
  rw [at?_shape] at shaped
  obtain ⟨before, there, shaped⟩ := Option.map_eq_some_iff.mp shaped
  have kinds : before.state.kind.frame Tagged.label = found.state.kind.frame Tagged.label := by
    have states := congrArg state shaped
    rw [state_shape, state_shape] at states
    exact congrArg NodeState.kind states
  rw [kind] at kinds
  cases held : before.state.kind with
  | action inner =>
    rw [held] at kinds
    have labels : inner.action.label = lifecycle.action.label := by simpa [Kind.frame, Lifecycle.fresh] using kinds
    rw [← labels, labelled _ _ _ there held]
  | sequence | selector | inert | relay =>
    rw [held] at kinds
    cases kinds

theorem Labelled.running_eq {node : Node (Tagged Position A) (Tagged Position P)} (labelled : node.Labelled) :
    node.running Tagged.label = node.runningAt.map Spot.here := by
  rw [← map_fst_running Tagged.label, List.map_map]
  refine (List.map_id _).symm.trans (List.map_congr_left fun spot member => ?_)
  obtain ⟨found, action, reached, kind, shown⟩ := mem_running.mp member
  exact Prod.ext rfl (by rw [id, ← shown, labelled _ _ _ reached kind]; rfl)

theorem Labelled.of_route? {node : Node (Tagged Position A) (Tagged Position P)} (labelled : node.Labelled)
    {spot : Spot Position} (leads : node.route? Tagged.label = some spot) : spot = Spot.here spot.1 := by
  obtain ⟨found, lifecycle, reached, kind, shown⟩ := at?_of_route? leads
  exact Prod.ext rfl (by rw [← shown, labelled _ _ _ reached kind]; rfl)

end Node

variable {W A P : Type}

def Call.watched : Call W → Call (Journal Position W)
  | .evaluate => .evaluate
  | .tick => .tick
  | .clear => .clear
  | .step => .step
  | .change outside => .change fun journal => ⟨outside journal.world, journal.entries⟩

namespace Tree

def placed (tree : Tree A P) : Tree (Tagged Position A) (Tagged Position P) := ⟨tree.root.placed, tree.context⟩

variable [Host W] [Action W A] [Probe W P]

/-- Everything that a call asks, in order, by the positions of the nodes. -/
def trace (tree : Tree A P) (world : W) (next : Call W) : List (Entry Position) :=
  (tree.placed.call (Journal.of world) next.watched).2.entries

def history (tree : Tree A P) (world : W) : List (Call W) → List (Entry Position)
  | [] => []
  | next :: rest => tree.trace world next ++ (tree.call world next).1.history (tree.call world next).2 rest

omit [Host W] [Action W A] [Probe W P] in
theorem exchange_placed (tree : Tree A P) : tree.placed.exchange Tagged.content Tagged.content = tree := by
  rw [placed, exchange, Node.exchange_placed]

theorem step_placed (tree : Tree A P) (world : W) : tree.step world =
    ((tree.placed.step (Journal.of world)).1,
      (tree.placed.step (Journal.of world)).2.1.exchange Tagged.content Tagged.content,
      (tree.placed.step (Journal.of world)).2.2.world) := by
  have watched : (tree.placed.exchange Tagged.content Tagged.content).step (Journal.of world).world =
      ((tree.placed.step (Journal.of world)).1,
        (tree.placed.step (Journal.of world)).2.1.exchange Tagged.content Tagged.content,
        (tree.placed.step (Journal.of world)).2.2.world) := Simulates.step_exchange Journal.erases _ _
  rw [exchange_placed] at watched
  exact watched

theorem call_placed (tree : Tree A P) (world : W) (next : Call W) : tree.call world next =
    ((tree.placed.call (Journal.of world) next.watched).1.exchange Tagged.content Tagged.content,
      (tree.placed.call (Journal.of world) next.watched).2.world) := by
  have watched : (tree.placed.exchange Tagged.content Tagged.content).call (Journal.of world).world next =
      ((tree.placed.call (Journal.of world) next.watched).1.exchange Tagged.content Tagged.content,
        (tree.placed.call (Journal.of world) next.watched).2.world) := by
    cases next with
    | evaluate => simp only [call, exchange, Journal.erases.evaluate_exchange, Call.watched]
    | tick => simp only [call, exchange, Journal.erases.tick_exchange, Call.watched]
    | clear => simp only [call, clear, exchange, Journal.erases.clear_exchange, Call.watched]
    | step => rw [exchange_placed]; exact congrArg Prod.snd (step_placed tree world)
    | change outside => rfl
  rw [exchange_placed] at watched
  exact watched

end Tree

end BehaviorTree
