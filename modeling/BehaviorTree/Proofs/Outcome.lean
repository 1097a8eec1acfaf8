import BehaviorTree.Proofs.Driving
import BehaviorTree.Proofs.Granting

/-! What the result of a tick tells of the tree that is left. A tick that ends leaves everything at rest. One that
goes on leaves either the action that it executed running, or nothing running at all: then a sequence on its path
has moved on to its next child, which starts on the following tick. -/

set_option autoImplicit false

namespace BehaviorTree

variable {W A P : Type}

def Kind.next? : Kind A → Option Nat
  | .sequence active => some (active.getD 0)
  | .selector active => active
  | .action _ | .inert | .relay _ _ => none

namespace Node

/-- A tick of the node gets to the node at the position. -/
inductive Leads : Node A P → Position → Node A P → Prop where
  | here (node : Node A P) : Leads node [] node
  | next {node child found : Node A P} {index : Nat} {path : Position} : node.state.kind.next? = some index →
      node.children[index]? = some child → Leads child path found → Leads node (index :: path) found

/-- At the position, which a tick gets to, stands a sequence that is afterwards at its next child, and this child
is at rest. -/
def MovesOn (node after : Node A P) (position : Position) : Prop :=
  ∃ (sequence moved child : Node A P) (active : Option Nat), node.Leads position sequence ∧
    sequence.state.kind = .sequence active ∧ after.at? position = some moved ∧
    moved.state.kind = .sequence (some (active.getD 0 + 1)) ∧
    moved.children[active.getD 0 + 1]? = some child ∧ child.AtRest

variable {node after child ticked : Node A P} {index : Nat}

theorem movesOn_nil : node.MovesOn after [] ↔ ∃ (child : Node A P) (active : Option Nat),
    node.state.kind = .sequence active ∧ after.state.kind = .sequence (some (active.getD 0 + 1)) ∧
      after.children[active.getD 0 + 1]? = some child ∧ child.AtRest := by
  constructor
  · rintro ⟨sequence, moved, child, active, leads, before, found, later, selected, rest⟩
    cases leads
    cases found
    exact ⟨child, active, before, later, selected, rest⟩
  · rintro ⟨child, active, before, later, selected, rest⟩
    exact ⟨node, after, child, active, .here node, before, rfl, later, selected, rest⟩

theorem movesOn_cons (next : node.state.kind.next? = some index) (selected : node.children[index]? = some child)
    (present : after.children[index]? = some ticked) (position : Nat) (path : Position) :
    node.MovesOn after (position :: path) ↔ position = index ∧ child.MovesOn ticked path := by
  constructor
  · rintro ⟨sequence, moved, target, active, leads, before, found, later⟩
    cases leads with
    | next here there below =>
      obtain rfl := Option.some.inj (here.symm.trans next)
      obtain rfl := Option.some.inj (there.symm.trans selected)
      obtain ⟨inner, same, found⟩ := at?_cons_eq_some.mp found
      obtain rfl := Option.some.inj (same.symm.trans present)
      exact ⟨rfl, sequence, moved, target, active, below, before, found, later⟩
  · rintro ⟨rfl, sequence, moved, target, active, below, before, found, later⟩
    exact ⟨sequence, moved, target, active, .next next selected below, before,
      at?_cons_eq_some.mpr ⟨ticked, present, found⟩, later⟩

/-- How a tick leaves the tree that goes on. -/
inductive Goes (node after : Node A P) : Prop where
  | running {path : Position} : after.runningAt = [path] → (∀ position, ¬ node.MovesOn after position) →
      Goes node after
  | moving {position : Position} : after.runningAt = [] → node.MovesOn after position → Goes node after

theorem Goes.of_child (next : node.state.kind.next? = some index) (selected : node.children[index]? = some child)
    (present : after.children[index]? = some ticked) (runs : after.runningAt = ticked.runningAt.map (List.cons index))
    (stays : ¬ node.MovesOn after []) (goes : child.Goes ticked) : node.Goes after := by
  cases goes with
  | @running path runningAt still =>
    have extended : after.runningAt = [index :: path] := by rw [runs, runningAt, List.map_singleton]
    refine .running extended fun position moves => ?_
    cases position with
    | nil => exact stays moves
    | cons first rest => exact still rest ((movesOn_cons next selected present first rest).mp moves).2
  | @moving position idle moves =>
    exact .moving (by rw [runs, idle, List.map_nil])
      ((movesOn_cons next selected present index position).mpr ⟨rfl, moves⟩)

end Node

theorem Executes.executed_of_running {route : Option (Spot Position)} {before : List (Spot Position)}
    {hooks : List (Entry Position)} {spot : Spot Position} (executes : Executes route before hooks [spot]) :
    executed hooks = [spot.2] := by
  cases executes <;> rfl

theorem Lifecycle.isRunning_of_running [Host W] [Action W A] {lifecycle : Lifecycle A} {name : String}
    {context : ContextId} {world : W} (goes : (lifecycle.tick name context world).1 = .running) :
    (lifecycle.tick name context world).2.1.isRunning = true := by
  have started : (lifecycle.start name context world).1.isRunning = true := by
    rcases lifecycle with ⟨action, _ | _⟩ <;> rfl
  simp only [tick] at goes ⊢
  split at goes
  · exact started
  · cases goes

namespace Node

variable [Host W] [Action W A] {node : Node A P}

theorem goes_of_tick (steady : node.Steady) (world : W) (running : (node.tick world).1 = .running) :
    (node.tick world).2.1.isRunning = true ∧ node.Goes (node.tick world).2.1 := by
  induction node generalizing world with
  | mk state children ih =>
    obtain ⟨sound, below⟩ := steady_mk.mp steady
    have kept := (tick_steady steady world).1
    have step := ticks sound world
    generalize Node.tick (.mk state children) world = result at step kept running ⊢
    cases step with
    | @action context lifecycle _ kind leaf =>
      subst leaf
      have runs := Lifecycle.isRunning_of_running running
      have here : (Node.mk { state with kind := .action (lifecycle.tick state.name context world).2.1 } [] :
          Node A P).runningAt = [[]] := by
        rw [runningAt, running_of_action rfl, if_pos runs, List.map_singleton]
      refine ⟨runs, .running here fun position moves => ?_⟩
      -- An action is no sequence, and a tick gets no further.
      obtain ⟨sequence, _, _, active, leads, before, _⟩ := moves
      cases leads with
      | here => cases kind.symm.trans before
      | next here _ _ =>
        rw [state_mk, kind] at here
        cases here
    | emptySequence _ _ _ | completed _ _ _ _ | emptySelector _ _ _ | unchosen _ _ | released _ _ _ => cases running
    | @continued active child ticked later kind selected ticking =>
      have member := List.mem_of_getElem? selected
      have goes := (ih child member (below child member) world (by rw [ticking])).2
      rw [ticking] at goes
      have present : (children.set (active.getD 0) ticked)[active.getD 0]? = some ticked :=
        getElem?_set_of_selected selected
      have next : state.kind.next? = some (active.getD 0) := by rw [kind]; rfl
      refine ⟨rfl, .of_child next selected present ?_ ?_ goes⟩
      · rw [runningAt, Sound.running_of_sequence kept.here rfl present, List.map_map, runningAt, List.map_map]
        rfl
      · rw [movesOn_nil]
        rintro ⟨_, before, same, moved, _⟩
        obtain rfl : before = active := Kind.sequence.inj (same.symm.trans kind)
        have equal : before.getD 0 = before.getD 0 + 1 := Option.some.inj (Kind.sequence.inj moved)
        omega
    | @advanced active child ticked later kind selected ticking further =>
      have member := List.mem_of_getElem? selected
      have still := tick_steady (below child member) world
      rw [ticking] at still
      have rests : ∀ other ∈ children.set (active.getD 0) (ticked.clear later).1, other.AtRest :=
        forall_mem_set (clear_resting still.1 later).atRest fun position other found different =>
          sound.atRest_of_sequence kind found different
      have bound : active.getD 0 + 1 < (children.set (active.getD 0) (ticked.clear later).1).length := by
        rwa [List.length_set]
      refine ⟨rfl, .moving ?_ (movesOn_nil.mpr ⟨_, active, kind, rfl,
        List.getElem?_eq_getElem bound, rests _ (List.getElem_mem bound)⟩)⟩
      rw [runningAt, running_eq_nil rfl fun other member => running_of_atRest id (rests other member), List.map_nil]
    | @chosen index child ticked later kind selected ticking =>
      have member := List.mem_of_getElem? selected
      have goes := (ih child member (below child member) world (by rw [ticking])).2
      rw [ticking] at goes
      have present : (children.set index ticked)[index]? = some ticked := getElem?_set_of_selected selected
      have next : state.kind.next? = some index := by rw [kind]; rfl
      refine ⟨by rw [isRunning, state_mk, kind]; rfl, .of_child next selected present ?_ ?_ goes⟩
      · rw [runningAt, Sound.running_of_selector kept.here kind present, List.map_map, runningAt, List.map_map]
        rfl
      · rw [movesOn_nil]
        rintro ⟨_, before, same, _⟩
        cases same.symm.trans kind

variable [Probe W P]

theorem executed_of_runningAt (steady : node.Steady) {world : W} {path : Position}
    (runs : (node.tick world).2.1.runningAt = [path]) : executed (node.trace world .tick) = [path] := by
  obtain ⟨hooks, written, executes⟩ :=
    tick_lifecycle (steady_placed.mpr steady) node.labelled_placed (Journal.of world)
  have watched : (node.tick world).2.1 =
      (node.placed.tick (Journal.of world)).2.1.exchange Tagged.content Tagged.content :=
    congrArg Prod.fst (node.use_placed world .tick)
  rw [watched, runningAt_exchange] at runs
  rw [runs] at executes
  have whole : (node.trace world .tick).filter Entry.isLifecycle = hooks := written
  rw [← executed_lifecycle, whole]
  exact executes.executed_of_running

/-- After any use of a built root, before its activation as well as after it, the result of a tick tells how the
tree is left. It runs exactly if the tick goes on. If the tick ended, nothing runs and nothing is active anywhere.
If it goes on, then either it executed an action that runs on, and no sequence moved; or nothing runs, and a
sequence that the tick got to has moved on to its next child. -/
theorem drive_tick_result {root node after : Node A P} (built : root.Built) {before world later : W}
    {uses : List (Use W)} {progress : Progress} (reached : root.drive before uses = (node, world))
    (ticked : node.tick world = (progress, after, later)) :
    (after.isRunning = true ↔ progress = .running) ∧ (progress = .ended → after.AtRest) ∧
      (progress = .running →
        (∃ path, executed (node.trace world .tick) = [path] ∧ after.runningAt = [path] ∧
          ∀ position, ¬ node.MovesOn after position) ∨
        (after.runningAt = [] ∧ ∃ position, node.MovesOn after position)) := by
  cases built.driven reached with
  -- A tree that is not activated ends every tick.
  | built untouched =>
    rw [tick_of_inactive untouched.inactive] at ticked
    cases ticked
    have idle := Everywhere.here untouched.atRest
    exact ⟨⟨fun running => absurd running (by simp [idle]), nofun⟩, fun _ => untouched.atRest, nofun⟩
  | steady steady =>
    have rests := (tick_steady steady world).2
    have goes := goes_of_tick steady world
    have executes (path : Position) : (node.tick world).2.1.runningAt = [path] →
        executed (node.trace world .tick) = [path] := executed_of_runningAt steady
    rw [ticked] at rests goes executes
    refine ⟨⟨fun running => ?_, fun running => (goes running).1⟩, rests, fun running => ?_⟩
    · cases progress with
      | running => rfl
      | ended => exact absurd running (by simp [Everywhere.here (rests rfl)])
    · cases (goes running).2 with
      | @running path runs still => exact .inl ⟨path, executes path runs, runs, still⟩
      | moving idle moves => exact .inr ⟨idle, _, moves⟩

def posted : Node Script.Performer Script.Sensor × World := patrol.drive World.post [.activate 0, .evaluate]

/-- The first tick sends the patrol on its way out. -/
theorem posted_tick_result : patrol.Built ∧ (posted.1.tick posted.2).1 = .running ∧
    executed (posted.1.trace posted.2 .tick) = [[1, 0]] ∧ (posted.1.tick posted.2).2.1.runningAt = [[1, 0]] ∧
      ∀ position, ¬ posted.1.MovesOn (posted.1.tick posted.2).2.1 position := by
  have running : (posted.1.tick posted.2).1 = .running := by decide +kernel
  have out : (posted.1.tick posted.2).2.1.runningAt = [[1, 0]] := by decide +kernel
  obtain ⟨_, _, goes⟩ :=
    drive_tick_result patrol_built (show patrol.drive World.post [.activate 0, .evaluate] = (posted.1, posted.2) from rfl)
      (show posted.1.tick posted.2 = (_, (posted.1.tick posted.2).2.1, (posted.1.tick posted.2).2.2) from rfl)
  rcases goes running with ⟨path, executes, runs, still⟩ | ⟨idle, _⟩
  · obtain rfl : path = [1, 0] := List.singleton_inj.mp (runs.symm.trans out)
    exact ⟨patrol_built, running, executes, out, still⟩
  · cases idle.symm.trans out

end Node

end BehaviorTree
