import BehaviorTree.Proofs.Run

/-! What clearing releases. A node that runs holds run state, and clearing takes it back. One that does not run asks
for nothing when it is cleared, and clearing leaves it as it is, but for one case: when a sequence that has not started
was asked, selectors below it hold the choices that they made for the answer, and clearing the sequence takes these
back. -/

set_option autoImplicit false

namespace BehaviorTree

variable {W A P : Type}

namespace Node

variable {node : Node A P}

theorem Steady.probed_of_idle (steady : node.Steady) (idle : node.isRunning = false) : node.Probed := by
  cases node with
  | mk state children =>
    obtain ⟨sound, _⟩ := steady_mk.mp steady
    rw [probed_mk]
    constructor
    · intro running
      exact absurd running (by simpa [isRunning] using idle)
    · cases children with
      | nil => exact List.forall_mem_nil _
      | cons first rest =>
        obtain ⟨probed, resting⟩ := sound.rest_atRest (Kind.activeChild_of_idle idle)
        exact List.forall_mem_cons.mpr ⟨probed, fun child member => (resting child member).probed⟩

/-- Choices that were made for an answer can only be held below a sequence that has not started. -/
theorem Steady.idle_cases (steady : node.Steady) (idle : node.isRunning = false) :
    node.AtRest ∨ ∃ first rest, node.state.kind = .sequence none ∧ node.children = first :: rest ∧
      first.Probed ∧ ¬ first.AtRest ∧ ∀ other ∈ rest, other.AtRest := by
  cases node with
  | mk state children =>
    obtain ⟨sound, _⟩ := steady_mk.mp steady
    have idle : state.kind.isRunning = false := idle
    cases children with
    | nil => exact .inl (atRest_mk.mpr ⟨idle, List.forall_mem_nil _⟩)
    | cons first rest =>
      have inactive := Kind.activeChild_of_idle idle
      obtain ⟨probed, resting⟩ := sound.rest_atRest inactive
      by_cases still : first.AtRest
      · exact .inl (atRest_mk.mpr ⟨idle, List.forall_mem_cons.mpr ⟨still, resting⟩⟩)
      · have unselected : (mk state (first :: rest)).activeChild ≠ some 0 := by
          rw [activeChild, inactive]
          simp
        have started := (sound.others 0 first rfl unselected).resolve_left still
        exact .inr ⟨first, rest, started.1, rfl, probed, still, resting⟩

variable [Host W] [Action W A]

theorem clearAll_world {children : List (Node A P)}
    (each : ∀ child ∈ children, ∀ world : W, (child.clear world).2 = world) (world : W) :
    (Node.clearAll children world).2 = world := by
  induction children generalizing world with
  | nil => rfl
  | cons first rest ih =>
    simp only [Node.clearAll, each first List.mem_cons_self,
      ih fun child member => each child (List.mem_cons_of_mem _ member)]

theorem clear_world_of_probed (steady : node.Steady) (probed : node.Probed) (world : W) :
    (node.clear world).2 = world := by
  induction node generalizing world with
  | mk state children ih =>
    obtain ⟨sound, below⟩ := steady_mk.mp steady
    obtain ⟨chosen, each⟩ := probed_mk.mp probed
    have still := fun child member => ih child member (below child member) (each child member)
    have step := clears sound world
    generalize Node.clear (.mk state children) world = result at step ⊢
    cases step with
    | @action context lifecycle _ kind _ =>
      rcases lifecycle with ⟨action, _ | _⟩
      · rfl
      · -- An action that runs is no selector.
        rw [kind] at chosen
        exact absurd (chosen rfl) nofun
    | sequence _ => exact clearAll_world still world
    | idle _ => rfl
    | selector _ selected => exact still _ (List.mem_of_getElem? selected) world

theorem clear_of_probed {state : NodeState A P} {first : Node A P} {rest : List (Node A P)}
    (steady : (mk state (first :: rest)).Steady) (kind : state.kind = .sequence none)
    (resting : ∀ other ∈ rest, other.AtRest) (world : W) :
    Node.clear (.mk state (first :: rest)) world = (.mk state ((first.clear world).1 :: rest), world) := by
  obtain ⟨sound, below⟩ := steady_mk.mp steady
  have idle : (mk state (first :: rest)).isRunning = false := by rw [isRunning, state_mk, kind]; rfl
  have silent := clear_world_of_probed steady (steady.probed_of_idle idle) world
  have still : ∀ other ∈ rest, ∀ later : W, other.clear later = (other, later) := fun other member =>
    clear_eq_self ⟨below other (List.mem_cons_of_mem _ member), resting other member⟩
  have step := clears sound world
  generalize Node.clear (.mk state (first :: rest)) world = result at step silent ⊢
  cases step with
  | action _ other _ | idle other | selector other _ => cases kind.symm.trans other
  | sequence _ =>
    simp only [Node.clearAll, clearAll_eq_self still, ← kind] at silent ⊢
    rw [silent]

end Node

namespace Tree

variable [Host W] [Action W A] [Probe W P]

/-- After any run of a started tree, clearing a node that runs leaves it at rest, so it held run state. Clearing one
that does not run asks for nothing, and changes nothing either, except where the node is a sequence that has not
started and that was asked: then its first child gives up the choices that were made for the answer. -/
theorem play_release {root : Node A P} (built : root.Built) {context : ContextId} {before world : W}
    {calls : List (Call W)} {tree : Tree A P} (reached : play root context before calls = (tree, world))
    {position : Position} {found : Node A P} (there : tree.root.at? position = some found) :
    (found.isRunning = true → ∀ later : W, (found.clear later).1.AtRest) ∧
    (found.isRunning = false →
      (∀ later : W, found.clear later = (found, later)) ∨
      ∃ first rest, found.state.kind = .sequence none ∧ found.children = first :: rest ∧
        first.Probed ∧ ¬ first.AtRest ∧ ∀ later : W, (first.clear later).1.AtRest ∧
          found.clear later = (.mk found.state ((first.clear later).1 :: rest), later)) := by
  have steady : found.Steady := Node.Everywhere.below (play_steady built reached) there
  constructor
  · intro _ later
    exact (Node.clear_resting steady later).atRest
  · intro idle
    rcases steady.idle_cases idle with rest | ⟨first, rest, kind, split, probed, unrested, resting⟩
    · exact .inl (Node.clear_eq_self ⟨steady, rest⟩)
    · refine .inr ⟨first, rest, kind, split, probed, unrested, fun later => ?_⟩
      cases found with
      | mk state children =>
        obtain rfl : children = first :: rest := split
        have kept := (Node.steady_mk.mp steady).2 first List.mem_cons_self
        exact ⟨(Node.clear_resting kept later).atRest, Node.clear_of_probed steady kind resting later⟩

end Tree

/-! A shift that begins with a duty, which is asked whether it could begin. -/

def shift : Node Script.Performer Script.Sensor :=
  .mk (Node.fresh "shift" (.sequence none)).state
    [.mk (Node.fresh "duty" (.selector none)).state [Node.fresh "watch" (.action (.fresh .idle))]]

def askedShift : Tree Script.Performer Script.Sensor × World := Tree.play shift 0 World.post [.evaluate]

namespace Tree

/-- The shift has not started, but the duty below it keeps its choice until the shift is cleared. -/
theorem asked_shift_release : askedShift.1.root.isRunning = false ∧
    ∃ first rest, askedShift.1.root.children = first :: rest ∧ ¬ first.AtRest ∧
      ∀ later : World, (first.clear later).1.AtRest ∧
        askedShift.1.root.clear later = (.mk askedShift.1.root.state ((first.clear later).1 :: rest), later) := by
  have idle : askedShift.1.root.isRunning = false := by decide +kernel
  have held : (askedShift.1.root.at? [0]).bind Node.activeChild = some 0 := by decide +kernel
  obtain ⟨_, released⟩ := play_release (show shift.Built by decide)
    (show play shift 0 World.post [.evaluate] = (askedShift.1, askedShift.2) from rfl)
    (show askedShift.1.root.at? [] = some askedShift.1.root from rfl)
  refine ⟨idle, ?_⟩
  rcases released idle with same | ⟨first, rest, _, split, _, unrested, cleared⟩
  · -- Clearing does change the duty.
    have given : ((askedShift.1.root.clear askedShift.2).1.at? [0]).bind Node.activeChild = none := by decide +kernel
    rw [same, held] at given
    cases given
  · exact ⟨first, rest, split, unrested, cleared⟩

/-- A node that does not run can be changed by clearing it. -/
theorem asked_shift_changed_by_clear : shift.Built ∧ askedShift.1.root.isRunning = false ∧
    (askedShift.1.root.at? [0]).bind Node.activeChild = some 0 ∧
    ((askedShift.1.root.clear askedShift.2).1.at? [0]).bind Node.activeChild = none := by
  decide +kernel

end Tree

end BehaviorTree
