import BehaviorTree.Proofs.Requests
import Mathlib.Data.List.InsertIdx

/-! The contexts in the trees that a host can reach. A record is kept of the nodes that the host puts into a tree,
changed by nothing but activation and the edits themselves. The nodes of the tree hold exactly the contexts of that
record: what happens between the edits gives no node a context and takes none away. -/

set_option autoImplicit false

namespace BehaviorTree

variable {W A P : Type}

namespace Node

def gain (node child : Node A P) : Node A P := .mk node.state (node.children ++ [child])

def lose (node : Node A P) (index : Nat) : Node A P := .mk node.state (node.children.eraseIdx index)

variable {node other child : Node A P} {context : ContextId}

theorem held_gain : (node.gain child).held = node.held.gain child.held := by
  cases node with
  | mk state children => rw [gain, held_mk, held_mk, gain, List.map_append, List.map_singleton]; rfl

theorem held_lose (index : Nat) : (node.lose index).held = node.held.lose index := by
  cases node with
  | mk state children => rw [lose, held_mk, held_mk, lose, ← List.eraseIdx_map]; rfl

theorem gain_holds_iff : (node.gain child).Holds context ↔ node.Holds context ∧ child.Holds context := by
  cases node with
  | mk state children =>
    rw [gain, holds_mk, holds_mk, and_assoc]
    apply and_congr_right'
    exact List.forall_mem_append.trans (and_congr_right' (List.forall_mem_singleton))

theorem Holds.lose (holds : node.Holds context) (index : Nat) : (node.lose index).Holds context := by
  cases node with
  | mk state children =>
    obtain ⟨here, below⟩ := holds_mk.mp holds
    exact holds_mk.mpr ⟨here, fun child member => below child (List.mem_of_mem_eraseIdx member)⟩

theorem Holds.adopt (holds : node.Holds context) (later : ContextId) : node.adopt later = node := by
  cases node with
  | mk state children => exact adopt_of_active (holds_mk.mp holds).1

variable [Host W] [Action W A] {world later : W}

omit [Action W A] in
theorem addChild_ok {after : Node A P} (accepted : node.addChild child world = (.ok after, later)) :
    after = node.gain child := by
  unfold addChild at accepted
  split at accepted
  · cases accepted
    rfl
  · split at accepted <;> cases accepted

omit [Action W A] in
theorem addChild_of_room (room : (ChildLimit.finite node.children.length).lt node.maxChildren = true) :
    node.addChild child world = (.ok (node.gain child), world) := by
  unfold addChild
  rw [if_pos room]
  rfl

theorem length_children_clear (node : Node A P) (world : W) : (node.clear world).1.children.length = node.children.length := by
  have same (other : Node A P) : other.held.children.length = other.children.length := by
    cases other with
    | mk state children => rw [held_mk, children_mk, children_mk, List.length_map]
  rw [← same, held_clear, same]

theorem removeChild_of_lt {index : Nat} (composite : node.maxChildren ≠ .finite 0)
    (inside : index < node.children.length) (world : W) : ∃ removed, node.removeChild index world =
      (.ok (removed, (node.clear world).1.lose index), (node.clear world).2) := by
  -- The child is looked up after clearing, which keeps the number of children.
  rw [← length_children_clear node world] at inside
  unfold removeChild
  simp only [if_neg composite, List.getElem?_eq_getElem inside]
  exact ⟨_, rfl⟩

theorem removeChild_ok {removed after : Node A P} {index : Nat}
    (accepted : node.removeChild index world = (.ok (removed, after), later)) :
    after = (node.clear world).1.lose index := by
  unfold removeChild at accepted
  split at accepted
  · cases accepted
  · dsimp only at accepted
    split at accepted <;> cases accepted
    rfl

end Node

variable [Host W] [Action W A] [Probe W P]

namespace Tree

omit [Probe W P] in
theorem held_clear (tree : Tree A P) (world : W) : (tree.clear world).1.root.held = tree.root.held :=
  Node.held_clear tree.root world

theorem held_step (tree : Tree A P) (world : W) : (tree.step world).2.1.root.held = tree.root.held := by
  have asked := Node.held_evaluate tree.root world
  have step := tree.steps world
  generalize tree.step world = result at step ⊢
  cases step with
  | refused evaluated =>
    rw [evaluated] at asked
    exact (Node.held_clear _ _).trans asked
  | agreed evaluated =>
    rw [evaluated] at asked
    exact (Node.held_tick _ _).trans asked

theorem held_call (tree : Tree A P) (world : W) (next : Call W) :
    (tree.call world next).1.root.held = tree.root.held := by
  cases next with
  | evaluate => exact Node.held_evaluate tree.root world
  | tick => exact Node.held_tick tree.root world
  | clear => exact held_clear tree world
  | step => exact held_step tree world
  | change outside => rfl

/-- The trees that a host can reach, each with the record of the nodes put into it. The host has the root of a tree
in its hands: it may give it calls, activate it again, edit it or put another in its place. -/
inductive Reached : Tree A P → W → Node A P → Prop where
  | start (root : Node A P) (context : ContextId) (world : W) :
      Reached (start root context world).1 (start root context world).2 (root.adopt context)
  | call {tree : Tree A P} {world : W} {record : Node A P} (next : Call W) : Reached tree world record →
      Reached (tree.call world next).1 (tree.call world next).2 record
  /-- The root is taken out and made a tree again. -/
  | restart {tree : Tree A P} {world : W} {record : Node A P} (context : ContextId) : Reached tree world record →
      Reached (Tree.start tree.root context world).1 (Tree.start tree.root context world).2 (record.adopt context)
  | activate {tree : Tree A P} {world : W} {record : Node A P} (context : ContextId) : Reached tree world record →
      Reached ⟨(tree.root.activate context world).1, tree.context⟩ (tree.root.activate context world).2
        (record.adopt context)
  | replace {tree : Tree A P} {world : W} {record : Node A P} (root : Node A P) : Reached tree world record →
      Reached ⟨root, tree.context⟩ world root
  | add {tree : Tree A P} {world later : W} {record child root : Node A P} : Reached tree world record →
      tree.root.addChild child world = (.ok root, later) → Reached ⟨root, tree.context⟩ later (record.gain child)
  | remove {tree : Tree A P} {world later : W} {record removed root : Node A P} {index : Nat} :
      Reached tree world record → tree.root.removeChild index world = (.ok (removed, root), later) →
      Reached ⟨root, tree.context⟩ later (record.lose index)
  | addRejected {tree : Tree A P} {world later : W} {record child : Node A P} {error : EditError} :
      Reached tree world record → tree.root.addChild child world = (.error error, later) → Reached tree later record
  | removeRejected {tree : Tree A P} {world later : W} {record : Node A P} {index : Nat} {error : EditError} :
      Reached tree world record → tree.root.removeChild index world = (.error error, later) →
      Reached tree later record

variable {tree : Tree A P} {world : W} {record : Node A P}

theorem Reached.held (reached : Reached tree world record) : tree.root.held = record.held := by
  -- Activation and the edits change tree and record alike, and the calls change no context.
  induction reached with
  | start root context world => exact Node.held_activate root context world
  | @call tree world record next _ ih => exact (held_call tree world next).trans ih
  | @restart tree world record context _ ih | @activate tree world record context _ ih =>
    exact (Node.held_activate tree.root context world).trans (Node.held_adopt_congr ih context)
  | replace root _ _ => rfl
  | add _ accepted ih => rw [Node.addChild_ok accepted, Node.held_gain, Node.held_gain, ih]
  | remove _ accepted ih =>
    rw [Node.removeChild_ok accepted, Node.held_lose, Node.held_lose, Node.held_clear, ih]
  | addRejected _ _ ih | removeRejected _ _ ih => exact ih

/-- The nodes of a tree hold the contexts that were handed in with them, or that the activation of their root gave
them. If that leaves all with the context of the tree, then every request is for this context. -/
theorem reached_coherent (reached : Reached tree world record) :
    tree.root.held = record.held ∧ (tree.root.Holds tree.context ↔ record.Holds tree.context) ∧
      (tree.root.Holds tree.context → (∀ next : Call W, tree.callOnly world next = tree.call world next) ∧
        ∀ index, tree.removeOnly world index = tree.root.removeChild index world) := by
  have held := reached.held
  constructor
  · exact held
  constructor
  · exact Node.holds_congr held
  · intro holds
    exact ⟨call_only holds world, remove_only holds world⟩

def walked : Tree Script.Performer Script.Sensor × World :=
  (start patrol 0 World.post).1.call (start patrol 0 World.post).2 .step

def recruit : Node Script.Performer Script.Sensor := Node.fresh "recruit" (.action (.fresh .idle))

def enlisted : Node Script.Performer Script.Sensor := (recruit.activate 0 World.post).1

theorem walked_gains (child : Node Script.Performer Script.Sensor) :
    Reached ⟨walked.1.root.gain child, 0⟩ walked.2 ((patrol.adopt 0).gain child) :=
  .add (.call .step (.start patrol 0 World.post)) (Node.addChild_of_room (by decide +kernel))

/-- The recruit joins the patrol, the guard leaves, and the tree is started again. -/
def relieved : Tree Script.Performer Script.Sensor × World :=
  let (cleared, world) := (walked.1.root.gain enlisted).clear walked.2
  start (cleared.lose 0) 0 world

theorem relieved_coherent : Reached relieved.1 relieved.2 ((((patrol.adopt 0).gain enlisted).lose 0).adopt 0) ∧
    relieved.1.root.Holds 0 ∧
      ∀ next : Call World, relieved.1.callOnly relieved.2 next = relieved.1.call relieved.2 next := by
  have composite : (walked.1.root.gain enlisted).maxChildren ≠ .finite 0 := by decide +kernel
  have inside : 0 < (walked.1.root.gain enlisted).children.length := by decide +kernel
  obtain ⟨removed, accepted⟩ := Node.removeChild_of_lt composite inside walked.2
  have reached : Reached relieved.1 relieved.2 ((((patrol.adopt 0).gain enlisted).lose 0).adopt 0) :=
    .restart 0 (.remove (walked_gains enlisted) accepted)
  have before : (patrol.adopt 0).Holds 0 := Node.adopt_holds_iff.mpr (patrol_built.adoptable 0)
  have recruited : recruit.Built := Node.built_action _ _
  have joined : enlisted.Holds 0 :=
    (Node.holds_congr (Node.held_activate recruit 0 World.post)).mpr (Node.adopt_holds_iff.mpr (recruited.adoptable 0))
  have record := (Node.gain_holds_iff.mpr ⟨before, joined⟩).lose 0
  obtain ⟨_, coherent, only⟩ := reached_coherent reached
  have holds : relieved.1.root.Holds 0 := coherent.mpr (by rwa [record.adopt 0])
  exact ⟨reached, holds, (only holds).1⟩

/-- A recruit that was never activated gets no context by joining the patrol. -/
theorem recruited_incoherent :
    Reached ⟨walked.1.root.gain recruit, 0⟩ walked.2 ((patrol.adopt 0).gain recruit) ∧
      ¬ (walked.1.root.gain recruit).Holds 0 := by
  refine ⟨walked_gains recruit, fun holds => ?_⟩
  -- Joining appends the recruit as it is.
  have joined : recruit.Holds 0 := (Node.gain_holds_iff.mp holds).2
  cases (Node.holds_mk.mp joined).1

/-- A patrol that was started in one context keeps it when it is started in another, which only the tree takes on. -/
theorem restarted_incoherent :
    Reached (start walked.1.root 1 walked.2).1 (start walked.1.root 1 walked.2).2 ((patrol.adopt 0).adopt 1) ∧
      (start walked.1.root 1 walked.2).1.context = 1 ∧
      (start walked.1.root 1 walked.2).1.root.state.context = some 0 := by
  have started : Reached walked.1 walked.2 (patrol.adopt 0) := .call .step (.start patrol 0 World.post)
  exact ⟨.restart 1 started, rfl, by decide +kernel⟩

end Tree

end BehaviorTree
