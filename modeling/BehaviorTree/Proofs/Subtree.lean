import BehaviorTree.Node

/-! The nodes of a tree: as a list in preorder, by their position, and as the places where a property
can hold everywhere. A position lists the indices that lead from the root to a node. -/

set_option autoImplicit false

namespace BehaviorTree

abbrev Position := List Nat

namespace Node

variable {A B P Q : Type}

@[simp] theorem state_mk (state : NodeState A P) (children : List (Node A P)) :
    (mk state children).state = state := rfl

@[simp] theorem children_mk (state : NodeState A P) (children : List (Node A P)) :
    (mk state children).children = children := rfl

theorem mk_eta (node : Node A P) : mk node.state node.children = node := by
  cases node
  rfl

@[elab_as_elim, induction_eliminator]
theorem induction {motive : Node A P → Prop}
    (mk : ∀ state children, (∀ child ∈ children, motive child) → motive (.mk state children))
    (node : Node A P) : motive node :=
  @Node.rec A P motive (fun children => ∀ child ∈ children, motive child) mk
    (fun _ member => nomatch member)
    (fun _ _ first rest child member => by
      rcases List.mem_cons.mp member with same | member
      · exact same ▸ first
      · exact rest child member)
    node

mutual

def subtrees : Node A P → List (Node A P)
  | .mk state children => .mk state children :: subtreesAll children

def subtreesAll : List (Node A P) → List (Node A P)
  | [] => []
  | node :: rest => node.subtrees ++ subtreesAll rest

end

theorem subtreesAll_eq (children : List (Node A P)) : subtreesAll children = children.flatMap subtrees := by
  induction children with
  | nil => rfl
  | cons child rest ih => simp only [subtreesAll, ih, List.flatMap_cons]

theorem subtrees_mk (state : NodeState A P) (children : List (Node A P)) :
    (mk state children).subtrees = mk state children :: children.flatMap subtrees := by
  rw [subtrees, subtreesAll_eq]

/-- The property holds of the node and of every node below it. -/
def Everywhere (p : Node A P → Prop) (node : Node A P) : Prop := ∀ other ∈ node.subtrees, p other

instance (p : Node A P → Prop) [DecidablePred p] (node : Node A P) : Decidable (node.Everywhere p) :=
  inferInstanceAs (Decidable (∀ other ∈ node.subtrees, p other))

theorem everywhere_mk {p : Node A P → Prop} {state : NodeState A P} {children : List (Node A P)} :
    (mk state children).Everywhere p ↔ p (mk state children) ∧ ∀ child ∈ children, child.Everywhere p := by
  simp only [Everywhere, subtrees_mk, List.forall_mem_cons, List.forall_mem_flatMap]

theorem Everywhere.here {p : Node A P → Prop} {node : Node A P} (holds : node.Everywhere p) : p node := by
  cases node
  exact (everywhere_mk.mp holds).1

theorem Everywhere.mono {p q : Node A P → Prop} {node : Node A P} (holds : node.Everywhere p)
    (weaker : ∀ other, p other → q other) : node.Everywhere q :=
  fun other member => weaker other (holds other member)

/-- The node at a position, if the tree reaches that far. -/
def at? : Node A P → Position → Option (Node A P)
  | node, [] => some node
  | node, index :: rest => (node.children[index]?).bind fun child => child.at? rest

theorem at?_cons_eq_some {node found : Node A P} {index : Nat} {rest : Position} :
    node.at? (index :: rest) = some found ↔
      ∃ child, node.children[index]? = some child ∧ child.at? rest = some found := by
  simp only [at?, Option.bind_eq_some_iff]

theorem mem_subtrees_of_at? {position : Position} {node found : Node A P}
    (reached : node.at? position = some found) : found ∈ node.subtrees := by
  induction position generalizing node with
  | nil =>
    cases node
    cases reached
    rw [subtrees_mk]
    exact List.mem_cons_self
  | cons index rest ih =>
    obtain ⟨child, selected, below⟩ := at?_cons_eq_some.mp reached
    cases node
    rw [subtrees_mk]
    exact List.mem_cons_of_mem _ (List.mem_flatMap.mpr ⟨child, List.mem_of_getElem? selected, ih below⟩)

theorem Everywhere.at? {p : Node A P → Prop} {position : Position} {node found : Node A P}
    (holds : node.Everywhere p) (reached : node.at? position = some found) : p found :=
  holds found (mem_subtrees_of_at? reached)

theorem Everywhere.below {p : Node A P → Prop} {position : Position} {node found : Node A P}
    (holds : node.Everywhere p) (reached : node.at? position = some found) : found.Everywhere p := by
  induction position generalizing node with
  | nil =>
    cases reached
    exact holds
  | cons index rest ih =>
    obtain ⟨child, selected, onward⟩ := at?_cons_eq_some.mp reached
    cases node with
    | mk state children =>
      obtain ⟨_, each⟩ := everywhere_mk.mp holds
      exact ih (each child (List.mem_of_getElem? selected)) onward

mutual

def map (change : NodeState A P → NodeState B Q) : Node A P → Node B Q
  | .mk state children => .mk (change state) (mapAll change children)

def mapAll (change : NodeState A P → NodeState B Q) : List (Node A P) → List (Node B Q)
  | [] => []
  | node :: rest => node.map change :: mapAll change rest

end

theorem mapAll_eq (change : NodeState A P → NodeState B Q) (children : List (Node A P)) :
    mapAll change children = children.map (map change) := by
  induction children with
  | nil => rfl
  | cons child rest ih => simp only [mapAll, ih, List.map_cons]

@[simp] theorem map_mk (change : NodeState A P → NodeState B Q) (state : NodeState A P)
    (children : List (Node A P)) :
    (mk state children).map change = mk (change state) (children.map (map change)) := by
  rw [map, mapAll_eq]

theorem at?_map (change : NodeState A P → NodeState B Q) (node : Node A P) (position : Position) :
    (node.map change).at? position = (node.at? position).map (map change) := by
  induction position generalizing node with
  | nil => rfl
  | cons index rest ih =>
    cases node with
    | mk state children =>
      simp only [map_mk, Node.at?, children_mk, List.getElem?_map]
      cases children[index]? with
      | none => rfl
      | some child => exact ih child

theorem everywhere_map {p : Node B Q → Prop} {change : NodeState A P → NodeState B Q} {node : Node A P} :
    (node.map change).Everywhere p ↔ node.Everywhere fun other => p (other.map change) := by
  induction node with
  | mk state children ih =>
    rw [map_mk, everywhere_mk, everywhere_mk, map_mk, List.forall_mem_map]
    exact and_congr_right' (forall₂_congr ih)

end Node

end BehaviorTree
