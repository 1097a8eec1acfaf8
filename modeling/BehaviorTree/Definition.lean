import BehaviorTree.Condition

/-! Tree definitions, before any node exists. A definition names a registered node type or another
tree, and may label it, gate it, set its cooldown and list its children. -/

set_option autoImplicit false

namespace BehaviorTree

structure Definition where
  type : String
  label : Option String
  when : Option Condition
  cooldown : Option Float
  children : List Definition
  deriving Repr

structure TreeDefinition where
  name : String
  root : Definition
  deriving Repr

/-- Trees in the order in which they are defined; of two with one name the first counts. -/
structure Source where
  trees : List TreeDefinition
  deriving Repr

def Source.find? (source : Source) (name : String) : Option TreeDefinition :=
  source.trees.find? fun tree => tree.name == name

mutual

def Definition.preorder : Definition → List Definition
  | ⟨type, label, when, cooldown, children⟩ =>
    ⟨type, label, when, cooldown, children⟩ :: Definition.preorderAll children

def Definition.preorderAll : List Definition → List Definition
  | [] => []
  | definition :: rest => definition.preorder ++ Definition.preorderAll rest

end

namespace Definition

theorem preorderAll_eq (children : List Definition) : preorderAll children = children.flatMap preorder := by
  induction children with
  | nil => rfl
  | cons child rest ih => simp only [preorderAll, ih, List.flatMap_cons]

theorem mem_preorder {definition other : Definition} :
    other ∈ definition.preorder ↔ other = definition ∨ ∃ child ∈ definition.children, other ∈ child.preorder := by
  cases definition
  rw [preorder, preorderAll_eq, List.mem_cons, List.mem_flatMap]

theorem mem_preorder_self (definition : Definition) : definition ∈ definition.preorder :=
  mem_preorder.mpr (.inl rfl)

@[elab_as_elim]
theorem induction {motive : Definition → Prop}
    (mk : ∀ definition, (∀ child ∈ definition.children, motive child) → motive definition)
    (definition : Definition) : motive definition :=
  mk definition fun child _ => induction mk child
termination_by sizeOf definition
decreasing_by
  cases definition
  rename_i member
  have smaller := List.sizeOf_lt_of_mem member
  simp only [Definition.mk.sizeOf_spec] at smaller ⊢
  omega

theorem mem_preorder_of_child {root definition child : Definition} (inside : definition ∈ root.preorder)
    (member : child ∈ definition.children) : child ∈ root.preorder := by
  induction root using induction with
  | mk root ih =>
    rw [mem_preorder] at inside ⊢
    rcases inside with rfl | ⟨other, found, below⟩
    · exact .inr ⟨child, member, mem_preorder_self child⟩
    · exact .inr ⟨other, found, ih other found below⟩

end Definition

end BehaviorTree
