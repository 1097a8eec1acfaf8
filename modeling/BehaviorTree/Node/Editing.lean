import BehaviorTree.Node.Clearing

/-! Adding and removing children. A node that loses a child is cleared first, so no position it
remembers outlives the child. A rejected edit is reported and changes nothing else. -/

set_option autoImplicit false

namespace BehaviorTree

variable {W A P : Type} [Host W] [Action W A] [Probe W P]

/-- Reports a rejected edit to the context's sink, or to the default one before activation. -/
def Node.reject {α : Type} (node : Node A P) (error : EditError) (world : W) : Except EditError α × W :=
  (.error error, Host.report node.state.context node.name (.rejected error) world)

def Node.addChild (node child : Node A P) (world : W) : Except EditError (Node A P) × W :=
  if (ChildLimit.finite node.children.length).lt node.maxChildren then
    (.ok (.mk node.state (node.children ++ [child])), world)
  else if node.maxChildren = .finite 0 then node.reject (.addToLeaf node.name) world
  else node.reject (.addToFull node.name) world

/-- Adds children in order and stops at the first that is rejected. -/
def Node.addChildren (node : Node A P) : List (Node A P) → W → Except EditError (Node A P) × W
  | [], world => (.ok node, world)
  | child :: rest, world =>
    match node.addChild child world with
    | (.ok node, world) => node.addChildren rest world
    | (.error error, world) => (.error error, world)

def Node.removeChild (node : Node A P) (index : Nat) (world : W) :
    Except EditError (Node A P × Node A P) × W :=
  if node.maxChildren = .finite 0 then node.reject (.removeFromLeaf node.name) world
  else
    let (cleared, after) := node.clear world
    match cleared.children[index]? with
    | some child => (.ok (child, .mk cleared.state (cleared.children.eraseIdx index)), after)
    | none => node.reject (.removeOutOfRange node.name index node.children.length) world

end BehaviorTree
