import BehaviorTree.Node

/-! Clearing releases the run state of a node and of the descendants that may hold some: a running
action exits, a sequence clears all its children, a selector only its active one. -/

set_option autoImplicit false

namespace BehaviorTree

variable {W A P : Type} [Host W] [Action W A] [Probe W P]

mutual

def Node.clear : Node A P → W → Node A P × W
  | .mk state children, world =>
    match state.context with
    | none => (.mk state children, world)
    | some context =>
      match state.kind with
      | .action lifecycle =>
        let (lifecycle, world) := lifecycle.clear state.name context world
        (.mk { state with kind := .action lifecycle } children, world)
      | .sequence _ =>
        let (children, world) := Node.clearAll children world
        (.mk { state with kind := .sequence none } children, world)
      | .selector none => (.mk state children, world)
      | .selector (some index) =>
        let (children, world) := Node.clearAt index children world
        (.mk { state with kind := .selector none } children, world)
      | .inert => (.mk state children, world)
      | .relay _ _ =>
        let (children, world) := Node.clearAll children (Host.visit (.cleared state.name) world)
        (.mk state children, world)

def Node.clearAll : List (Node A P) → W → List (Node A P) × W
  | [], world => ([], world)
  | node :: rest, world =>
    let (node, world) := node.clear world
    let (rest, world) := Node.clearAll rest world
    (node :: rest, world)

def Node.clearAt : Nat → List (Node A P) → W → List (Node A P) × W
  | _, [], world => ([], Host.fault world)
  | 0, node :: rest, world =>
    let (node, world) := node.clear world
    (node :: rest, world)
  | index + 1, node :: rest, world =>
    let (rest, world) := Node.clearAt index rest world
    (node :: rest, world)

end

end BehaviorTree
