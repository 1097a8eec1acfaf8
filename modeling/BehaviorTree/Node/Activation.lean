import BehaviorTree.Node

/-! Activation hands a context to a node's gate, then to its children depth first, then to its own
kind. Only the first activation of a node has an effect. -/

set_option autoImplicit false

namespace BehaviorTree

variable {W A P : Type} [Host W] [Action W A] [Probe W P]

def Kind.activate (kind : Kind A) (context : ContextId) (world : W) : Kind A × W :=
  match kind with
  | .action lifecycle =>
    let (lifecycle, world) := lifecycle.activate context world
    (.action lifecycle, world)
  | .relay most least => (.relay most least, Host.visit .activated world)
  | kind => (kind, world)

def NodeState.activateGate (state : NodeState A P) (context : ContextId) (world : W) :
    NodeState A P × W :=
  match state.gate with
  | none => (state, world)
  | some gate =>
    let (gate, world) := gate.activate context world
    ({ state with gate := some gate }, world)

mutual

def Node.activate : Node A P → ContextId → W → Node A P × W
  | .mk state children, context, world =>
    match state.context with
    | some _ => (.mk state children, world)
    | none =>
      let (state, world) := state.activateGate context world
      let (children, world) := Node.activateAll children context world
      let (kind, world) := state.kind.activate context world
      (.mk { state with kind, context := some context } children, world)

def Node.activateAll : List (Node A P) → ContextId → W → List (Node A P) × W
  | [], _, world => ([], world)
  | node :: rest, context, world =>
    let (node, world) := node.activate context world
    let (rest, world) := Node.activateAll rest context world
    (node :: rest, world)

end

end BehaviorTree
