import BehaviorTree.Cooldown
import BehaviorTree.Node.Clearing

/-! Evaluation decides whether a node may run now: its cooldown first, then its gate, then its
kind. A sequence asks its active child, or its first one while it is idle; a selector takes its
first eligible child. Both clear a child that they abandon. -/

set_option autoImplicit false

namespace BehaviorTree

variable {W A P : Type} [Host W] [Action W A] [Probe W P]

def NodeState.passGate (state : NodeState A P) (context : ContextId) (world : W) :
    Bool × NodeState A P × W :=
  match state.gate with
  | none => (true, state, world)
  | some gate =>
    let (answer, gate, world) := gate.check context world
    (answer, { state with gate := some gate }, world)

/-- Cooldown, then gate. A cooldown that holds the node back asks nothing else. -/
def NodeState.pass (state : NodeState A P) (context : ContextId) (world : W) :
    Bool × NodeState A P × W :=
  let (now, world) := Host.now context world
  if Cooldown.ready state.cooldown state.lastPass now then
    { state with lastPass := some now }.passGate context world
  else (false, state, world)

def Node.switchTo (winner previous : Option Nat) (children : List (Node A P)) (world : W) :
    List (Node A P) × W :=
  match previous with
  | some index => if winner = some index then (children, world) else Node.clearAt index children world
  | none => (children, world)

mutual

def Node.evaluate : Node A P → W → Bool × Node A P × W
  | .mk state children, world =>
    match state.context with
    | none => (false, .mk state children, world)
    | some context =>
      match state.pass context world with
      | (false, state, world) => (false, .mk state children, world)
      | (true, state, world) =>
        match state.kind with
        | .action lifecycle =>
          let (answer, lifecycle, world) := lifecycle.check context world
          (answer, .mk { state with kind := .action lifecycle } children, world)
        | .sequence none =>
          match Node.evaluateHead children world with
          | (some answer, children, world) => (answer, .mk state children, world)
          | (none, children, world) =>
            (false, .mk state children,
              Host.report (some context) state.name (.misuse .emptySequence) world)
        | .sequence (some index) =>
          match Node.evaluateAt index children world with
          | (true, children, world) => (true, .mk state children, world)
          | (false, children, world) =>
            let (children, world) := Node.clearAt index children world
            (false, .mk { state with kind := .sequence none } children, world)
        | .selector previous =>
          if children.isEmpty then
            (false, .mk state children,
              Host.report (some context) state.name (.misuse .emptySelector) world)
          else
            let (winner, children, world) := Node.evaluateFirst children world
            let (children, world) := Node.switchTo winner previous children world
            (winner.isSome, .mk { state with kind := .selector winner } children, world)
        | .inert => (true, .mk state children, world)
        | .relay _ _ =>
          (true, .mk state children, Host.visit (.checked state.name children.length) world)

def Node.evaluateHead : List (Node A P) → W → Option Bool × List (Node A P) × W
  | [], world => (none, [], world)
  | node :: rest, world =>
    let (answer, node, world) := node.evaluate world
    (some answer, node :: rest, world)

/-- The answer of the child at a position. That there is none is a fault, and nothing is eligible. -/
def Node.evaluateAt : Nat → List (Node A P) → W → Bool × List (Node A P) × W
  | _, [], world => (false, [], Host.fault world)
  | 0, node :: rest, world =>
    let (answer, node, world) := node.evaluate world
    (answer, node :: rest, world)
  | index + 1, node :: rest, world =>
    let (answer, rest, world) := Node.evaluateAt index rest world
    (answer, node :: rest, world)

def Node.evaluateFirst : List (Node A P) → W → Option Nat × List (Node A P) × W
  | [], world => (none, [], world)
  | node :: rest, world =>
    match node.evaluate world with
    | (true, node, world) => (some 0, node :: rest, world)
    | (false, node, world) =>
      let (winner, rest, world) := Node.evaluateFirst rest world
      (winner.map (· + 1), node :: rest, world)

end

end BehaviorTree
