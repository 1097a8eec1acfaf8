import BehaviorTree.Node.Clearing

/-! Ticking runs an eligible node for one step. A sequence moves on when its child ends, and the
next child starts on the following tick; a selector ticks the child it has chosen. -/

set_option autoImplicit false

namespace BehaviorTree

variable {W A P : Type} [Host W] [Action W A] [Probe W P]

mutual

def Node.tick : Node A P → W → Progress × Node A P × W
  | .mk state children, world =>
    match state.context with
    | none =>
      (.ended, .mk state children,
        Host.report none state.name (.misuse .tickedBeforeActivation) world)
    | some context =>
      match state.kind with
      | .action lifecycle =>
        let (progress, lifecycle, world) := lifecycle.tick state.name context world
        (progress, .mk { state with kind := .action lifecycle } children, world)
      | .sequence active =>
        if children.isEmpty then
          (.ended, .mk state children,
            Host.report (some context) state.name (.misuse .emptySequence) world)
        else
          let index := active.getD 0
          match Node.tickAt index children world with
          | (.running, children, world) =>
            (.running, .mk { state with kind := .sequence (some index) } children, world)
          | (.ended, children, world) =>
            let (children, world) := Node.clearAt index children world
            if index + 1 < children.length then
              (.running, .mk { state with kind := .sequence (some (index + 1)) } children, world)
            else (.ended, .mk { state with kind := .sequence none } children, world)
      | .selector none =>
        if children.isEmpty then
          (.ended, .mk state children,
            Host.report (some context) state.name (.misuse .emptySelector) world)
        else (.ended, .mk state children, world)
      | .selector (some index) =>
        match Node.tickAt index children world with
        | (.running, children, world) => (.running, .mk state children, world)
        | (.ended, children, world) =>
          let (children, world) := Node.clearAt index children world
          (.ended, .mk { state with kind := .selector none } children, world)
      | .inert => (.ended, .mk state children, world)
      | .relay _ _ =>
        let (now, world) := Host.now context world
        let world := Host.visit (.ticked state.name now) world
        let (progress, children, world) := Node.tickAll children world
        (progress, .mk state children, world)

def Node.tickAt : Nat → List (Node A P) → W → Progress × List (Node A P) × W
  | _, [], world => (.ended, [], Host.fault world)
  | 0, node :: rest, world =>
    let (progress, node, world) := node.tick world
    (progress, node :: rest, world)
  | index + 1, node :: rest, world =>
    let (progress, rest, world) := Node.tickAt index rest world
    (progress, node :: rest, world)

/-- Ticks every child in order. The whole runs if any of them does. -/
def Node.tickAll : List (Node A P) → W → Progress × List (Node A P) × W
  | [], world => (.ended, [], world)
  | node :: rest, world =>
    let (first, node, world) := node.tick world
    let (others, rest, world) := Node.tickAll rest world
    (if first = .running then .running else others, node :: rest, world)

end

end BehaviorTree
