import BehaviorTree.Host

/-! Gates: boolean combinations of probes, constants and flags. Checking asks the probes from left
to right and stops as soon as the outcome is decided; activation reaches all of them. -/

set_option autoImplicit false

namespace BehaviorTree

inductive Gate (P : Type) where
  | atom (probe : P)
  | constant (answer : Bool)
  | flag (key : String)
  | not (operand : Gate P)
  | and (left right : Gate P)
  | or (left right : Gate P)
  deriving Repr, DecidableEq

namespace Gate

variable {W P : Type}

def activate [Probe W P] : Gate P → ContextId → W → Gate P × W
  | .atom probe, context, world =>
    let (probe, world) := Probe.activate probe context world
    (.atom probe, world)
  | .constant answer, _, world => (.constant answer, world)
  | .flag key, _, world => (.flag key, world)
  | .not operand, context, world =>
    let (operand, world) := operand.activate context world
    (.not operand, world)
  | .and left right, context, world =>
    let (left, world) := left.activate context world
    let (right, world) := right.activate context world
    (.and left right, world)
  | .or left right, context, world =>
    let (left, world) := left.activate context world
    let (right, world) := right.activate context world
    (.or left right, world)

def check [Host W] [Probe W P] : Gate P → ContextId → W → Bool × Gate P × W
  | .atom probe, context, world =>
    let (answer, probe, world) := Probe.check probe context world
    (answer, .atom probe, world)
  | .constant answer, _, world => (answer, .constant answer, world)
  | .flag key, context, world => (Host.flag context key world, .flag key, world)
  | .not operand, context, world =>
    let (answer, operand, world) := operand.check context world
    (!answer, .not operand, world)
  | .and left right, context, world =>
    match left.check context world with
    | (true, left, world) =>
      let (answer, right, world) := right.check context world
      (answer, .and left right, world)
    | (false, left, world) => (false, .and left right, world)
  | .or left right, context, world =>
    match left.check context world with
    | (true, left, world) => (true, .or left right, world)
    | (false, left, world) =>
      let (answer, right, world) := right.check context world
      (answer, .or left right, world)

def both : Option (Gate P) → Option (Gate P) → Option (Gate P)
  | some first, some second => some (.and first second)
  | some first, none => some first
  | none, second => second

end Gate

end BehaviorTree
