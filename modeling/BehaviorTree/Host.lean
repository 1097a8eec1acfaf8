import BehaviorTree.Report

/-! The environment a tree runs in. A tree reads a clock and flags of its context, reports to the
context's sink, and calls the hooks of actions and probes, which may change the environment in any
way. Everything that happens is a change of one value of type `W`, so two runs that end in one
environment for every `W` have made the same calls in the same order. -/

set_option autoImplicit false

namespace BehaviorTree

/-- A context by its number. Nodes share a context exactly if they hold the same number. -/
abbrev ContextId := Nat

inductive Progress where
  | running
  | ended
  deriving Repr, DecidableEq

/-- A call of a `relay` node's own hooks, as shown to the host. -/
inductive Visit where
  | activated
  | checked (node : String) (children : Nat)
  | ticked (node : String) (now : Float)
  | cleared (node : String)
  deriving Repr

/-- What a tree asks of its environment. Reading a clock may change the environment: time goes on,
also while a tree is being evaluated. A report of a node without a context goes to the default sink.
A `fault` is the access to a child that does not exist, which nothing can answer. -/
class Host (W : Type) where
  now : ContextId → W → Float × W
  flag : ContextId → String → W → Bool
  report : Option ContextId → String → Report → W → W
  visit : Visit → W → W
  fault : W → W

/-- The work at a leaf. A hook may change the action and the environment. -/
class Action (W A : Type) where
  activate : A → ContextId → W → A × W := fun action _ world => (action, world)
  check : A → ContextId → W → Bool × A × W := fun action _ world => (true, action, world)
  enter : A → ContextId → W → A × W := fun action _ world => (action, world)
  execute : A → ContextId → W → Progress × A × W := fun action _ world => (.running, action, world)
  exit : A → ContextId → W → A × W := fun action _ world => (action, world)

/-- A question put to the environment before a node may run. -/
class Probe (W P : Type) where
  activate : P → ContextId → W → P × W := fun probe _ world => (probe, world)
  check : P → ContextId → W → Bool × P × W

end BehaviorTree
