import BehaviorTree.ChildLimit
import BehaviorTree.Host

/-! The lifecycle of an action: entered once when it starts, executed on every tick, and exited once
when it ends or is cleared while it runs. -/

set_option autoImplicit false

namespace BehaviorTree

inductive ActionStatus where
  | ready
  | running
  deriving Repr, DecidableEq

/-- An action with the stage it is in. -/
structure Lifecycle (A : Type) where
  action : A
  status : ActionStatus
  deriving Repr, DecidableEq

namespace Lifecycle

variable {W A : Type}

def fresh (action : A) : Lifecycle A := ⟨action, .ready⟩

def isRunning (lifecycle : Lifecycle A) : Bool := lifecycle.status == .running

def maxChildren (_ : Lifecycle A) : ChildLimit := .finite 0

def minChildren (_ : Lifecycle A) : Nat := 0

def activeChild (_ : Lifecycle A) : Option Nat := none

section Hooks
variable [Host W] [Action W A] (lifecycle : Lifecycle A) (name : String) (context : ContextId) (world : W)

def activate : Lifecycle A × W :=
  let (action, world) := Action.activate lifecycle.action context world
  (⟨action, lifecycle.status⟩, world)

def check : Bool × Lifecycle A × W :=
  let (answer, action, world) := Action.check lifecycle.action context world
  (answer, ⟨action, lifecycle.status⟩, world)

def start : Lifecycle A × W :=
  match lifecycle.status with
  | .running => (lifecycle, world)
  | .ready =>
    let (action, world) :=
      Action.enter lifecycle.action context (Host.report (some context) name .entered world)
    (⟨action, .running⟩, world)

def finish : Lifecycle A × W :=
  let (action, world) := Action.exit lifecycle.action context world
  (⟨action, .ready⟩, Host.report (some context) name .exited world)

/-- An action that starts is executed in the same tick. -/
def tick : Progress × Lifecycle A × W :=
  let (lifecycle, world) := lifecycle.start name context world
  match Action.execute lifecycle.action context world with
  | (.running, action, world) => (.running, ⟨action, lifecycle.status⟩, world)
  | (.ended, action, world) => (.ended, finish ⟨action, lifecycle.status⟩ name context world)

def clear : Lifecycle A × W :=
  match lifecycle.status with
  | .ready => (lifecycle, world)
  | .running => lifecycle.finish name context world

end Hooks

end Lifecycle

end BehaviorTree
