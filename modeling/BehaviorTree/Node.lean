import BehaviorTree.Gate
import BehaviorTree.Lifecycle

/-! Nodes. A node is its own state and a list of children. An action is a leaf; a sequence and a
selector remember which child is active; an inert node does nothing, and a relay passes every call
on to all of its children and shows it to the host. -/

set_option autoImplicit false

namespace BehaviorTree

inductive Kind (A : Type) where
  | action (lifecycle : Lifecycle A)
  | sequence (active : Option Nat)
  | selector (active : Option Nat)
  | inert
  | relay (most : ChildLimit) (least : Nat)
  deriving Repr, DecidableEq

namespace Kind

variable {A : Type}

def maxChildren : Kind A → ChildLimit
  | .action lifecycle => lifecycle.maxChildren
  | .relay most _ => most
  | _ => .infinite

def minChildren : Kind A → Nat
  | .action lifecycle => lifecycle.minChildren
  | .sequence _ => 1
  | .selector _ => 1
  | .inert => 0
  | .relay _ least => least

/-- Whether the node holds run state that clearing would release. -/
def isRunning : Kind A → Bool
  | .action lifecycle => lifecycle.isRunning
  | .sequence active => active.isSome
  | .selector active => active.isSome
  | _ => false

def activeChild : Kind A → Option Nat
  | .action lifecycle => lifecycle.activeChild
  | .sequence active => active
  | .selector active => active
  | _ => none

end Kind

/-- Everything of a node but its children. A node is activated when it holds a context. -/
structure NodeState (A P : Type) where
  name : String
  kind : Kind A
  gate : Option (Gate P)
  cooldown : Float
  lastPass : Option Float
  context : Option ContextId

inductive Node (A P : Type) where
  | mk (state : NodeState A P) (children : List (Node A P))

namespace Node

variable {A P : Type}

def state : Node A P → NodeState A P
  | .mk state _ => state

def children : Node A P → List (Node A P)
  | .mk _ children => children

def fresh (name : String) (kind : Kind A) : Node A P :=
  .mk { name, kind, gate := none, cooldown := 0, lastPass := none, context := none } []

def name (node : Node A P) : String := node.state.name

def isActivated (node : Node A P) : Bool := node.state.context.isSome

def isRunning (node : Node A P) : Bool := node.state.kind.isRunning

def activeChild (node : Node A P) : Option Nat := node.state.kind.activeChild

def maxChildren (node : Node A P) : ChildLimit := node.state.kind.maxChildren

def minChildren (node : Node A P) : Nat := node.state.kind.minChildren

def withState (node : Node A P) (change : NodeState A P → NodeState A P) : Node A P :=
  .mk (change node.state) node.children

def withName (node : Node A P) (name : String) : Node A P :=
  node.withState fun state => { state with name }

def withCooldown (node : Node A P) (seconds : Float) : Node A P :=
  node.withState fun state => { state with cooldown := seconds }

/-- Replaces the gate without activating the new one. -/
def withGate (node : Node A P) (gate : Option (Gate P)) : Node A P :=
  node.withState fun state => { state with gate }

end Node

end BehaviorTree
