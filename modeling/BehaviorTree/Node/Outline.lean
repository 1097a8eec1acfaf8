import BehaviorTree.Decimal.Shortest
import BehaviorTree.Node

/-! What can be seen of a node from outside: a list of its subtree in preorder, and a text. -/

set_option autoImplicit false

namespace BehaviorTree

structure Outline where
  name : String
  cooldown : Float
  activated : Bool
  running : Bool
  active : Option Nat
  children : Nat
  deriving Repr

namespace Node

variable {A P : Type}

def headline (node : Node A P) : Outline :=
  { name := node.name
    cooldown := node.state.cooldown
    activated := node.isActivated
    running := node.isRunning
    active := node.activeChild
    children := node.children.length }

mutual

def outline : Node A P → List Outline
  | .mk state children => headline (.mk state children) :: outlineAll children

def outlineAll : List (Node A P) → List Outline
  | [] => []
  | node :: rest => node.outline ++ outlineAll rest

end

def displayBool (b : Bool) : String := if b then "true" else "false"

mutual

def display : Node A P → String
  | .mk state children =>
    Text.record "Node" [
      ("name", Text.quoted state.name),
      ("children", "[" ++ ", ".intercalate (displayAll children) ++ "]"),
      ("cooldown", Decimal.display state.cooldown),
      ("activated", displayBool state.context.isSome),
      ("running", displayBool state.kind.isRunning)]

def displayAll : List (Node A P) → List String
  | [] => []
  | node :: rest => node.display :: displayAll rest

end

end Node

end BehaviorTree
