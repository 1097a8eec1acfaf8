import BehaviorTree.Node.Editing
import BehaviorTree.Script.Action

/-! Nodes described as data and built without a registry. -/

set_option autoImplicit false

namespace BehaviorTree.Script

structure Blueprint where
  name : String
  kind : Kind Performer
  gate : Option (Gate Sensor)
  cooldown : Option Float
  children : List Blueprint

mutual

/-- All children are built before the first is added. -/
def Blueprint.build : Blueprint → World → Except EditError (Node Performer Sensor) × World
  | ⟨name, kind, gate, cooldown, children⟩, world =>
    let bare := (Node.fresh name kind).withGate gate
    let node := (cooldown.map bare.withCooldown).getD bare
    match Blueprint.buildAll children world with
    | (.ok children, world) => node.addChildren children world
    | (.error error, world) => (.error error, world)

def Blueprint.buildAll :
    List Blueprint → World → Except EditError (List (Node Performer Sensor)) × World
  | [], world => (.ok [], world)
  | blueprint :: rest, world =>
    match blueprint.build world with
    | (.error error, world) => (.error error, world)
    | (.ok node, world) =>
      match Blueprint.buildAll rest world with
      | (.ok nodes, world) => (.ok (node :: nodes), world)
      | (.error error, world) => (.error error, world)

end

end BehaviorTree.Script
