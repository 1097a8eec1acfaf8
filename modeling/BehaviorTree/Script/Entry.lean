import BehaviorTree.Registry
import BehaviorTree.Script.Action

/-! Registries given as lists of entries. A planned action is labelled with its entry's name and a
count of the actions that this entry has made. -/

set_option autoImplicit false

namespace BehaviorTree.Script

inductive ArgumentRule where
  | any
  | required
  | forbidden
  | nonempty
  deriving Repr, DecidableEq

def ArgumentRule.accepts : ArgumentRule → Option String → Bool
  | .any, _ => true
  | .required, argument => argument.isSome
  | .forbidden, argument => argument.isNone
  | .nonempty, argument => argument.any fun text => !text.isEmpty

inductive EntryKind where
  | planned (plan : Plan)
  | callback (plan : Plan)
  | idle
  | sequence
  | selector
  | inert
  | relay (most : ChildLimit) (least : Nat)
  | flagGate
  | constantGate (answer : Bool)
  | sensorGate (rule : ArgumentRule) (answers : List Bool)
  deriving Repr

structure Entry where
  name : String
  kind : EntryKind
  deriving Repr

abbrev ScriptRegistry := Registry World Performer Sensor

def buildLabel (number : Nat) (name : String) (world : World) : String × World :=
  let (count, world) := world.countBuilt number
  let label := name ++ "#" ++ toString count
  (label, world.write (.built label))

def buildAction (number : Nat) (name : String) (performer : String → Performer) (world : World) :
    Kind Performer × World :=
  let (label, world) := buildLabel number name world
  (.action (Lifecycle.fresh (performer label)), world)

def buildSensor (name : String) (rule : ArgumentRule) (answers : List Bool) (argument : Option String)
    (world : World) : Option (Gate Sensor) × World :=
  let accepted := rule.accepts argument
  let label := match argument with
    | some text => name ++ "(" ++ text ++ ")"
    | none => name
  (if accepted then some (.atom { label, answers, announced := true, asked := 0 }) else none,
    world.write (.gateBuilt name argument accepted))

/-- Registers one entry; its number keeps its count apart from those of other entries. -/
def Entry.register (entry : Entry) (number : Nat) (registry : ScriptRegistry) : ScriptRegistry :=
  let kind (construct : World → Kind Performer × World) := registry.registerKind entry.name construct
  let gate (construct : Option String → World → Option (Gate Sensor) × World) :=
    registry.registerGate entry.name construct
  match entry.kind with
  | .planned plan =>
    kind (buildAction number entry.name fun label => .planned { plan with label } Tally.start)
  | .callback plan =>
    kind (buildAction number entry.name fun label => .callback { plan with label } Tally.start)
  | .idle => kind fun world => (.action (Lifecycle.fresh .idle), world)
  | .sequence => kind fun world => (.sequence none, world)
  | .selector => kind fun world => (.selector none, world)
  | .inert => kind fun world => (.inert, world)
  | .relay most least => kind fun world => (.relay most least, world)
  | .flagGate => gate fun argument world => (argument.map Gate.flag, world)
  | .constantGate answer => gate fun _ world => (some (.constant answer), world)
  | .sensorGate rule answers => gate (buildSensor entry.name rule answers)

def registryOf (entries : List Entry) : ScriptRegistry :=
  entries.zipIdx.foldl (fun registry (entry, number) => entry.register number registry)
    Registry.standard

end BehaviorTree.Script
