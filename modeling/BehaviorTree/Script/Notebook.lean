import BehaviorTree.Decimal.Shortest
import BehaviorTree.Script.Action

/-! Steps on the blackboard of a single context. -/

set_option autoImplicit false

namespace BehaviorTree.Script

inductive NoteStep where
  | set (key : String) (seed : Seed)
  | get (key : String) (type : ValueType)
  | has (key : String)
  | parse (key : String) (type : ValueType)
  | isTrue (key : String)
  | flip (key : String)
  | copy (key target : String)
  | remove (key : String)
  | keys
  | display
  deriving Repr

inductive NoteAnswer where
  | nothing
  | bool (answer : Bool)
  | value (value : Value)
  | texts (texts : List String)
  | text (text : String)
  deriving Repr

/-- A value to be shown: a cell is shown by what it holds. -/
def showValue (world : World) : Value → NoteAnswer
  | .cell number => ((world.cell? number).map NoteAnswer.bool).getD .nothing
  | value => .value value

def showOptional (world : World) (value : Option Value) : NoteAnswer :=
  (value.map (showValue world)).getD .nothing

def displayContext (context : ContextId) (world : World) : String :=
  Text.record "Context" [
    ("blackboard", "[" ++ ", ".intercalate ((world.keys context).map Text.quoted) ++ "]"),
    ("now", Decimal.display (world.now context))]

def NoteStep.run (step : NoteStep) (context : ContextId) (world : World) : NoteAnswer × World :=
  match step with
  | .set key seed => (.nothing, store context key seed world)
  | .get key type => (showOptional world ((world.get? context key).bind fun value => value.as? type), world)
  | .has key => (.bool (world.get? context key).isSome, world)
  | .parse key type =>
    (showOptional world ((world.get? context key).bind fun value => value.parsedAs? type), world)
  | .isTrue key => (.bool (world.flag context key), world)
  | .flip key =>
    match world.get? context key with
    | some (.cell number) =>
      let content := !(world.cell? number).getD false
      (.bool content, world.setCell number content)
    | _ => (.nothing, world)
  | .copy key target =>
    match world.get? context key with
    | some value => (.bool true, world.set context target value)
    | none => (.bool false, world)
  | .remove key => (.bool (world.get? context key).isSome, world.remove context key)
  | .keys => (.texts ((world.keys context).mergeSort fun left right => left ≤ right), world)
  | .display => (.text (displayContext context world), world)

def runNotes (context : ContextId) (world : World) : List NoteStep → List NoteAnswer
  | [] => []
  | step :: rest =>
    let (answer, world) := step.run context world
    answer :: runNotes context world rest

def notebook (steps : List NoteStep) : List NoteAnswer :=
  let (clock, world) := World.empty.addClock 0
  let (context, world) := world.addContext clock .recording
  runNotes context world steps

end BehaviorTree.Script
