import BehaviorTree.Definition.Grammar
import BehaviorTree.Document.Decoding
import BehaviorTree.Node.Outline
import BehaviorTree.Script.Blueprint
import BehaviorTree.Script.Entry
import BehaviorTree.Tree

/-! Sessions: named slots hold nodes and trees, and steps build, load, drive, edit and inspect them.
Every step answers, shows the events that it caused, and shows its slot as it is afterwards. -/

set_option autoImplicit false

namespace BehaviorTree.Script

abbrev ScriptNode := Node Performer Sensor
abbrev ScriptTree := Tree Performer Sensor

inductive Occupant where
  | node (node : ScriptNode)
  | tree (tree : ScriptTree)

namespace Occupant

def root : Occupant → ScriptNode
  | .node root => root
  | .tree started => started.root

def withRoot (occupant : Occupant) (root : ScriptNode) : Occupant :=
  match occupant with
  | .node _ => .node root
  | .tree started => .tree { started with root }

end Occupant

structure ContextPlan where
  start : Float
  sink : Sink
  entries : List (String × Seed)
  deriving Repr

inductive TreeCommand where
  | step
  | clear
  deriving Repr, DecidableEq

inductive Command where
  | build (blueprint : Blueprint)
  | load (text : Option String) (tree : Option String)
  | loadDocument
  | set (context : ContextId) (key : String) (seed : Seed)
  | unset (context : ContextId) (key : String)
  | advance (context : ContextId) (step : Float)
  | setTime (context : ContextId) (time : Float)
  | tree (context : ContextId)
  | treeInOwnContext (entries : List (String × Seed))
  | intoRoot
  | rename (name : String)
  | cooldown (seconds : Float)
  | gate (gate : Gate Sensor)
  | addChild (child : String)
  | removeChild (index : Nat) (target : String)
  | drop
  | onTree (command : TreeCommand)
  | activate (context : ContextId)
  | evaluate
  | tick
  | clear
  | outline
  | display
  | hasContext (context : ContextId)

structure Step where
  slot : String
  command : Command

inductive Refusal where
  | emptySlot
  | notATree (command : TreeCommand)
  | edit (error : EditError)
  | source (error : Source.Malformed)
  | load (error : LoadError)
  | document (error : DocumentError)

inductive Answer where
  | nothing
  | bool (answer : Bool)
  | progress (progress : Progress)
  | time (time : Float)
  | text (text : String)
  | names (names : List String)
  | outline (outline : List Outline)
  | refused (refusal : Refusal)

structure Session where
  world : World
  registry : ScriptRegistry
  source : String
  document : String
  slots : List (String × Occupant)

/-- What a session is set up with. Every context has a clock of its own. -/
structure Setup where
  contexts : List ContextPlan
  entries : List Entry
  source : String
  document : String

def loadText (registry : ScriptRegistry) (text : String) (tree : Option String) (world : World) :
    Except Refusal ScriptNode × World :=
  match Source.ofText text with
  | .error error => (.error (.source error), world)
  | .ok (source, _) =>
    match source.load registry (tree.getD "main") world with
    | (.ok node, world) => (.ok node, world)
    | (.error error, world) => (.error (.load error), world)

def loadDocument (registry : ScriptRegistry) (text : String) (world : World) :
    Except DocumentError (List (String × ScriptNode)) × World :=
  match Document.ofText text with
  | .error error => (.error error, world)
  | .ok document => document.load registry world

def addContexts : List ContextPlan → World → World
  | [], world => world
  | plan :: rest, world =>
    let (clock, world) := world.addClock plan.start
    let (context, world) := world.addContext clock plan.sink
    addContexts rest (storeAll context plan.entries world)

def Setup.session (setup : Setup) : Session where
  world := { addContexts setup.contexts .empty with steered := setup.contexts.length }
  registry := registryOf setup.entries
  source := setup.source
  document := setup.document
  slots := []

def TreeCommand.run (command : TreeCommand) (tree : ScriptTree) (world : World) : Answer × ScriptTree × World :=
  match command with
  | .step =>
    let (progress, tree, world) := tree.step world
    ((progress.map Answer.progress).getD .nothing, tree, world)
  | .clear =>
    let (tree, world) := tree.clear world
    (.nothing, tree, world)

namespace Session

def occupant? (session : Session) (slot : String) : Option Occupant := session.slots.lookup slot

def vacate (session : Session) (slot : String) : Session :=
  { session with slots := session.slots.filter fun entry => entry.1 != slot }

def occupy (session : Session) (slot : String) (occupant : Occupant) : Session :=
  { session with slots := (slot, occupant) :: (session.vacate slot).slots }

def replace (session : Session) (slot : String)
    (change : Occupant → World → Answer × Occupant × World) : Answer × Session :=
  match session.occupant? slot with
  | none => (.refused .emptySlot, session)
  | some occupant =>
    let (answer, occupant, world) := change occupant session.world
    (answer, { session.occupy slot occupant with world })

def inspect (session : Session) (slot : String) (look : ScriptNode → Answer) : Answer × Session :=
  session.replace slot fun occupant world => (look occupant.root, occupant, world)

def onRoot (session : Session) (slot : String)
    (change : ScriptNode → World → Answer × ScriptNode × World) : Answer × Session :=
  session.replace slot fun occupant world =>
    let (answer, root, world) := change occupant.root world
    (answer, occupant.withRoot root, world)

def asNode (session : Session) (slot : String) (change : ScriptNode → ScriptNode) : Answer × Session :=
  session.replace slot fun occupant world => (.nothing, .node (change occupant.root), world)

def onTree (session : Session) (slot : String) (command : TreeCommand) : Answer × Session :=
  session.replace slot fun occupant world =>
    match occupant with
    | .node node => (.refused (.notATree command), .node node, world)
    | .tree tree =>
      let (answer, tree, world) := command.run tree world
      (answer, .tree tree, world)

def changeWorld (session : Session) (change : World → World) : Session :=
  { session with world := change session.world }

/-- Starts a tree in a context. The answer is whether it is in that context. -/
def startTree (session : Session) (slot : String) (context : ContextId) : Answer × Session :=
  session.replace slot fun occupant world =>
    let (tree, world) := Tree.start occupant.root context world
    (.bool (tree.context == context), .tree tree, world)

/-- The child leaves its slot before the parent is looked for, and is gone even if it is rejected. -/
def addChild (session : Session) (slot child : String) : Answer × Session :=
  match session.occupant? child with
  | none => (.refused .emptySlot, session)
  | some occupant =>
    (session.vacate child).onRoot slot fun root world =>
      match root.addChild occupant.root world with
      | (.ok root, world) => (.nothing, root, world)
      | (.error error, world) => (.refused (.edit error), root, world)

def removeChild (session : Session) (slot : String) (index : Nat) (target : String) : Answer × Session :=
  match session.occupant? slot with
  | none => (.refused .emptySlot, session)
  | some occupant =>
    match occupant.root.removeChild index session.world with
    | (.error error, world) => (.refused (.edit error), { session with world })
    | (.ok (child, root), world) =>
      (.outline child.outline,
        { (session.occupy slot (occupant.withRoot root)).occupy target (.node child) with world })

def run (session : Session) (slot : String) : Command → Answer × Session
  | .build blueprint =>
    match blueprint.build session.world with
    | (.ok node, world) => (.nothing, { session.occupy slot (.node node) with world })
    | (.error error, world) => (.refused (.edit error), { session with world })
  | .load text tree =>
    match loadText session.registry (text.getD session.source) tree session.world with
    | (.ok node, world) => (.nothing, { session.occupy slot (.node node) with world })
    | (.error refusal, world) => (.refused refusal, { session with world })
  | .loadDocument =>
    match loadDocument session.registry session.document session.world with
    | (.ok nodes, world) =>
      (.names (nodes.map (·.1)),
        { nodes.foldl (fun session (name, node) => session.occupy name (.node node)) session with world })
    | (.error error, world) => (.refused (.document error), { session with world })
  | .set context key seed => (.nothing, session.changeWorld (store context key seed))
  | .unset context key =>
    (.bool (session.world.get? context key).isSome, session.changeWorld (World.remove context key))
  | .advance context step =>
    let session := session.changeWorld (World.moveClock context fun clock => clock.advance step)
    (.time (session.world.now context), session)
  | .setTime context time =>
    let session := session.changeWorld (World.moveClock context fun clock => clock.set time)
    (.time (session.world.now context), session)
  | .tree context => session.startTree slot context
  | .treeInOwnContext entries =>
    match session.occupant? slot with
    | none => (.refused .emptySlot, session)
    | some _ =>
      let (context, world) := session.world.addContext 0 .recording
      let session := { session with world := storeAll context entries world }
      (.nothing, (session.startTree slot context).2)
  | .intoRoot => session.asNode slot id
  | .rename name => session.asNode slot fun node => node.withName name
  | .cooldown seconds => session.asNode slot fun node => node.withCooldown seconds
  | .gate gate => session.asNode slot fun node => node.withGate (some gate)
  | .addChild child => session.addChild slot child
  | .removeChild index target => session.removeChild slot index target
  | .drop =>
    match session.occupant? slot with
    | none => (.refused .emptySlot, session)
    | some _ => (.nothing, session.vacate slot)
  | .onTree command => session.onTree slot command
  | .activate context =>
    session.onRoot slot fun root world =>
      let (root, world) := root.activate context world
      (.nothing, root, world)
  | .evaluate =>
    session.onRoot slot fun root world =>
      let (answer, root, world) := root.evaluate world
      (.bool answer, root, world)
  | .tick =>
    session.onRoot slot fun root world =>
      let (progress, root, world) := root.tick world
      (.progress progress, root, world)
  | .clear =>
    session.onRoot slot fun root world =>
      let (root, world) := root.clear world
      (.nothing, root, world)
  | .outline => session.inspect slot fun root => .outline root.outline
  | .display => session.inspect slot fun root => .text root.display
  | .hasContext context =>
    session.inspect slot fun root =>
      match root.state.context with
      | none => .nothing
      | some own => .bool (own == context)

end Session

structure StepResult where
  answer : Answer
  events : List Event
  after : Option (List Outline)

def Session.runAll (session : Session) : List Step → List StepResult
  | [] => []
  | step :: rest =>
    let (answer, session) := session.run step.slot step.command
    let (events, world) := session.world.takeLog
    let session := { session with world }
    let after := (session.occupant? step.slot).map fun occupant => occupant.root.outline
    { answer, events, after } :: session.runAll rest

end BehaviorTree.Script
