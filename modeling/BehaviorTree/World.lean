import BehaviorTree.Blackboard
import BehaviorTree.Clock
import BehaviorTree.Host
import BehaviorTree.Value

/-! An environment that writes down everything that happens. Contexts have a blackboard each, may
share a clock, and send reports to a sink of one of three sorts. -/

set_option autoImplicit false

namespace BehaviorTree

inductive Hook where
  | activate
  | check
  | enter
  | execute
  | exit
  deriving Repr, DecidableEq

inductive Severity where
  | error
  | warning
  | debug
  deriving Repr, DecidableEq

structure Trace where
  severity : Severity
  message : String
  node : String
  error : Option String
  deriving Repr, DecidableEq

def Report.trace (report : Report) (node : String) : Trace :=
  match report with
  | .entered => ⟨.debug, "enter", node, none⟩
  | .exited => ⟨.debug, "exit", node, none⟩
  | .misuse cause => ⟨.warning, cause.message, node, none⟩
  | .rejected error => ⟨.error, "behavior tree usage error", node, some error.message⟩

inductive Event where
  | hook (hook : Hook) (label : String)
  | built (label : String)
  | time (now : Float)
  | gateActivated (label : String)
  | gateChecked (label : String)
  | gateBuilt (name : String) (argument : Option String) (accepted : Bool)
  | visit (visit : Visit)
  | report (node : String) (report : Report)
  | trace (trace : Trace)
  deriving Repr

inductive Sink where
  | recording
  | silent
  | tracing
  deriving Repr, DecidableEq

structure Context where
  blackboard : Blackboard Value
  clock : Nat
  sink : Sink
  deriving Repr

/-- `cells` holds the content of every shared flag; `built` holds one entry for each construction,
the number of what was constructed. Only the first `steered` contexts have a clock that hooks can
move. -/
structure World where
  symbols : SymbolTable
  contexts : List Context
  clocks : List Clock
  cells : List Bool
  built : List Nat
  steered : Nat
  log : List Event
  deriving Repr

namespace World

def empty : World :=
  { symbols := .empty, contexts := [], clocks := [], cells := [], built := [], steered := 0, log := [] }

def write (world : World) (event : Event) : World := { world with log := world.log ++ [event] }

def takeLog (world : World) : List Event × World := (world.log, { world with log := [] })

def addClock (world : World) (start : Float) : Nat × World :=
  (world.clocks.length, { world with clocks := world.clocks ++ [⟨start⟩] })

def addContext (world : World) (clock : Nat) (sink : Sink) : ContextId × World :=
  (world.contexts.length,
    { world with contexts := world.contexts ++ [{ blackboard := .empty, clock, sink }] })

def addCell (world : World) (content : Bool) : Value × World :=
  (.cell world.cells.length, { world with cells := world.cells ++ [content] })

def now (context : ContextId) (world : World) : Float :=
  match world.contexts[context]? with
  | none => 0
  | some found => (world.clocks[found.clock]?.map Clock.now).getD 0

def moveClock (context : ContextId) (move : Clock → Clock) (world : World) : World :=
  match world.contexts[context]? with
  | none => world
  | some found => { world with clocks := world.clocks.modify found.clock move }

def get? (context : ContextId) (key : String) (world : World) : Option Value := do
  let found ← world.contexts[context]?
  found.blackboard.get? (world.symbols.intern key).1

def changeBlackboard (context : ContextId) (key : String)
    (change : Blackboard Value → Symbol → Blackboard Value) (world : World) : World :=
  let (symbol, symbols) := world.symbols.intern key
  { world with
    symbols
    contexts := world.contexts.modify context fun found =>
      { found with blackboard := change found.blackboard symbol } }

def set (context : ContextId) (key : String) (value : Value) (world : World) : World :=
  world.changeBlackboard context key fun board symbol => board.set symbol value

def remove (context : ContextId) (key : String) (world : World) : World :=
  world.changeBlackboard context key Blackboard.remove

def keys (context : ContextId) (world : World) : List String :=
  match world.contexts[context]? with
  | none => []
  | some found => found.blackboard.keys.map Symbol.text

def cell? (number : Nat) (world : World) : Option Bool := world.cells[number]?

def setCell (number : Nat) (content : Bool) (world : World) : World :=
  { world with cells := world.cells.set number content }

/-- A flag is a shared cell, a truth value, or a text that reads as one; anything else is false. -/
def flag (context : ContextId) (key : String) (world : World) : Bool :=
  match world.get? context key with
  | some (.cell number) => (world.cell? number).getD false
  | some value =>
    match value.parsedAs? .bool with
    | some (.bool answer) => answer
    | _ => false
  | none => false

def report (context : Option ContextId) (node : String) (report : Report) (world : World) : World :=
  match context.bind fun context => world.contexts[context]?.map Context.sink with
  | some .recording => world.write (.report node report)
  | some .silent => world
  | some .tracing => world.write (.trace (report.trace node))
  | none => world.write (.trace (report.trace node))

/-- Writes down one more construction and answers how many of the same number there were before. -/
def countBuilt (number : Nat) (world : World) : Nat × World :=
  (world.built.count number, { world with built := number :: world.built })

/-- No clock moves by being read. A tree that is only built by its own operations has no fault. -/
instance : Host World where
  now context world := (world.now context, world)
  flag := flag
  report := report
  visit visit world := world.write (.visit visit)
  fault world := world

end World

end BehaviorTree
