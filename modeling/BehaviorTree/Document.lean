import BehaviorTree.Condition.Grammar
import BehaviorTree.Loading

/-! Trees given as a document: a mapping from names to nodes, whose conditions are still texts. All
conditions of all trees are read before any tree is loaded, so a malformed one anywhere is reported
before a tree that cannot be loaded. -/

set_option autoImplicit false

namespace BehaviorTree

structure DocumentNode where
  type : String
  name : Option String
  when : Option String
  cooldown : Option Float
  children : List DocumentNode
  deriving Repr

/-- Trees by name, in ascending order of the names. -/
structure Document where
  trees : List (String × DocumentNode)
  deriving Repr

def Document.insert (name : String) (root : DocumentNode) : List (String × DocumentNode) → List (String × DocumentNode)
  | [] => [(name, root)]
  | (other, tree) :: rest =>
    if name < other then (name, root) :: (other, tree) :: rest
    else if name = other then (name, root) :: rest
    else (other, tree) :: insert name root rest

inductive DocumentError where
  | malformed
  | missing
  | condition (node : String) (text : String)
  | load (error : LoadError)
  deriving Repr, DecidableEq

def DocumentError.message : DocumentError → String
  | .malformed => ""
  | .missing => "document has no `behavior_tree` mapping"
  | .condition node text => "invalid condition " ++ Text.quoted text ++ " on " ++ Text.quoted node
  | .load error => error.message

namespace DocumentNode

def readWhen (type : String) : Option String → Except DocumentError (Option Condition)
  | none => .ok none
  | some text =>
    match Condition.ofText? text with
    | some condition => .ok (some condition)
    | none => .error (.condition type text)

mutual

/-- The condition of a node is read before those of its children. -/
def toDefinition : DocumentNode → Except DocumentError Definition
  | ⟨type, name, text, cooldown, children⟩ => do
    let when ← readWhen type text
    let children ← toDefinitions children
    pure { type, label := name, when, cooldown, children }

def toDefinitions : List DocumentNode → Except DocumentError (List Definition)
  | [] => pure []
  | node :: rest => do
    let definition ← node.toDefinition
    let definitions ← toDefinitions rest
    pure (definition :: definitions)

end

end DocumentNode

namespace Document

def toTrees : List (String × DocumentNode) → Except DocumentError (List TreeDefinition)
  | [] => pure []
  | (name, node) :: rest => do
    let root ← node.toDefinition
    let trees ← toTrees rest
    pure ({ name, root } :: trees)

def toSource (document : Document) : Except DocumentError Source := do
  let trees ← toTrees document.trees
  pure { trees }

end Document

variable {W A P : Type}

def Source.loadAll [Host W] (source : Source) (registry : Registry W A P) :
    List TreeDefinition → Loading W (List (String × Node A P))
  | [] => pure []
  | tree :: rest => do
    let node ← source.load registry tree.name
    let nodes ← source.loadAll registry rest
    pure ((tree.name, node) :: nodes)

def Document.load [Host W] (document : Document) (registry : Registry W A P) (world : W) :
    Except DocumentError (List (String × Node A P)) × W :=
  match document.toSource with
  | .error error => (.error error, world)
  | .ok source =>
    match source.loadAll registry source.trees world with
    | (.ok nodes, world) => (.ok nodes, world)
    | (.error error, world) => (.error (.load error), world)

end BehaviorTree
