import BehaviorTree.Document
import BehaviorTree.Yaml.Content
import BehaviorTree.Yaml.Node.Grammar
import BehaviorTree.Yaml.Scalar.Number
import BehaviorTree.Yaml.Token.Scan

/-! Documents given as YAML. The top is a mapping with the key `behavior_tree`, under which the trees
stand by name; other keys are passed over. A node is a mapping of its fields, or a sequence of their
values in order. Texts are taken from scalars of any form. -/

set_option autoImplicit false

namespace BehaviorTree

open Yaml

namespace Yaml.Content

variable {α : Type}

def text? : Content → Option String
  | .scalar _ value => some value.text
  | _ => none

def number? : Content → Option Float
  | .scalar tag value => value.number? tag
  | _ => none

def items? (read : Content → Option α) : Content → Option (List α)
  | .sequence items => items.mapM read
  | _ => none

def optional? (read : Content → Option α) : Content → Option (Option α)
  | .scalar tag value => do
    if ← value.isNull? tag then some none
    else some <$> read (.scalar tag value)
  | content => some <$> read content

end Yaml.Content

def Document.fill? {α : Type} (field read : Option α) : Option (Option α) :=
  if field.isSome then none else some <$> read

namespace DocumentNode

structure Fields where
  type : Option String
  name : Option (Option String)
  when : Option (Option String)
  cooldown : Option (Option Float)
  children : Option (List DocumentNode)

namespace Fields

def none : Fields := ⟨.none, .none, .none, .none, .none⟩

/-- Reads a field. Unknown and repeated ones are refused. -/
def add? (children : Content → Option (List DocumentNode)) (fields : Fields) (key : String) (content : Content) :
    Option Fields :=
  match key with
  | "type" => return { fields with type := ← Document.fill? fields.type content.text? }
  | "name" => return { fields with name := ← Document.fill? fields.name (content.optional? Content.text?) }
  | "when" => return { fields with when := ← Document.fill? fields.when (content.optional? Content.text?) }
  | "cooldown" => return { fields with cooldown := ← Document.fill? fields.cooldown (content.optional? Content.number?) }
  | "children" => return { fields with children := ← Document.fill? fields.children (children content) }
  | _ => failure

def toNode? (fields : Fields) : Option DocumentNode := do
  let type ← fields.type
  some { type, name := fields.name.join, when := fields.when.join, cooldown := fields.cooldown.join
         children := fields.children.getD [] }

/-- The fields in the order of a sequence. -/
def order : List String := ["type", "name", "when", "cooldown", "children"]

def ofMapping? (children : Content → Option (List DocumentNode)) (fields : Fields) :
    List (Content × Content) → Option Fields
  | [] => some fields
  | (key, content) :: rest => do
    let key ← key.text?
    let fields ← fields.add? children key content
    ofMapping? children fields rest

def ofSequence? (children : Content → Option (List DocumentNode)) (fields : Fields) :
    List String → List Content → Option Fields
  | _, [] => some fields
  | [], _ :: _ => failure
  | key :: keys, content :: rest => do
    let fields ← fields.add? children key content
    ofSequence? children fields keys rest

end Fields

def decodeWith? (children : Content → Option (List DocumentNode)) (content : Content) : Option DocumentNode := do
  let fields ←
    match content with
    | .mapping entries => Fields.ofMapping? children .none entries
    | .sequence items => Fields.ofSequence? children .none Fields.order items
    | _ => failure
  fields.toNode?

/-- A node whose collections are nested at most to a given depth. Its children stand two collections
deeper. -/
def decode? : Nat → Content → Option DocumentNode
  | 0 => fun _ => none
  | 1 => decodeWith? fun _ => none
  | depth + 2 => decodeWith? (Content.items? (decode? depth))

end DocumentNode

namespace Document

def depthLimit : Nat := 128

def decodeTrees? (depth : Nat) (trees : List (String × DocumentNode)) :
    List (Content × Content) → Option (List (String × DocumentNode))
  | [] => some trees
  | (key, content) :: rest => do
    let name ← key.text?
    let root ← DocumentNode.decode? depth content
    decodeTrees? depth (insert name root trees) rest

def decodeTreeMapping? : Content → Option (List (String × DocumentNode))
  | .mapping entries => decodeTrees? (depthLimit - 2) [] entries
  | _ => none

/-- The entries of the top mapping. Two with the key for trees are refused. -/
def decodeEntries? (trees : Option (Option (List (String × DocumentNode)))) :
    List (Content × Content) → Option (Option (List (String × DocumentNode)))
  | [] => some trees.join
  | (key, content) :: rest => do
    let key ← key.text?
    if key = "behavior_tree" then
      let trees ← fill? trees (content.optional? decodeTreeMapping?)
      decodeEntries? trees rest
    else decodeEntries? trees rest

/-- A sequence at the top has the trees as its only item. -/
def decode? : Content → Option (Option (List (String × DocumentNode)))
  | .mapping entries => decodeEntries? none entries
  | .sequence [item] => item.optional? decodeTreeMapping?
  | _ => none

def ofText (text : String) : Except DocumentError Document :=
  match Token.scan text >>= Yaml.Node.ofTokens? >>= Yaml.Node.content? >>= decode? with
  | none => .error .malformed
  | some none => .error .missing
  | some (some trees) => .ok ⟨trees⟩

end Document

end BehaviorTree
