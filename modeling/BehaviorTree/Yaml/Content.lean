import BehaviorTree.Yaml.Node

/-! The content of a document: its nodes with every alias replaced by the content of the node that it
names. That node is the latest before the alias with its anchor. A node is anchored before its members
are read, so an alias may name a collection around itself; such an alias has no finite content. -/

set_option autoImplicit false

namespace BehaviorTree.Yaml

inductive Content where
  | scalar (tag : Option Tag) (scalar : Scalar)
  | sequence (items : List Content)
  | mapping (entries : List (Content × Content))
  | endless
  deriving Repr

/-- The anchored nodes in order. The content of one that is still being read is missing. -/
abbrev Anchors := Array (String × Option Content)

namespace Anchors

def within (anchor : Option String) (read : Anchors → Option (Content × Anchors)) (anchors : Anchors) :
    Option (Content × Anchors) :=
  match anchor with
  | none => read anchors
  | some name => do
    let (content, later) ← read (anchors.push (name, none))
    some (content, later.setIfInBounds anchors.size (name, some content))

def find? (anchors : Anchors) (name : String) : Option Content :=
  (Array.findRev? (fun (anchor : String × Option Content) => anchor.1 == name) anchors).map fun anchor =>
    anchor.2.getD .endless

end Anchors

namespace Node

mutual

def bindAliases : Node → Anchors → Option (Content × Anchors)
  | .scalar anchor tag text, anchors => anchors.within anchor fun anchors => some (.scalar tag text, anchors)
  | .sequence anchor items, anchors => anchors.within anchor fun anchors => do
    let (items, anchors) ← bindItems items anchors
    some (.sequence items, anchors)
  | .mapping anchor entries, anchors => anchors.within anchor fun anchors => do
    let (entries, anchors) ← bindEntries entries anchors
    some (.mapping entries, anchors)
  | .alias name, anchors => do
    let content ← anchors.find? name
    some (content, anchors)

def bindItems : List Node → Anchors → Option (List Content × Anchors)
  | [], anchors => some ([], anchors)
  | item :: rest, anchors => do
    let (item, anchors) ← item.bindAliases anchors
    let (items, anchors) ← bindItems rest anchors
    some (item :: items, anchors)

def bindEntries : List (Node × Node) → Anchors → Option (List (Content × Content) × Anchors)
  | [], anchors => some ([], anchors)
  | (key, value) :: rest, anchors => do
    let (key, anchors) ← key.bindAliases anchors
    let (value, anchors) ← value.bindAliases anchors
    let (entries, anchors) ← bindEntries rest anchors
    some ((key, value) :: entries, anchors)

end

/-- The content of a document; there is none if an alias names no earlier anchor. -/
def content? (node : Node) : Option Content := do
  let (content, _) ← node.bindAliases #[]
  some content

end Node

end BehaviorTree.Yaml
