import BehaviorTree.Yaml.Node

/-! Reading nodes from tokens. A node is read by its first tokens alone. The readers of collections
take the reader of their members as an argument; nesting ends because each collection takes a token
before its members. -/

set_option autoImplicit false

namespace BehaviorTree.Yaml

/-- Where a node stands decides which collections it may be: any in an entry of a block sequence; also a
block sequence at the column of the mapping in an entry of a block mapping; flow collections alone
in a flow collection. -/
inductive Place where
  | item
  | entry
  | flow
  deriving Repr, DecidableEq

abbrev Reader (α : Type) := List Token → Option (α × List Token)

namespace Reader

/-- A node that is omitted if one of the given tokens comes at once. -/
def orOmitted (read : Reader Node) (before : List Token) : Reader Node := fun tokens =>
  if tokens.head?.any before.contains then some (.omitted, tokens) else read tokens

/-- A node after a mark, which is omitted if the mark is missing. -/
def behind (mark : Token) (read : Reader Node) : Reader Node := fun tokens =>
  match tokens with
  | [] => some (.omitted, tokens)
  | token :: rest => if token = mark then read rest else some (.omitted, tokens)

def blockItems (read : Reader Node) (tokens : List Token) : Option (List Node × List Token) :=
  match tokens with
  | .blockEnd :: rest => some ([], rest)
  | .blockEntry :: tail => do
    let (item, rest) ← read.orOmitted [.blockEntry, .blockEnd] tail
    if rest.length ≤ tail.length then
      let (items, rest) ← blockItems read rest
      some (item :: items, rest)
    else none
  | _ => none
termination_by tokens.length

/-- The entries of a block sequence at the column of a mapping. It has no end token. -/
def bareItems (read : Reader Node) (tokens : List Token) : Option (List Node × List Token) :=
  match tokens with
  | .blockEntry :: tail => do
    let (item, rest) ← read.orOmitted [.blockEntry, .key, .value, .blockEnd] tail
    if rest.length ≤ tail.length then
      let (items, rest) ← bareItems read rest
      some (item :: items, rest)
    else none
  | _ => some ([], tokens)
termination_by tokens.length

def blockPairs (read : Reader Node) (tokens : List Token) : Option (List (Node × Node) × List Token) :=
  match tokens with
  | .blockEnd :: rest => some ([], rest)
  | .key :: tail | .value :: tail => do
    let (key, rest) ← behind .key (read.orOmitted [.key, .value, .blockEnd]) tokens
    let (value, rest) ← behind .value (read.orOmitted [.key, .value, .blockEnd]) rest
    if rest.length ≤ tail.length then
      let (entries, rest) ← blockPairs read rest
      some ((key, value) :: entries, rest)
    else none
  | _ => none
termination_by tokens.length

def separator (first : Bool) (close : Token) (tokens : List Token) : Option (List Token) :=
  match first, tokens with
  | true, _ => some tokens
  | false, .flowEntry :: rest => some rest
  | false, token :: _ => if token = close then some tokens else none
  | false, [] => none

def flowPair (read : Reader Node) (tokens : List Token) : Option ((Node × Node) × List Token) :=
  match tokens with
  | .key :: _ | .value :: _ => do
    let (key, rest) ← behind .key (read.orOmitted [.value, .flowEntry, .flowMappingEnd]) tokens
    let (value, rest) ← behind .value (read.orOmitted [.flowEntry, .flowMappingEnd]) rest
    some ((key, value), rest)
  | _ => do
    let (key, rest) ← read tokens
    some ((key, .omitted), rest)

def flowPairs (read : Reader Node) (first : Bool) (tokens : List Token) :
    Option (List (Node × Node) × List Token) := do
  match ← separator first .flowMappingEnd tokens with
  | .flowMappingEnd :: rest => some ([], rest)
  | place =>
    let (entry, rest) ← read.flowPair place
    if rest.length < tokens.length then
      let (entries, rest) ← flowPairs read false rest
      some (entry :: entries, rest)
    else none
termination_by tokens.length

/-- The key of a mapping that stands for one item of a flow sequence. A token that shows the key to be
omitted is passed over. -/
def singleKey (read : Reader Node) : Reader Node := fun tokens =>
  match tokens with
  | .value :: rest | .flowEntry :: rest | .flowSequenceEnd :: rest => some (.omitted, rest)
  | _ => read tokens

def flowItem (read : Reader Node) : Reader Node := fun tokens =>
  match tokens with
  | .key :: rest => do
    let (key, rest) ← read.singleKey rest
    let (value, rest) ← behind .value (read.orOmitted [.flowEntry, .flowSequenceEnd]) rest
    some (.mapping none [(key, value)], rest)
  | _ => read tokens

def flowItems (read : Reader Node) (first : Bool) (tokens : List Token) : Option (List Node × List Token) := do
  match ← separator first .flowSequenceEnd tokens with
  | .flowSequenceEnd :: rest => some ([], rest)
  | place =>
    let (item, rest) ← read.flowItem place
    if rest.length < tokens.length then
      let (items, rest) ← flowItems read false rest
      some (item :: items, rest)
    else none
termination_by tokens.length

end Reader

namespace Node

def properties : List Token → (Option String × Option Tag) × List Token
  | .anchor name :: .tag tag :: rest => ((some name, some tag), rest)
  | .tag tag :: .anchor name :: rest => ((some name, some tag), rest)
  | .anchor name :: rest => ((some name, none), rest)
  | .tag tag :: rest => ((none, some tag), rest)
  | rest => ((none, none), rest)

def readBody (read : Place → Reader Node) (place : Place) (anchor : Option String) (tag : Option Tag) :
    Reader Node := fun tokens =>
  match tokens, place with
  | .scalar content :: rest, _ => some (.scalar anchor tag content, rest)
  | .flowSequenceStart :: rest, _ => do
    let (items, rest) ← (read .flow).flowItems true rest
    some (.sequence anchor items, rest)
  | .flowMappingStart :: rest, _ => do
    let (entries, rest) ← (read .flow).flowPairs true rest
    some (.mapping anchor entries, rest)
  | .blockSequenceStart :: rest, .item | .blockSequenceStart :: rest, .entry => do
    let (items, rest) ← (read .item).blockItems rest
    some (.sequence anchor items, rest)
  | .blockMappingStart :: rest, .item | .blockMappingStart :: rest, .entry => do
    let (entries, rest) ← (read .entry).blockPairs rest
    some (.mapping anchor entries, rest)
  | .blockEntry :: _, .entry => do
    let (items, rest) ← (read .item).bareItems tokens
    some (.sequence anchor items, rest)
  | _, _ => if anchor.isSome || tag.isSome then some (.scalar anchor tag ⟨.plain, ""⟩, tokens) else none

def readWithin : Nat → Place → Reader Node
  | 0, _ => fun _ => none
  | depth + 1, place => fun tokens =>
    match tokens with
    | .alias name :: rest => some (.alias name, rest)
    | _ =>
      let ((anchor, tag), rest) := properties tokens
      readBody (readWithin depth) place anchor tag rest

/-- No node is deeper than it has tokens. -/
def read : Reader Node := fun tokens => readWithin tokens.length .item tokens

def readContent : Reader Node := fun tokens =>
  match tokens with
  | [] | .directive :: _ | .documentStart :: _ | .documentEnd :: _ => some (.omitted, tokens)
  | _ => read tokens

/-- The only document of a text. Directives need a start mark after them. -/
def readDocument : Reader Node := fun tokens =>
  match tokens with
  | [] => none
  | .directive :: _ | .documentStart :: _ =>
    match tokens.dropWhile (· == .directive) with
    | .documentStart :: rest => readContent rest
    | _ => none
  | _ => read tokens

def ofTokens? (tokens : List Token) : Option Node := do
  let (node, rest) ← readDocument tokens
  if rest.all (· == .documentEnd) then some node else none

end Node

end BehaviorTree.Yaml
