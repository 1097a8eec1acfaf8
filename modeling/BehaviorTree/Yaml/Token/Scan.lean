import BehaviorTree.Yaml.Directive
import BehaviorTree.Yaml.Scalar.Block
import BehaviorTree.Yaml.Scalar.Plain
import BehaviorTree.Yaml.Scalar.Quoted
import BehaviorTree.Yaml.Token

/-! Tokens of a text. Whether a scalar or collection is a key shows only at the colon after it, so the
place before it is remembered, one for each open flow collection; when the colon comes in time, on
the same line and within 1024 characters, the key token is put there. -/

set_option autoImplicit false

namespace BehaviorTree.Yaml

open Text

/-- A place where a key may begin: after how many tokens, and where in the text. A required key is an
error if no colon comes. -/
structure Candidate where
  position : Nat
  required : Bool
  line : Nat
  index : Nat
  column : Nat
  deriving Repr, DecidableEq

structure Scan where
  cursor : Cursor
  tokens : Array Token
  /-- The columns of the open block collections, the innermost first. -/
  columns : List Nat
  candidate : Option Candidate
  /-- The candidates outside each open flow collection, the innermost first. -/
  outer : List (Option Candidate)
  keyAllowed : Bool
  /-- Where a colon needs nothing after it: right behind a quoted scalar in a flow collection. -/
  adjacent : Option Nat
  deriving Repr

namespace Scan

def start (text : String) : Scan :=
  { cursor := .ofText text, tokens := #[], columns := [], candidate := none, outer := []
    keyAllowed := true, adjacent := none }

def flowLimit : Nat := 255

def keyLimit : Nat := 1024

def inFlow (scan : Scan) : Bool := !scan.outer.isEmpty

def inner (scan : Scan) : Nat := (scan.columns.head?.map (· + 1)).getD 0

def emit (token : Token) (scan : Scan) : Scan := { scan with tokens := scan.tokens.push token }

def insert (position : Nat) (token : Token) (scan : Scan) : Scan :=
  { scan with tokens := scan.tokens.insertIdxIfInBounds position token }

def take (token : Token) (length : Nat) (scan : Scan) : Scan :=
  { scan with tokens := scan.tokens.push token, cursor := scan.cursor.advanceBy length }

def closeBlocks (test : Nat → Bool) (scan : Scan) : Scan :=
  if scan.inFlow then scan
  else
    let closed := (scan.columns.takeWhile test).map fun _ => Token.blockEnd
    { scan with columns := scan.columns.dropWhile test, tokens := scan.tokens ++ closed }

def openBlock (column position : Nat) (token : Token) (scan : Scan) : Scan :=
  if !scan.inFlow && scan.inner ≤ column then
    { scan.insert position token with columns := column :: scan.columns }
  else scan

def forgetKey (scan : Scan) : Option Scan :=
  if scan.candidate.any (·.required) then none else some { scan with candidate := none }

def noteKey (scan : Scan) : Option Scan :=
  if scan.keyAllowed then do
    let scan ← scan.forgetKey
    let cursor := scan.cursor
    let candidate :=
      { position := scan.tokens.size
        required := scan.inFlow && scan.columns.head? == some cursor.column
        line := cursor.line, index := cursor.index, column := cursor.column }
    some { scan with candidate := some candidate }
  else some scan

def isLate (cursor : Cursor) (candidate : Candidate) : Bool :=
  candidate.line < cursor.line || candidate.index + keyLimit < cursor.index

def refresh (cursor : Cursor) : Option Candidate → Option (Option Candidate)
  | none => some none
  | some candidate =>
    if isLate cursor candidate then if candidate.required then none else some none
    else some (some candidate)

/-- White space and comments before a token. A line break outside flow collections allows a key; where
a key may begin, a tab is no white space. -/
def passSpace (flow keyAllowed : Bool) (cursor : Cursor) : Bool × Cursor :=
  match found : cursor.rest with
  | [] => (keyAllowed, cursor)
  | c :: _ =>
    have := Cursor.length_rest_advance_lt found
    have := Cursor.length_rest_advanceLine_lt found
    have := Cursor.length_rest_skipLine_lt found
    if c = ' ' ∨ c = '\t' ∧ (flow ∨ ¬keyAllowed) then passSpace flow keyAllowed cursor.advance
    else if isLineBreak c then passSpace flow (keyAllowed || !flow) cursor.advanceLine
    else if c = '#' then passSpace flow keyAllowed cursor.advance.skipLine
    else (keyAllowed, cursor)
termination_by cursor.rest.length

def approach (scan : Scan) : Option Scan := do
  let (keyAllowed, cursor) := passSpace scan.inFlow scan.keyAllowed scan.cursor
  let candidate ← refresh cursor scan.candidate
  let outer ← scan.outer.mapM (refresh cursor)
  some ({ scan with keyAllowed, cursor, candidate, outer }.closeBlocks (cursor.column < ·))

def finishBlocks (scan : Scan) : Option Scan := do
  let scan ← (scan.closeBlocks fun _ => true).forgetKey
  some { scan with keyAllowed := false }

def directive (scan : Scan) : Option Scan := do
  let scan ← scan.finishBlocks
  let cursor ← Directive.read? scan.cursor
  some ({ scan with cursor }.emit .directive)

def documentMark (token : Token) (scan : Scan) : Option Scan := do
  let scan ← scan.finishBlocks
  some (scan.take token 3)

def openFlow (token : Token) (scan : Scan) : Option Scan := do
  let scan ← scan.noteKey
  if scan.outer.length < flowLimit then
    some ({ scan with outer := scan.candidate :: scan.outer, candidate := none, keyAllowed := true }.take token 1)
  else none

/-- A mark that closes no flow collection is a token all the same. -/
def closeFlow (token : Token) (scan : Scan) : Option Scan := do
  let scan ← scan.forgetKey
  let scan := match scan.outer with
    | [] => scan
    | candidate :: outer => { scan with candidate, outer }
  some ({ scan with keyAllowed := false }.take token 1)

def flowEntry (scan : Scan) : Option Scan := do
  let scan ← scan.forgetKey
  some ({ scan with keyAllowed := true }.take .flowEntry 1)

def blockEntry (scan : Scan) : Option Scan :=
  if scan.inFlow || !scan.keyAllowed then none
  else do
    let scan ← (scan.openBlock scan.cursor.column scan.tokens.size .blockSequenceStart).forgetKey
    some (scan.take .blockEntry 1)

def key (scan : Scan) : Option Scan :=
  if scan.inFlow then do
    let scan ← scan.forgetKey
    some ({ scan with keyAllowed := false }.take .key 1)
  else if scan.keyAllowed then do
    let scan ← (scan.openBlock scan.cursor.column scan.tokens.size .blockMappingStart).forgetKey
    some (scan.take .key 1)
  else none

/-- A colon after a key. Where a candidate is left, its key token is put in its place. -/
def value (scan : Scan) : Option Scan :=
  match scan.candidate with
  | some candidate =>
    let scan := scan.insert candidate.position .key
    let scan := scan.openBlock candidate.column candidate.position .blockMappingStart
    some ({ scan with candidate := none, keyAllowed := false }.take .value 1)
  | none =>
    if scan.inFlow then some ({ scan with keyAllowed := false }.take .value 1)
    else if scan.keyAllowed then
      some ((scan.openBlock scan.cursor.column scan.tokens.size .blockMappingStart).take .value 1)
    else none

def isNameEnd (c : Char) : Bool := ['?', ':', ',', ']', '}', '%', '@', '\x60'].contains c

def reference (token : String → Token) (scan : Scan) : Option Scan := do
  let scan ← scan.noteKey
  let name := scan.cursor.rest.tail.takeWhile isLabelPart
  let after := scan.cursor.rest.drop (name.length + 1)
  if name.isEmpty || !(ends after || after.head?.any isNameEnd) then none
  else some ({ scan with keyAllowed := false }.take (token (String.ofList name)) (name.length + 1))

def tag (scan : Scan) : Option Scan := do
  let scan ← scan.noteKey
  let (tag, cursor) ← Tag.read? scan.cursor
  some ({ scan with cursor, keyAllowed := false }.emit (.tag tag))

def emitScalar (style : Style) (text : List Char) (scan : Scan) : Scan :=
  scan.emit (.scalar ⟨style, String.ofList text⟩)

/-- A new key may begin after a block scalar, for it ends with its line. -/
def blockScalar (folded : Bool) (scan : Scan) : Option Scan := do
  let scan ← scan.noteKey
  let (text, cursor) ← Block.read folded scan.inner scan.cursor.advance
  some ({ scan with cursor, keyAllowed := true }.emitScalar .block text)

def quotedScalar (quote : Quote) (scan : Scan) : Option Scan := do
  let scan ← scan.noteKey
  let (text, cursor) ← Quoted.read quote scan.cursor.advance
  some ({ scan with cursor, keyAllowed := false, adjacent := some cursor.index }.emitScalar .quoted text)

/-- A new key may begin after a plain scalar if a line break ended it. -/
def plainScalar (scan : Scan) : Option Scan := do
  let scan ← scan.noteKey
  let (text, gap, cursor) ← Plain.read scan.inFlow scan.inner .none scan.cursor
  some ({ scan with cursor, keyAllowed := 0 < gap.breaks }.emitScalar .plain text)

def endsKey (scan : Scan) (rest : List Char) : Bool :=
  ends rest || scan.inFlow && (rest.head?.any isFlowMark || scan.adjacent == some scan.cursor.index)

def token (scan : Scan) (c : Char) (rest : List Char) : Option Scan :=
  match c with
  | '[' => scan.openFlow .flowSequenceStart
  | '{' => scan.openFlow .flowMappingStart
  | ']' => scan.closeFlow .flowSequenceEnd
  | '}' => scan.closeFlow .flowMappingEnd
  | ',' => scan.flowEntry
  | '-' => if ends rest then scan.blockEntry else scan.plainScalar
  | '?' => if ends rest then scan.key else scan.plainScalar
  | ':' => if scan.endsKey rest then scan.value else scan.plainScalar
  | '*' => scan.reference .alias
  | '&' => scan.reference .anchor
  | '!' => scan.tag
  | '|' => if scan.inFlow then scan.plainScalar else scan.blockScalar false
  | '>' => if scan.inFlow then scan.plainScalar else scan.blockScalar true
  | '\'' => scan.quotedScalar .single
  | '"' => scan.quotedScalar .double
  | '%' | '@' | '\x60' => none
  | _ => scan.plainScalar

def step (scan : Scan) (c : Char) (rest : List Char) : Option Scan :=
  if scan.cursor.column = 0 ∧ c = '%' then scan.directive
  else if scan.cursor.atMark Cursor.startMark then scan.documentMark .documentStart
  else if scan.cursor.atMark Cursor.endMark then scan.documentMark .documentEnd
  else scan.token c rest

def run (scan : Scan) : Option (List Token) := do
  let near ← scan.approach
  match near.cursor.rest with
  | [] => near.finishBlocks.map (·.tokens.toList)
  | c :: rest =>
    let next ← near.step c rest
    if next.cursor.rest.length < scan.cursor.rest.length then run next else none
termination_by scan.cursor.rest.length

end Scan

def Token.scan (text : String) : Option (List Token) := (Scan.start text).run

end BehaviorTree.Yaml
