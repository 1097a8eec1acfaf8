import BehaviorTree.Text.Classes

/-! Readers of text with one kind of recoverable and one kind of fatal refusal. A recoverable
refusal (`stop`) lets an alternative be tried on the same text; a fatal one ends the whole reading
and keeps the place where it arose. Repetition refuses a round that takes no character, so it
ends on every text. -/

set_option autoImplicit false

namespace BehaviorTree

/-- What a reader answers: a value and the rest of the text, or a refusal. -/
inductive Reply (α : Type) where
  | ok (value : α) (rest : List Char)
  | stop
  | fatal (place : List Char)
  deriving Repr, DecidableEq

namespace Reply

variable {α β : Type}

def bind (reply : Reply α) (next : α → List Char → Reply β) : Reply β :=
  match reply with
  | .ok value rest => next value rest
  | .stop => .stop
  | .fatal place => .fatal place

def map (f : α → β) (reply : Reply α) : Reply β :=
  reply.bind fun value rest => .ok (f value) rest

@[simp] theorem bind_ok (value : α) (rest : List Char) (next : α → List Char → Reply β) :
    (Reply.ok value rest).bind next = next value rest := rfl

@[simp] theorem bind_stop (next : α → List Char → Reply β) : (Reply.stop : Reply α).bind next = .stop := rfl

@[simp] theorem bind_fatal (place : List Char) (next : α → List Char → Reply β) :
    (Reply.fatal place : Reply α).bind next = .fatal place := rfl

@[simp] theorem map_ok (f : α → β) (value : α) (rest : List Char) :
    (Reply.ok value rest).map f = .ok (f value) rest := rfl

@[simp] theorem map_stop (f : α → β) : (Reply.stop : Reply α).map f = .stop := rfl

@[simp] theorem map_fatal (f : α → β) (place : List Char) :
    (Reply.fatal place : Reply α).map f = .fatal place := rfl

end Reply

abbrev Parser (α : Type) := List Char → Reply α

namespace Parser

open Text

variable {α β : Type}

def word? : List Char → List Char → Option (List Char)
  | [], s => some s
  | _ :: _, [] => none
  | c :: cs, d :: s => if c = d then word? cs s else none

/-- A fixed word between optional characters of two classes. -/
def mark (before : Char → Bool) (text : List Char) (after : Char → Bool) : Parser Unit := fun s =>
  match word? text (s.dropWhile before) with
  | some rest => .ok () (rest.dropWhile after)
  | none => .stop

def orElse (first second : Parser α) : Parser α := fun s =>
  match first s with
  | .stop => second s
  | reply => reply

def optional (parser : Parser α) : Parser (Option α) := fun s =>
  match parser s with
  | .ok value rest => .ok (some value) rest
  | .stop => .ok none s
  | .fatal place => .fatal place

/-- Repeats until the reader stops. A round that takes no character is itself a refusal. -/
def many (parser : Parser α) (s : List Char) : Reply (List α) :=
  match parser s with
  | .stop => .ok [] s
  | .fatal place => .fatal place
  | .ok value rest =>
    if rest.length < s.length then (many parser rest).map (value :: ·) else .stop
termination_by s.length

def after (first : Parser β) (second : Parser α) : Parser α := fun s =>
  (first s).bind fun _ rest => second rest

/-- Values separated by a mark; a mark that no value follows is left unread. -/
def separated (mark : Parser β) (parser : Parser α) : Parser (List α) := fun s =>
  match parser s with
  | .stop => .ok [] s
  | .fatal place => .fatal place
  | .ok value rest => (many (after mark parser) rest).map (value :: ·)

/-- Restricts a reader to texts shorter than a given one. Inside a grammar it is the shape of a
call to the grammar itself on a part of the text. -/
def below (bound : List Char) (parser : (s : List Char) → s.length < bound.length → Reply α) : Parser α :=
  fun s => if shorter : s.length < bound.length then parser s shorter else .stop

end Parser

end BehaviorTree
