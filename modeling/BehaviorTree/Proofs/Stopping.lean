import BehaviorTree.Proofs.Composition

/-! Where reading a file comes to an end. Every reader that the grammar repeats takes something in each round, so no
repetition is refused for its own sake, and what it reads by itself is shorter, so no recursion meets its bound. Reading
is given up only at a number that has the letter of an exponent and no digits after it, as the value of a cooldown; in
every other case it goes up to a place where nothing begins that could be read. -/

set_option autoImplicit false

namespace BehaviorTree

open Text BehaviorTree.Parser

variable {α β : Type}

namespace Reply

theorem bind_eq_fatal {reply : Reply α} {next : α → List Char → Reply β} {place : List Char} :
    reply.bind next = .fatal place ↔
      reply = .fatal place ∨ ∃ inner left, reply = .ok inner left ∧ next inner left = .fatal place := by
  cases reply <;> simp

theorem map_eq_fatal {f : α → β} {reply : Reply α} {place : List Char} :
    reply.map f = .fatal place ↔ reply = .fatal place := by
  cases reply <;> simp

theorem map_eq_stop {f : α → β} {reply : Reply α} : reply.map f = .stop ↔ reply = .stop := by
  cases reply <;> simp

end Reply

namespace Parser

theorem orElse_eq_stop {first second : Parser α} {s : List Char} (stops : orElse first second s = .stop) :
    first s = .stop ∧ second s = .stop := by
  rw [orElse] at stops
  split at stops
  · next none => exact ⟨none, stops⟩
  · next other => exact absurd stops other

/-- A reader that does not refuse takes something. -/
def Advances (parser : Parser α) : Prop :=
  ∀ s value rest, parser s = .ok value rest → rest.length < s.length

namespace Advances

theorem bind {first : Parser α} {next : α → Parser β} (advances : first.Advances)
    (trims : ∀ value, (next value).Trims) : Advances fun s => (first s).bind next := by
  intro s value rest read
  obtain ⟨inner, left, taken, read⟩ := Reply.bind_eq_ok.mp read
  exact Nat.lt_of_le_of_lt (trims inner left value rest read).length_le (advances s inner left taken)

theorem map {parser : Parser α} (advances : parser.Advances) (f : α → β) : Advances fun s => (parser s).map f := by
  intro s value rest read
  obtain ⟨inner, taken, _⟩ := Reply.map_eq_ok.mp read
  exact advances s inner rest taken

theorem orElse {first second : Parser α} (one : first.Advances) (other : second.Advances) :
    (Parser.orElse first second).Advances := by
  intro s value rest read
  rcases orElse_eq_ok read with read | ⟨_, read⟩
  · exact one s value rest read
  · exact other s value rest read

theorem skip {parser : Parser α} (advances : parser.Advances) (p : Char → Bool) :
    Advances fun s => parser (s.dropWhile p) :=
  fun s value rest read => Nat.lt_of_lt_of_le (advances _ value rest read) (length_dropWhile_le p s)

theorem many_ne_stop {parser : Parser α} (advances : parser.Advances) (s : List Char) : many parser s ≠ .stop := by
  induction s using many.induct parser with
  | case1 s stops =>
    intro stopped
    rw [many_of_stop stops] at stopped
    cases stopped
  | case2 s place fails =>
    intro stopped
    rw [many, fails] at stopped
    cases stopped
  | case3 s value rest read shorter ih =>
    intro stopped
    rw [many_of_ok read shorter] at stopped
    exact ih (Reply.map_eq_stop.mp stopped)
  -- Only a round that takes nothing makes the repetition refuse.
  | case4 s value rest read longer => exact absurd (advances s value rest read) longer

end Advances

theorem mark_advances (before after : Char → Bool) (c : Char) (text : List Char) :
    (mark before (c :: text) after).Advances :=
  fun _ _ _ read => length_lt_of_mark read

/-- Wherever a reader refuses fatally, there is this reason for it in the text. -/
def FailsOnly (reason : List Char → List Char → Prop) (parser : Parser α) : Prop :=
  ∀ s place, parser s = .fatal place → reason s place

abbrev Mild (parser : Parser α) : Prop := parser.FailsOnly fun _ _ => False

def Lasting (reason : List Char → List Char → Prop) : Prop :=
  ∀ ⦃s t place⦄, t <:+ s → reason t place → reason s place

theorem lasting_false : Lasting fun _ _ => False := fun _ _ _ _ => id

theorem Mild.failsOnly {parser : Parser α} (mild : parser.Mild) (reason : List Char → List Char → Prop) :
    parser.FailsOnly reason :=
  fun s place fails => (mild s place fails).elim

namespace FailsOnly

variable {reason : List Char → List Char → Prop}

theorem map {parser : Parser α} (fails : parser.FailsOnly reason) (f : α → β) :
    FailsOnly reason fun s => (parser s).map f :=
  fun s place failed => fails s place (Reply.map_eq_fatal.mp failed)

theorem optional {parser : Parser α} (fails : parser.FailsOnly reason) :
    (Parser.optional parser).FailsOnly reason := by
  intro s place failed
  rw [Parser.optional] at failed
  split at failed
  · cases failed
  · cases failed
  · next found =>
    cases failed
    exact fails s place found

theorem orElse {first second : Parser α} (one : first.FailsOnly reason) (other : second.FailsOnly reason) :
    (Parser.orElse first second).FailsOnly reason := by
  intro s place failed
  rw [Parser.orElse] at failed
  split at failed
  · exact other s place failed
  · exact one s place failed

variable (lasting : Lasting reason)
include lasting

theorem bind {first : Parser α} {next : α → Parser β} (trims : first.Trims) (begins : first.FailsOnly reason)
    (ends : ∀ value, (next value).FailsOnly reason) : FailsOnly reason fun s => (first s).bind next := by
  intro s place failed
  rcases Reply.bind_eq_fatal.mp failed with failed | ⟨inner, left, taken, failed⟩
  · exact begins s place failed
  · exact lasting (trims s inner left taken) (ends inner left place failed)

theorem skip {parser : Parser α} (fails : parser.FailsOnly reason) (p : Char → Bool) :
    FailsOnly reason fun s => parser (s.dropWhile p) :=
  fun _ place failed => lasting (List.dropWhile_suffix p) (fails _ place failed)

theorem many {parser : Parser α} (trims : parser.Trims) (fails : parser.FailsOnly reason) :
    FailsOnly reason (Parser.many parser) := by
  intro s
  induction s using many.induct parser with
  | case1 s stops =>
    intro place failed
    rw [many_of_stop stops] at failed
    cases failed
  | case2 s place found =>
    intro other failed
    rw [Parser.many, found] at failed
    cases failed
    exact fails s place found
  | case3 s value rest read shorter ih =>
    intro place failed
    rw [many_of_ok read shorter, Reply.map_eq_fatal] at failed
    exact lasting (trims s value rest read) (ih place failed)
  | case4 s value rest read longer =>
    intro place failed
    rw [Parser.many, read] at failed
    simp only [longer, if_false] at failed
    cases failed

end FailsOnly

theorem FailsOnly.below {reason : List Char → List Char → Prop} {bound : List Char}
    {parser : (s : List Char) → s.length < bound.length → Reply α}
    (fails : ∀ s shorter place, parser s shorter = .fatal place → reason s place) :
    (Parser.below bound parser).FailsOnly reason := by
  intro s place failed
  rw [Parser.below] at failed
  split at failed
  · next shorter => exact fails s shorter place failed
  · cases failed

theorem mark_mild (before after : Char → Bool) (text : List Char) : (mark before text after).Mild := by
  intro s place failed
  rw [mark] at failed
  split at failed <;> cases failed

/-! With a bound a reader reads what it reads without, as long as it is given shorter texts. -/

/-- The two readers read texts shorter than this in the same way. -/
def AgreeBelow (length : Nat) (one other : Parser α) : Prop :=
  ∀ s : List Char, s.length < length → one s = other s

namespace AgreeBelow

variable {length : Nat} {one other : Parser α}

theorem refl (parser : Parser α) : AgreeBelow length parser parser := fun _ _ => rfl

theorem below (bound : List Char) (parser : Parser α) :
    AgreeBelow bound.length (Parser.below bound fun s _ => parser s) parser :=
  fun _ shorter => dif_pos shorter

theorem bind {next further : α → Parser β} (agree : AgreeBelow length one other) (trims : one.Trims)
    (rest : ∀ value, AgreeBelow length (next value) (further value)) :
    AgreeBelow length (fun s => (one s).bind next) fun s => (other s).bind further := by
  intro s shorter
  simp only [← agree s shorter]
  cases read : one s with
  | ok value left => exact rest value left (Nat.lt_of_le_of_lt (trims s value left read).length_le shorter)
  | stop => rfl
  | fatal place => rfl

theorem map (agree : AgreeBelow length one other) (f : α → β) :
    AgreeBelow length (fun s => (one s).map f) fun s => (other s).map f :=
  fun s shorter => congrArg (Reply.map f) (agree s shorter)

theorem optional (agree : AgreeBelow length one other) :
    AgreeBelow length (Parser.optional one) (Parser.optional other) := by
  intro s shorter
  rw [Parser.optional, Parser.optional, agree s shorter]

theorem orElse (first : Parser α) (agree : AgreeBelow length one other) :
    AgreeBelow length (Parser.orElse first one) (Parser.orElse first other) := by
  intro s shorter
  rw [Parser.orElse, Parser.orElse, agree s shorter]

theorem skip (agree : AgreeBelow length one other) (p : Char → Bool) :
    AgreeBelow length (fun s => one (s.dropWhile p)) fun s => other (s.dropWhile p) :=
  fun s shorter => agree _ (Nat.lt_of_le_of_lt (length_dropWhile_le p s) shorter)

theorem many (agree : AgreeBelow length one other) : AgreeBelow length (Parser.many one) (Parser.many other) := by
  intro s
  induction s using many.induct one with
  | case1 s stops =>
    intro shorter
    rw [many_of_stop stops, many_of_stop (agree s shorter ▸ stops)]
  | case2 s place fails =>
    intro shorter
    rw [Parser.many, Parser.many, ← agree s shorter, fails]
  | case3 s value rest read less ih =>
    intro shorter
    rw [many_of_ok read less, many_of_ok (agree s shorter ▸ read) less, ih (Nat.lt_trans less shorter)]
  | case4 s value rest read longer =>
    intro shorter
    rw [Parser.many, Parser.many, ← agree s shorter, read]
    simp only [longer, if_false]

end AgreeBelow

end Parser

theorem identifier_mild : identifier.Mild := by
  intro s place failed
  cases s with
  | nil => cases failed
  | cons c s =>
    rw [identifier] at failed
    split at failed <;> cases failed

theorem identifier_advances : identifier.Advances := by
  intro s name rest read
  obtain ⟨used, rfl, ⟨c, parts, rfl, _⟩, _⟩ := Condition.identifier_takes _ _ _ read
  simp only [List.cons_append, List.length_cons, List.length_append]
  omega

theorem literal_mild : literal.Mild := by
  intro s place failed
  rw [literal.eq_def] at failed
  split at failed
  · split at failed <;> cases failed
  · cases failed

/-! Conditions are never refused fatally. -/

namespace Condition

theorem argument_mild : argument.Mild :=
  .bind lasting_false (mark_trims _ _ _) (mark_mild _ _ _) fun _ =>
    .bind lasting_false literal_takes.trims literal_mild fun text => (mark_mild _ _ _).map fun _ => text

theorem readAtom_mild : readAtom.Mild :=
  .bind lasting_false identifier_takes.trims identifier_mild fun name =>
    argument_mild.optional.map (Condition.atom name)

theorem readFactor_mild {nested : Parser Condition} (trims : nested.Trims) (mild : nested.Mild) :
    Mild (readFactor nested) := by
  intro s
  induction s using readFactor.induct with
  | case1 s after start _ ih =>
    intro place failed
    rw [readFactor_not start] at failed
    exact ih place (Reply.map_eq_fatal.mp failed)
  | case2 s after start =>
    intro place failed
    rw [readFactor_nested start] at failed
    have inner : Mild fun s =>
        (nested (s.dropWhile isSpace)).bind fun inner rest => (closeNested rest).map fun _ => inner :=
      .bind lasting_false (trims.skip isSpace) (mild.skip lasting_false isSpace) fun inner =>
        (mark_mild _ _ _).map fun _ => inner
    exact inner after place failed
  | case3 s noNot noNested =>
    intro place failed
    rw [readFactor_atom noNot noNested] at failed
    exact readAtom_mild _ place failed

section Chain
variable {operand : Parser Condition} (trims : operand.Trims)
include trims

theorem operand_trims (operator : List Char) : (after (mark isSpace operator isSpace) operand).Trims :=
  (mark_trims _ _ _).bind fun _ => trims

theorem operand_advances (c : Char) (operator : List Char) :
    (after (mark isSpace (c :: operator) isSpace) operand).Advances :=
  (mark_advances _ _ _ _).bind fun _ => trims

theorem readChain_mild (mild : operand.Mild) (operator : List Char) (join : Condition → Condition → Condition) :
    (readChain operator join operand).Mild :=
  have further : (after (mark isSpace operator isSpace) operand).Mild :=
    .bind lasting_false (mark_trims _ _ _) (mark_mild _ _ _) fun _ => mild
  .bind lasting_false trims mild fun first =>
    (FailsOnly.many lasting_false (operand_trims trims operator) further).map fun others => others.foldl join first

end Chain

theorem read_mild : Mild Condition.read := by
  intro s
  induction s using read.induct with
  | case1 s ih =>
    have trims : Trims (below s fun rest _ => read rest) := by
      intro t tree rest found
      obtain ⟨_, found⟩ := below_eq_ok found
      exact read_takes.trims t tree rest found
    have factor : (within s .factor).Mild := readFactor_mild trims (.below ih)
    have conjunction : (within s .conjunction).Mild := readChain_mild (within_takes s .factor).trims factor _ _
    rw [read_eq]
    exact readChain_mild (within_takes s .conjunction).trims conjunction _ _ s

theorem readFactor_agree {length : Nat} {nested other : Parser Condition} (agree : AgreeBelow length nested other) :
    AgreeBelow (length + 1) (readFactor nested) (readFactor other) := by
  intro s
  induction s using readFactor.induct with
  | case1 s after start less ih =>
    intro shorter
    rw [readFactor_not start, readFactor_not start, ih (Nat.lt_trans less shorter)]
  | case2 s after start =>
    intro shorter
    have inside : (after.dropWhile isSpace).length < length :=
      Nat.lt_of_le_of_lt (length_dropWhile_le isSpace after)
        (Nat.lt_of_lt_of_le (length_lt_of_dropWhile start) (Nat.le_of_lt_succ shorter))
    rw [readFactor_nested start, readFactor_nested start, agree _ inside]
  | case3 s noNot noNested =>
    intro _
    rw [readFactor_atom noNot noNested, readFactor_atom noNot noNested]

theorem readChain_agree {length : Nat} {operand other : Parser Condition} (trims : operand.Trims)
    (agree : AgreeBelow length operand other) (operator : List Char) (join : Condition → Condition → Condition) :
    AgreeBelow length (readChain operator join operand) (readChain operator join other) :=
  have further : AgreeBelow length (after (mark isSpace operator isSpace) operand) _ :=
    .bind (.refl _) (mark_trims _ _ _) fun _ => agree
  agree.bind trims fun first => further.many.map fun others => others.foldl join first

/-- Reading conditions is a recursion without a bound: the text in parentheses is always shorter, so the reader is
never stopped for the sake of its bound. -/
theorem read_unbounded :
    Condition.read = readChain ['|', '|'] .or (readChain ['&', '&'] .and (readFactor Condition.read)) := by
  funext s
  -- The parenthesis is taken off before the reader is called on what stands in it.
  have factor : AgreeBelow (s.length + 1) (within s .factor) (readFactor Condition.read) :=
    readFactor_agree (.below s Condition.read)
  have conjunction := readChain_agree (within_takes s .factor).trims factor ['&', '&'] .and
  rw [read_eq]
  exact readChain_agree (within_takes s .conjunction).trims conjunction ['|', '|'] .or s (Nat.lt_succ_self _)

end Condition

theorem Decimal.eq_of_read_eq_fatal {s place : List Char} (failed : Decimal.read s = .fatal place) : place = s := by
  rw [Decimal.read] at failed
  split at failed
  · cases failed
  · cases failed
    rfl
  · split at failed <;> cases failed

namespace Definition

/-- The text is a cooldown whose value, at this place, is a number that is refused fatally. -/
inductive Faulty : List Char → List Char → Prop where
  | mk {left right place : List Char} : Only isBlank left → Only isBlank right → Decimal.read place = .fatal place →
      Faulty (['c', 'o', 'o', 'l', 'd', 'o', 'w', 'n'] ++ (left ++ ':' :: (right ++ place))) place

/-- Somewhere in the text, first in a list of attributes or after another one, there is such a cooldown. -/
inductive Breaks : List Char → List Char → Prop where
  | mk {before gap cooldown place : List Char} {c : Char} : (c = '(' ∨ c = ',') → Only isSpace gap →
      Faulty cooldown place → Breaks (before ++ c :: (gap ++ cooldown)) place

theorem lasting_breaks : Lasting Breaks := by
  rintro _ _ place ⟨front, rfl⟩ ⟨opening, only, faulty⟩
  rw [← List.append_assoc]
  exact .mk opening only faulty

theorem breaks_of_mark {before : Char → Bool} {c : Char} {s rest place : List Char}
    (marked : mark before [c] isSpace s = .ok () rest) (opening : c = '(' ∨ c = ',') (faulty : Faulty rest place) :
    Breaks s place := by
  obtain ⟨pre, gap, _, only, rfl⟩ := mark_eq_ok marked
  simp only [List.append_assoc, List.singleton_append]
  exact .mk opening only faulty

theorem keyword_eq_ok {text s rest : List Char} (read : keyword text s = .ok () rest) : s = text ++ rest := by
  obtain ⟨pre, post, before, behind, rfl⟩ := mark_eq_ok read
  have nothing {t : List Char} (only : Only (fun _ => false) t) : t = [] :=
    List.eq_nil_iff_forall_not_mem.mpr fun c member => Bool.false_ne_true (only c member)
  rw [nothing before, nothing behind, List.nil_append, List.append_nil]

theorem named_mild (text : List Char) : (after (keyword text) colon).Mild :=
  .bind lasting_false (mark_trims _ _ _) (mark_mild _ _ _) fun _ => mark_mild _ _ _

theorem named_trims (text : List Char) : (after (keyword text) colon).Trims :=
  (mark_trims _ _ text).bind fun _ => mark_trims isBlank isBlank [':']

theorem readWhen_mild : readWhen.Mild :=
  .map (.bind lasting_false (named_trims _) (named_mild _) fun _ => Condition.read_mild) Attribute.when

theorem readCooldown_failsOnly : readCooldown.FailsOnly Faulty := by
  intro s place failed
  rcases Reply.bind_eq_fatal.mp (Reply.map_eq_fatal.mp failed) with failed | ⟨_, number, named, failed⟩
  · exact (named_mild _ s place failed).elim
  · obtain rfl := Decimal.eq_of_read_eq_fatal failed
    obtain ⟨_, behind, word, marked⟩ := Reply.bind_eq_ok.mp named
    obtain ⟨left, right, onlyLeft, onlyRight, rfl⟩ := mark_eq_ok marked
    rw [keyword_eq_ok word]
    simp only [List.append_assoc, List.singleton_append]
    exact .mk onlyLeft onlyRight failed

theorem readAttribute_failsOnly : readAttribute.FailsOnly Faulty :=
  (readWhen_mild.failsOnly Faulty).orElse readCooldown_failsOnly

theorem further_failsOnly : (after comma readAttribute).FailsOnly Breaks := by
  intro s place failed
  rcases Reply.bind_eq_fatal.mp failed with failed | ⟨_, rest, marked, failed⟩
  · exact (mark_mild _ _ _ s place failed).elim
  · exact breaks_of_mark marked (.inr rfl) (readAttribute_failsOnly rest place failed)

theorem readAttributes_failsOnly : readAttributes.FailsOnly Breaks := by
  intro s place failed
  rcases Reply.bind_eq_fatal.mp failed with failed | ⟨_, inner, opened, failed⟩
  · exact (mark_mild _ _ _ s place failed).elim
  rcases Reply.bind_eq_fatal.mp failed with failed | ⟨_, left, _, failed⟩
  · rw [separated] at failed
    split at failed
    · cases failed
    · next found =>
      cases failed
      exact breaks_of_mark opened (.inl rfl) (readAttribute_failsOnly inner place found)
    · next first left found =>
      have behind := readAttribute_trims _ _ _ found
      have others : FailsOnly Breaks (many (after comma readAttribute)) :=
        .many lasting_breaks further_trims further_failsOnly
      have reason := others left place (Reply.map_eq_fatal.mp failed)
      exact lasting_breaks (behind.trans (mark_trims _ _ _ _ _ _ opened)) reason
  · exact (mark_mild _ _ _ left place (Reply.map_eq_fatal.mp failed)).elim

theorem further_advances : (after comma readAttribute).Advances :=
  (mark_advances _ _ _ _).bind fun _ => readAttribute_trims

/-! Names, labels, comments and line breaks. -/

theorem readName_mild : readName.Mild :=
  .bind lasting_false (Condition.identifier_takes.trims.skip isBlank) (identifier_mild.skip lasting_false isBlank)
    fun _ => nofun

theorem readName_advances : readName.Advances :=
  (identifier_advances.skip isBlank).bind fun name => skip_trims name isBlank

theorem readLabel_mild : readLabel.Mild :=
  .bind lasting_false Condition.literal_takes.trims literal_mild fun _ => nofun

theorem readComment_mild : readComment.Mild := by
  intro s place failed
  rw [readComment] at failed
  split at failed <;> cases failed

theorem readComment_advances : readComment.Advances := by
  intro s _ rest read
  obtain ⟨text, begins, rfl⟩ := readComment_begins read
  exact Nat.lt_of_le_of_lt (length_dropWhile_le _ text) (length_lt_of_dropWhile begins)

theorem readLineBreaks_mild : readLineBreaks.Mild := by
  intro s place failed
  rw [readLineBreaks] at failed
  split at failed
  · split at failed <;> cases failed
  · cases failed

theorem readLineBreaks_advances : readLineBreaks.Advances := by
  intro s _ rest read
  obtain ⟨c, tail, begins, _, rfl⟩ := readLineBreaks_eq_ok read
  have behind : (tail.dropWhile isLineBreak).dropWhile isBlank <:+ tail :=
    (List.dropWhile_suffix isBlank).trans (List.dropWhile_suffix isLineBreak)
  exact Nat.lt_of_le_of_lt behind.length_le (length_lt_of_dropWhile begins)

theorem skipLines_mild : skipLines.Mild := .many lasting_false readLineBreaks_trims readLineBreaks_mild

/-! Lines, blocks and nodes. -/

theorem readLine_advances {node : Parser Definition} (advances : node.Advances) : (readLine node).Advances :=
  have line := (readComment_advances.map fun _ => none).orElse (advances.map some)
  (line.skip isBlank).bind fun line => (many_trims readLineBreaks_trims).map fun _ => line

section Block
variable {node : Parser Definition} (trims : node.Trims)
include trims

theorem readLine_failsOnly (fails : node.FailsOnly Breaks) : (readLine node).FailsOnly Breaks :=
  have line := FailsOnly.orElse ((readComment_mild.failsOnly Breaks).map fun _ => none) (fails.map some)
  have kept := (readComment_trims.map fun _ => none).orElse (trims.map some)
  .bind lasting_breaks (kept.skip isBlank) (line.skip lasting_breaks isBlank) fun line =>
    (skipLines_mild.failsOnly Breaks).map fun _ => line

theorem readBlock_failsOnly (fails : node.FailsOnly Breaks) : (readBlock node).FailsOnly Breaks :=
  have skip := skipLines_mild.failsOnly Breaks
  have kept := many_trims (readLine_trims trims)
  have repeated := FailsOnly.many lasting_breaks (readLine_trims trims) (readLine_failsOnly trims fails)
  have lines : (readChildren node).FailsOnly Breaks :=
    .bind lasting_breaks (many_trims readLineBreaks_trims) skip fun _ =>
      .bind lasting_breaks kept repeated fun lines => skip.map fun _ => lines.filterMap id
  .bind lasting_breaks (mark_trims _ _ _) ((mark_mild _ _ _).failsOnly Breaks) fun _ =>
    .bind lasting_breaks (readChildren_trims trims) lines fun children =>
      ((mark_mild _ _ _).failsOnly Breaks).map fun _ => children

end Block

theorem read_failsOnly : FailsOnly Breaks Definition.read := by
  intro s
  induction s using read.induct with
  | case1 s ih =>
    -- The nodes of the block are read from shorter texts.
    have inner : (inside s).FailsOnly Breaks := .below ih
    intro place failed
    rw [read_eq_bind] at failed
    have tail (type : String) : (readTail s type).FailsOnly Breaks :=
      .bind lasting_breaks (optional_trims readLabel_trims) (readLabel_mild.failsOnly Breaks).optional fun label =>
        .bind lasting_breaks (optional_trims readAttributes_trims) readAttributes_failsOnly.optional fun attributes =>
          .bind lasting_breaks (optional_trims (readBlock_trims (inside_trims s)))
            (readBlock_failsOnly (inside_trims s) inner).optional fun children =>
              .map (readComment_mild.failsOnly Breaks).optional _
    exact FailsOnly.bind lasting_breaks readName_trims (readName_mild.failsOnly Breaks) tail s place failed

theorem readBlock_agree {length : Nat} {node other : Parser Definition} (trims : node.Trims)
    (agree : AgreeBelow length node other) : AgreeBelow length (readBlock node) (readBlock other) :=
  have line : AgreeBelow length (readLine node) (readLine other) :=
    .bind ((AgreeBelow.orElse _ (agree.map some)).skip isBlank)
      (((readComment_trims.map fun _ => none).orElse (trims.map some)).skip isBlank) fun _ => .refl _
  have lines : AgreeBelow length (readChildren node) (readChildren other) :=
    .bind (.refl _) (many_trims readLineBreaks_trims) fun _ =>
      line.many.bind (many_trims (readLine_trims trims)) fun _ => .refl _
  .bind (.refl _) (mark_trims _ _ _) fun _ => lines.bind (readChildren_trims trims) fun _ => .refl _

/-- Reading nodes is a recursion without a bound: the block of a node is always shorter, so the reader is never stopped
for the sake of its bound. -/
theorem read_unbounded (s : List Char) : Definition.read s =
    (readName s).bind fun type rest =>
      (Parser.optional readLabel rest).bind fun label rest =>
        (Parser.optional readAttributes rest).bind fun attributes rest =>
          (Parser.optional (readBlock Definition.read) rest).bind fun children rest =>
            (Parser.optional readComment rest).map fun _ =>
              (attributes.getD []).foldl Definition.set
                { type, label, when := none, cooldown := none, children := children.getD [] } := by
  -- A node begins with its type, so all that is behind the type is shorter than the text.
  have block : AgreeBelow s.length (readBlock (inside s)) (readBlock Definition.read) :=
    readBlock_agree (inside_trims s) (.below s Definition.read)
  have tail (type : String) : AgreeBelow s.length (readTail s type) _ :=
    .bind (.refl _) (optional_trims readLabel_trims) fun _ =>
      .bind (.refl _) (optional_trims readAttributes_trims) fun _ =>
        block.optional.bind (optional_trims (readBlock_trims (inside_trims s))) fun _ => .refl _
  rw [read_eq_bind]
  cases named : readName s with
  | ok type rest => exact tail type rest (readName_advances s type rest named)
  | stop => rfl
  | fatal place => rfl

theorem inside_advances (bound : List Char) : (inside bound).Advances := by
  intro s definition rest found
  obtain ⟨_, found⟩ := below_eq_ok found
  rw [read_eq_bind] at found
  exact readName_advances.bind (readTail_trims (inside_trims s)) s definition rest found

end Definition

namespace TreeDefinition

theorem read_trims : TreeDefinition.read.Trims :=
  (mark_trims _ _ _).bind fun _ => Definition.readName_trims.bind fun _ =>
    (mark_trims isBlank isBlank ['=']).bind fun _ => Trims.map Definition.read_trims _

theorem read_failsOnly : TreeDefinition.read.FailsOnly Definition.Breaks :=
  have mark (before after : Char → Bool) (text : List Char) := (mark_mild before after text).failsOnly Definition.Breaks
  .bind Definition.lasting_breaks (mark_trims _ _ _) (mark _ _ _) fun _ =>
    .bind Definition.lasting_breaks Definition.readName_trims (Definition.readName_mild.failsOnly _) fun _ =>
      .bind Definition.lasting_breaks (mark_trims _ _ _) (mark _ _ _) fun _ => .map Definition.read_failsOnly _

end TreeDefinition

namespace Source

theorem readComment_trims : readComment.Trims := by
  intro s _ rest read
  obtain ⟨left, comment, ends⟩ := readComment_eq_ok read
  have skipped : left <:+ s := (Definition.readComment_trims _ _ _ comment).trans (List.dropWhile_suffix isSpace)
  rcases ends with rfl | ⟨rfl, _⟩
  · exact (List.suffix_cons '\n' rest).trans skipped
  · exact skipped

theorem readComment_mild : readComment.Mild := by
  intro s place failed
  rcases Reply.bind_eq_fatal.mp failed with failed | ⟨_, left, _, failed⟩
  · exact Definition.readComment_mild _ place failed
  · split at failed <;> cases failed

theorem readStatement_trims : readStatement.Trims :=
  (readComment_trims.map fun _ => none).orElse (TreeDefinition.read_trims.map some)

theorem readStatement_failsOnly : readStatement.FailsOnly Definition.Breaks :=
  ((readComment_mild.failsOnly _).map fun _ => none).orElse (TreeDefinition.read_failsOnly.map some)

theorem readStatement_advances : readStatement.Advances :=
  fun _ _ _ read => Nat.lt_of_lt_of_le (readStatement_begins read).1 (length_dropWhile_le isSpace _)

theorem readStatement_eq_stop {s : List Char} (stops : readStatement s = .stop) :
    readComment s = .stop ∧ TreeDefinition.read s = .stop :=
  (orElse_eq_stop stops).imp Reply.map_eq_stop.mp Reply.map_eq_stop.mp

theorem stops_of_rounds {s rest : List Char} {statements : List (Option TreeDefinition)}
    (rounds : Rounds readStatement s statements rest) : readStatement rest = .stop := by
  induction rounds with
  | none stops => exact stops
  | more _ _ _ ih => exact ih

/-- Every reader that the grammar repeats takes something in each round. -/
structure Progress : Prop where
  operands (bound : List Char) : (after (mark isSpace ['&', '&'] isSpace) (Condition.within bound .factor)).Advances
  alternatives (bound : List Char) :
    (after (mark isSpace ['|', '|'] isSpace) (Condition.within bound .conjunction)).Advances
  attributes : (after Definition.comma Definition.readAttribute).Advances
  lineBreaks : Definition.readLineBreaks.Advances
  lines (bound : List Char) : (Definition.readLine (Definition.inside bound)).Advances
  statements : readStatement.Advances

theorem progress : Progress where
  operands bound := Condition.operand_advances (Condition.within_takes bound .factor).trims _ _
  alternatives bound := Condition.operand_advances (Condition.within_takes bound .conjunction).trims _ _
  attributes := Definition.further_advances
  lineBreaks := Definition.readLineBreaks_advances
  lines bound := Definition.readLine_advances (Definition.inside_advances bound)
  statements := readStatement_advances

/-- The end of a text at which no white space, comment or tree begins. Read on its own, it is left as it is. -/
structure LeftOver (text rest : List Char) : Prop where
  suffix : rest <:+ text
  begins : ∀ c, rest.head? = some c → isSpace c = false
  noComment : readComment rest = .stop
  noTree : TreeDefinition.read rest = .stop
  again : ofText (String.ofList rest) = .ok (⟨[]⟩, rest)

theorem leftOver_of_rounds {s rest : List Char} {statements : List (Option TreeDefinition)}
    (rounds : Rounds readStatement s statements rest) : LeftOver s (rest.dropWhile isSpace) := by
  -- White space in front of it does not change what a statement is.
  have stops : readStatement (rest.dropWhile isSpace) = .stop :=
    (readStatement_congr (List.dropWhile_idempotent isSpace rest)).trans (stops_of_rounds rounds)
  refine ⟨(List.dropWhile_suffix isSpace).trans (rounds.suffix readStatement_trims), fun c here => ?_,
    (readStatement_eq_stop stops).1, (readStatement_eq_stop stops).2, ?_⟩
  · have kept := List.head?_dropWhile_not isSpace rest
    rw [here] at kept
    exact kept
  · have nothing : Source.read (rest.dropWhile isSpace) = .ok ⟨[]⟩ (rest.dropWhile isSpace) := by
      rw [Source.read, many_of_stop stops, Reply.bind_ok, List.dropWhile_idempotent]
      rfl
    rw [ofText, String.toList_ofList, nothing]

/-- Reading a text always ends, with trees and a rest that nothing can be read from, or at the number of a cooldown.
It is never refused for another reason, and no repetition runs without taking something. -/
theorem ofText_ends (text : String) : Progress ∧
    ((∃ source rest, ofText text = .ok (source, rest) ∧ LeftOver text.toList rest) ∨
      ∃ place, ofText text = .error (.number place) ∧ Definition.Breaks text.toList place) := by
  refine ⟨progress, ?_⟩
  cases repeated : many readStatement text.toList with
  | stop => exact absurd repeated (readStatement_advances.many_ne_stop _)
  | fatal place =>
    refine .inr ⟨place, by rw [ofText, Source.read, repeated, Reply.bind_fatal], ?_⟩
    exact FailsOnly.many Definition.lasting_breaks readStatement_trims readStatement_failsOnly _ place repeated
  | ok statements rest =>
    refine .inl ⟨⟨statements.filterMap id⟩, rest.dropWhile isSpace, ?_, leftOver_of_rounds (rounds_of_many repeated)⟩
    rw [ofText, Source.read, repeated, Reply.bind_ok]

example : ofText "tree watch = guard (cooldown: 1e)" = .error (.number "1e)".toList) := by
  with_unfolding_all rfl

end Source

end BehaviorTree
