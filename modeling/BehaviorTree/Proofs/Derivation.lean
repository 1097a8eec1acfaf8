import BehaviorTree.Condition.Grammar
import BehaviorTree.Proofs.Readers

/-! The grammar of conditions, and that reading a condition finds exactly its derivations. White space may
surround a condition and its operators; before a factor, and around the parenthesis of an argument, blanks
may stand. The grammar leaves open which rule a blank belongs to, but every text has at most one tree. -/

set_option autoImplicit false

namespace BehaviorTree

open Text BehaviorTree.Parser

namespace Condition

def IsName (text : List Char) : Prop :=
  ∃ c rest, text = c :: rest ∧ isNameStart c = true ∧ Only isNamePart rest

/-- A text in quotes and parentheses, and what it means. -/
inductive Argument : List Char → String → Prop where
  | mk {outside inside quoted behind after : List Char} : Only isBlank outside → Only isSpace inside →
      Only isNotQuote quoted → Only isSpace behind → Only isBlank after →
      Argument (outside ++ '(' :: (inside ++ '"' :: (quoted ++ '"' :: (behind ++ ')' :: after))))
        (String.ofList (Literal.decode quoted))

/-- An operand that follows an operator, and the white space around the operator. -/
structure Operand where
  before : List Char
  after : List Char
  text : List Char
  tree : Condition
  only_before : Only isSpace before
  only_after : Only isSpace after

def Operand.written (operator : List Char) (operand : Operand) : List Char :=
  operand.before ++ operator ++ operand.after ++ operand.text

/-- How tightly what a text holds is bound. -/
inductive Level where
  | factor
  | conjunction
  | disjunction

/-- The text has this tree at this level. -/
inductive Derives : Level → List Char → Condition → Prop where
  | not {blanks gap text : List Char} {operand : Condition} : Only isBlank blanks → Only isBlank gap →
      Derives .factor text operand → Derives .factor (blanks ++ '!' :: (gap ++ text)) (.not operand)
  | nested {blanks before text after : List Char} {inner : Condition} : Only isBlank blanks → Only isSpace before →
      Derives .disjunction text inner → Only isSpace after →
      Derives .factor (blanks ++ '(' :: (before ++ text ++ after ++ [')'])) inner
  | atom {blanks name : List Char} : Only isBlank blanks → IsName name →
      Derives .factor (blanks ++ name) (.atom (String.ofList name) none)
  | atomWith {blanks name written : List Char} {argument : String} : Only isBlank blanks → IsName name →
      Argument written argument →
      Derives .factor (blanks ++ (name ++ written)) (.atom (String.ofList name) (some argument))
  | conjunction {text : List Char} {first : Condition} {others : List Operand} : Derives .factor text first →
      (∀ operand ∈ others, Derives .factor operand.text operand.tree) →
      Derives .conjunction (text ++ others.flatMap (Operand.written ['&', '&']))
        ((others.map Operand.tree).foldl .and first)
  | disjunction {text : List Char} {first : Condition} {others : List Operand} : Derives .conjunction text first →
      (∀ operand ∈ others, Derives .conjunction operand.text operand.tree) →
      Derives .disjunction (text ++ others.flatMap (Operand.written ['|', '|']))
        ((others.map Operand.tree).foldl .or first)

/-- A whole text with this tree. -/
def Complete (text : List Char) (tree : Condition) : Prop :=
  ∃ before inner after, Only isSpace before ∧ Derives .disjunction inner tree ∧ Only isSpace after ∧
    text = before ++ inner ++ after

/-! Whatever is read has a derivation. -/

theorem identifier_takes : (identifier).Takes fun used name => IsName used ∧ name = String.ofList used := by
  intro s name rest read
  cases s with
  | nil => cases read
  | cons c s =>
    rw [identifier] at read
    split at read
    · next starts =>
      cases read
      exact ⟨c :: s.takeWhile isNamePart, by simp, ⟨c, _, rfl, starts, only_takeWhile isNamePart s⟩, rfl⟩
    · cases read

theorem literal_takes : (literal).Takes fun used text =>
    ∃ quoted, Only isNotQuote quoted ∧ used = '"' :: (quoted ++ ['"']) ∧
      text = String.ofList (Literal.decode quoted) := by
  intro s text rest read
  rw [literal.eq_def] at read
  split at read
  · next inside =>
    split at read
    · next quote left found =>
      cases read
      have split : inside.takeWhile isNotQuote ++ inside.dropWhile isNotQuote = inside :=
        List.takeWhile_append_dropWhile
      have closing : quote = '"' := by
        have stops := List.dropWhile_get_zero_not isNotQuote inside (by simp [found])
        simpa [found, isNotQuote] using stops
      refine ⟨'"' :: (inside.takeWhile isNotQuote ++ ['"']), ?_, _, only_takeWhile isNotQuote inside, rfl, rfl⟩
      conv => lhs; rw [← split, found, closing]
      simp
    · cases read
  · cases read

theorem argument_takes : (argument).Takes Argument := by
  intro s text rest read
  simp only [argument, Reply.bind_eq_ok, Reply.map_eq_ok] at read
  obtain ⟨_, first, opened, literal, second, quoted, _, closed, rfl⟩ := read
  obtain ⟨outside, inside, onlyOutside, onlyInside, rfl⟩ := mark_eq_ok opened
  obtain ⟨_, rfl, quoted, onlyQuoted, rfl, rfl⟩ := literal_takes _ _ _ quoted
  obtain ⟨behind, after, onlyBehind, onlyAfter, rfl⟩ := mark_eq_ok closed
  exact ⟨_, by simp, .mk onlyOutside onlyInside onlyQuoted onlyBehind onlyAfter⟩

theorem readAtom_takes {blanks : List Char} (blank : Only isBlank blanks) :
    Takes readAtom fun used tree => Derives .factor (blanks ++ used) tree := by
  intro s tree rest read
  simp only [readAtom, Reply.bind_eq_ok, Reply.map_eq_ok] at read
  obtain ⟨name, left, identified, given, asked, rfl⟩ := read
  obtain ⟨text, rfl, isName, rfl⟩ := identifier_takes _ _ _ identified
  rw [Parser.optional] at asked
  split at asked
  · next answer _ argued =>
    cases asked
    obtain ⟨written, rfl, argument⟩ := argument_takes _ _ _ argued
    exact ⟨text ++ written, (List.append_assoc ..).symm, .atomWith blank isName argument⟩
  · cases asked
    exact ⟨text, rfl, .atom blank isName⟩
  · cases asked

section Factor

variable {nested : Parser Condition} {s rest : List Char}

theorem readFactor_not (start : s.dropWhile isBlank = '!' :: rest) :
    readFactor nested s = (readFactor nested rest).map .not := by
  rw [readFactor]
  split
  · next other same =>
    rw [start] at same
    cases same
    rfl
  · next other same =>
    rw [start] at same
    cases same
  · next noNot _ => exact absurd start (noNot rest)

theorem readFactor_nested (start : s.dropWhile isBlank = '(' :: rest) : readFactor nested s =
    (nested (rest.dropWhile isSpace)).bind fun inner rest => (closeNested rest).map fun _ => inner := by
  rw [readFactor]
  split
  · next other same =>
    rw [start] at same
    cases same
  · next other same =>
    rw [start] at same
    cases same
    rfl
  · next noNested => exact absurd start (noNested rest)

theorem readFactor_atom (noNot : ∀ rest, s.dropWhile isBlank ≠ '!' :: rest)
    (noNested : ∀ rest, s.dropWhile isBlank ≠ '(' :: rest) : readFactor nested s = readAtom (s.dropWhile isBlank) := by
  rw [readFactor]
  split
  · next rest start => exact absurd start (noNot rest)
  · next rest start => exact absurd start (noNested rest)
  · rfl

end Factor

theorem readFactor_takes {nested : Parser Condition} (sound : Takes nested (Derives .disjunction)) :
    Takes (readFactor nested) (Derives .factor) := by
  intro s
  have skipped (t : List Char) : t.takeWhile isBlank ++ t.dropWhile isBlank = t := List.takeWhile_append_dropWhile
  have blank (t : List Char) : Only isBlank (t.takeWhile isBlank) := only_takeWhile isBlank t
  induction s using readFactor.induct with
  | case1 s after start _ ih =>
    intro tree rest read
    rw [readFactor_not start, Reply.map_eq_ok] at read
    obtain ⟨operand, inner, rfl⟩ := read
    obtain ⟨used, rfl, derives⟩ := ih operand rest inner
    refine ⟨s.takeWhile isBlank ++ '!' :: used, ?_, .not (blank s) (show Only isBlank [] from nofun) derives⟩
    rw [List.append_assoc, List.cons_append, ← start, skipped]
  | case2 s after start =>
    intro tree rest read
    simp only [readFactor_nested start, Reply.bind_eq_ok, Reply.map_eq_ok] at read
    obtain ⟨inner, left, inside, _, closed, rfl⟩ := read
    obtain ⟨used, split, derives⟩ := sound _ _ _ inside
    obtain ⟨before, none, onlyBefore, onlyNone, rfl⟩ := mark_eq_ok closed
    obtain rfl : none = [] := List.eq_nil_iff_forall_not_mem.mpr fun c member => by simpa using onlyNone c member
    refine ⟨s.takeWhile isBlank ++ '(' :: (after.takeWhile isSpace ++ used ++ before ++ [')']), ?_,
      .nested (blank s) (only_takeWhile isSpace after) derives onlyBefore⟩
    calc s = s.takeWhile isBlank ++ '(' :: after := by rw [← start, skipped]
      _ = s.takeWhile isBlank ++ '(' :: (after.takeWhile isSpace ++ (used ++ (before ++ [')'] ++ [] ++ rest))) := by
        rw [← split, List.takeWhile_append_dropWhile]
      _ = _ := by simp
  | case3 s noNot noNested =>
    intro tree rest read
    rw [readFactor_atom noNot noNested] at read
    obtain ⟨used, split, derives⟩ := readAtom_takes (blank s) _ _ _ read
    exact ⟨_, by rw [List.append_assoc, ← split, skipped], derives⟩

section Chain

variable {operator : List Char} {join : Condition → Condition → Condition} {operand : Parser Condition}
variable {form : List Char → Condition → Prop}

theorem many_takes (takes : Takes operand form) :
    Takes (many (after (mark isSpace operator isSpace) operand)) fun used trees =>
      ∃ others : List Operand, (∀ other ∈ others, form other.text other.tree) ∧
        used = others.flatMap (Operand.written operator) ∧ trees = others.map Operand.tree := by
  intro s
  induction s using many.induct (after (mark isSpace operator isSpace) operand) with
  | case1 s stops =>
    intro trees rest read
    rw [many_of_stop stops] at read
    cases read
    exact ⟨[], rfl, [], nofun, rfl, rfl⟩
  | case2 s place fails =>
    intro trees rest read
    rw [many, fails] at read
    cases read
  | case3 s tree left first shorter ih =>
    intro trees rest read
    rw [many_of_ok first shorter, Reply.map_eq_ok] at read
    obtain ⟨others, more, rfl⟩ := read
    obtain ⟨_, split, parts, each, rfl, rfl⟩ := ih _ _ more
    simp only [Parser.after, Reply.bind_eq_ok] at first
    obtain ⟨_, middle, marked, taken⟩ := first
    obtain ⟨before, behind, onlyBefore, onlyBehind, rfl⟩ := mark_eq_ok marked
    obtain ⟨text, rfl, shape⟩ := takes _ _ _ taken
    refine ⟨_, ?_, ⟨before, behind, text, tree, onlyBefore, onlyBehind⟩ :: parts, ?_, rfl, rfl⟩
    · simp [split, Operand.written]
    · exact List.forall_mem_cons.mpr ⟨shape, each⟩
  | case4 s tree left first longer =>
    intro trees rest read
    rw [many, first] at read
    simp only [longer, if_false] at read
    cases read

theorem readChain_takes (takes : Takes operand form) :
    Takes (readChain operator join operand) fun used tree =>
      ∃ text first, ∃ others : List Operand, form text first ∧ (∀ other ∈ others, form other.text other.tree) ∧
        used = text ++ others.flatMap (Operand.written operator) ∧
        tree = (others.map Operand.tree).foldl join first := by
  intro s tree rest read
  simp only [readChain, Reply.bind_eq_ok, Reply.map_eq_ok] at read
  obtain ⟨first, left, begun, trees, more, rfl⟩ := read
  obtain ⟨text, rfl, shape⟩ := takes _ _ _ begun
  obtain ⟨_, rfl, others, each, rfl, rfl⟩ := many_takes takes _ _ _ more
  exact ⟨_, (List.append_assoc ..).symm, text, first, others, shape, each, rfl, rfl⟩

end Chain

/-- The readers of the three levels, where nested conditions are shorter than a bound. -/
def within (bound : List Char) : Level → Parser Condition
  | .factor => readFactor (below bound fun rest _ => read rest)
  | .conjunction => readChain ['&', '&'] .and (readFactor (below bound fun rest _ => read rest))
  | .disjunction =>
    readChain ['|', '|'] .or (readChain ['&', '&'] .and (readFactor (below bound fun rest _ => read rest)))

theorem read_eq (s : List Char) : read s = within s .disjunction s := by
  rw [read]
  rfl

theorem within_takes_of_shorter {bound : List Char} (shorter : ∀ s : List Char, s.length < bound.length → ∀ tree rest,
    read s = .ok tree rest → ∃ used, s = used ++ rest ∧ Derives .disjunction used tree) (level : Level) :
    Takes (within bound level) (Derives level) := by
  have nested : Takes (below bound fun rest _ => read rest) (Derives .disjunction) := by
    intro s tree rest read
    rw [below] at read
    split at read
    · next short => exact shorter s short tree rest read
    · cases read
  have factor := readFactor_takes nested
  have conjunction : Takes (within bound .conjunction) (Derives .conjunction) := by
    refine (readChain_takes factor).mono ?_
    rintro _ _ ⟨text, first, others, shape, each, rfl, rfl⟩
    exact .conjunction shape each
  cases level with
  | factor => exact factor
  | conjunction => exact conjunction
  | disjunction =>
    refine (readChain_takes conjunction).mono ?_
    rintro _ _ ⟨text, first, others, shape, each, rfl, rfl⟩
    exact .disjunction shape each

theorem read_takes : Takes read (Derives .disjunction) := by
  intro s
  induction s using read.induct with
  | case1 s ih =>
    intro tree rest taken
    rw [read_eq] at taken
    exact within_takes_of_shorter ih .disjunction s tree rest taken

theorem within_takes (bound : List Char) (level : Level) : Takes (within bound level) (Derives level) :=
  within_takes_of_shorter (fun s _ => read_takes s) level

theorem complete_of_ofText? {text : String} {tree : Condition} (found : ofText? text = some tree) :
    Complete text.toList tree := by
  rw [ofText?] at found
  split at found
  · next condition rest taken =>
    split at found
    · next ends =>
      cases found
      obtain ⟨used, split, derives⟩ := read_takes _ _ _ taken
      refine ⟨text.toList.takeWhile isSpace, used, rest, only_takeWhile isSpace _, derives, ?_, ?_⟩
      · exact List.dropWhile_eq_nil_iff.mp (List.isEmpty_iff.mp ends)
      · rw [List.append_assoc, ← split, List.takeWhile_append_dropWhile]
    · cases found
  · cases found

end Condition

end BehaviorTree
