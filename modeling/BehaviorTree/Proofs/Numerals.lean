import BehaviorTree.Decimal.Numeral
import BehaviorTree.Proofs.Readers

/-! Numbers in front of other text. Every step of reading a numeral takes the same characters whether the text
ends after them or goes on with one that no numeral has. -/

set_option autoImplicit false

namespace BehaviorTree

open Text BehaviorTree.Parser

def Reply.before {α : Type} (more : List Char) : Reply α → Reply α
  | .ok value rest => .ok value (rest ++ more)
  | .stop => .stop
  | .fatal place => .fatal (place ++ more)

namespace Decimal

def isPart (c : Char) : Bool := c.isDigit || c == '+' || c == '-' || c == '.' || c == 'e' || c == 'E'

section Append

variable {c : Char} {more : List Char}

theorem splitSign_append (other : isPart c = false) (s : List Char) :
    splitSign (s ++ c :: more) = ((splitSign s).1, (splitSign s).2 ++ c :: more) := by
  cases s with
  | nil =>
    simp only [isPart, Bool.or_eq_false_iff, beq_eq_false_iff_ne] at other
    simp [splitSign, other]
  | cons d s =>
    rw [List.cons_append, splitSign.eq_def, splitSign.eq_def]
    split <;> simp_all

theorem splitDigits_append (other : isPart c = false) (s : List Char) :
    splitDigits (s ++ c :: more) = ((splitDigits s).1, (splitDigits s).2 ++ c :: more) := by
  have noDigit : c.isDigit = false := by
    simp only [isPart, Bool.or_eq_false_iff] at other
    exact other.1.1.1.1.1
  simp only [splitDigits, Prod.mk.injEq]
  induction s with
  | nil => simp [noDigit]
  | cons d s ih => cases digit : d.isDigit <;> simp [digit, ih]

theorem splitSignificand_append (other : isPart c = false) (s : List Char) :
    splitSignificand (s ++ c :: more) = (splitSignificand s).map fun (parts, rest) => (parts, rest ++ c :: more) := by
  have noPoint : c ≠ '.' := by
    rintro rfl
    cases other
  rw [splitSignificand, splitSignificand, splitDigits_append other]
  rcases splitDigits s with ⟨whole, rest⟩
  cases rest with
  | nil => cases whole <;> simp [noPoint]
  | cons d rest =>
    by_cases point : d = '.'
    · subst point
      cases whole <;> simp only [List.cons_append, splitDigits_append other] <;>
        rcases splitDigits rest with ⟨fraction, rest⟩ <;> cases fraction <;> rfl
    · cases whole <;> simp [point]

theorem readExponent_append (other : isPart c = false) (s : List Char) :
    readExponent (s ++ c :: more) = (readExponent s).before (c :: more) := by
  cases s with
  | nil =>
    simp only [isPart, Bool.or_eq_false_iff, beq_eq_false_iff_ne] at other
    simp [readExponent, other, Reply.before]
  | cons letter s =>
    simp only [List.cons_append, readExponent, splitSign_append other, splitDigits_append other]
    split
    · rcases splitDigits (splitSign s).2 with ⟨digits, rest⟩
      cases digits <;> rfl
    · rfl

theorem Numeral.read_append (other : isPart c = false) (s : List Char) :
    Numeral.read (s ++ c :: more) = (Numeral.read s).before (c :: more) := by
  simp only [Numeral.read, splitSign_append other, splitSignificand_append other]
  rcases splitSignificand (splitSign s).2 with _ | ⟨⟨whole, fraction⟩, rest⟩
  · rfl
  · simp only [Option.map_some, readExponent_append other]
    cases readExponent rest <;> rfl

theorem wordInAnyCase?_append {text s rest : List Char} (found : wordInAnyCase? text s = some rest)
    (more : List Char) : wordInAnyCase? text (s ++ more) = some (rest ++ more) := by
  induction text generalizing s with
  | nil => simpa [wordInAnyCase?] using found
  | cons d ds ih =>
    cases s with
    | nil => cases found
    | cons e s =>
      simp only [wordInAnyCase?, List.cons_append] at found ⊢
      split at found
      · next same => rw [if_pos same, ih found]
      · cases found

theorem wordInAnyCase?_eq_none {d e : Char} {ds es s rest : List Char} (found : wordInAnyCase? (d :: ds) s = some rest)
    (different : e ≠ d) (more : List Char) : wordInAnyCase? (e :: es) (s ++ more) = none := by
  cases s with
  | nil => cases found
  | cons first s =>
    rw [wordInAnyCase?] at found
    split at found
    · next same => rw [List.cons_append, wordInAnyCase?, if_neg fun as => different (as.trans same.symm)]
    · cases found

/-- A number ends where it ended if what follows does not go on with it. -/
theorem read_append {numeral rest : List Char} {seconds : Float} (read : Decimal.read numeral = .ok seconds rest)
    (other : isPart c = false) (more : List Char) :
    Decimal.read (numeral ++ c :: more) = .ok seconds (rest ++ c :: more) := by
  rw [Decimal.read] at read ⊢
  rw [Numeral.read_append other]
  cases digits : Numeral.read numeral with
  | ok number rest =>
    rw [digits] at read
    cases read
    rfl
  | fatal place =>
    rw [digits] at read
    cases read
  -- Without a numeral there may be a word, and it ends where it ended.
  | stop =>
    simp only [digits, Reply.before] at read ⊢
    cases nan : wordInAnyCase? ['n', 'a', 'n'] numeral with
    | some rest =>
      rw [nan] at read
      cases read
      rw [wordInAnyCase?_append nan]
    | none =>
      rw [nan] at read
      cases inf : wordInAnyCase? ['i', 'n', 'f'] numeral with
      | some rest =>
        rw [inf] at read
        cases read
        rw [wordInAnyCase?_eq_none inf (by decide), wordInAnyCase?_append inf]
      | none =>
        rw [inf] at read
        cases read

end Append

theorem dropWhile_isBlank_of_read {s rest : List Char} {seconds : Float} (read : Decimal.read s = .ok seconds rest) :
    s.dropWhile isBlank = s := by
  cases s with
  | nil => rfl
  | cons c s =>
    cases blank : isBlank c with
    | false => rw [List.dropWhile_cons_of_neg (by simp [blank])]
    | true =>
      simp only [isBlank, Bool.or_eq_true, beq_iff_eq] at blank
      rcases blank with rfl | rfl <;>
        simp [Decimal.read, Numeral.read, splitSign, splitSignificand, splitDigits, wordInAnyCase?] at read

end Decimal

end BehaviorTree
