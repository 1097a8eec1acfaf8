import BehaviorTree.Parser
import Mathlib.Data.List.TakeWhile

/-! What readers take off a text. A reader is sound for a form if whatever it takes has this form. The other
way round, a text of this form is read to its end if what follows cannot be taken for more of it; readers
may leave more or less of the white space that follows, so that is compared without it. -/

set_option autoImplicit false

namespace BehaviorTree

open Text

variable {α β : Type}

namespace Text

abbrev Only (p : Char → Bool) (text : List Char) : Prop := ∀ c ∈ text, p c = true

-- There are finitely many characters, but too many to be gone through instead of the text.
instance decidableForallMem {p : Char → Prop} [DecidablePred p] (text : List Char) : Decidable (∀ c ∈ text, p c) :=
  List.decidableBAll p text

theorem only_nil (p : Char → Bool) : Only p [] := nofun

theorem only_takeWhile (p : Char → Bool) (s : List Char) : Only p (s.takeWhile p) := fun _ => List.mem_takeWhile_imp

theorem isSpace_of_isBlank {c : Char} (blank : isBlank c = true) : isSpace c = true := by
  rw [isSpace, blank, Bool.true_or]

theorem isSpace_of_isLineBreak {c : Char} (breaks : isLineBreak c = true) : isSpace c = true := by
  rw [isSpace, breaks, Bool.or_true]

theorem dropWhile_dropWhile {narrow wide : Char → Bool} (within : ∀ c, narrow c = true → wide c = true)
    (s : List Char) : (s.dropWhile narrow).dropWhile wide = s.dropWhile wide := by
  have split : s.takeWhile narrow ++ s.dropWhile narrow = s := List.takeWhile_append_dropWhile
  have skipped : Only wide (s.takeWhile narrow) := fun c member => within c (only_takeWhile narrow s c member)
  exact (List.dropWhile_append_of_pos skipped).symm.trans (congrArg (List.dropWhile wide) split)

theorem dropWhile_isSpace_dropWhile_isBlank (s : List Char) :
    (s.dropWhile isBlank).dropWhile isSpace = s.dropWhile isSpace :=
  dropWhile_dropWhile (fun _ => isSpace_of_isBlank) s

theorem dropWhile_append_cons {p : Char → Bool} {skipped : List Char} (only : Only p skipped) {c : Char}
    (other : p c = false) (s : List Char) : (skipped ++ c :: s).dropWhile p = c :: s := by
  rw [List.dropWhile_append_of_pos only, List.dropWhile_cons_of_neg (by simp [other])]

theorem dropWhile_blank_cons {c : Char} (other : isBlank c = false) (s : List Char) :
    (' ' :: c :: s).dropWhile isBlank = c :: s := by
  rw [List.dropWhile_cons_of_pos rfl, List.dropWhile_cons_of_neg (by simp [other])]

theorem takeWhile_append_cons {p : Char → Bool} {kept : List Char} (only : Only p kept) {c : Char}
    (other : p c = false) (s : List Char) : (kept ++ c :: s).takeWhile p = kept := by
  rw [List.takeWhile_append_of_pos only, List.takeWhile_cons_of_neg (by simp [other]), List.append_nil]

end Text

namespace Parser

theorem word?_eq_some {text s rest : List Char} : word? text s = some rest ↔ s = text ++ rest := by
  induction text generalizing s with
  | nil => simp [word?, eq_comm]
  | cons c cs ih =>
    cases s with
    | nil => simp [word?]
    | cons d s =>
      by_cases same : c = d
      · simp [word?, same, ih]
      · simp [word?, same, Ne.symm same]

theorem mark_eq_ok {before after : Char → Bool} {text s rest : List Char}
    (read : mark before text after s = .ok () rest) :
    ∃ pre post, Only before pre ∧ Only after post ∧ s = pre ++ text ++ post ++ rest := by
  rw [mark] at read
  split at read
  · next left found =>
    cases read
    refine ⟨s.takeWhile before, left.takeWhile after, only_takeWhile before s, only_takeWhile after left, ?_⟩
    rw [List.append_assoc, List.append_assoc, List.takeWhile_append_dropWhile, ← word?_eq_some.mp found,
      List.takeWhile_append_dropWhile]
  · cases read

theorem mark_of_append {before after : Char → Bool} {text s rest : List Char}
    (begins : s.dropWhile before = text ++ rest) : mark before text after s = .ok () (rest.dropWhile after) := by
  rw [mark, word?_eq_some.mpr begins]

theorem mark_eq_stop {before after : Char → Bool} {c : Char} {text s : List Char}
    (other : (s.dropWhile before).head? ≠ some c) : mark before (c :: text) after s = .stop := by
  rw [mark]
  split
  · next rest found =>
    rw [word?_eq_some.mp found] at other
    exact absurd rfl other
  · rfl

theorem optional_of_ok {parser : Parser α} {s rest : List Char} {value : α} (read : parser s = .ok value rest) :
    Parser.optional parser s = .ok (some value) rest := by
  rw [Parser.optional, read]

theorem optional_of_stop {parser : Parser α} {s : List Char} (stops : parser s = .stop) :
    Parser.optional parser s = .ok none s := by
  rw [Parser.optional, stops]

/-- Whatever the reader takes off a text has this form. -/
def Takes (parser : Parser α) (form : List Char → α → Prop) : Prop :=
  ∀ s value rest, parser s = .ok value rest → ∃ used, s = used ++ rest ∧ form used value

theorem Takes.mono {parser : Parser α} {narrow wide : List Char → α → Prop} (takes : parser.Takes narrow)
    (within : ∀ used value, narrow used value → wide used value) : parser.Takes wide := by
  intro s value rest read
  obtain ⟨used, split, form⟩ := takes s value rest read
  exact ⟨used, split, within used value form⟩

theorem many_of_stop {parser : Parser α} {s : List Char} (stops : parser s = .stop) : many parser s = .ok [] s := by
  rw [many, stops]

theorem many_of_ok {parser : Parser α} {s rest : List Char} {value : α} (read : parser s = .ok value rest)
    (shorter : rest.length < s.length) : many parser s = (many parser rest).map (value :: ·) := by
  rw [many, read]
  exact if_pos shorter

end Parser

namespace Reply

theorem bind_eq_ok {reply : Reply α} {next : α → List Char → Reply β} {value : β} {rest : List Char} :
    reply.bind next = .ok value rest ↔ ∃ inner left, reply = .ok inner left ∧ next inner left = .ok value rest := by
  cases reply with
  | ok inner left =>
    constructor
    · exact fun ends => ⟨inner, left, rfl, ends⟩
    · rintro ⟨_, _, ran, ends⟩
      cases ran
      exact ends
  | stop | fatal => simp

theorem map_eq_ok {f : α → β} {reply : Reply α} {value : β} {rest : List Char} :
    reply.map f = .ok value rest ↔ ∃ inner, reply = .ok inner rest ∧ f inner = value := by
  cases reply with
  | ok inner left =>
    constructor
    · intro ends
      cases ends
      exact ⟨inner, rfl, rfl⟩
    · rintro ⟨_, ran, rfl⟩
      cases ran
      rfl
  | stop | fatal => simp

/-- The value has been read, and nothing but white space more or less than it. -/
def Reads (reply : Reply α) (value : α) (rest : List Char) : Prop :=
  ∃ left, reply = .ok value left ∧ left.dropWhile isSpace = rest.dropWhile isSpace

theorem Reads.map {reply : Reply α} {value : α} {rest : List Char} (reads : reply.Reads value rest) (f : α → β) :
    (reply.map f).Reads (f value) rest := by
  obtain ⟨left, rfl, same⟩ := reads
  exact ⟨left, rfl, same⟩

end Reply

end BehaviorTree
