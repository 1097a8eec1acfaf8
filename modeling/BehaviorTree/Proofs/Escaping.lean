import BehaviorTree.Proofs.RoundTrip

/-! Escaping a text so that it can stand between quotes: every backslash is doubled, and every line feed becomes a
backslash and an `n`. Reading undoes the two by one replacement after the other over the whole text. The first
leaves a single backslash for every backslash of the text, so the second cannot tell one that is followed by an
`n` from a line feed that was escaped, and breaks the line at both. -/

set_option autoImplicit false

namespace BehaviorTree

open Text

namespace Literal

def spellBreak (c : Char) : List Char := if c = '\n' then ['\\', 'n'] else [c]

def escape (c : Char) : List Char := if c = '\\' then ['\\', '\\'] else spellBreak c

def encode (text : String) : String := String.ofList (text.toList.flatMap escape)

/-- What is read where the escaped text stands. -/
def restored (text : String) : String := String.ofList (breakLines text.toList)

@[simp] theorem toList_encode (text : String) : (encode text).toList = text.toList.flatMap escape :=
  String.toList_ofList

theorem spellBreak_of_ne {c : Char} (other : c ≠ '\n') : spellBreak c = [c] := if_neg other

theorem joinBackslashes_flatMap_escape (text : List Char) :
    joinBackslashes (text.flatMap escape) = text.flatMap spellBreak := by
  -- A pair of backslashes is found only where a backslash of the text was doubled.
  induction text with
  | nil => rfl
  | cons c text ih =>
    rw [List.flatMap_cons, List.flatMap_cons, ← ih]
    by_cases backslash : c = '\\'
    · subst backslash
      rfl
    by_cases lineFeed : c = '\n'
    · subst lineFeed
      exact congrArg ('\\' :: ·) (joinBackslashes.eq_2 'n' _ fun _ same _ => absurd same (by decide))
    · rw [escape, if_neg backslash, spellBreak_of_ne lineFeed]
      exact joinBackslashes.eq_2 c _ fun _ same _ => backslash same

/-- A line break that is spelled out begins with a backslash, so it brings no `n` behind the character before. -/
theorem head?_flatMap_spellBreak {text : List Char} (other : text.head? ≠ some 'n') :
    (text.flatMap spellBreak).head? ≠ some 'n' := by
  cases text with
  | nil => exact other
  | cons c text =>
    rw [List.flatMap_cons, spellBreak]
    split
    · exact fun same => absurd (Option.some.inj same) (by decide)
    · exact other

theorem breakLines_cons_of_head?_ne {text : List Char} (c : Char) (other : text.head? ≠ some 'n') :
    breakLines (c :: text) = c :: breakLines text :=
  breakLines.eq_2 c text fun _ _ same => other (same ▸ rfl)

theorem breakLines_flatMap_spellBreak (text : List Char) : breakLines (text.flatMap spellBreak) = breakLines text := by
  fun_induction breakLines text with
  | case1 text ih => exact congrArg ('\n' :: ·) ih
  | case2 c text other ih =>
    rw [List.flatMap_cons, ← ih]
    by_cases lineFeed : c = '\n'
    · subst lineFeed
      rfl
    rw [spellBreak_of_ne lineFeed, List.singleton_append]
    by_cases backslash : c = '\\'
    · refine breakLines_cons_of_head?_ne c (head?_flatMap_spellBreak fun here => ?_)
      obtain ⟨rest, same⟩ := List.head?_eq_some_iff.mp here
      exact other rest backslash same
    · exact breakLines.eq_2 c _ fun _ same _ => backslash same
  | case3 => rfl

/-- Reading an escaped text breaks the lines of the text itself. -/
theorem decode_encode (text : String) : String.ofList (decode (encode text).toList) = restored text := by
  rw [toList_encode, decode, joinBackslashes_flatMap_escape, breakLines_flatMap_spellBreak, restored]

theorem breakLines_eq_self_iff (text : List Char) : breakLines text = text ↔ ¬ ['\\', 'n'] <:+: text := by
  fun_induction breakLines text with
  -- The text began with a backslash, and it does no longer.
  | case1 text ih =>
    refine ⟨fun same => ?_, fun without => absurd ⟨[], text, rfl⟩ without⟩
    cases same
  | case2 c text other ih =>
    have notHere : ¬ ['\\', 'n'] <+: c :: text := by
      rintro ⟨rest, same⟩
      cases same
      exact other rest rfl rfl
    rw [List.cons.injEq, List.infix_cons_iff, ih]
    exact ⟨fun parts => not_or.mpr ⟨notHere, parts.2⟩, fun without => ⟨rfl, (not_or.mp without).2⟩⟩
  | case3 => exact ⟨fun _ => by decide, fun _ => rfl⟩

theorem restored_eq_self_iff (text : String) : restored text = text ↔ ¬ ['\\', 'n'] <:+: text.toList := by
  rw [← breakLines_eq_self_iff, restored, ← String.toList_inj, String.toList_ofList]

theorem only_isNotQuote_encode {text : String} (quotable : '"' ∉ text.toList) :
    Only isNotQuote (encode text).toList := by
  intro c member
  rw [toList_encode] at member
  obtain ⟨d, inside, escaped⟩ := List.mem_flatMap.mp member
  have other : d ≠ '"' := fun same => quotable (same ▸ inside)
  rw [escape, spellBreak] at escaped
  split at escaped
  · simp only [List.mem_cons, List.not_mem_nil, or_false, or_self] at escaped
    subst escaped
    rfl
  split at escaped
  · simp only [List.mem_cons, List.not_mem_nil, or_false] at escaped
    rcases escaped with rfl | rfl <;> rfl
  · obtain rfl := List.mem_singleton.mp escaped
    simpa [isNotQuote] using other

end Literal

namespace Condition

open Literal

theorem literal_quote_encode {text : String} (quotable : '"' ∉ text.toList) (rest : List Char) :
    literal (quote (encode text) ++ rest) = .ok (restored text) rest := by
  have read := literal_append (only_isNotQuote_encode quotable) rest
  rw [decode_encode] at read
  simpa [quote] using read

theorem argument_writtenArgument_encode {text : String} (quotable : '"' ∉ text.toList) :
    Argument (writtenArgument (some (encode text))) (restored text) := by
  have argument := Argument.mk (only_nil isBlank) (only_nil isSpace) (only_isNotQuote_encode quotable)
    (only_nil isSpace) (only_nil isBlank)
  rw [decode_encode] at argument
  simpa [writtenArgument, quote] using argument

end Condition

namespace Definition

open Literal

theorem readLabel_quote_encode {text : String} (quotable : '"' ∉ text.toList) (rest : List Char) :
    readLabel (quote (encode text) ++ rest) = .ok (restored text) (rest.dropWhile isBlank) := by
  rw [readLabel, Condition.literal_quote_encode quotable, Reply.bind_ok]

theorem read_quote_encode {name : String} (isName : Condition.IsName name.toList) {text : String}
    (quotable : '"' ∉ text.toList) :
    read (name.toList ++ ' ' :: quote (encode text)) = .ok ⟨name, some (restored text), none, none, []⟩ [] := by
  have apart : ∀ c, (' ' :: quote (encode text)).head? = some c → isNamePart c = false := by
    intro c here
    cases here
    rfl
  have labelled := readLabel_quote_encode quotable []
  rw [List.append_nil] at labelled
  have begins : (' ' :: quote (encode text)).dropWhile isBlank = quote (encode text) := rfl
  rw [read, readName_append isName apart, Reply.bind_ok, begins, Parser.optional, labelled, Reply.bind_ok]
  rfl

end Definition

namespace Literal

/-- A text without quotes, written with escapes, is read whole wherever a text between quotes may stand, be it the
label of a node or the argument of a precondition. What is read is the text itself exactly if it has no backslash
directly before an `n`: there the backslash and the `n` are lost to a line feed. -/
theorem escaped_read_as_restored {name text : String} (isName : Condition.IsName name.toList)
    (quotable : '"' ∉ text.toList) :
    (∀ rest, Definition.readLabel (quote (encode text) ++ rest) = .ok (restored text) (rest.dropWhile isBlank)) ∧
      Definition.read (name.toList ++ ' ' :: quote (encode text)) = .ok ⟨name, some (restored text), none, none, []⟩ [] ∧
      (∀ rest, Condition.argument (Condition.writtenArgument (some (encode text)) ++ rest) =
        .ok (restored text) (rest.dropWhile isBlank)) ∧
      Condition.ofText? (String.ofList (name.toList ++ Condition.writtenArgument (some (encode text)))) =
        some (.atom name (some (restored text))) ∧
      (restored text = text ↔ ¬ ['\\', 'n'] <:+: text.toList) := by
  have argument := Condition.argument_writtenArgument_encode quotable
  refine ⟨Definition.readLabel_quote_encode quotable, Definition.read_quote_encode isName quotable,
    Condition.argument_append argument, Condition.ofText?_of_complete ?_, restored_eq_self_iff text⟩
  have derives := (Condition.Derives.atomWith (only_nil isBlank) isName argument).of_factor .disjunction
  rw [String.ofList_toList] at derives
  exact ⟨[], _, [], only_nil isSpace, derives, only_nil isSpace, by simp⟩

theorem escaped_order_read_as_restored :
    (Condition.IsName "Say".toList ∧ '"' ∉ "halt\\\nnow".toList) ∧
      Condition.ofText? "Say(\"halt\\\\\\nnow\")" = some (.atom "Say" (some "halt\\\nnow")) ∧
      ¬ ['\\', 'n'] <:+: "halt\\\nnow".toList := by
  have isName : Condition.IsName "Say".toList := by decide
  have quotable : '"' ∉ "halt\\\nnow".toList := by decide
  have same : restored "halt\\\nnow" = "halt\\\nnow" := by decide
  have written : String.ofList ("Say".toList ++ Condition.writtenArgument (some (encode "halt\\\nnow"))) =
      "Say(\"halt\\\\\\nnow\")" := by decide
  obtain ⟨_, _, _, read, iff⟩ := escaped_read_as_restored isName quotable
  rw [written, same] at read
  exact ⟨⟨isName, quotable⟩, read, iff.mp same⟩

/-- A backslash and an `n` are written with two backslashes and read as a line feed. -/
theorem escaped_backslash_before_n_lost :
    '"' ∉ "\\n".toList ∧ encode "\\n" = "\\\\n" ∧
      Definition.read ("a".toList ++ ' ' :: quote (encode "\\n")) = .ok ⟨"a", some "\n", none, none, []⟩ [] ∧
      Condition.ofText? "a(\"\\\\n\")" = some (.atom "a" (some "\n")) ∧ "\n" ≠ "\\n" :=
  ⟨by decide, by decide, Definition.read_quote_encode (by decide) (by decide), by decide +kernel, by decide⟩

end Literal

end BehaviorTree
