import BehaviorTree.Proofs.Stability

/-! A condition on its own and as the value of `when`. Alone it ends with its text; in a list of attributes it ends
where the parenthesis is closed, and other attributes might follow. Both find the same condition in the same texts,
if the text does not begin on a line below: a document may break the line before its condition, a list may not. -/

set_option autoImplicit false

namespace BehaviorTree

open Text BehaviorTree.Parser

namespace Text

/-- The white space at the front is on one line. -/
def Unbroken (s : List Char) : Prop := ∀ c ∈ s.takeWhile isSpace, isLineBreak c = false

instance (s : List Char) : Decidable (Unbroken s) := decidableForallMem _

theorem Unbroken.only_isBlank {before rest : List Char} (unbroken : Unbroken (before ++ rest))
    (only : Only isSpace before) : Only isBlank before := by
  intro c member
  have front : c ∈ (before ++ rest).takeWhile isSpace := by
    rw [List.takeWhile_append_of_pos only]
    exact List.mem_append_left _ member
  have space := only c member
  rw [isSpace, unbroken c front, Bool.or_false] at space
  exact space

theorem eq_of_append_closed {p : Char → Bool} {c : Char} (other : p c = false) {first second behind : List Char}
    (only : Only p behind) (same : first ++ c :: behind = second ++ [c]) : first = second ∧ behind = [] := by
  rcases List.eq_nil_or_concat behind with rfl | ⟨inner, last, rfl⟩
  · exact ⟨List.append_cancel_right same, rfl⟩
  · have ends : first ++ c :: inner ++ [last] = second ++ [c] := by simpa using same
    obtain ⟨_, rfl⟩ := List.append_inj' ends rfl |>.imp_right List.singleton_inj.mp
    have kept := only last (by simp)
    rw [other] at kept
    cases kept

end Text

namespace Definition

def whenList (text : String) : List Char := ("(when: " ++ text ++ ")").toList

theorem whenList_eq (text : String) :
    whenList text = [] ++ '(' :: ([] ++ 'w' :: (['h', 'e', 'n'] ++ ([':', ' '] ++ (text.toList ++ [')'])))) := by
  simp [whenList]

theorem readWhen_eq (s : List Char) : readWhen ('w' :: (['h', 'e', 'n'] ++ ([':', ' '] ++ s))) =
    (Condition.read (s.dropWhile isBlank)).map Attribute.when := by
  rw [readWhen, after, ← List.cons_append, named_append, Reply.bind_ok]

theorem readAttributes_eq_ok {s : List Char} {given : Attribute} {inner : List Char}
    (opened : Condition.openParenthesis s = .ok () inner) :
    readAttributes s = .ok [given] [] ↔ ∃ left, readAttribute inner = .ok given left ∧
      after comma readAttribute left = .stop ∧ Condition.closeParenthesis left = .ok () [] := by
  rw [readAttributes, opened, Reply.bind_ok]
  constructor
  · intro read
    obtain ⟨listed, left, found, closed⟩ := Reply.bind_eq_ok.mp read
    obtain ⟨_, ended, rfl⟩ := Reply.map_eq_ok.mp closed
    rw [separated] at found
    split at found
    · cases found
    · cases found
    · next first behind taken =>
      obtain ⟨further, others, same⟩ := Reply.map_eq_ok.mp found
      obtain ⟨rfl, rfl⟩ := List.cons.inj same
      cases rounds_of_many others with
      | none stops => exact ⟨left, taken, stops, ended⟩
  · rintro ⟨left, taken, stops, closed⟩
    rw [separated, taken]
    simp only [many_of_stop stops, Reply.map_ok, Reply.bind_ok, closed]

end Definition

namespace Condition

theorem read_of_complete {text : String} (unbroken : Unbroken text.toList) {tree : Condition}
    (complete : Complete text.toList tree) :
    (read ((text.toList ++ [')']).dropWhile isBlank)).Reads tree [')'] := by
  obtain ⟨before, inner, behind, onlyBefore, derives, onlyBehind, same⟩ := complete
  have blanks : Only isBlank before := by
    rw [same, List.append_assoc] at unbroken
    exact unbroken.only_isBlank onlyBefore
  have closing : (behind ++ [')']).dropWhile isSpace = [')'] := dropWhile_append_cons onlyBehind rfl []
  have closes : Closes .disjunction (behind ++ [')']) := by
    intro c here
    rw [closing] at here
    cases here
    rfl
  have skipped : ((text.toList ++ [')']).dropWhile isBlank).dropWhile isBlank =
      (inner ++ (behind ++ [')'])).dropWhile isBlank := by
    rw [List.dropWhile_idempotent, same, List.append_assoc, List.append_assoc, List.dropWhile_append_of_pos blanks]
  rw [read_eq]
  obtain ⟨left, found, followed⟩ := derives.answers _ _ _ skipped closes (Nat.le_refl _)
  exact ⟨left, found, followed.trans closing⟩

theorem complete_of_read {s left : List Char} {tree : Condition}
    (found : read ((s ++ [')']).dropWhile isBlank) = .ok tree left) (closed : closeParenthesis left = .ok () []) :
    Complete s tree := by
  obtain ⟨used, split, derives⟩ := read_takes _ _ _ found
  obtain ⟨spaces, blanks, onlySpaces, onlyBlanks, rfl⟩ := mark_eq_ok closed
  have whole : (s.takeWhile isBlank ++ used ++ spaces) ++ ')' :: blanks = s ++ [')'] :=
    calc (s.takeWhile isBlank ++ used ++ spaces) ++ ')' :: blanks
        = s.takeWhile isBlank ++ (used ++ (spaces ++ [')'] ++ blanks ++ [])) := by simp
      _ = s.takeWhile isBlank ++ (s.dropWhile isBlank ++ [')']) := by rw [← split, dropWhile_append_other rfl]
      _ = s ++ [')'] := by rw [← List.append_assoc, List.takeWhile_append_dropWhile]
  obtain ⟨same, _⟩ := eq_of_append_closed rfl onlyBlanks whole
  refine ⟨s.takeWhile isBlank, used, spaces, fun c member => ?_, derives, onlySpaces, same.symm⟩
  exact isSpace_of_isBlank (only_takeWhile isBlank s c member)

/-- A text is a condition exactly if it is one as the value of `when` between parentheses, read to the end with no
other attribute, and it is the same one then. -/
theorem ofText?_iff_readAttributes {text : String} (unbroken : Unbroken text.toList) (tree : Condition) :
    ofText? text = some tree ↔ Definition.readAttributes (Definition.whenList text) = .ok [.when tree] [] := by
  rw [(ofText?_iff text).1 tree, Definition.readAttributes_eq_ok (Definition.whenList_eq text ▸
    openParenthesis_append (only_nil isBlank) (only_nil isSpace) rfl _)]
  constructor
  · intro complete
    obtain ⟨left, found, followed⟩ := read_of_complete unbroken complete
    have noComma : Definition.comma left = .stop := mark_eq_stop (by rw [followed]; decide)
    refine ⟨left, orElse_of_ok ?_ Definition.readCooldown, ?_, ?_⟩
    · rw [Definition.readWhen_eq, found, Reply.map_ok]
    · rw [after, noComma, Reply.bind_stop]
    · exact mark_of_append (followed.trans (List.append_nil _).symm)
  · rintro ⟨left, read, _, closed⟩
    rcases orElse_eq_ok read with read | ⟨_, read⟩
    · rw [Definition.readWhen_eq] at read
      obtain ⟨_, found, same⟩ := Reply.map_eq_ok.mp read
      cases same
      exact complete_of_read found closed
    · obtain ⟨_, _, same⟩ := Reply.map_eq_ok.mp read
      cases same

/-- The list does not go on to a line below before its condition, and the document does. -/
example : ofText? "\nlate" = some (.atom "late" none) ∧
    Definition.readAttributes (Definition.whenList "\nlate") = .stop := by
  refine ⟨by decide +kernel, ?_⟩
  with_unfolding_all rfl

def watchword : String := "\t!(tired || IsTrue(\"late\")) \r\n"

theorem watchword_read : Unbroken watchword.toList ∧
    ofText? watchword = some (.not (.or (.atom "tired" none) (.atom "IsTrue" (some "late")))) ∧
    Definition.readAttributes (Definition.whenList watchword) =
      .ok [.when (.not (.or (.atom "tired" none) (.atom "IsTrue" (some "late"))))] [] := by
  have unbroken : Unbroken watchword.toList := by decide
  have found : ofText? watchword = some (.not (.or (.atom "tired" none) (.atom "IsTrue" (some "late")))) := by
    decide +kernel
  exact ⟨unbroken, found, (ofText?_iff_readAttributes unbroken _).mp found⟩

end Condition

end BehaviorTree
