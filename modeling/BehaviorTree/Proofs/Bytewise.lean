import Mathlib.Data.String.Basic

/-! Texts in the order of their bytes. Texts are compared character by character; by their bytes they compare the
same, since a greater character is written with greater bytes, in as many of them or with a greater first one. -/

set_option autoImplicit false

namespace BehaviorTree

namespace Text

/-- The bytes that the character of a number is written with. -/
inductive Written : Nat → List UInt8 → Prop where
  | one {number : Nat} : number < 128 → Written number [.ofNat number]
  | two {number : Nat} : 128 ≤ number → number < 2048 →
      Written number [.ofNat (number / 64 + 192), .ofNat (number % 64 + 128)]
  | three {number : Nat} : 2048 ≤ number → number < 65536 →
      Written number [.ofNat (number / 4096 + 224), .ofNat (number / 64 % 64 + 128), .ofNat (number % 64 + 128)]
  | four {number : Nat} : 65536 ≤ number → number < 1114112 →
      Written number [.ofNat (number / 262144 + 240), .ofNat (number / 4096 % 64 + 128),
        .ofNat (number / 64 % 64 + 128), .ofNat (number % 64 + 128)]

theorem written (char : Char) : Written char.val.toNat (String.utf8EncodeChar char) := by
  have bound : char.val.toNat < 1114112 := by
    rcases char.valid with low | ⟨_, high⟩
    · exact Nat.lt_trans low (by decide)
    · exact high
  rw [String.utf8EncodeChar]
  generalize char.val.toNat = number at bound
  split
  · exact .one (by omega)
  split
  · rw [Nat.mod_eq_of_lt (show number / 64 < 32 by omega)]
    exact .two (by omega) (by omega)
  split
  · rw [Nat.mod_eq_of_lt (show number / 4096 < 16 by omega)]
    exact .three (by omega) (by omega)
  · rw [Nat.mod_eq_of_lt (show number / 262144 < 8 by omega)]
    exact .four (by omega) bound

theorem Written.ne_nil {number : Nat} {bytes : List UInt8} (written : Written number bytes) : bytes ≠ [] := by
  cases written <;> exact List.cons_ne_nil _ _

theorem ofNat_cons_lt {first second : Nat} (small : first < 256) (little : second < 256) (rest others : List UInt8) :
    UInt8.ofNat first :: rest < UInt8.ofNat second :: others ↔ first < second ∨ first = second ∧ rest < others := by
  rw [List.cons_lt_cons_iff, UInt8.lt_iff_toNat_lt, ← UInt8.toNat_inj, UInt8.toNat_ofNat', UInt8.toNat_ofNat',
    Nat.mod_eq_of_lt small, Nat.mod_eq_of_lt little]

/-- The lesser number decides, whatever stands behind the two. -/
theorem Written.append_lt {number other : Nat} {bytes others : List UInt8} (first : Written number bytes)
    (second : Written other others) (less : number < other) (rest further : List UInt8) :
    bytes ++ rest < others ++ further := by
  -- Numbers with fewer bytes are less, so that half of the cases cannot arise.
  cases first <;> cases second <;> try omega
  all_goals simp (disch := omega) only [List.cons_append, List.nil_append, ofNat_cons_lt]
  all_goals omega

def bytes (text : String) : List UInt8 := text.toByteArray.data.toList

theorem bytes_eq (text : String) : bytes text = text.toList.flatMap String.utf8EncodeChar := by
  rw [bytes, ← String.ofList_toList (s := text), String.toByteArray_ofList, List.utf8Encode, List.data_toByteArray,
    String.toList_ofList]

theorem append_lt_append {bytes rest others : List UInt8} (less : rest < others) : bytes ++ rest < bytes ++ others := by
  induction bytes with
  | nil => exact less
  | cons byte bytes ih => exact List.cons_lt_cons_iff.mpr (.inr ⟨rfl, ih⟩)

theorem flatMap_lt {chars others : List Char} (less : chars < others) :
    chars.flatMap String.utf8EncodeChar < others.flatMap String.utf8EncodeChar := by
  induction less with
  | @nil char others =>
    obtain ⟨first, rest, same⟩ := List.exists_cons_of_ne_nil (written char).ne_nil
    rw [List.flatMap_cons, same]
    exact List.nil_lt_cons _ _
  | rel less =>
    rw [List.flatMap_cons, List.flatMap_cons]
    exact (written _).append_lt (written _) less _ _
  | cons _ ih =>
    rw [List.flatMap_cons, List.flatMap_cons]
    exact append_lt_append ih

theorem bytes_lt {left right : String} (less : left < right) : bytes left < bytes right := by
  rw [bytes_eq, bytes_eq]
  exact flatMap_lt (String.lt_iff_toList_lt.mp less)

theorem bytes_lt_iff {left right : String} : bytes left < bytes right ↔ left < right := by
  refine ⟨fun less => ?_, bytes_lt⟩
  rcases lt_trichotomy left right with found | rfl | greater
  · exact found
  · exact absurd less (List.lt_irrefl _)
  · exact absurd less (List.lt_asymm (bytes_lt greater))

theorem eq_of_not_bytes_lt {left right : String} (notLess : ¬ bytes left < bytes right)
    (notGreater : ¬ bytes right < bytes left) : left = right := by
  rw [bytes_lt_iff] at notLess notGreater
  exact le_antisymm (not_lt.mp notGreater) (not_lt.mp notLess)

theorem not_bytes_lt_of_mem_cons {least other : String} {rest : List String}
    (greater : ∀ name ∈ rest, bytes least < bytes name) (member : other ∈ least :: rest) :
    ¬ bytes other < bytes least := by
  rcases List.mem_cons.mp member with rfl | member
  · exact List.lt_irrefl _
  · exact List.lt_asymm (greater other member)

end Text

end BehaviorTree
