import BehaviorTree.Proofs.RoundTrip

/-! Reading where more lines follow. What a reader has taken off a text it takes as well if a line feed and
any other text are added, provided that it is clear from what it left that it had come to an end. -/

set_option autoImplicit false

namespace BehaviorTree

open Text BehaviorTree.Parser

variable {α β : Type} {more : List Char}

namespace Text

theorem dropWhile_append_of_ne_nil {p : Char → Bool} {s : List Char} (some : s.dropWhile p ≠ []) (t : List Char) :
    (s ++ t).dropWhile p = s.dropWhile p ++ t := by
  rw [List.dropWhile_append, if_neg (by simpa using some)]

theorem dropWhile_isBlank_dropWhile_isSpace (s : List Char) :
    (s.dropWhile isSpace).dropWhile isBlank = s.dropWhile isSpace := by
  cases begins : s.dropWhile isSpace with
  | nil => rfl
  | cons c tail =>
    have other : isSpace c = false := by
      have stops := List.dropWhile_get_zero_not isSpace s (by simp [begins])
      simpa [begins] using stops
    exact List.dropWhile_cons_of_neg (by simp [Condition.isBlank_of_not_isSpace other])

theorem dropWhile_append_other {p : Char → Bool} {c : Char} (other : p c = false) (s : List Char) :
    (s ++ c :: more).dropWhile p = s.dropWhile p ++ c :: more := by
  rw [List.dropWhile_append]
  split
  · next nothing => rw [List.isEmpty_iff.mp nothing, List.dropWhile_cons_of_neg (by simp [other]), List.nil_append]
  · rfl

theorem dropWhile_append_lineFeed {p : Char → Bool} (other : p '\n' = false) (s : List Char) :
    (s ++ '\n' :: more).dropWhile p = s.dropWhile p ++ '\n' :: more :=
  dropWhile_append_other other s

theorem takeWhile_append_lineFeed {p : Char → Bool} (other : p '\n' = false) (s : List Char) :
    (s ++ '\n' :: more).takeWhile p = s.takeWhile p := by
  induction s with
  | nil => exact List.takeWhile_cons_of_neg (by simp [other])
  | cons c s ih => cases kept : p c <;> simp [kept, ih]

theorem head?_dropWhile_append_lineFeed {p : Char → Bool} (other : p '\n' = false) {c : Char} (different : c ≠ '\n')
    {s : List Char} (apart : (s.dropWhile p).head? ≠ some c) :
    ((s ++ '\n' :: more).dropWhile p).head? ≠ some c := by
  rw [dropWhile_append_lineFeed other]
  cases left : s.dropWhile p with
  | nil => simpa using different.symm
  | cons d t => simpa [left] using apart

end Text

namespace Parser

def Shrinks (parser : Parser α) : Prop :=
  ∀ s value rest, parser s = .ok value rest → rest.length ≤ s.length

/-- What a reader leaves is the end of the text. -/
def Trims (parser : Parser α) : Prop :=
  ∀ s value rest, parser s = .ok value rest → rest <:+ s

theorem Trims.shrinks {parser : Parser α} (trims : parser.Trims) : parser.Shrinks :=
  fun s value rest read => (trims s value rest read).length_le

theorem Takes.trims {parser : Parser α} {form : List Char → α → Prop} (takes : parser.Takes form) : parser.Trims := by
  intro s value rest read
  obtain ⟨used, rfl, _⟩ := takes s value rest read
  exact List.suffix_append used rest

theorem mark_trims (before after : Char → Bool) (text : List Char) : (mark before text after).Trims := by
  intro s value rest read
  obtain ⟨pre, post, _, _, rfl⟩ := mark_eq_ok read
  exact List.suffix_append _ rest

/-- A reader is repeated until it stops. -/
inductive Rounds (parser : Parser α) : List Char → List α → List Char → Prop where
  | none {s : List Char} (stops : parser s = .stop) : Rounds parser s [] s
  | more {s left rest : List Char} {value : α} {values : List α} (first : parser s = .ok value left)
      (shorter : left.length < s.length) (others : Rounds parser left values rest) :
      Rounds parser s (value :: values) rest

theorem Rounds.many_eq {parser : Parser α} {s rest : List Char} {values : List α}
    (rounds : Rounds parser s values rest) : many parser s = .ok values rest := by
  induction rounds with
  | none stops => exact many_of_stop stops
  | more first shorter _ ih => rw [many_of_ok first shorter, ih, Reply.map_ok]

theorem rounds_of_many {parser : Parser α} {s rest : List Char} {values : List α}
    (read : many parser s = .ok values rest) : Rounds parser s values rest := by
  induction s using many.induct parser generalizing values with
  | case1 s stops =>
    rw [many_of_stop stops] at read
    cases read
    exact .none stops
  | case2 s place fails =>
    rw [many, fails] at read
    cases read
  | case3 s value left first shorter ih =>
    rw [many_of_ok first shorter, Reply.map_eq_ok] at read
    obtain ⟨others, read, rfl⟩ := read
    exact .more first shorter (ih read)
  | case4 s value left first longer =>
    rw [many, first] at read
    simp only [longer, if_false] at read
    cases read

theorem Rounds.suffix {parser : Parser α} (trims : parser.Trims) {s rest : List Char} {values : List α}
    (rounds : Rounds parser s values rest) : rest <:+ s := by
  induction rounds with
  | none => exact List.suffix_refl _
  | more first _ _ ih => exact ih.trans (trims _ _ _ first)

theorem many_trims {parser : Parser α} (trims : parser.Trims) : Trims (many parser) :=
  fun _ _ _ read => (rounds_of_many read).suffix trims

theorem optional_eq_ok {parser : Parser α} {s rest : List Char} {value : Option α}
    (read : Parser.optional parser s = .ok value rest) :
    (∃ found, parser s = .ok found rest ∧ value = some found) ∨ (parser s = .stop ∧ value = none ∧ rest = s) := by
  rw [Parser.optional] at read
  split at read
  · next found _ taken =>
    cases read
    exact .inl ⟨found, taken, rfl⟩
  · next stops =>
    cases read
    exact .inr ⟨stops, rfl, rfl⟩
  · cases read

theorem optional_trims {parser : Parser α} (trims : parser.Trims) : (Parser.optional parser).Trims := by
  intro s value rest read
  rcases optional_eq_ok read with ⟨found, taken, _⟩ | ⟨_, _, rfl⟩
  · exact trims _ _ _ taken
  · exact List.suffix_refl _

theorem optional_stable {parser other : Parser α} {s rest : List Char} {value : Option α}
    (read : Parser.optional parser s = .ok value rest)
    (takes : ∀ found, parser s = .ok found rest → other (s ++ '\n' :: more) = .ok found (rest ++ '\n' :: more))
    (stops : parser s = .stop → rest = s → other (s ++ '\n' :: more) = .stop) :
    Parser.optional other (s ++ '\n' :: more) = .ok value (rest ++ '\n' :: more) := by
  rcases optional_eq_ok read with ⟨found, taken, rfl⟩ | ⟨stopped, rfl, rfl⟩
  · exact optional_of_ok (takes found taken)
  · exact optional_of_stop (stops stopped rfl)

theorem orElse_eq_ok {first second : Parser α} {s rest : List Char} {value : α}
    (read : orElse first second s = .ok value rest) :
    first s = .ok value rest ∨ (first s = .stop ∧ second s = .ok value rest) := by
  rw [orElse] at read
  split at read
  · next stops => exact .inr ⟨stops, read⟩
  · exact .inl read

theorem Trims.bind {first : Parser α} {next : α → Parser β} (begins : first.Trims)
    (ends : ∀ value, (next value).Trims) : Trims fun s => (first s).bind next := by
  intro s value rest read
  obtain ⟨inner, left, taken, read⟩ := Reply.bind_eq_ok.mp read
  exact (ends inner left value rest read).trans (begins s inner left taken)

theorem Trims.map {parser : Parser α} (trims : parser.Trims) (f : α → β) : Trims fun s => (parser s).map f := by
  intro s value rest read
  obtain ⟨inner, taken, _⟩ := Reply.map_eq_ok.mp read
  exact trims s inner rest taken

theorem Trims.orElse {first second : Parser α} (one : first.Trims) (other : second.Trims) :
    (Parser.orElse first second).Trims := by
  intro s value rest read
  rcases orElse_eq_ok read with read | ⟨_, read⟩
  · exact one s value rest read
  · exact other s value rest read

theorem Trims.skip {parser : Parser α} (trims : parser.Trims) (p : Char → Bool) :
    Trims fun s => parser (s.dropWhile p) :=
  fun _ value rest read => (trims _ value rest read).trans (List.dropWhile_suffix p)

theorem below_eq_ok {bound s rest : List Char} {value : α}
    {parser : (s : List Char) → s.length < bound.length → Reply α} (read : below bound parser s = .ok value rest) :
    ∃ shorter, parser s shorter = .ok value rest := by
  rw [below] at read
  split at read
  · next shorter => exact ⟨shorter, read⟩
  · cases read

theorem skip_trims (value : α) (p : Char → Bool) : Trims fun s => .ok value (s.dropWhile p) := by
  intro s _ rest read
  cases read
  exact List.dropWhile_suffix p

theorem orElse_of_ok {first : Parser α} {s rest : List Char} {value : α} (read : first s = .ok value rest)
    (second : Parser α) : orElse first second s = .ok value rest := by
  rw [orElse, read]

theorem orElse_of_stop {first : Parser α} {s : List Char} (stops : first s = .stop) (second : Parser α) :
    orElse first second s = second s := by
  rw [orElse, stops]

theorem mark_begins {before after : Char → Bool} {text s rest : List Char}
    (read : mark before text after s = .ok () rest) :
    ∃ left, s.dropWhile before = text ++ left ∧ left.dropWhile after = rest := by
  rw [mark] at read
  split at read
  · next left found =>
    cases read
    exact ⟨left, word?_eq_some.mp found, rfl⟩
  · cases read

theorem length_lt_of_mark {before after : Char → Bool} {c : Char} {text s rest : List Char}
    (read : mark before (c :: text) after s = .ok () rest) : rest.length < s.length := by
  obtain ⟨left, begins, rfl⟩ := mark_begins read
  have behind := length_dropWhile_le after left
  rw [List.cons_append] at begins
  have whole := length_lt_of_dropWhile begins
  rw [List.length_append] at whole
  omega

theorem mark_congr {before after : Char → Bool} {text s other : List Char}
    (same : s.dropWhile before = other.dropWhile before) : mark before text after s = mark before text after other := by
  rw [mark, mark, same]

theorem mark_stable {before after : Char → Bool} {c : Char} {text s rest : List Char}
    (read : mark before (c :: text) after s = .ok () rest) (ends : after '\n' = false ∨ rest ≠ []) :
    mark before (c :: text) after (s ++ '\n' :: more) = .ok () (rest ++ '\n' :: more) := by
  obtain ⟨left, begins, rfl⟩ := mark_begins read
  have whole : (s ++ '\n' :: more).dropWhile before = (c :: text) ++ (left ++ '\n' :: more) := by
    rw [dropWhile_append_of_ne_nil (by simp [begins]), begins, List.append_assoc]
  rw [mark_of_append whole]
  rcases ends with other | some
  · rw [dropWhile_append_lineFeed other]
  · rw [dropWhile_append_of_ne_nil some]

end Parser

theorem identifier_stable {s rest : List Char} {name : String} (read : identifier s = .ok name rest) :
    identifier (s ++ '\n' :: more) = .ok name (rest ++ '\n' :: more) := by
  cases s with
  | nil => cases read
  | cons c s =>
    rw [identifier] at read
    split at read
    · next starts =>
      cases read
      rw [List.cons_append, identifier, if_pos starts, takeWhile_append_lineFeed rfl, dropWhile_append_lineFeed rfl]
    · cases read

theorem literal_stable {s rest : List Char} {text : String} (read : literal s = .ok text rest) :
    literal (s ++ '\n' :: more) = .ok text (rest ++ '\n' :: more) := by
  obtain ⟨used, rfl, quoted, only, rfl, rfl⟩ := Condition.literal_takes _ _ _ read
  simpa using Condition.literal_append only (rest ++ '\n' :: more)

namespace Decimal

theorem splitSign_suffix (s : List Char) : (splitSign s).2 <:+ s := by
  rw [splitSign.eq_def]
  split <;> simp

theorem splitDigits_suffix (s : List Char) : (splitDigits s).2 <:+ s :=
  List.dropWhile_suffix Char.isDigit

theorem splitSignificand_suffix {s rest : List Char} {parts : List Char × List Char}
    (found : splitSignificand s = some (parts, rest)) : rest <:+ s := by
  have first := splitDigits_suffix s
  rw [splitSignificand] at found
  generalize splitDigits s = digits at first found
  split at found
  · next behind =>
    have second := splitDigits_suffix behind
    generalize splitDigits behind = fraction at second found
    split at found
    · cases found
    · cases found
      exact second.trans ((List.suffix_cons '.' behind).trans first)
  · cases found
  · next behind _ =>
    cases found
    exact (splitDigits_suffix behind).trans ((List.suffix_cons '.' behind).trans first)
  · cases found
    exact first

theorem readExponent_trims : Trims readExponent := by
  intro s value rest read
  cases s with
  | nil =>
    cases read
    exact List.suffix_refl _
  | cons letter s =>
    have signed := splitSign_suffix s
    have digits := splitDigits_suffix (splitSign s).2
    simp only [readExponent] at read
    split at read
    · split at read
      · cases read
      · next same =>
        rw [same] at digits
        cases read
        exact digits.trans (signed.trans (List.suffix_cons letter s))
    · cases read
      exact List.suffix_refl _

theorem wordInAnyCase?_suffix {text s rest : List Char} (found : wordInAnyCase? text s = some rest) : rest <:+ s := by
  induction text generalizing s with
  | nil =>
    cases found
    exact List.suffix_refl _
  | cons c cs ih =>
    cases s with
    | nil => cases found
    | cons d s =>
      rw [wordInAnyCase?] at found
      split at found
      · exact (ih found).trans (List.suffix_cons d s)
      · cases found

theorem read_trims : Trims Decimal.read := by
  intro s seconds rest read
  rw [Decimal.read] at read
  split at read
  · next numeral left found =>
    cases read
    rw [Numeral.read] at found
    have signed := splitSign_suffix s
    simp only at found
    split at found
    · cases found
    · next whole =>
      obtain ⟨_, exponent, _⟩ := Reply.map_eq_ok.mp found
      exact (readExponent_trims _ _ _ exponent).trans ((splitSignificand_suffix whole).trans signed)
  · cases read
  · split at read
    · next found =>
      cases read
      exact wordInAnyCase?_suffix found
    · next found =>
      cases read
      exact wordInAnyCase?_suffix found
    · cases read

end Decimal

namespace Definition

/-! Attributes. -/

def EndsAttribute (rest : List Char) : Prop :=
  ∃ c tail, rest.dropWhile isSpace = c :: tail ∧ endsAttribute c = true

theorem readCondition_stable {s rest : List Char} {condition : Condition}
    (read : Condition.read s = .ok condition rest) (ends : EndsAttribute rest) :
    (Condition.read (s ++ '\n' :: more)).Reads condition (rest ++ '\n' :: more) := by
  obtain ⟨c, tail, begins, closes⟩ := ends
  obtain ⟨used, rfl, derives⟩ := Condition.read_takes _ _ _ read
  have closed : Condition.Closes .disjunction (rest ++ '\n' :: more) := by
    intro d here
    rw [dropWhile_append_of_ne_nil (by simp [begins]), begins] at here
    cases here
    exact closes
  rw [Condition.read_eq]
  exact derives.answers _ _ _ (by rw [List.append_assoc]) closed (Nat.le_refl _)

theorem named_stable {c : Char} {text s rest : List Char} (read : after (keyword (c :: text)) colon s = .ok () rest) :
    after (keyword (c :: text)) colon (s ++ '\n' :: more) = .ok () (rest ++ '\n' :: more) := by
  obtain ⟨_, left, first, second⟩ := Reply.bind_eq_ok.mp read
  rw [after, keyword, mark_stable first (.inl rfl), Reply.bind_ok]
  exact mark_stable second (.inl rfl)

theorem named_begins {c : Char} {text s rest : List Char} (read : after (keyword (c :: text)) colon s = .ok () rest) :
    ∃ tail, s = c :: tail := by
  obtain ⟨_, left, first, second⟩ := Reply.bind_eq_ok.mp read
  obtain ⟨tail, begins, _⟩ := mark_begins first
  cases s with
  | nil => cases begins
  | cons d s =>
    cases begins
    exact ⟨_, rfl⟩

theorem readAttribute_trims : Trims readAttribute :=
  have named (text : List Char) : Trims (after (keyword text) colon) :=
    (mark_trims _ _ text).bind fun _ => mark_trims isBlank isBlank [':']
  Trims.orElse (((named _).bind fun _ => Condition.read_takes.trims).map Attribute.when)
    (((named _).bind fun _ => Decimal.read_trims).map Attribute.cooldown)

theorem readAttribute_stable {s rest : List Char} {given : Attribute}
    (read : readAttribute s = .ok given rest) (ends : EndsAttribute rest) :
    (readAttribute (s ++ '\n' :: more)).Reads given (rest ++ '\n' :: more) := by
  rcases orElse_eq_ok read with read | ⟨_, read⟩
  · obtain ⟨condition, whole, rfl⟩ := Reply.map_eq_ok.mp read
    obtain ⟨_, left, named, found⟩ := Reply.bind_eq_ok.mp whole
    obtain ⟨last, reads, same⟩ := readCondition_stable found ends
    refine ⟨last, orElse_of_ok ?_ readCooldown, same⟩
    rw [readWhen, after, named_stable named, Reply.bind_ok, reads, Reply.map_ok]
  · obtain ⟨seconds, whole, rfl⟩ := Reply.map_eq_ok.mp read
    obtain ⟨_, left, named, found⟩ := Reply.bind_eq_ok.mp whole
    obtain ⟨tail, rfl⟩ := named_begins named
    have noWhen : readWhen (('c' :: tail) ++ '\n' :: more) = .stop := by
      rw [readWhen, after, after, List.cons_append, keyword_eq_stop (by decide)]
      rfl
    refine ⟨_, ?_, rfl⟩
    rw [readAttribute, orElse_of_stop noWhen, readCooldown, after, named_stable named, Reply.bind_ok,
      Decimal.read_append found rfl, Reply.map_ok]

theorem further_ends {s rest : List Char} {further : List Attribute}
    (rounds : Rounds (after comma readAttribute) s further rest)
    (closed : ∃ tail, rest.dropWhile isSpace = ')' :: tail) : EndsAttribute s := by
  cases rounds with
  | none =>
    obtain ⟨tail, begins⟩ := closed
    exact ⟨')', tail, begins, rfl⟩
  | more first =>
    obtain ⟨_, left, marked, _⟩ := Reply.bind_eq_ok.mp first
    obtain ⟨tail, begins, _⟩ := mark_begins marked
    exact ⟨',', tail, begins, rfl⟩

theorem further_stable {s rest other : List Char} {further : List Attribute}
    (rounds : Rounds (after comma readAttribute) s further rest)
    (closed : ∃ tail, rest.dropWhile isSpace = ')' :: tail)
    (same : other.dropWhile isSpace = (s ++ '\n' :: more).dropWhile isSpace) :
    (many (after comma readAttribute) other).Reads further (rest ++ '\n' :: more) := by
  induction rounds generalizing other with
  | @none s =>
    obtain ⟨tail, begins⟩ := closed
    have stops : comma other = .stop := by
      refine mark_eq_stop ?_
      rw [same, dropWhile_append_of_ne_nil (by simp [begins]), begins]
      simp
    exact ⟨other, many_of_stop (by rw [after, stops, Reply.bind_stop]), same⟩
  | @more s left rest value values first shorter others ih =>
    obtain ⟨_, begun, marked, read⟩ := Reply.bind_eq_ok.mp first
    obtain ⟨last, reads, followed⟩ := readAttribute_stable read (further_ends others closed)
    -- An attribute follows, so the mark was not the end of the text.
    have some : begun ≠ [] := by
      rintro rfl
      cases read
    have marked : comma other = .ok () (begun ++ '\n' :: more) := by
      rw [comma, mark_congr same]
      exact mark_stable marked (.inr some)
    have round : after comma readAttribute other = .ok value last := by rw [after, marked, Reply.bind_ok, reads]
    have shorter := Nat.lt_of_le_of_lt (readAttribute_trims.shrinks _ _ _ reads) (length_lt_of_mark marked)
    rw [many_of_ok round shorter]
    exact (ih closed followed).map (value :: ·)

theorem readAttribute_eq_stop {s : List Char} {c : Char} {tail : List Char} (begins : s.dropWhile isSpace = c :: tail)
    (noWhen : c ≠ 'w') (noCooldown : c ≠ 'c') : readAttribute s = .stop := by
  have stops {d : Char} (different : d ≠ c) (other : isSpace d = false) (text : List Char) :
      after (keyword (d :: text)) colon s = .stop := by
    have stopped : keyword (d :: text) s = .stop := by
      refine mark_eq_stop fun here => different ?_
      obtain ⟨behind, whole⟩ := List.head?_eq_some_iff.mp here
      rw [show s.dropWhile (fun _ => false) = s by cases s <;> rfl] at whole
      rw [whole, List.dropWhile_cons_of_neg (by simp [other])] at begins
      exact (List.cons.inj begins).1
    rw [after, stopped, Reply.bind_stop]
  rw [readAttribute, orElse_of_stop, readCooldown, after, stops noCooldown.symm rfl, Reply.bind_stop, Reply.map_stop]
  rw [readWhen, after, stops noWhen.symm rfl, Reply.bind_stop, Reply.map_stop]

theorem separated_stable {s rest : List Char} {given : List Attribute}
    (read : separated comma readAttribute s = .ok given rest)
    (closed : ∃ tail, rest.dropWhile isSpace = ')' :: tail) :
    (separated comma readAttribute (s ++ '\n' :: more)).Reads given (rest ++ '\n' :: more) := by
  rw [separated] at read
  split at read
  · cases read
    obtain ⟨tail, begins⟩ := closed
    have whole : (s ++ '\n' :: more).dropWhile isSpace = ')' :: (tail ++ '\n' :: more) := by
      rw [dropWhile_append_of_ne_nil (by simp [begins]), begins, List.cons_append]
    have stops := readAttribute_eq_stop whole (by decide) (by decide)
    exact ⟨_, by rw [separated, stops], rfl⟩
  · cases read
  · next first left found =>
    obtain ⟨further, rounds, rfl⟩ := Reply.map_eq_ok.mp read
    have rounds := rounds_of_many rounds
    obtain ⟨last, reads, same⟩ : (readAttribute (s ++ '\n' :: more)).Reads first (left ++ '\n' :: more) :=
      readAttribute_stable found (further_ends rounds closed)
    obtain ⟨end_, others, followed⟩ := further_stable rounds closed same
    exact ⟨end_, by rw [separated, reads]; simp only [others, Reply.map_ok], followed⟩

theorem readAttributes_stable {s rest : List Char} {given : List Attribute}
    (read : readAttributes s = .ok given rest) :
    readAttributes (s ++ '\n' :: more) = .ok given (rest ++ '\n' :: more) := by
  obtain ⟨_, inner, opened, whole⟩ := Reply.bind_eq_ok.mp read
  obtain ⟨listed, left, separated, whole⟩ := Reply.bind_eq_ok.mp whole
  obtain ⟨_, closed, rfl⟩ := Reply.map_eq_ok.mp whole
  obtain ⟨tail, begins, _⟩ := mark_begins closed
  have some : inner ≠ [] := by
    rintro rfl
    cases separated
    cases begins
  obtain ⟨last, reads, same⟩ :
      (Parser.separated comma readAttribute (inner ++ '\n' :: more)).Reads listed (left ++ '\n' :: more) :=
    separated_stable separated ⟨tail, begins⟩
  have closes : Condition.closeParenthesis last = .ok () (rest ++ '\n' :: more) := by
    rw [Condition.closeParenthesis, mark_congr same]
    exact mark_stable closed (.inl rfl)
  have opens : Condition.openParenthesis (s ++ '\n' :: more) = .ok () (inner ++ '\n' :: more) :=
    mark_stable opened (.inr some)
  rw [readAttributes, opens, Reply.bind_ok, reads, Reply.bind_ok, closes, Reply.map_ok]

/-! Names, labels and comments. -/

theorem readName_stable {s rest : List Char} {name : String} (read : readName s = .ok name rest) :
    readName (s ++ '\n' :: more) = .ok name (rest ++ '\n' :: more) := by
  obtain ⟨_, left, named, same⟩ := Reply.bind_eq_ok.mp read
  cases same
  rw [readName, dropWhile_append_lineFeed rfl, identifier_stable named, Reply.bind_ok, dropWhile_append_lineFeed rfl]

theorem readLabel_stable {s rest : List Char} {label : String} (read : readLabel s = .ok label rest) :
    readLabel (s ++ '\n' :: more) = .ok label (rest ++ '\n' :: more) := by
  obtain ⟨_, left, quoted, same⟩ := Reply.bind_eq_ok.mp read
  cases same
  rw [readLabel, literal_stable quoted, Reply.bind_ok, dropWhile_append_lineFeed rfl]

theorem readComment_begins {s rest : List Char} (read : readComment s = .ok () rest) :
    ∃ text, s.dropWhile isBlank = '#' :: text ∧ rest = text.dropWhile fun c => !isLineBreak c := by
  rw [readComment] at read
  split at read
  · next text begins =>
    cases read
    exact ⟨text, begins, rfl⟩
  · cases read

theorem readComment_stable {s rest : List Char} (read : readComment s = .ok () rest) :
    readComment (s ++ '\n' :: more) = .ok () (rest ++ '\n' :: more) := by
  obtain ⟨text, begins, rfl⟩ := readComment_begins read
  rw [readComment, dropWhile_append_lineFeed rfl, begins, ← dropWhile_append_lineFeed rfl]
  rfl

theorem readComment_eq_stop {s : List Char} (other : (s.dropWhile isBlank).head? ≠ some '#') :
    readComment s = .stop := by
  rw [readComment]
  split
  · next begins =>
    rw [begins] at other
    exact absurd rfl other
  · rfl

theorem readComment_stop_stable {s : List Char} (stops : readComment s = .stop) :
    readComment (s ++ '\n' :: more) = .stop := by
  refine readComment_eq_stop (head?_dropWhile_append_lineFeed rfl (by decide) fun here => ?_)
  obtain ⟨tail, begins⟩ := List.head?_eq_some_iff.mp here
  rw [readComment, begins] at stops
  cases stops

theorem readAttributes_eq_stop {s : List Char} (other : (s.dropWhile isBlank).head? ≠ some '(') :
    readAttributes s = .stop := by
  rw [readAttributes, Condition.openParenthesis, mark_eq_stop other, Reply.bind_stop]

theorem readBlock_eq_stop {s : List Char} (node : Parser Definition)
    (other : (s.dropWhile isBlank).head? ≠ some '{') : readBlock node s = .stop := by
  rw [readBlock, openBrace, mark_eq_stop other, Reply.bind_stop]

/-! What a node leaves is the end, a comment, another node or the end of a block, after white space. -/

def Resumes (s : List Char) : Prop :=
  ∀ c, (s.dropWhile isSpace).head? = some c → c = '#' ∨ isNameStart c = true ∨ c = '}'

theorem Resumes.head?_ne {s : List Char} (resumes : Resumes s) {c : Char} (other : isSpace c = false)
    (apart : ¬ (c = '#' ∨ isNameStart c = true ∨ c = '}')) : (s.dropWhile isBlank).head? ≠ some c := by
  intro here
  obtain ⟨tail, begins⟩ := List.head?_eq_some_iff.mp here
  refine apart (resumes c ?_)
  rw [← dropWhile_isSpace_dropWhile_isBlank, begins, List.dropWhile_cons_of_neg (by simp [other])]
  rfl

theorem readLineBreaks_eq_ok {s rest : List Char} (read : readLineBreaks s = .ok () rest) :
    ∃ c tail, s.dropWhile isBlank = c :: tail ∧ isLineBreak c = true ∧
      rest = (tail.dropWhile isLineBreak).dropWhile isBlank := by
  rw [readLineBreaks] at read
  split at read
  · next c tail begins =>
    split at read
    · next breaks =>
      cases read
      exact ⟨c, tail, begins, breaks, rfl⟩
    · cases read
  · cases read

theorem skipped_same {s rest : List Char} {breaks : List Unit} (rounds : Rounds readLineBreaks s breaks rest) :
    rest.dropWhile isSpace = s.dropWhile isSpace := by
  induction rounds with
  | none => rfl
  | @more s _ _ _ _ first _ _ ih =>
    obtain ⟨c, tail, begins, breaks, rfl⟩ := readLineBreaks_eq_ok first
    have whole := dropWhile_isSpace_dropWhile_isBlank s
    rw [begins, List.dropWhile_cons_of_pos (isSpace_of_isLineBreak breaks)] at whole
    rw [ih, dropWhile_isSpace_dropWhile_isBlank, dropWhile_dropWhile fun _ => isSpace_of_isLineBreak, whole]

theorem skipLines_stable {s rest : List Char} {breaks : List Unit} (rounds : Rounds readLineBreaks s breaks rest)
    (some : rest.dropWhile isSpace ≠ []) :
    Rounds readLineBreaks (s ++ '\n' :: more) breaks (rest ++ '\n' :: more) := by
  induction rounds with
  | @none s stops =>
    refine .none ?_
    cases begins : s.dropWhile isBlank with
    | nil =>
      rw [← dropWhile_isSpace_dropWhile_isBlank, begins] at some
      exact absurd rfl some
    | cons c tail =>
      rw [readLineBreaks, begins] at stops
      rw [readLineBreaks, dropWhile_append_lineFeed rfl, begins]
      cases breaks : isLineBreak c with
      | false => simp [breaks]
      | true => simp [breaks] at stops
  | @more s left rest _ _ first shorter others ih =>
    obtain ⟨c, tail, begins, breaks, rfl⟩ := readLineBreaks_eq_ok first
    -- Something follows that is no white space, so the line breaks end where they did.
    have goesOn : tail.dropWhile isLineBreak ≠ [] := by
      intro ends
      rw [skipped_same others, ends] at some
      exact some rfl
    refine .more ?_ (by simpa using shorter) (ih some)
    rw [readLineBreaks, dropWhile_append_lineFeed rfl, begins, List.cons_append]
    simp only [breaks, if_true]
    rw [dropWhile_append_of_ne_nil goesOn, dropWhile_append_lineFeed rfl]

/-- Something optional begins with its own mark, so where another mark stood, it would have been left. -/
theorem optional_apart {parser : Parser α} {s rest : List Char} {value : Option α} {mark c : Char}
    (read : Parser.optional parser s = .ok value rest)
    (begins : ∀ found, parser s = .ok found rest → (s.dropWhile isBlank).head? = some mark) (other : mark ≠ c)
    (apart : (rest.dropWhile isBlank).head? ≠ some c) : (s.dropWhile isBlank).head? ≠ some c := by
  rcases optional_eq_ok read with ⟨found, taken, _⟩ | ⟨_, _, rfl⟩
  · rw [begins found taken]
    simpa using other
  · exact apart

/-! Lines and blocks. -/

/-- A node is found only where a name begins. -/
def Named (node : Parser Definition) : Prop :=
  ∀ s, (∀ c, (s.dropWhile isBlank).head? = some c → isNameStart c = false) → node s = .stop

theorem inside_named (bound : List Char) : Named (inside bound) := by
  intro s noName
  rw [inside, below]
  split
  · have stops : identifier (s.dropWhile isBlank) = .stop := by
      cases begins : s.dropWhile isBlank with
      | nil => rfl
      | cons c tail => simp [identifier, noName c (by rw [begins]; rfl)]
    rw [read, readName, stops, Reply.bind_stop, Reply.bind_stop]
  · rfl

/-- Where more lines follow, the second reader finds the nodes that the first one finds. -/
def Follows (more : List Char) (node other : Parser Definition) : Prop :=
  ∀ s definition rest, node s = .ok definition rest → Resumes rest →
    other (s ++ '\n' :: more) = .ok definition (rest ++ '\n' :: more)

section Lines
variable {node other : Parser Definition} {s rest : List Char}

theorem readLine_eq_ok {line : Option Definition} (read : readLine node s = .ok line rest) : ∃ left breaks,
    ((readComment (s.dropWhile isBlank) = .ok () left ∧ line = none) ∨
      (readComment (s.dropWhile isBlank) = .stop ∧
        ∃ definition, node (s.dropWhile isBlank) = .ok definition left ∧ line = some definition)) ∧
      Rounds readLineBreaks left breaks rest := by
  obtain ⟨_, left, found, lines⟩ := Reply.bind_eq_ok.mp read
  obtain ⟨breaks, skipped, rfl⟩ := Reply.map_eq_ok.mp lines
  refine ⟨left, breaks, ?_, rounds_of_many skipped⟩
  rcases orElse_eq_ok found with whole | ⟨stops, whole⟩
  · obtain ⟨_, comment, rfl⟩ := Reply.map_eq_ok.mp whole
    exact .inl ⟨comment, rfl⟩
  · obtain ⟨definition, node, rfl⟩ := Reply.map_eq_ok.mp whole
    refine .inr ⟨?_, definition, node, rfl⟩
    cases comment : readComment (s.dropWhile isBlank) with
    | ok => rw [comment] at stops; cases stops
    | fatal => rw [comment] at stops; cases stops
    | stop => rfl

theorem readLine_of_comment {left : List Char} {breaks : List Unit}
    (comment : readComment (s.dropWhile isBlank) = .ok () left) (rounds : Rounds readLineBreaks left breaks rest) :
    readLine node s = .ok none rest := by
  rw [readLine, orElse, comment, Reply.map_ok]
  simp only
  rw [Reply.bind_ok, skipLines, rounds.many_eq, Reply.map_ok]

theorem readLine_of_node {left : List Char} {breaks : List Unit} {definition : Definition}
    (noComment : readComment (s.dropWhile isBlank) = .stop) (found : node (s.dropWhile isBlank) = .ok definition left)
    (rounds : Rounds readLineBreaks left breaks rest) : readLine node s = .ok (some definition) rest := by
  rw [readLine, orElse, noComment, Reply.map_stop]
  simp only
  rw [found, Reply.map_ok, Reply.bind_ok, skipLines, rounds.many_eq, Reply.map_ok]

theorem readLine_begins (named : Named node) {line : Option Definition} (read : readLine node s = .ok line rest) :
    ∃ c tail, s.dropWhile isSpace = c :: tail ∧ (c = '#' ∨ isNameStart c = true) := by
  obtain ⟨left, _, found, _⟩ := readLine_eq_ok read
  have same := dropWhile_isSpace_dropWhile_isBlank s
  rcases found with ⟨comment, _⟩ | ⟨_, definition, found, _⟩
  · obtain ⟨text, begins, _⟩ := readComment_begins comment
    rw [List.dropWhile_idempotent] at begins
    rw [begins] at same
    exact ⟨'#', text, same.symm, .inl rfl⟩
  · cases begins : s.dropWhile isBlank with
    | nil =>
      rw [named _ (by simp [begins])] at found
      cases found
    | cons c tail =>
      cases starts : isNameStart c with
      | false =>
        have noName : ∀ d, ((s.dropWhile isBlank).dropWhile isBlank).head? = some d → isNameStart d = false := by
          intro d here
          rw [List.dropWhile_idempotent, begins] at here
          cases here
          exact starts
        rw [named _ noName] at found
        cases found
      | true =>
        rw [begins, List.dropWhile_cons_of_neg (by simp [Condition.not_isSpace_of_isNameStart starts])] at same
        exact ⟨c, tail, same.symm, .inr starts⟩

theorem readLine_eq_stop (named : Named node)
    (other : ∀ c, (s.dropWhile isBlank).head? = some c → c ≠ '#' ∧ isNameStart c = false) :
    readLine node s = .stop := by
  have noComment : readComment (s.dropWhile isBlank) = .stop :=
    readComment_eq_stop fun here => (other '#' (by rwa [List.dropWhile_idempotent] at here)).1 rfl
  have noNode : node (s.dropWhile isBlank) = .stop :=
    named _ fun c here => (other c (by rwa [List.dropWhile_idempotent] at here)).2
  rw [readLine, orElse, noComment, Reply.map_stop]
  simp only
  rw [noNode, Reply.map_stop, Reply.bind_stop]

theorem no_line_of_head {tail : List Char} (closed : s.dropWhile isSpace = '}' :: tail) {c : Char}
    (here : (s.dropWhile isBlank).head? = some c) : c ≠ '#' ∧ isNameStart c = false := by
  -- Where a block is closed, after white space, there is no comment and no name, also if the line ends first.
  obtain ⟨behind, begins⟩ := List.head?_eq_some_iff.mp here
  have whole := dropWhile_isSpace_dropWhile_isBlank s
  rw [begins, closed] at whole
  cases space : isSpace c with
  | true =>
    refine ⟨?_, ?_⟩
    · rintro rfl
      cases space
    · cases starts : isNameStart c with
      | false => rfl
      | true => exact absurd space (by simp [Condition.not_isSpace_of_isNameStart starts])
  | false =>
    rw [List.dropWhile_cons_of_neg (by simp [space])] at whole
    obtain ⟨rfl, -⟩ := List.cons.inj whole
    exact ⟨by decide, rfl⟩

theorem readLine_stable (follows : Follows more node other) {line : Option Definition}
    (read : readLine node s = .ok line rest) (resumes : Resumes rest) (some : rest.dropWhile isSpace ≠ []) :
    readLine other (s ++ '\n' :: more) = .ok line (rest ++ '\n' :: more) := by
  obtain ⟨left, breaks, found, rounds⟩ := readLine_eq_ok read
  have skips : Rounds readLineBreaks (left ++ '\n' :: more) breaks (rest ++ '\n' :: more) :=
    skipLines_stable rounds some
  rcases found with ⟨comment, rfl⟩ | ⟨noComment, definition, found, rfl⟩
  · refine readLine_of_comment ?_ skips
    rw [dropWhile_append_lineFeed rfl]
    exact readComment_stable comment
  · have left_resumes : Resumes left := by
      intro c here
      rw [← skipped_same rounds] at here
      exact resumes c here
    refine readLine_of_node ?_ ?_ skips <;> rw [dropWhile_append_lineFeed rfl]
    · exact readComment_stop_stable noComment
    · exact follows _ _ _ found left_resumes

/-- The lines of a block are the same, and it is clear where they end. -/
theorem lines_stable (named : Named node) (otherNamed : Named other) (follows : Follows more node other)
    {lines : List (Option Definition)} (rounds : Rounds (readLine node) s lines rest)
    (closed : ∃ tail, rest.dropWhile isSpace = '}' :: tail) :
    (Resumes s ∧ s.dropWhile isSpace ≠ []) ∧
      Rounds (readLine other) (s ++ '\n' :: more) lines (rest ++ '\n' :: more) := by
  induction rounds with
  -- What comes next is the brace, and no line begins with it.
  | @none s _ =>
    obtain ⟨tail, begins⟩ := closed
    have resumes : Resumes s := by
      intro c here
      rw [begins] at here
      cases here
      exact .inr (.inr rfl)
    refine ⟨⟨resumes, by simp [begins]⟩, .none (readLine_eq_stop otherNamed fun c here => ?_)⟩
    have whole : (s ++ '\n' :: more).dropWhile isSpace = '}' :: (tail ++ '\n' :: more) := by
      rw [dropWhile_append_of_ne_nil (by simp [begins]), begins, List.cons_append]
    exact no_line_of_head whole here
  | @more s left _ line _ first shorter rest ih =>
    obtain ⟨⟨resumes, some⟩, rounds⟩ := ih closed
    obtain ⟨c, tail, begins, starts⟩ := readLine_begins named first
    refine ⟨⟨?_, by simp [begins]⟩, .more (readLine_stable follows first resumes some) (by simpa using shorter) rounds⟩
    intro d here
    rw [begins] at here
    cases here
    exact starts.imp_right .inl

theorem readBlock_stable (named : Named node) (otherNamed : Named other) (follows : Follows more node other)
    {children : List Definition} (read : readBlock node s = .ok children rest) :
    readBlock other (s ++ '\n' :: more) = .ok children (rest ++ '\n' :: more) := by
  obtain ⟨_, inner, opened, whole⟩ := Reply.bind_eq_ok.mp read
  obtain ⟨_, last, body, whole⟩ := Reply.bind_eq_ok.mp whole
  obtain ⟨_, closed, rfl⟩ := Reply.map_eq_ok.mp whole
  obtain ⟨opening, first, blanks, body⟩ := Reply.bind_eq_ok.mp body
  obtain ⟨lines, left, found, body⟩ := Reply.bind_eq_ok.mp body
  obtain ⟨closing, skipped, rfl⟩ := Reply.map_eq_ok.mp body
  have blanks := rounds_of_many blanks
  have skipped := rounds_of_many skipped
  obtain ⟨tail, begins, _⟩ := mark_begins closed
  have brace : last.dropWhile isSpace = '}' :: tail := by
    rw [← dropWhile_isSpace_dropWhile_isBlank, begins]
    rfl
  have ends : left.dropWhile isSpace = '}' :: tail := (skipped_same skipped).symm.trans brace
  obtain ⟨⟨_, some⟩, rounds⟩ := lines_stable named otherNamed follows (rounds_of_many found) ⟨tail, ends⟩
  have opens : openBrace (s ++ '\n' :: more) = .ok () (inner ++ '\n' :: more) := mark_stable opened (.inl rfl)
  have closes : closeBrace (last ++ '\n' :: more) = .ok () (rest ++ '\n' :: more) := mark_stable closed (.inl rfl)
  have before : skipLines (inner ++ '\n' :: more) = .ok opening (first ++ '\n' :: more) :=
    (skipLines_stable blanks some).many_eq
  have behind : skipLines (left ++ '\n' :: more) = .ok closing (last ++ '\n' :: more) :=
    (skipLines_stable skipped (by simp [brace])).many_eq
  rw [readBlock, opens, Reply.bind_ok, readChildren, before, Reply.bind_ok, rounds.many_eq, Reply.bind_ok, behind,
    Reply.map_ok, Reply.bind_ok, closes, Reply.map_ok]

end Lines

theorem head?_of_comment {s rest : List Char} (read : readComment s = .ok () rest) :
    (s.dropWhile isBlank).head? = some '#' := by
  obtain ⟨text, begins, _⟩ := readComment_begins read
  rw [begins]
  rfl

theorem head?_of_attributes {s rest : List Char} {given : List Attribute} (read : readAttributes s = .ok given rest) :
    (s.dropWhile isBlank).head? = some '(' := by
  obtain ⟨_, _, opened, _⟩ := Reply.bind_eq_ok.mp read
  obtain ⟨tail, begins, _⟩ := mark_begins opened
  rw [begins]
  rfl

theorem head?_of_block {node : Parser Definition} {s rest : List Char} {children : List Definition}
    (read : readBlock node s = .ok children rest) : (s.dropWhile isBlank).head? = some '{' := by
  obtain ⟨_, _, opened, _⟩ := Reply.bind_eq_ok.mp read
  obtain ⟨tail, begins, _⟩ := mark_begins opened
  rw [begins]
  rfl

theorem readLabel_stop_stable {s : List Char} (noQuote : (s.dropWhile isBlank).head? ≠ some '"') :
    readLabel (s ++ '\n' :: more) = .stop := by
  have apart : (s ++ '\n' :: more).head? ≠ some '"' := by
    cases s with
    | nil => simp
    | cons c s =>
      intro here
      cases here
      exact noQuote rfl
  rw [readLabel, literal_eq_stop apart, Reply.bind_stop]

/-- A node is read in the same way if more lines follow, where it is clear that it has ended. -/
theorem read_stable {s rest : List Char} {definition : Definition} (taken : read s = .ok definition rest)
    (resumes : Resumes rest) : read (s ++ '\n' :: more) = .ok definition (rest ++ '\n' :: more) := by
  induction s using read.induct generalizing definition rest with
  | case1 s ih =>
    rw [read] at taken
    obtain ⟨type, behindName, named, taken⟩ := Reply.bind_eq_ok.mp taken
    obtain ⟨label, behindLabel, labelled, taken⟩ := Reply.bind_eq_ok.mp taken
    obtain ⟨attributes, behindAttributes, given, taken⟩ := Reply.bind_eq_ok.mp taken
    obtain ⟨children, behindBlock, block, taken⟩ := Reply.bind_eq_ok.mp taken
    obtain ⟨_, commented, rfl⟩ := Reply.map_eq_ok.mp taken
    -- The nodes of the block are shorter.
    have follows : Follows more (inside s) (inside (s ++ '\n' :: more)) := by
      intro here found left read resumes
      rw [inside, below] at read
      split at read
      · next shorter =>
        rw [inside, below, dif_pos (by simpa using shorter)]
        exact ih here shorter read resumes
      · cases read
    -- An optional part that was missing is still missing: its place is taken by the mark of a later part or by the
    -- end.
    have apart {c : Char} (other : c ≠ '#') (resumed : (rest.dropWhile isBlank).head? ≠ some c) :
        (behindBlock.dropWhile isBlank).head? ≠ some c :=
      optional_apart commented (fun _ => head?_of_comment) other.symm resumed
    have noBrace := apart (by decide) (resumes.head?_ne (c := '{') rfl (by decide))
    have noParenthesis := optional_apart block (fun _ => head?_of_block) (by decide)
      (apart (by decide) (resumes.head?_ne (c := '(') rfl (by decide)))
    have noQuote := optional_apart given (fun _ => head?_of_attributes) (by decide)
      (optional_apart block (fun _ => head?_of_block) (by decide)
        (apart (by decide) (resumes.head?_ne (c := '"') rfl (by decide))))
    rw [read, readName_stable named, Reply.bind_ok,
      optional_stable labelled (fun _ => readLabel_stable) fun _ same => readLabel_stop_stable (same ▸ noQuote),
      Reply.bind_ok, optional_stable given (fun _ => readAttributes_stable) fun _ same =>
        readAttributes_eq_stop (head?_dropWhile_append_lineFeed rfl (by decide) (same ▸ noParenthesis)),
      Reply.bind_ok, optional_stable block (fun _ => readBlock_stable (inside_named s) (inside_named _) follows)
        fun _ same => readBlock_eq_stop _ (head?_dropWhile_append_lineFeed rfl (by decide) (same ▸ noBrace)),
      Reply.bind_ok, optional_stable commented (fun _ => readComment_stable) fun stops _ =>
        readComment_stop_stable stops, Reply.map_ok]

end Definition

end BehaviorTree
