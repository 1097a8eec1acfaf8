import BehaviorTree.Proofs.Derivation
import Mathlib.Data.List.DropRight

/-! Every derivation is read. A reader goes as far as it can, so a text is read to its end only if what follows
it cannot be taken for more of it. In a derivation a factor is followed by an operator, by a closing
parenthesis or by the end; the levels above leave fewer of these. A comma may follow a whole condition that
is an attribute. -/

set_option autoImplicit false

namespace BehaviorTree

open Text BehaviorTree.Parser

namespace Condition

/-- What may follow a level, after white space. -/
def Level.closedBy : Level → Char → Bool
  | .factor, c => c == '&' || (c == '|' || (c == ')' || c == ','))
  | .conjunction, c => c == '|' || (c == ')' || c == ',')
  | .disjunction, c => c == ')' || c == ','

def Closes (level : Level) (rest : List Char) : Prop :=
  ∀ c, (rest.dropWhile isSpace).head? = some c → level.closedBy c = true

theorem Closes.conjunction {rest : List Char} (closes : Closes .disjunction rest) : Closes .conjunction rest :=
  fun c here => Bool.or_eq_true_iff.mpr (.inr (closes c here))

theorem Closes.factor {rest : List Char} (closes : Closes .conjunction rest) : Closes .factor rest :=
  fun c here => Bool.or_eq_true_iff.mpr (.inr (closes c here))

theorem not_isNamePart_of_isSpace {c : Char} (space : isSpace c = true) : isNamePart c = false := by
  simp only [isSpace, isBlank, isLineBreak, Bool.or_eq_true, beq_iff_eq] at space
  rcases space with (rfl | rfl) | (rfl | rfl) <;> rfl

theorem not_isSpace_of_isNameStart {c : Char} (starts : isNameStart c = true) : isSpace c = false := by
  have part : isNamePart c = true := by
    simp only [isNameStart, isNamePart, Char.isAlphanum, Bool.or_eq_true] at starts ⊢
    exact starts.imp_left .inl
  cases space : isSpace c with
  | false => rfl
  | true =>
    rw [not_isNamePart_of_isSpace space] at part
    cases part

theorem Closes.isNamePart_head {rest : List Char} (closes : Closes .factor rest) {c : Char}
    (here : rest.head? = some c) : isNamePart c = false := by
  cases rest with
  | nil => cases here
  | cons d rest =>
    cases here
    cases space : isSpace c with
    | true => exact not_isNamePart_of_isSpace space
    | false =>
      have known := closes c (by rw [List.dropWhile_cons_of_neg (by simp [space])]; rfl)
      simp only [Level.closedBy, Bool.or_eq_true, beq_iff_eq] at known
      rcases known with rfl | rfl | rfl | rfl <;> rfl

theorem Closes.open_head {rest : List Char} (closes : Closes .factor rest) :
    (rest.dropWhile isBlank).head? ≠ some '(' := by
  intro here
  obtain ⟨tail, begins⟩ := List.head?_eq_some_iff.mp here
  have whole : rest.dropWhile isSpace = '(' :: tail := by
    rw [← dropWhile_isSpace_dropWhile_isBlank, begins]
    rfl
  cases closes '(' (by rw [whole]; rfl)

/-! The parts of a factor. -/

theorem identifier_append {name rest : List Char} (isName : IsName name)
    (ends : ∀ c, rest.head? = some c → isNamePart c = false) :
    identifier (name ++ rest) = .ok (String.ofList name) rest := by
  obtain ⟨c, parts, rfl, starts, only⟩ := isName
  rw [List.cons_append, identifier, if_pos starts]
  cases rest with
  | nil => simp [List.takeWhile_eq_self_iff.mpr only, List.dropWhile_eq_nil_iff.mpr only]
  | cons d rest =>
    have other := ends d rfl
    rw [takeWhile_append_cons only other, dropWhile_append_cons only other]

theorem literal_append {quoted : List Char} (only : Only isNotQuote quoted) (rest : List Char) :
    literal ('"' :: (quoted ++ '"' :: rest)) = .ok (String.ofList (Literal.decode quoted)) rest := by
  have closing : isNotQuote '"' = false := rfl
  simp only [literal, dropWhile_append_cons only closing, takeWhile_append_cons only closing]

theorem openParenthesis_append {outside inside : List Char} (onlyOutside : Only isBlank outside)
    (onlyInside : Only isSpace inside) {c : Char} (other : isSpace c = false) (rest : List Char) :
    openParenthesis (outside ++ '(' :: (inside ++ c :: rest)) = .ok () (c :: rest) := by
  have begins : (outside ++ '(' :: (inside ++ c :: rest)).dropWhile isBlank = ['('] ++ (inside ++ c :: rest) :=
    dropWhile_append_cons onlyOutside rfl _
  rw [openParenthesis, mark_of_append begins, dropWhile_append_cons onlyInside other]

theorem closeParenthesis_append {behind after : List Char} (onlyBehind : Only isSpace behind)
    (onlyAfter : Only isBlank after) (rest : List Char) :
    closeParenthesis (behind ++ ')' :: (after ++ rest)) = .ok () (rest.dropWhile isBlank) := by
  have begins : (behind ++ ')' :: (after ++ rest)).dropWhile isSpace = [')'] ++ (after ++ rest) :=
    dropWhile_append_cons onlyBehind rfl _
  rw [closeParenthesis, mark_of_append begins, List.dropWhile_append_of_pos onlyAfter]

theorem argument_append {written : List Char} {text : String} (argument : Argument written text) (rest : List Char) :
    Condition.argument (written ++ rest) = .ok text (rest.dropWhile isBlank) := by
  cases argument with
  | mk onlyOutside onlyInside onlyQuoted onlyBehind onlyAfter =>
    simp only [List.append_assoc, List.cons_append]
    rw [Condition.argument, openParenthesis_append onlyOutside onlyInside rfl, Reply.bind_ok,
      literal_append onlyQuoted, Reply.bind_ok, closeParenthesis_append onlyBehind onlyAfter, Reply.map_ok]

theorem argument_eq_stop {s : List Char} (other : (s.dropWhile isBlank).head? ≠ some '(') : argument s = .stop := by
  rw [argument, openParenthesis, mark_eq_stop other, Reply.bind_stop]

theorem readAtom_append {name rest : List Char} (isName : IsName name) (closes : Closes .factor rest) :
    readAtom (name ++ rest) = .ok (.atom (String.ofList name) none) rest := by
  rw [readAtom, identifier_append isName fun c here => closes.isNamePart_head here, Reply.bind_ok, Parser.optional,
    argument_eq_stop closes.open_head, Reply.map_ok]

theorem readAtom_append_argument {name written : List Char} {text : String} (isName : IsName name)
    (argument : Argument written text) (rest : List Char) :
    readAtom (name ++ (written ++ rest)) = .ok (.atom (String.ofList name) (some text)) (rest.dropWhile isBlank) := by
  have ends : ∀ c, (written ++ rest).head? = some c → isNamePart c = false := by
    intro c here
    obtain @⟨outside, _, _, _, _, onlyOutside, _⟩ := argument
    cases outside with
    | nil =>
      cases here
      rfl
    | cons d outside =>
      cases here
      exact not_isNamePart_of_isSpace (isSpace_of_isBlank (onlyOutside c List.mem_cons_self))
  rw [readAtom, identifier_append isName ends, Reply.bind_ok, Parser.optional, argument_append argument, Reply.map_ok]

/-- A text begins, after blanks, with something else than white space. -/
def Begins (text : List Char) : Prop :=
  ∃ blanks c rest, Only isBlank blanks ∧ isSpace c = false ∧ text = blanks ++ c :: rest

theorem Begins.append {text : List Char} (begins : Begins text) (more : List Char) : Begins (text ++ more) := by
  obtain ⟨blanks, c, rest, only, other, rfl⟩ := begins
  exact ⟨blanks, c, rest ++ more, only, other, by simp⟩

theorem isBlank_of_not_isSpace {c : Char} (other : isSpace c = false) : isBlank c = false := by
  rw [isSpace, Bool.or_eq_false_iff] at other
  exact other.1

theorem Begins.dropWhile_eq {text : List Char} (begins : Begins text) :
    text.dropWhile isSpace = text.dropWhile isBlank := by
  obtain ⟨blanks, c, rest, only, other, rfl⟩ := begins
  rw [dropWhile_append_cons only (isBlank_of_not_isSpace other),
    dropWhile_append_cons (fun c member => isSpace_of_isBlank (only c member)) other]

theorem Derives.begins {level : Level} {text : List Char} {tree : Condition} (derives : Derives level text tree) :
    Begins text := by
  induction derives with
  | not only _ _ _ => exact ⟨_, '!', _, only, rfl, rfl⟩
  | nested only _ _ _ _ => exact ⟨_, '(', _, only, rfl, rfl⟩
  | atom only isName =>
    obtain ⟨c, rest, rfl, starts, _⟩ := isName
    exact ⟨_, c, rest, only, not_isSpace_of_isNameStart starts, rfl⟩
  | atomWith only isName _ =>
    obtain ⟨c, rest, rfl, starts, _⟩ := isName
    exact ⟨_, c, _, only, not_isSpace_of_isNameStart starts, rfl⟩
  | conjunction _ _ ih _ => exact ih.append _
  | disjunction _ _ ih _ => exact ih.append _

theorem readFactor_name {nested : Parser Condition} {s name rest : List Char} (isName : IsName name)
    (start : s.dropWhile isBlank = name ++ rest) : readFactor nested s = readAtom (name ++ rest) := by
  obtain ⟨c, tail, rfl, starts, _⟩ := isName
  have other (d : Char) (different : isNameStart d = false) (after : List Char) : s.dropWhile isBlank ≠ d :: after := by
    intro same
    rw [start] at same
    cases same
    rw [different] at starts
    cases starts
  rw [readFactor_atom (other '!' rfl) (other '(' rfl), start]

/-! A reader answers for a text if it finds its tree wherever the text stands and is closed. -/

def Answers (operand : Parser Condition) (bound : List Char) (level : Level) (text : List Char) (tree : Condition) :
    Prop :=
  ∀ s rest, s.dropWhile isBlank = (text ++ rest).dropWhile isBlank → Closes level rest → s.length ≤ bound.length →
    (operand s).Reads tree rest

section Chain

variable {operand : Parser Condition} {bound : List Char} {level : Level} {form : List Char → Condition → Prop}
variable {c : Char} {others : List Operand}

theorem dropWhile_others (other : isSpace c = false) (next : Operand) (others : List Operand) (rest : List Char) :
    ((next :: others).flatMap (Operand.written [c, c]) ++ rest).dropWhile isSpace =
      [c, c] ++ (next.after ++ (next.text ++ (others.flatMap (Operand.written [c, c]) ++ rest))) := by
  simpa [Operand.written] using dropWhile_append_cons next.only_before other _

theorem closes_others (other : isSpace c = false) (closed : level.closedBy c = true) {rest : List Char}
    (closes : Closes level rest) : Closes level (others.flatMap (Operand.written [c, c]) ++ rest) := by
  cases others with
  | nil => exact closes
  | cons next others =>
    intro d here
    rw [dropWhile_others other] at here
    cases here
    exact closed

theorem many_reads (takes : Takes operand form) (other : isSpace c = false) (closed : level.closedBy c = true)
    (begins : ∀ next ∈ others, Begins next.text)
    (answers : ∀ next ∈ others, Answers operand bound level next.text next.tree) {s rest : List Char}
    (same : s.dropWhile isSpace = (others.flatMap (Operand.written [c, c]) ++ rest).dropWhile isSpace)
    (closes : Closes level rest) (ends : (rest.dropWhile isSpace).head? ≠ some c) (short : s.length ≤ bound.length) :
    (many (after (mark isSpace [c, c] isSpace) operand) s).Reads (others.map Operand.tree) rest := by
  induction others generalizing s with
  | nil =>
    have stops : mark isSpace [c, c] isSpace s = .stop := mark_eq_stop (by rw [same]; exact ends)
    refine ⟨s, many_of_stop ?_, same⟩
    rw [Parser.after, stops, Reply.bind_stop]
  | cons next others ih =>
    have started := same.trans (dropWhile_others other next others rest)
    have written := (begins next List.mem_cons_self).append (others.flatMap (Operand.written [c, c]) ++ rest)
    -- The mark takes all white space, so also the blanks that the operand begins with.
    have marked : mark isSpace [c, c] isSpace s =
        .ok () ((next.text ++ (others.flatMap (Operand.written [c, c]) ++ rest)).dropWhile isBlank) := by
      rw [mark_of_append started, List.dropWhile_append_of_pos next.only_after, written.dropWhile_eq]
    have taken :
        ((next.text ++ (others.flatMap (Operand.written [c, c]) ++ rest)).dropWhile isBlank).length < s.length := by
      have whole := length_dropWhile_le isSpace s
      have part := length_dropWhile_le isBlank (next.text ++ (others.flatMap (Operand.written [c, c]) ++ rest))
      rw [started] at whole
      simp only [List.length_append, List.length_cons, List.length_nil] at whole part ⊢
      omega
    obtain ⟨left, read, followed⟩ := answers next List.mem_cons_self _ _ (List.dropWhile_idempotent isBlank _)
      (closes_others other closed closes) (Nat.le_trans (Nat.le_of_lt taken) short)
    obtain ⟨used, split, _⟩ := takes _ _ _ read
    -- A round takes the operator at least, so repetition does not refuse it.
    have shorter : left.length < s.length := by
      rw [split, List.length_append] at taken
      omega
    have round : after (mark isSpace [c, c] isSpace) operand s = .ok next.tree left := by
      rw [Parser.after, marked, Reply.bind_ok, read]
    rw [many_of_ok round shorter]
    exact (ih (fun later member => begins later (List.mem_cons_of_mem _ member))
      (fun later member => answers later (List.mem_cons_of_mem _ member)) followed (by omega)).map (next.tree :: ·)

theorem readChain_reads (takes : Takes operand form) (other : isSpace c = false) (closed : level.closedBy c = true)
    (join : Condition → Condition → Condition) {text : List Char} {first : Condition}
    (begun : Answers operand bound level text first) (begins : ∀ next ∈ others, Begins next.text)
    (answers : ∀ next ∈ others, Answers operand bound level next.text next.tree) {upper : Level}
    (above : ∀ rest, Closes upper rest → Closes level rest ∧ (rest.dropWhile isSpace).head? ≠ some c) :
    Answers (readChain [c, c] join operand) bound upper (text ++ others.flatMap (Operand.written [c, c]))
      ((others.map Operand.tree).foldl join first) := by
  intro s rest same closes short
  obtain ⟨closes, ends⟩ := above rest closes
  rw [List.append_assoc] at same
  obtain ⟨left, read, followed⟩ := begun s _ same (closes_others other closed closes) short
  obtain ⟨used, split, _⟩ := takes _ _ _ read
  have shorter : left.length ≤ bound.length := by
    rw [split, List.length_append] at short
    omega
  rw [readChain, read, Reply.bind_ok]
  exact (many_reads takes other closed begins answers followed closes ends shorter).map _

end Chain

/-- A text with a tree is read to this tree, wherever it stands. -/
theorem Derives.answers {level : Level} {text : List Char} {tree : Condition} (derives : Derives level text tree)
    (bound : List Char) : Answers (within bound level) bound level text tree := by
  induction derives generalizing bound with
  | @not blanks gap text operand only onlyGap _ ih =>
    intro s rest same closes short
    have start : s.dropWhile isBlank = '!' :: (gap ++ text ++ rest) := by
      rw [same]
      simpa using dropWhile_append_cons only (c := '!') rfl (gap ++ text ++ rest)
    have shorter := length_lt_of_dropWhile start
    have below : (gap ++ text ++ rest).dropWhile isBlank = (text ++ rest).dropWhile isBlank := by
      rw [List.append_assoc, List.dropWhile_append_of_pos onlyGap]
    obtain ⟨left, found, followed⟩ := ih bound _ rest below closes (by omega)
    refine ⟨left, ?_, followed⟩
    rw [within] at found ⊢
    rw [readFactor_not start, found, Reply.map_ok]
  | @nested blanks before text after inner only onlyBefore derives onlyAfter ih =>
    intro s rest same closes short
    have start : s.dropWhile isBlank = '(' :: (before ++ (text ++ (after ++ ')' :: rest))) := by
      rw [same]
      simpa using dropWhile_append_cons only (c := '(') rfl (before ++ (text ++ (after ++ ')' :: rest)))
    have shorter := length_lt_of_dropWhile start
    -- The reader inside starts behind white space, of which the text may have brought blanks.
    have skipped : (before ++ (text ++ (after ++ ')' :: rest))).dropWhile isSpace =
        (text ++ (after ++ ')' :: rest)).dropWhile isBlank := by
      rw [List.dropWhile_append_of_pos onlyBefore, (derives.begins.append _).dropWhile_eq]
    have closing : (after ++ ')' :: rest).dropWhile isSpace = [')'] ++ rest := dropWhile_append_cons onlyAfter rfl rest
    have closed : Closes .disjunction (after ++ ')' :: rest) := by
      intro c here
      rw [closing] at here
      cases here
      rfl
    obtain ⟨left, found, followed⟩ := ih _ _ _ (List.dropWhile_idempotent isBlank _) closed (Nat.le_refl _)
    rw [← skipped, ← read_eq] at found
    have short : ((before ++ (text ++ (after ++ ')' :: rest))).dropWhile isSpace).length < bound.length := by
      have part := length_dropWhile_le isSpace (before ++ (text ++ (after ++ ')' :: rest)))
      omega
    have ends : closeNested left = .ok () rest := by
      rw [closeNested, mark_of_append (followed.trans closing)]
      cases rest <;> rfl
    refine ⟨rest, ?_, rfl⟩
    rw [within, readFactor_nested start, Parser.below, dif_pos short, found, Reply.bind_ok, ends, Reply.map_ok]
  | @atom blanks name only isName =>
    intro s rest same closes short
    have start : s.dropWhile isBlank = name ++ rest := by
      obtain ⟨c, tail, rfl, starts, _⟩ := isName
      rw [same]
      simpa using dropWhile_append_cons only (isBlank_of_not_isSpace (not_isSpace_of_isNameStart starts)) (tail ++ rest)
    exact ⟨rest, (readFactor_name isName start).trans (readAtom_append isName closes), rfl⟩
  | @atomWith blanks name written argument only isName argued =>
    intro s rest same closes short
    have start : s.dropWhile isBlank = name ++ (written ++ rest) := by
      obtain ⟨c, tail, rfl, starts, _⟩ := isName
      rw [same]
      simpa using dropWhile_append_cons only (isBlank_of_not_isSpace (not_isSpace_of_isNameStart starts))
        (tail ++ (written ++ rest))
    exact ⟨_, (readFactor_name isName start).trans (readAtom_append_argument isName argued rest),
      dropWhile_isSpace_dropWhile_isBlank rest⟩
  | conjunction _ operands ih each =>
    refine readChain_reads (within_takes bound .factor) rfl rfl .and (ih bound)
      (fun next member => (operands next member).begins) (fun next member => each next member bound) fun rest closes => ?_
    refine ⟨closes.factor, fun here => ?_⟩
    cases closes _ here
  | disjunction _ operands ih each =>
    refine readChain_reads (within_takes bound .conjunction) rfl rfl .or (ih bound)
      (fun next member => (operands next member).begins) (fun next member => each next member bound) fun rest closes => ?_
    refine ⟨closes.conjunction, fun here => ?_⟩
    cases closes _ here

theorem ofText?_of_complete {text : String} {tree : Condition} (complete : Complete text.toList tree) :
    ofText? text = some tree := by
  obtain ⟨before, inner, after, onlyBefore, derives, onlyAfter, same⟩ := complete
  have skipped : text.toList.dropWhile isSpace = (inner ++ after).dropWhile isBlank := by
    rw [same, List.append_assoc, List.dropWhile_append_of_pos onlyBefore, (derives.begins.append after).dropWhile_eq]
  have nothing : after.dropWhile isSpace = [] := List.dropWhile_eq_nil_iff.mpr onlyAfter
  have closes : Closes .disjunction after := by
    intro c here
    rw [nothing] at here
    cases here
  obtain ⟨left, found, followed⟩ :=
    derives.answers _ _ after (List.dropWhile_idempotent isBlank _) closes (Nat.le_refl _)
  rw [ofText?, skipped, read_eq, found]
  simp [followed.trans nothing]

/-- The condition that a text is found to be is the tree that the grammar gives it, and there is one at most. -/
theorem ofText?_iff (text : String) : (∀ tree, ofText? text = some tree ↔ Complete text.toList tree) ∧
    ∀ tree other, Complete text.toList tree → Complete text.toList other → tree = other := by
  refine ⟨fun tree => ⟨complete_of_ofText?, ofText?_of_complete⟩, fun tree other first second => ?_⟩
  have same := (ofText?_of_complete first).symm.trans (ofText?_of_complete second)
  exact Option.some.inj same

example : ofText? "a || b && !c" = some (.or (.atom "a" none) (.and (.atom "b" none) (.not (.atom "c" none)))) := by
  cbv

end Condition

end BehaviorTree
