import BehaviorTree.Proofs.Writing
import BehaviorTree.Proofs.Numerals

/-! A source that is written is read back. Comments and line breaks are taken by three readers, one inside a
block, one after a node and one between trees, each with its own rule for the white space it leaves, so what
is left is followed exactly inside a line and up to white space from one line to the next. -/

set_option autoImplicit false

namespace BehaviorTree

open Text BehaviorTree.Parser

namespace LineEnd

variable (line : LineEnd) (more : List Char)

theorem lineBreak_cases : line.lineBreak = ['\r', '\n'] ∨ line.lineBreak = ['\n'] := by
  rw [lineBreak]
  split
  · exact .inl rfl
  · exact .inr rfl

theorem lineBreak_eq_cons : ∃ c rest, isLineBreak c = true ∧ line.lineBreak ++ more = c :: rest := by
  rw [lineBreak]
  split
  · exact ⟨'\r', '\n' :: more, rfl, rfl⟩
  · exact ⟨'\n', more, rfl, rfl⟩

theorem dropWhile_isBlank_lineBreak : (line.lineBreak ++ more).dropWhile isBlank = line.lineBreak ++ more := by
  rw [lineBreak]
  split <;> rfl

theorem dropWhile_isSpace_lineBreak : (line.lineBreak ++ more).dropWhile isSpace = more.dropWhile isSpace := by
  have spaces : Only isSpace line.lineBreak := by
    rw [lineBreak]
    split <;> decide
  exact List.dropWhile_append_of_pos spaces

theorem dropWhile_isBlank_written :
    (line.written ++ more).dropWhile isBlank = line.remark ++ (line.lineBreak ++ more) := by
  rw [written, List.append_assoc, List.append_assoc, List.dropWhile_append_of_pos line.only_blanks, remark]
  cases line.comment with
  | none => exact line.dropWhile_isBlank_lineBreak more
  | some text => rfl

theorem dropWhile_isSpace_written :
    (line.written ++ more).dropWhile isSpace = (line.remark ++ (line.lineBreak ++ more)).dropWhile isSpace := by
  rw [← dropWhile_isSpace_dropWhile_isBlank, line.dropWhile_isBlank_written]

theorem readComment_append {text : List Char} (only : Only (fun c => !isLineBreak c) text) :
    Definition.readComment ('#' :: (text ++ (line.lineBreak ++ more))) = .ok () (line.lineBreak ++ more) := by
  obtain ⟨c, rest, breaks, same⟩ := line.lineBreak_eq_cons more
  rw [same]
  exact congrArg (Reply.ok ()) (dropWhile_append_cons only (by simp [breaks]) rest)

theorem readComment_lineBreak : Definition.readComment (line.lineBreak ++ more) = .stop := by
  rw [lineBreak]
  split <;> rfl

theorem optional_readComment : ∃ comment,
    Parser.optional Definition.readComment (line.remark ++ (line.lineBreak ++ more)) =
      .ok comment (line.lineBreak ++ more) := by
  rw [remark]
  cases given : line.comment with
  | none => exact ⟨none, optional_of_stop (line.readComment_lineBreak more)⟩
  | some text => exact ⟨some (), optional_of_ok (line.readComment_append more (line.only_comment text given))⟩

end LineEnd

namespace Definition

theorem readLineBreaks_cases {s : List Char} (begins : s.dropWhile isBlank = s) :
    (readLineBreaks s = .stop ∧ s.dropWhile isSpace = s) ∨
      ∃ rest, readLineBreaks s = .ok () rest ∧ rest.length < s.length ∧ rest.dropWhile isBlank = rest ∧
        rest.dropWhile isSpace = s.dropWhile isSpace := by
  cases s with
  | nil => exact .inl ⟨rfl, rfl⟩
  | cons c rest =>
    have notBlank : isBlank c = false := by
      have stops := List.dropWhile_get_zero_not isBlank (c :: rest) (by simp [begins])
      simpa [begins] using stops
    cases breaks : isLineBreak c with
    | false =>
      refine .inl ⟨by simp [readLineBreaks, notBlank, breaks], ?_⟩
      exact List.dropWhile_cons_of_neg (by simp [isSpace, notBlank, breaks])
    | true =>
      refine .inr ⟨(rest.dropWhile isLineBreak).dropWhile isBlank, by simp [readLineBreaks, notBlank, breaks], ?_,
        List.dropWhile_idempotent isBlank _, ?_⟩
      · have first := length_dropWhile_le isLineBreak rest
        have second := length_dropWhile_le isBlank (rest.dropWhile isLineBreak)
        rw [List.length_cons]
        omega
      · rw [dropWhile_isSpace_dropWhile_isBlank, dropWhile_dropWhile fun _ => isSpace_of_isLineBreak,
          List.dropWhile_cons_of_pos (isSpace_of_isLineBreak breaks)]

theorem skipLines_eq {s : List Char} (begins : s.dropWhile isBlank = s) :
    ∃ skipped, skipLines s = .ok skipped (s.dropWhile isSpace) := by
  induction size : s.length using Nat.strong_induction_on generalizing s with
  | _ n ih =>
    rcases readLineBreaks_cases begins with ⟨stops, same⟩ | ⟨rest, read, shorter, begins, same⟩
    · rw [same]
      exact ⟨[], many_of_stop stops⟩
    · obtain ⟨skipped, more⟩ := ih rest.length (size ▸ shorter) begins rfl
      rw [skipLines] at more
      refine ⟨() :: skipped, ?_⟩
      rw [skipLines, many_of_ok read shorter, more, same, Reply.map_ok]

/-! What may follow a part of a node begins, after blanks, with a mark. -/

def Next (marks s : List Char) : Prop := ∃ c ∈ marks, (s.dropWhile isBlank).head? = some c

/-- What may follow a node. -/
def ends : List Char := ['#', '\r', '\n']

theorem next_lineEnd (line : LineEnd) (more : List Char) : Next ends (line.written ++ more) := by
  rw [Next, line.dropWhile_isBlank_written, LineEnd.remark]
  cases line.comment with
  | none =>
    rw [LineEnd.lineBreak]
    split
    · exact ⟨'\r', by decide, rfl⟩
    · exact ⟨'\n', by decide, rfl⟩
  | some text => exact ⟨'#', by decide, rfl⟩

theorem Next.cons {marks s : List Char} (next : Next marks s) (mark : Char) : Next (mark :: marks) s := by
  obtain ⟨c, member, here⟩ := next
  exact ⟨c, List.mem_cons_of_mem _ member, here⟩

theorem next_mark {mark : Char} (other : isBlank mark = false) (marks rest : List Char) :
    Next (mark :: marks) (' ' :: mark :: rest) := by
  refine ⟨mark, List.mem_cons_self, ?_⟩
  rw [dropWhile_blank_cons other]
  rfl

theorem Next.head?_ne {marks s : List Char} (next : Next marks s) {mark : Char} (other : mark ∉ marks) :
    (s.dropWhile isBlank).head? ≠ some mark := by
  intro here
  obtain ⟨c, member, found⟩ := next
  cases here.symm.trans found
  exact other member

theorem Next.not_isNamePart {marks s : List Char} (next : Next marks s) (apart : ∀ c ∈ marks, isNamePart c = false)
    {c : Char} (here : s.head? = some c) : isNamePart c = false := by
  obtain ⟨mark, member, found⟩ := next
  cases s with
  | nil => cases here
  | cons d s =>
    cases here
    cases blank : isBlank c with
    | true => exact Condition.not_isNamePart_of_isSpace (isSpace_of_isBlank blank)
    | false =>
      rw [List.dropWhile_cons_of_neg (by simp [blank])] at found
      cases found
      exact apart c member

theorem mark_eq_stop_of_next {marks s : List Char} (next : Next marks s) {c : Char} (other : c ∉ marks)
    (text : List Char) (after : Char → Bool) : mark isBlank (c :: text) after (s.dropWhile isBlank) = .stop := by
  refine mark_eq_stop ?_
  rw [List.dropWhile_idempotent]
  exact next.head?_ne other

/-! The parts of the head of a node. -/

theorem dropWhile_isBlank_of_isName {name : List Char} (isName : Condition.IsName name) (rest : List Char) :
    (name ++ rest).dropWhile isBlank = name ++ rest := by
  obtain ⟨c, parts, rfl, starts, _⟩ := isName
  have other := Condition.isBlank_of_not_isSpace (Condition.not_isSpace_of_isNameStart starts)
  exact List.dropWhile_cons_of_neg (by simp [other])

theorem readName_append {name : String} (isName : Condition.IsName name.toList) {rest : List Char}
    (apart : ∀ c, rest.head? = some c → isNamePart c = false) :
    readName (name.toList ++ rest) = .ok name (rest.dropWhile isBlank) := by
  rw [readName, dropWhile_isBlank_of_isName isName, Condition.identifier_append isName apart, Reply.bind_ok,
    String.ofList_toList]

theorem literal_eq_stop {s : List Char} (other : s.head? ≠ some '"') : literal s = .stop := by
  rw [literal.eq_def]
  split
  · exact absurd rfl other
  · rfl

theorem next_writtenLabel (label : Option String) {marks rest : List Char} (next : Next marks rest) :
    Next ('"' :: marks) (writtenLabel label ++ rest) := by
  cases label with
  | none => exact next.cons '"'
  | some text => exact next_mark rfl marks _

theorem readLabel_append {label : Option String} (plain : ∀ text ∈ label, Only isPlain text.toList) {marks : List Char}
    {rest : List Char} (next : Next marks rest) (other : '"' ∉ marks) :
    Parser.optional readLabel ((writtenLabel label ++ rest).dropWhile isBlank) =
      .ok label (rest.dropWhile isBlank) := by
  cases label with
  | none =>
    refine optional_of_stop ?_
    rw [writtenLabel, List.nil_append, readLabel, literal_eq_stop (next.head?_ne other), Reply.bind_stop]
  | some text =>
    have quotable := plain text rfl
    have begins : (writtenLabel (some text) ++ rest).dropWhile isBlank = '"' :: (text.toList ++ '"' :: rest) := by
      simpa [writtenLabel, quote] using dropWhile_blank_cons (c := '"') rfl (text.toList ++ '"' :: rest)
    refine optional_of_ok ?_
    rw [begins, readLabel, Condition.literal_append fun c member => Condition.isNotQuote_of_isPlain (quotable c member),
      Reply.bind_ok, Condition.decode_of_plain quotable, String.ofList_toList]

/-! Attributes. -/

/-- An attribute ends where another one follows or the parenthesis is closed. -/
def endsAttribute (c : Char) : Bool := c == ')' || c == ','

theorem keyword_append (text rest : List Char) : keyword text (text ++ rest) = .ok () rest := by
  have whole (s : List Char) : s.dropWhile (fun _ => false) = s := by cases s <;> rfl
  rw [keyword, mark_of_append (whole _), whole]

theorem keyword_eq_stop {c d : Char} (different : d ≠ c) (text rest : List Char) :
    keyword (c :: text) (d :: rest) = .stop :=
  mark_eq_stop (by simpa using different)

theorem named_append (name rest : List Char) :
    after (keyword name) colon (name ++ ([':', ' '] ++ rest)) = .ok () (rest.dropWhile isBlank) := by
  have marked : colon ([':', ' '] ++ rest) = .ok () (([' '] ++ rest).dropWhile isBlank) := mark_of_append rfl
  rw [after, keyword_append, Reply.bind_ok, marked]
  rfl

theorem readWhen_append {condition : Condition} (plain : condition.Plain) {c : Char} (closes : endsAttribute c = true)
    (more : List Char) : ∃ left,
      readWhen (['w', 'h', 'e', 'n'] ++ ([':', ' '] ++ (condition.written ++ c :: more))) = .ok (.when condition) left ∧
        left.dropWhile isSpace = c :: more ∧ left.length ≤ (condition.written ++ c :: more).length := by
  have derives := Condition.derives_written plain .disjunction (by cases condition <;> rfl)
  have same : (c :: more).dropWhile isSpace = c :: more := by
    simp only [endsAttribute, Bool.or_eq_true, beq_iff_eq] at closes
    rcases closes with rfl | rfl <;> rfl
  have closed : Condition.Closes .disjunction (c :: more) := by
    intro d here
    rw [same] at here
    cases here
    exact closes
  obtain ⟨left, found, followed⟩ := derives.answers _ _ _ (List.dropWhile_idempotent isBlank _) closed (Nat.le_refl _)
  rw [← Condition.read_eq] at found
  obtain ⟨used, split, _⟩ := Condition.read_takes _ _ _ found
  refine ⟨left, ?_, followed.trans same, ?_⟩
  · rw [readWhen, after, named_append, Reply.bind_ok, found, Reply.map_ok]
  · have short := length_dropWhile_le isBlank (condition.written ++ c :: more)
    rw [split, List.length_append] at short
    omega

theorem readAttribute_append {given : Attribute} {text : List Char} (written : given.WrittenAs text)
    (plain : given.Plain) {c : Char} (closes : endsAttribute c = true) (more : List Char) : ∃ left,
      readAttribute (text ++ c :: more) = .ok given left ∧ left.dropWhile isSpace = c :: more ∧
        left.length ≤ (text ++ c :: more).length := by
  cases written with
  | when condition =>
    obtain ⟨left, read, followed, short⟩ := readWhen_append plain closes more
    refine ⟨left, ?_, followed, ?_⟩
    · rw [List.append_assoc, List.append_assoc, readAttribute, orElse, read]
    · simp only [List.length_append] at short ⊢
      omega
  | @cooldown seconds numeral number =>
    have other : Decimal.isPart c = false ∧ isSpace c = false := by
      simp only [endsAttribute, Bool.or_eq_true, beq_iff_eq] at closes
      rcases closes with rfl | rfl <;> exact ⟨rfl, rfl⟩
    have noWhen (rest : List Char) : readWhen (['c', 'o', 'o', 'l', 'd', 'o', 'w', 'n'] ++ rest) = .stop := by
      rw [readWhen, after, after, List.cons_append, keyword_eq_stop (by decide)]
      rfl
    have read : Decimal.read (numeral ++ c :: more) = .ok seconds (c :: more) := Decimal.read_append number other.1 more
    refine ⟨c :: more, ?_, List.dropWhile_cons_of_neg (by simp [other]), by simp only [List.length_append]; omega⟩
    rw [List.append_assoc, List.append_assoc, readAttribute, orElse, noWhen]
    simp only
    rw [readCooldown, after, named_append, Reply.bind_ok, Decimal.dropWhile_isBlank_of_read read, read, Reply.map_ok]

theorem Attribute.WrittenAs.eq_cons {given : Attribute} {text : List Char} (written : given.WrittenAs text) :
    ∃ c tail, isSpace c = false ∧ text = c :: tail := by
  cases written <;> exact ⟨_, _, rfl, rfl⟩

theorem FurtherWrittenAs.append_eq_cons {further : List Attribute} {more : List Char}
    (written : FurtherWrittenAs further more) (rest : List Char) :
    ∃ c tail, endsAttribute c = true ∧ more ++ ')' :: rest = c :: tail := by
  cases written <;> exact ⟨_, _, rfl, rfl⟩

theorem FurtherWrittenAs.reads {further : List Attribute} {more : List Char} (written : FurtherWrittenAs further more)
    (plain : ∀ given ∈ further, given.Plain) {s rest : List Char} (same : s.dropWhile isSpace = more ++ ')' :: rest) :
    ∃ left, many (after comma readAttribute) s = .ok further left ∧ left.dropWhile isSpace = ')' :: rest := by
  induction written generalizing s with
  | nil =>
    have stops : comma s = .stop := mark_eq_stop (by rw [same]; simp)
    exact ⟨s, many_of_stop (by rw [after, stops, Reply.bind_stop]), same⟩
  | @cons next text further more written others ih =>
    obtain ⟨c, tail, other, rfl⟩ := Attribute.WrittenAs.eq_cons written
    obtain ⟨d, behind, closes, ending⟩ := others.append_eq_cons rest
    have marked : comma s = .ok () (c :: tail ++ d :: behind) := by
      have begins : s.dropWhile isSpace = [','] ++ ([' '] ++ (c :: (tail ++ d :: behind))) := by
        rw [same, ← ending]
        simp
      rw [comma, mark_of_append begins, dropWhile_append_cons (by decide) other, List.cons_append]
    obtain ⟨left, read, followed, short⟩ := readAttribute_append written (plain next List.mem_cons_self) closes behind
    have round : after comma readAttribute s = .ok next left := by rw [after, marked, Reply.bind_ok, read]
    have shorter : left.length < s.length := by
      have whole := length_dropWhile_le isSpace s
      rw [same, List.append_assoc, List.append_assoc, ending] at whole
      simp only [List.length_append, List.length_cons, List.length_nil] at whole short
      omega
    obtain ⟨rest, more, ends⟩ := ih (fun given member => plain given (List.mem_cons_of_mem _ member))
      (followed.trans ending.symm)
    exact ⟨rest, by rw [many_of_ok round shorter, more, Reply.map_ok], ends⟩

theorem AttributesWrittenAs.next {given : List Attribute} {text : List Char} (written : AttributesWrittenAs given text)
    {marks rest : List Char} (next : Next marks rest) : Next ('(' :: marks) (text ++ rest) := by
  cases written with
  | none => exact next.cons '('
  | some _ _ => exact next_mark rfl marks _

theorem readAttributes_append {given : List Attribute} {text : List Char} (written : AttributesWrittenAs given text)
    (plain : ∀ one ∈ given, one.Plain) {marks rest : List Char} (next : Next marks rest)
    (other : '(' ∉ marks) :
    ∃ found, Parser.optional readAttributes ((text ++ rest).dropWhile isBlank) = .ok found (rest.dropWhile isBlank) ∧
      found.getD [] = given := by
  cases written with
  | none =>
    refine ⟨none, optional_of_stop ?_, rfl⟩
    rw [List.nil_append, readAttributes, Condition.openParenthesis, mark_eq_stop_of_next next other, Reply.bind_stop]
  | @some first text further more written others =>
    obtain ⟨c, tail, notSpace, rfl⟩ := Attribute.WrittenAs.eq_cons written
    obtain ⟨d, behind, closes, ending⟩ := others.append_eq_cons rest
    obtain ⟨left, read, followed, _⟩ := readAttribute_append written (plain first List.mem_cons_self) closes behind
    obtain ⟨last, all, ends⟩ := others.reads (fun given member => plain given (List.mem_cons_of_mem _ member))
      (followed.trans ending.symm)
    refine ⟨some (first :: further), optional_of_ok ?_, rfl⟩
    have begins : (([' ', '('] ++ (c :: tail ++ (more ++ [')']))) ++ rest).dropWhile isBlank =
        [] ++ '(' :: ([] ++ c :: (tail ++ d :: behind)) := by
      rw [← ending]
      simpa using dropWhile_blank_cons (c := '(') rfl (c :: (tail ++ (more ++ ')' :: rest)))
    have closed : Condition.closeParenthesis last = .ok () (rest.dropWhile isBlank) := mark_of_append ends
    rw [begins, readAttributes, Condition.openParenthesis_append (only_nil isBlank) (only_nil isSpace) notSpace,
      Reply.bind_ok, separated, ← List.cons_append, read]
    simp only
    rw [all, Reply.map_ok, Reply.bind_ok, closed, Reply.map_ok]

theorem foldl_set_attributes (definition : Definition) (children : List Definition) :
    definition.attributes.foldl Definition.set ⟨definition.type, definition.label, none, none, children⟩ =
      { definition with children } := by
  rcases definition with ⟨type, label, _ | condition, _ | seconds, _⟩ <;> rfl

theorem with_children_self (definition : Definition) :
    ⟨definition.type, definition.label, definition.when, definition.cooldown, definition.children⟩ = definition := by
  cases definition
  rfl

theorem Plain.attributes {definition : Definition} (plain : definition.Plain) :
    ∀ given ∈ definition.attributes, given.Plain := by
  rcases definition with ⟨type, label, _ | condition, _ | seconds, children⟩ <;>
    simp [Definition.attributes, Attribute.Plain]
  · exact plain.when _ rfl
  · exact plain.when _ rfl

/-! Nodes and the lines of a block. -/

abbrev inside (bound : List Char) : Parser Definition := below bound fun rest _ => read rest

theorem read_headed {definition : Definition} {head s rest : List Char} (headed : definition.HeadedBy head)
    (plain : definition.Plain) (next : Next ('{' :: ends) rest) (begins : s = head ++ rest) :
    read s = (Parser.optional (readBlock (inside s)) (rest.dropWhile isBlank)).bind fun children rest =>
      (Parser.optional readComment rest).map fun _ => { definition with children := children.getD [] } := by
  obtain ⟨text, written, rfl⟩ := headed
  have nextAttributes := written.next next
  have nextLabel := next_writtenLabel definition.label nextAttributes
  obtain ⟨found, attributes, given⟩ := readAttributes_append written plain.attributes next (by decide)
  have named : readName s = .ok definition.type
      ((writtenLabel definition.label ++ (text ++ rest)).dropWhile isBlank) := by
    rw [begins, List.append_assoc, List.append_assoc]
    exact readName_append plain.type fun c => nextLabel.not_isNamePart (by decide)
  rw [read, named, Reply.bind_ok, readLabel_append plain.label nextAttributes (by decide), Reply.bind_ok, attributes,
    Reply.bind_ok, given]
  simp only [foldl_set_attributes]

theorem skipLines_lineBreak (line : LineEnd) (more : List Char) :
    ∃ skipped, skipLines (line.lineBreak ++ more) = .ok skipped (more.dropWhile isSpace) := by
  obtain ⟨skipped, read⟩ := skipLines_eq (line.dropWhile_isBlank_lineBreak more)
  exact ⟨skipped, by rw [read, line.dropWhile_isSpace_lineBreak]⟩

theorem readLine_comment (node : Parser Definition) {text : List Char} (only : Only (fun c => !isLineBreak c) text)
    (line : LineEnd) (more : List Char) :
    readLine node ('#' :: (text ++ (line.lineBreak ++ more))) = .ok none (more.dropWhile isSpace) := by
  obtain ⟨skipped, read⟩ := skipLines_lineBreak line more
  rw [readLine, List.dropWhile_cons_of_neg (by decide), orElse, line.readComment_append more only, Reply.map_ok]
  simp only
  rw [Reply.bind_ok, read, Reply.map_ok]

theorem readLine_node {node : Parser Definition} {s more : List Char} {definition : Definition} {line : LineEnd}
    (starts : ∃ c rest, s = c :: rest ∧ isNameStart c = true)
    (found : node s = .ok definition (line.lineBreak ++ more)) :
    readLine node s = .ok (some definition) (more.dropWhile isSpace) := by
  obtain ⟨skipped, read⟩ := skipLines_lineBreak line more
  obtain ⟨c, rest, rfl, starts⟩ := starts
  have other := Condition.isBlank_of_not_isSpace (Condition.not_isSpace_of_isNameStart starts)
  have noComment : readComment (c :: rest) = .stop := by
    rw [readComment, List.dropWhile_cons_of_neg (by simp [other])]
    split
    · next same =>
      cases same
      cases starts
    · rfl
  rw [readLine, List.dropWhile_cons_of_neg (by simp [other]), orElse, noComment, Reply.map_stop]
  simp only
  rw [found, Reply.map_ok, Reply.bind_ok, read, Reply.map_ok]

theorem readLine_closeBrace (bound rest : List Char) : readLine (inside bound) ('}' :: rest) = .stop := by
  have stops : inside bound ('}' :: rest) = .stop := by
    rw [inside, below]
    split
    · rw [read]
      rfl
    · rfl
  rw [readLine, List.dropWhile_cons_of_neg (by decide), orElse]
  simp [readComment, isBlank, stops]

theorem readBlock_append {node : Parser Definition} {opening : LineEnd} {body rest : List Char}
    {lines : List (Option Definition)}
    (found : many (readLine node) ((opening.written ++ body).dropWhile isSpace) = .ok lines ('}' :: rest)) :
    Parser.optional (readBlock node) (([' ', '{'] ++ (opening.written ++ body)).dropWhile isBlank) =
      .ok (some (lines.filterMap id)) (rest.dropWhile isBlank) := by
  refine optional_of_ok ?_
  have opened : openBrace (([' ', '{'] ++ (opening.written ++ body)).dropWhile isBlank) =
      .ok () ((opening.written ++ body).dropWhile isBlank) := by
    refine mark_of_append ?_
    rw [List.dropWhile_idempotent]
    exact dropWhile_blank_cons rfl _
  obtain ⟨skipped, first⟩ := skipLines_eq (List.dropWhile_idempotent isBlank (opening.written ++ body))
  obtain ⟨nothing, last⟩ := skipLines_eq (s := '}' :: rest) rfl
  have closed : closeBrace ('}' :: rest) = .ok () (rest.dropWhile isBlank) := mark_of_append rfl
  rw [readBlock, opened, Reply.bind_ok, readChildren, first, Reply.bind_ok, dropWhile_isSpace_dropWhile_isBlank, found,
    Reply.bind_ok, last, Reply.map_ok, Reply.bind_ok]
  exact congrArg (Reply.map _) closed

theorem many_readLine_skip {node : Parser Definition} {more rest : List Char} {lines : List (Option Definition)}
    (line : LineEnd) (found : many (readLine node) (more.dropWhile isSpace) = .ok lines rest) :
    ∃ all, many (readLine node) ((line.written ++ more).dropWhile isSpace) = .ok all rest ∧
      all.filterMap id = lines.filterMap id := by
  rw [line.dropWhile_isSpace_written, LineEnd.remark]
  cases given : line.comment with
  | none =>
    refine ⟨lines, ?_, rfl⟩
    rw [← found]
    exact congrArg (many (readLine node)) (line.dropWhile_isSpace_lineBreak more)
  | some text =>
    have begins : ('#' :: (text ++ (line.lineBreak ++ more))).dropWhile isSpace =
        '#' :: (text ++ (line.lineBreak ++ more)) := rfl
    have shorter : (more.dropWhile isSpace).length < ('#' :: (text ++ (line.lineBreak ++ more))).length := by
      have skipped := length_dropWhile_le isSpace more
      simp only [List.length_cons, List.length_append]
      omega
    refine ⟨none :: lines, ?_, rfl⟩
    have round := readLine_comment node (line.only_comment text given) line more
    exact (congrArg (many (readLine node)) begins).trans
      ((many_of_ok round shorter).trans (by rw [found, Reply.map_ok]))

theorem many_readLine_node {node : Parser Definition} {text more rest : List Char} {line : LineEnd}
    {definition : Definition} {lines : List (Option Definition)}
    (starts : ∃ c tail, text = c :: tail ∧ isNameStart c = true)
    (read : node (text ++ (line.written ++ more)) = .ok definition (line.lineBreak ++ more))
    (found : many (readLine node) (more.dropWhile isSpace) = .ok lines rest) :
    many (readLine node) (text ++ (line.written ++ more)) = .ok (some definition :: lines) rest := by
  obtain ⟨c, tail, rfl, starts⟩ := starts
  have round := readLine_node ⟨c, tail ++ (line.written ++ more), rfl, starts⟩ read
  have shorter : (more.dropWhile isSpace).length < (c :: tail ++ (line.written ++ more)).length := by
    have skipped := length_dropWhile_le isSpace more
    simp only [List.length_cons, List.length_append]
    omega
  rw [List.cons_append, many_of_ok round shorter, found, Reply.map_ok]

theorem WrittenAs.starts {definition : Definition} {text : List Char} (written : definition.WrittenAs text)
    (plain : definition.Plain) : ∃ c tail, text = c :: tail ∧ isNameStart c = true := by
  obtain ⟨c, tail, name, starts, _⟩ := plain.type
  cases written with
  | leaf headed _ =>
    obtain ⟨attributes, _, rfl⟩ := headed
    exact ⟨c, _, by rw [name]; rfl, starts⟩
  | branch _ headed _ _ _ =>
    obtain ⟨attributes, _, rfl⟩ := headed
    exact ⟨c, _, by rw [name]; rfl, starts⟩

theorem dropWhile_indented {indentation text : List Char} (blank : Only isBlank indentation)
    (starts : ∃ c tail, text = c :: tail ∧ isNameStart c = true) (rest : List Char) :
    (indentation ++ (text ++ rest)).dropWhile isSpace = text ++ rest := by
  obtain ⟨c, tail, rfl, starts⟩ := starts
  exact dropWhile_append_cons (fun c member => isSpace_of_isBlank (blank c member))
    (Condition.not_isSpace_of_isNameStart starts) (tail ++ rest)

theorem read_leaf {definition : Definition} {head : List Char} (headed : definition.HeadedBy head)
    (plain : definition.Plain) (childless : definition.children = []) (line : LineEnd) (more : List Char) :
    read (head ++ (line.written ++ more)) = .ok definition (line.lineBreak ++ more) := by
  have next := next_lineEnd line more
  have noBlock (node : Parser Definition) : readBlock node ((line.written ++ more).dropWhile isBlank) = .stop := by
    rw [readBlock, openBrace, mark_eq_stop_of_next next (by decide), Reply.bind_stop]
  obtain ⟨comment, last⟩ := line.optional_readComment more
  rw [read_headed headed plain (next.cons '{') rfl, optional_of_stop (noBlock _), Reply.bind_ok,
    line.dropWhile_isBlank_written, last, Reply.map_ok, Option.getD_none, ← childless,
    with_children_self]

theorem read_branch {definition : Definition} {head s body more : List Char} {opening line : LineEnd}
    {lines : List (Option Definition)} (headed : definition.HeadedBy head) (plain : definition.Plain)
    (begins : s = head ++ ([' ', '{'] ++ (opening.written ++ body)))
    (found : many (readLine (inside s)) (body.dropWhile isSpace) = .ok lines ('}' :: (line.written ++ more)))
    (same : lines.filterMap id = definition.children) : read s = .ok definition (line.lineBreak ++ more) := by
  have next : Next ('{' :: ends) ([' ', '{'] ++ (opening.written ++ body)) := next_mark rfl ends _
  obtain ⟨comment, last⟩ := line.optional_readComment more
  obtain ⟨all, found, kept⟩ := many_readLine_skip opening found
  rw [read_headed headed plain next begins, readBlock_append found, Reply.bind_ok, line.dropWhile_isBlank_written, last,
    Reply.map_ok, kept, same, Option.getD_some, with_children_self]

mutual

/-- A node is read with the comment that its last line may end in. -/
theorem WrittenAs.reads {definition : Definition} {text : List Char} :
    definition.WrittenAs text → (∀ other ∈ definition.preorder, other.Plain) → ∀ (line : LineEnd) (more : List Char),
      read (text ++ (line.written ++ more)) = .ok definition (line.lineBreak ++ more)
  | .leaf headed childless => by
    intro plain line more
    exact read_leaf headed (plain definition (mem_preorder_self definition)) childless line more
  | @WrittenAs.branch definition head lines indentation opening headed _ written blank => by
    intro plain line more
    have below : ∀ child ∈ definition.children, ∀ other ∈ child.preorder, other.Plain :=
      fun child member other inside => plain other (mem_preorder.mpr (.inr ⟨child, member, inside⟩))
    have whole :
        head ++ ([' ', '{'] ++ (opening.written ++ (lines ++ (indentation ++ ['}'])))) ++ (line.written ++ more) =
        head ++ ([' ', '{'] ++ (opening.written ++ (lines ++ (indentation ++ '}' :: (line.written ++ more))))) := by
      simp
    generalize
      head ++ ([' ', '{'] ++ (opening.written ++ (lines ++ (indentation ++ ['}'])))) ++ (line.written ++ more) = s
      at whole ⊢
    have short : (lines ++ (indentation ++ '}' :: (line.written ++ more))).length < s.length := by
      rw [whole]
      simp only [List.length_append, List.length_cons, List.length_nil]
      omega
    obtain ⟨inner, found, same⟩ := written.reads below blank short
    exact read_branch headed (plain definition (mem_preorder_self definition)) whole found same

/-- The lines of a block are read up to the brace that closes it. -/
theorem LinesWrittenAs.reads {definitions : List Definition} {text : List Char} :
    LinesWrittenAs definitions text → (∀ definition ∈ definitions, ∀ other ∈ definition.preorder, other.Plain) →
      ∀ {indentation rest bound : List Char}, Only isBlank indentation →
      (text ++ (indentation ++ '}' :: rest)).length < bound.length →
      ∃ lines, many (readLine (inside bound)) ((text ++ (indentation ++ '}' :: rest)).dropWhile isSpace) =
        .ok lines ('}' :: rest) ∧ lines.filterMap id = definitions
  | .nil => by
    intro plain indentation rest bound blank short
    have closing : (indentation ++ '}' :: rest).dropWhile isSpace = '}' :: rest :=
      dropWhile_append_cons (fun c member => isSpace_of_isBlank (blank c member)) rfl rest
    refine ⟨[], ?_, rfl⟩
    rw [List.nil_append, closing, many_of_stop (readLine_closeBrace bound rest)]
  | .skip line lines => by
    intro plain indentation rest bound blank short
    rw [List.append_assoc] at short ⊢
    have shorter := Nat.lt_of_le_of_lt (List.length_append ▸ Nat.le_add_left _ _) short
    obtain ⟨inner, found, same⟩ := lines.reads plain blank shorter
    obtain ⟨all, found, kept⟩ := many_readLine_skip line found
    exact ⟨all, found, kept.trans same⟩
  | @LinesWrittenAs.node definition definitions indented text lines ending onlyBlank written others => by
    intro plain indentation rest bound blank short
    have plainFirst := plain definition List.mem_cons_self
    simp only [List.append_assoc] at short ⊢
    generalize tail : lines ++ (indentation ++ '}' :: rest) = more at short ⊢
    -- Both the node and the lines after it keep within the bound.
    have shorter : more.length < bound.length ∧ (text ++ (ending.written ++ more)).length < bound.length := by
      simp only [List.length_append] at short ⊢
      omega
    obtain ⟨inner, found, same⟩ := others.reads (fun other member => plain other (List.mem_cons_of_mem _ member)) blank
      (tail ▸ shorter.1)
    have starts := written.starts (plainFirst definition (mem_preorder_self definition))
    have read : inside bound (text ++ (ending.written ++ more)) = .ok definition (ending.lineBreak ++ more) := by
      rw [inside, below, dif_pos shorter.2]
      exact written.reads plainFirst ending more
    refine ⟨some definition :: inner, ?_, congrArg (definition :: ·) same⟩
    rw [tail] at found
    rw [dropWhile_indented onlyBlank starts, many_readLine_node starts read found]

end

end Definition

namespace Source

/-- A comment between trees takes the line feed with it, but not a carriage return. -/
theorem readComment_append {s text : List Char} (only : Only (fun c => !isLineBreak c) text) (line : LineEnd)
    {more : List Char} (begins : s.dropWhile isSpace = '#' :: (text ++ (line.lineBreak ++ more))) :
    ∃ left, readComment s = .ok () left ∧ left.dropWhile isSpace = more.dropWhile isSpace ∧ left.length < s.length := by
  have shorter := length_lt_of_dropWhile begins
  have read := line.readComment_append more only
  rcases line.lineBreak_cases with carriage | feed
  · rw [carriage] at begins read shorter
    refine ⟨'\r' :: '\n' :: more, by rw [readComment, begins, read]; rfl, rfl, ?_⟩
    rw [List.length_append] at shorter
    exact Nat.lt_of_le_of_lt (Nat.le_add_left _ _) shorter
  · rw [feed] at begins read shorter
    refine ⟨more, by rw [readComment, begins, read]; rfl, rfl, ?_⟩
    simp only [List.length_append] at shorter
    omega

theorem readTree_append {tree : TreeDefinition} {s text more : List Char} (isName : Condition.IsName tree.name.toList)
    (plain : ∀ definition ∈ tree.root.preorder, definition.Plain) (written : tree.root.WrittenAs text) (line : LineEnd)
    (begins : s.dropWhile isSpace = ['t', 'r', 'e', 'e', ' '] ++ (tree.name.toList ++ ([' ', '=', ' '] ++
      (text ++ (line.written ++ more))))) :
    TreeDefinition.read s = .ok tree (line.lineBreak ++ more) := by
  have read := written.reads plain line more
  have skipped : (' ' :: (text ++ (line.written ++ more))).dropWhile isBlank = text ++ (line.written ++ more) := by
    obtain ⟨c, tail, rfl, starts⟩ := written.starts (plain tree.root (Definition.mem_preorder_self tree.root))
    exact dropWhile_blank_cons (Condition.isBlank_of_not_isSpace (Condition.not_isSpace_of_isNameStart starts)) _
  generalize text ++ (line.written ++ more) = root at begins read skipped
  have opened : TreeDefinition.keyword s = .ok () (tree.name.toList ++ ([' ', '=', ' '] ++ root)) := by
    have begun : s.dropWhile isSpace =
        ['t', 'r', 'e', 'e'] ++ (' ' :: (tree.name.toList ++ ([' ', '=', ' '] ++ root))) := begins
    rw [TreeDefinition.keyword, mark_of_append begun, List.dropWhile_cons_of_pos rfl,
      Definition.dropWhile_isBlank_of_isName isName]
  have named : Definition.readName (tree.name.toList ++ ([' ', '=', ' '] ++ root)) =
      .ok tree.name ('=' :: ' ' :: root) := by
    have apart : ∀ c, ([' ', '=', ' '] ++ root).head? = some c → isNamePart c = false := by
      intro c here
      cases here
      rfl
    rw [Definition.readName_append isName apart]
    exact congrArg (Reply.ok tree.name) (dropWhile_blank_cons rfl _)
  have marked : Definition.equals ('=' :: ' ' :: root) = .ok () root := by
    have begun : ('=' :: ' ' :: root).dropWhile isBlank = ['='] ++ (' ' :: root) := rfl
    rw [Definition.equals, mark_of_append begun, skipped]
  rw [TreeDefinition.read, opened, Reply.bind_ok, named, Reply.bind_ok, marked, Reply.bind_ok, read, Reply.map_ok]

theorem TreesWrittenAs.reads {trees : List TreeDefinition} {text s : List Char} (written : TreesWrittenAs trees text)
    (plain : ∀ tree ∈ trees, Condition.IsName tree.name.toList ∧ ∀ definition ∈ tree.root.preorder, definition.Plain)
    (same : s.dropWhile isSpace = text.dropWhile isSpace) : ∃ statements left,
      many readStatement s = .ok statements left ∧ statements.filterMap id = trees ∧ left.dropWhile isSpace = [] := by
  induction written generalizing s with
  | nil =>
    have noComment : readComment s = .stop := by
      rw [readComment, same]
      rfl
    have noTree : TreeDefinition.keyword s = .stop := mark_eq_stop (by rw [same]; nofun)
    have stops : readStatement s = .stop := by
      rw [readStatement, orElse, noComment]
      simp only [Reply.map_stop, TreeDefinition.read, noTree, Reply.bind_stop]
    exact ⟨[], s, many_of_stop stops, rfl, same⟩
  | @skip trees lines line _ ih =>
    rw [line.dropWhile_isSpace_written, LineEnd.remark] at same
    cases given : line.comment with
    | none =>
      rw [given] at same
      exact ih plain (same.trans (line.dropWhile_isSpace_lineBreak lines))
    -- A comment is a round of its own, which defines nothing.
    | some text =>
      rw [given] at same
      obtain ⟨left, read, followed, shorter⟩ := readComment_append (line.only_comment text given) line same
      have round : readStatement s = .ok none left := by rw [readStatement, orElse, read, Reply.map_ok]
      obtain ⟨statements, last, found, all, ends⟩ := ih plain followed
      exact ⟨none :: statements, last, by rw [many_of_ok round shorter, found, Reply.map_ok], all, ends⟩
  | @tree tree trees indentation text lines ending blank written _ ih =>
    obtain ⟨isName, below⟩ := plain tree List.mem_cons_self
    have begins := dropWhile_append_cons (fun c member => isSpace_of_isBlank (blank c member)) (c := 't') rfl
      (['r', 'e', 'e', ' '] ++ (tree.name.toList ++ ([' ', '=', ' '] ++ (text ++ (ending.written ++ lines)))))
    have started := same.trans begins
    have noComment : readComment s = .stop := by
      rw [readComment, started]
      rfl
    have round : readStatement s = .ok (some tree) (ending.lineBreak ++ lines) := by
      rw [readStatement, orElse, noComment]
      simp only [Reply.map_stop, readTree_append isName below written ending started, Reply.map_ok]
    -- The repetition goes on only after a round that took something.
    have shorter : (ending.lineBreak ++ lines).length < s.length := by
      have whole := length_lt_of_dropWhile started
      simp only [LineEnd.written, List.length_append] at whole ⊢
      omega
    obtain ⟨statements, last, found, all, ends⟩ := ih (fun other member => plain other (List.mem_cons_of_mem _ member))
      (ending.dropWhile_isSpace_lineBreak lines)
    refine ⟨some tree :: statements, last, by rw [many_of_ok round shorter, found, Reply.map_ok], ?_, ends⟩
    exact congrArg (tree :: ·) all

/-- A source is what any text is read as, to its end, that it is written as. -/
theorem ofText_of_writtenAs {source : Source} {text : String} (plain : source.Plain)
    (written : source.WrittenAs text.toList) : ofText text = .ok (source, []) := by
  obtain ⟨statements, left, read, same, ends⟩ := written.reads plain rfl
  rw [ofText, Source.read, read, Reply.bind_ok, same, ends]

def pause : Float := Decimal.Numeral.toFloat ⟨false, ['1'], ['5'], 0⟩

def lap : Definition :=
  ⟨"Walk", some "once around",
    some (.and (.atom "Day" none) (.or (.atom "Dry" none) (.not (.atom "Is" (some "late"))))), some pause, []⟩

def drill : Source := ⟨[⟨"drill", ⟨"Sequence", none, none, none, [lap, ⟨"Rest", none, none, none, []⟩]⟩⟩]⟩

def drillText : String :=
  "# Orders\r\n\n" ++
  "tree drill = Sequence " ++ String.singleton '{' ++ " # in turn\n" ++
  "\tWalk \"once around\" (when: Day && (Dry || !Is(\"late\")), cooldown: 1.5)\r\n" ++
  "\t# then\n" ++
  "\tRest\n" ++
  String.singleton '}' ++ "\n"

theorem drill_writtenAs : drill.WrittenAs drillText.toList := by
  have tab : Only isBlank ['\t'] := by decide
  have number : Decimal.read ['1', '.', '5'] = .ok pause [] := rfl
  let orders : LineEnd := ⟨[], some [' ', 'O', 'r', 'd', 'e', 'r', 's'], true, by decide, by decide⟩
  let inTurn : LineEnd := ⟨[' '], some [' ', 'i', 'n', ' ', 't', 'u', 'r', 'n'], false, by decide, by decide⟩
  let carriage : LineEnd := ⟨[], none, true, by decide, by decide⟩
  let and : LineEnd := ⟨['\t'], some [' ', 't', 'h', 'e', 'n'], false, by decide, by decide⟩
  obtain ⟨text, written, same⟩ : ∃ text, drill.WrittenAs text ∧ drillText.toList = text := by
    have walk := @Definition.WrittenAs.leaf lap _ ⟨_, .some (.when _) (.cons (.cooldown number) .nil), rfl⟩ rfl
    refine ⟨_, .skip orders (.skip .bare (.tree .bare (only_nil isBlank) (.branch inTurn ⟨_, .none, rfl⟩ (by decide)
      (.node carriage tab walk (.skip and (.node .bare tab (.leaf ⟨_, .none, rfl⟩ rfl) .nil))) (only_nil isBlank))
      .nil)), ?_⟩
    decide +kernel
  exact same ▸ written

theorem drill_read : drill.Plain ∧ drill.WrittenAs drillText.toList ∧ ofText drillText = .ok (drill, []) :=
  have plain : drill.Plain := by decide
  ⟨plain, drill_writtenAs, ofText_of_writtenAs plain drill_writtenAs⟩

end Source

end BehaviorTree
