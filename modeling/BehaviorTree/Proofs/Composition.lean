import BehaviorTree.Proofs.Stability

/-! Files one after the other. A file that can be read to its end is read in the same way with another file on the
lines after it, which is then read as if it stood alone. -/

set_option autoImplicit false

namespace BehaviorTree

open Text BehaviorTree.Parser

variable {α β : Type} {more : List Char}

/-- The reply without the white space that it leaves. -/
def Reply.trimmed (reply : Reply α) : Reply α :=
  reply.bind fun value rest => .ok value (rest.dropWhile isSpace)

theorem Reply.trimmed_map (f : α → β) (reply : Reply α) : (reply.map f).trimmed = reply.trimmed.map f := by
  cases reply <;> rfl

theorem Reply.map_map {γ : Type} (f : α → β) (g : β → γ) (reply : Reply α) :
    (reply.map f).map g = reply.map fun value => g (f value) := by
  cases reply <;> rfl

/-! What is left is an end of the text. -/

namespace Definition

theorem readName_trims : Trims readName :=
  (Condition.identifier_takes.trims.skip isBlank).bind fun name => skip_trims name isBlank

theorem readLabel_trims : Trims readLabel :=
  Condition.literal_takes.trims.bind fun label => skip_trims label isBlank

theorem further_trims : Trims (after comma readAttribute) :=
  (mark_trims isSpace isSpace [',']).bind fun _ => readAttribute_trims

theorem separated_trims : Trims (separated comma readAttribute) := by
  intro s given rest read
  rw [separated] at read
  split at read
  · cases read
    exact List.suffix_refl _
  · cases read
  · next found =>
    obtain ⟨_, others, _⟩ := Reply.map_eq_ok.mp read
    exact (many_trims further_trims _ _ _ others).trans (readAttribute_trims _ _ _ found)

theorem readAttributes_trims : Trims readAttributes :=
  (mark_trims isBlank isSpace ['(']).bind fun _ =>
    separated_trims.bind fun given => (mark_trims isSpace isBlank [')']).map fun _ => given

theorem readComment_trims : Trims readComment := by
  intro s _ rest read
  obtain ⟨text, begins, rfl⟩ := readComment_begins read
  have behind : text <:+ s := (List.suffix_cons '#' text).trans (begins ▸ List.dropWhile_suffix isBlank)
  exact (List.dropWhile_suffix _).trans behind

theorem readLineBreaks_trims : Trims readLineBreaks := by
  intro s _ rest read
  obtain ⟨c, tail, begins, _, rfl⟩ := readLineBreaks_eq_ok read
  have behind : tail <:+ s := (List.suffix_cons c tail).trans (begins ▸ List.dropWhile_suffix isBlank)
  exact (List.dropWhile_suffix isBlank).trans ((List.dropWhile_suffix isLineBreak).trans behind)

section Block
variable {node : Parser Definition} (trims : node.Trims)
include trims

theorem readLine_trims : Trims (readLine node) :=
  have line := Trims.orElse (readComment_trims.map fun _ => none) (trims.map some)
  (line.skip isBlank).bind fun line => (many_trims readLineBreaks_trims).map fun _ => line

theorem readChildren_trims : Trims (readChildren node) :=
  (many_trims readLineBreaks_trims).bind fun _ => (many_trims (readLine_trims trims)).bind fun lines =>
    (many_trims readLineBreaks_trims).map fun _ => lines.filterMap id

theorem readBlock_trims : Trims (readBlock node) :=
  (mark_trims isBlank isBlank ['{']).bind fun _ => (readChildren_trims trims).bind fun children =>
    (mark_trims isBlank isBlank ['}']).map fun _ => children

end Block

/-- What stands behind the type of a node. -/
def readTail (bound : List Char) (type : String) : Parser Definition := fun s =>
  (Parser.optional readLabel s).bind fun label rest =>
    (Parser.optional readAttributes rest).bind fun attributes rest =>
      (Parser.optional (readBlock (inside bound)) rest).bind fun children rest =>
        (Parser.optional readComment rest).map fun _ =>
          (attributes.getD []).foldl Definition.set
            { type, label, when := none, cooldown := none, children := children.getD [] }

theorem read_eq_bind (s : List Char) : read s = (readName s).bind (readTail s) := by
  rw [read]
  rfl

theorem readTail_trims {bound : List Char} (trims : (inside bound).Trims) (type : String) :
    (readTail bound type).Trims :=
  (optional_trims readLabel_trims).bind fun _ => (optional_trims readAttributes_trims).bind fun _ =>
    (optional_trims (readBlock_trims trims)).bind fun _ => (optional_trims readComment_trims).map _

theorem inside_trims_of {bound : List Char}
    (shorter : ∀ s : List Char, s.length < bound.length → ∀ definition rest, read s = .ok definition rest →
      rest <:+ s) : (inside bound).Trims := by
  intro s definition rest found
  obtain ⟨short, found⟩ := below_eq_ok found
  exact shorter s short definition rest found

theorem read_trims : Trims read := by
  intro s
  induction s using read.induct with
  | case1 s ih =>
    intro definition rest taken
    rw [read_eq_bind] at taken
    exact readName_trims.bind (readTail_trims (inside_trims_of ih)) s definition rest taken

theorem inside_trims (bound : List Char) : (inside bound).Trims := inside_trims_of fun s _ => read_trims s

end Definition

namespace Source

theorem readStatement_congr {s other : List Char} (same : s.dropWhile isSpace = other.dropWhile isSpace) :
    readStatement s = readStatement other := by
  have comment : readComment s = readComment other := by rw [readComment, readComment, same]
  have tree : TreeDefinition.read s = TreeDefinition.read other := by
    rw [TreeDefinition.read, TreeDefinition.read, TreeDefinition.keyword, mark_congr same]
  rw [readStatement, orElse, orElse, comment, tree]

theorem readComment_eq_ok {s rest : List Char} (read : readComment s = .ok () rest) :
    ∃ left, Definition.readComment (s.dropWhile isSpace) = .ok () left ∧
      (left = '\n' :: rest ∨ (rest = left ∧ left.head? ≠ some '\n')) := by
  obtain ⟨_, left, comment, ends⟩ := Reply.bind_eq_ok.mp read
  refine ⟨left, comment, ?_⟩
  split at ends
  · cases ends
    exact .inl rfl
  · next other =>
    cases ends
    refine .inr ⟨rfl, fun here => ?_⟩
    obtain ⟨tail, rfl⟩ := List.head?_eq_some_iff.mp here
    exact other tail rfl

theorem readComment_of_feed {s left : List Char}
    (comment : Definition.readComment (s.dropWhile isSpace) = .ok () ('\n' :: left)) :
    readComment s = .ok () left := by
  rw [readComment, comment]
  rfl

theorem readComment_of_other {s left : List Char} (comment : Definition.readComment (s.dropWhile isSpace) = .ok () left)
    (other : left.head? ≠ some '\n') : readComment s = .ok () left := by
  rw [readComment, comment, Reply.bind_ok]
  split
  · exact absurd rfl other
  · rfl

theorem readComment_eq_stop {s : List Char} (stops : readComment s = .stop) :
    Definition.readComment (s.dropWhile isSpace) = .stop := by
  rw [readComment] at stops
  cases comment : Definition.readComment (s.dropWhile isSpace) with
  | ok _ left =>
    rw [comment, Reply.bind_ok] at stops
    split at stops <;> cases stops
  | fatal =>
    rw [comment] at stops
    cases stops
  | stop => rfl

theorem readStatement_eq_ok {s rest : List Char} {statement : Option TreeDefinition}
    (read : readStatement s = .ok statement rest) :
    (readComment s = .ok () rest ∧ statement = none) ∨
      (readComment s = .stop ∧ ∃ tree, TreeDefinition.read s = .ok tree rest ∧ statement = some tree) := by
  rcases orElse_eq_ok read with whole | ⟨stops, whole⟩
  · obtain ⟨_, comment, rfl⟩ := Reply.map_eq_ok.mp whole
    exact .inl ⟨comment, rfl⟩
  · obtain ⟨tree, found, rfl⟩ := Reply.map_eq_ok.mp whole
    refine .inr ⟨?_, tree, found, rfl⟩
    cases comment : readComment s with
    | ok => rw [comment] at stops; cases stops
    | fatal => rw [comment] at stops; cases stops
    | stop => rfl

theorem readStatement_begins {s rest : List Char} {statement : Option TreeDefinition}
    (read : readStatement s = .ok statement rest) :
    rest.length < (s.dropWhile isSpace).length ∧
      ∃ c tail, s.dropWhile isSpace = c :: tail ∧ (c = '#' ∨ isNameStart c = true) := by
  rcases readStatement_eq_ok read with ⟨comment, _⟩ | ⟨_, tree, found, _⟩
  · obtain ⟨left, comment, ends⟩ := readComment_eq_ok comment
    obtain ⟨text, begins, rfl⟩ := Definition.readComment_begins comment
    rw [dropWhile_isBlank_dropWhile_isSpace] at begins
    refine ⟨?_, '#', text, begins, .inl rfl⟩
    have skipped := length_dropWhile_le (fun c => !isLineBreak c) text
    rw [begins, List.length_cons]
    rcases ends with same | ⟨rfl, _⟩
    · rw [same, List.length_cons] at skipped
      omega
    · omega
  · obtain ⟨_, named, opened, whole⟩ := Reply.bind_eq_ok.mp found
    obtain ⟨name, marked, identified, whole⟩ := Reply.bind_eq_ok.mp whole
    obtain ⟨_, root, equals, whole⟩ := Reply.bind_eq_ok.mp whole
    obtain ⟨definition, body, _⟩ := Reply.map_eq_ok.mp whole
    obtain ⟨left, begins, rfl⟩ := mark_begins opened
    have first := Definition.readName_trims.shrinks _ _ _ identified
    have second := (mark_trims _ _ _).shrinks _ _ _ equals
    have third := Definition.read_trims.shrinks _ _ _ body
    have skipped := length_dropWhile_le isBlank left
    refine ⟨?_, 't', _, begins, .inr rfl⟩
    rw [begins, List.length_append]
    simp only [List.length_cons, List.length_nil]
    omega

theorem readStatement_stable {s rest : List Char} {statement : Option TreeDefinition}
    (read : readStatement s = .ok statement rest) (resumes : Definition.Resumes rest) :
    (readStatement (s ++ '\n' :: more)).Reads statement (rest ++ '\n' :: more) := by
  -- A statement begins with something, so white space before it ends where it did.
  obtain ⟨_, c, tail, begins, _⟩ := readStatement_begins read
  have skipped : (s ++ '\n' :: more).dropWhile isSpace = s.dropWhile isSpace ++ '\n' :: more :=
    dropWhile_append_of_ne_nil (by simp [begins]) _
  rcases readStatement_eq_ok read with ⟨comment, rfl⟩ | ⟨noComment, tree, found, rfl⟩
  · have reads {left : List Char} (comment : readComment (s ++ '\n' :: more) = .ok () left) :
        readStatement (s ++ '\n' :: more) = .ok none left :=
      orElse_of_ok (by rw [comment, Reply.map_ok]) _
    obtain ⟨left, comment, ends⟩ := readComment_eq_ok comment
    have comment : Definition.readComment ((s ++ '\n' :: more).dropWhile isSpace) = .ok () (left ++ '\n' :: more) := by
      rw [skipped]
      exact Definition.readComment_stable comment
    -- A comment that went to the end of the text takes the line feed behind it, too.
    rcases ends with rfl | ⟨rfl, other⟩
    · exact ⟨_, reads (readComment_of_feed comment), rfl⟩
    · cases rest with
      | nil => exact ⟨more, reads (readComment_of_feed comment), rfl⟩
      | cons d rest => exact ⟨_, reads (readComment_of_other comment other), rfl⟩
  · have noComment : readComment (s ++ '\n' :: more) = .stop := by
      rw [readComment, skipped, Definition.readComment_stop_stable (readComment_eq_stop noComment), Reply.bind_stop]
    obtain ⟨_, named, opened, whole⟩ := Reply.bind_eq_ok.mp found
    obtain ⟨name, marked, identified, whole⟩ := Reply.bind_eq_ok.mp whole
    obtain ⟨_, root, equals, whole⟩ := Reply.bind_eq_ok.mp whole
    obtain ⟨definition, body, rfl⟩ := Reply.map_eq_ok.mp whole
    have opens : TreeDefinition.keyword (s ++ '\n' :: more) = .ok () (named ++ '\n' :: more) :=
      mark_stable opened (.inl rfl)
    have marks : Definition.equals (marked ++ '\n' :: more) = .ok () (root ++ '\n' :: more) :=
      mark_stable equals (.inl rfl)
    refine ⟨_, ?_, rfl⟩
    rw [readStatement, orElse_of_stop (by rw [noComment, Reply.map_stop]), TreeDefinition.read, opens, Reply.bind_ok,
      Definition.readName_stable identified, Reply.bind_ok, marks, Reply.bind_ok, Definition.read_stable body resumes,
      Reply.map_ok, Reply.map_ok]

theorem many_readStatement_congr {s other : List Char} (same : s.dropWhile isSpace = other.dropWhile isSpace) :
    (many readStatement s).trimmed = (many readStatement other).trimmed := by
  have next := readStatement_congr same
  cases read : readStatement s with
  | stop =>
    rw [many_of_stop read, many_of_stop (next.symm.trans read)]
    exact congrArg (Reply.ok []) same
  | fatal place => rw [many, many, ← next, read]
  | ok statement rest =>
    have shorter := (readStatement_begins read).1
    have first := Nat.lt_of_lt_of_le shorter (length_dropWhile_le isSpace s)
    have second := Nat.lt_of_lt_of_le (same ▸ shorter) (length_dropWhile_le isSpace other)
    rw [many_of_ok read first, many_of_ok (next.symm.trans read) second]

theorem resumes_of_rounds {s rest : List Char} {statements : List (Option TreeDefinition)}
    (rounds : Rounds readStatement s statements rest) (ends : rest.dropWhile isSpace = []) :
    Definition.Resumes s := by
  intro c here
  cases rounds with
  | none =>
    rw [ends] at here
    cases here
  | more first =>
    obtain ⟨_, d, tail, begins, starts⟩ := readStatement_begins first
    rw [begins] at here
    cases here
    exact starts.imp_right .inl

/-- The statements of a text that is read to its end come first, then those of the lines after it. -/
theorem many_readStatement_append {s rest other : List Char} {statements : List (Option TreeDefinition)}
    (rounds : Rounds readStatement s statements rest) (ends : rest.dropWhile isSpace = [])
    (same : other.dropWhile isSpace = (s ++ '\n' :: more).dropWhile isSpace) :
    (many readStatement other).trimmed = ((many readStatement more).map (statements ++ ·)).trimmed := by
  induction rounds generalizing other with
  | @none s =>
    have only : Only isSpace s := List.dropWhile_eq_nil_iff.mp ends
    rw [List.dropWhile_append_of_pos only] at same
    have only_same : other.dropWhile isSpace = more.dropWhile isSpace := same
    rw [many_readStatement_congr only_same, Reply.trimmed_map]
    cases many readStatement more <;> rfl
  | @more s left _ statement statements first shorter others ih =>
    obtain ⟨last, reads, followed⟩ := readStatement_stable first (resumes_of_rounds others ends)
    rw [← readStatement_congr same] at reads
    have shorter := Nat.lt_of_lt_of_le (readStatement_begins reads).1 (length_dropWhile_le isSpace other)
    rw [many_of_ok reads shorter, Reply.trimmed_map, ih ends followed, ← Reply.trimmed_map, Reply.map_map]
    rfl

theorem read_eq (s : List Char) :
    read s = (many readStatement s).trimmed.map fun statements => ⟨statements.filterMap id⟩ := by
  rw [read]
  cases many readStatement s <;> rfl

/-- A file that is read to its end can be put in front of any other one, on lines of its own. Its trees come first,
and what else is read, left over or refused is what the other file alone comes to. -/
theorem ofText_append {first : String} {source : Source} (whole : ofText first = .ok (source, [])) (second : String) :
    ofText (first ++ "\n" ++ second) =
      (ofText second).map fun (other, rest) => (⟨source.trees ++ other.trees⟩, rest) := by
  obtain ⟨statements, rest, rounds, ends, rfl⟩ : ∃ statements rest,
      Rounds readStatement first.toList statements rest ∧ rest.dropWhile isSpace = [] ∧
        source = ⟨statements.filterMap id⟩ := by
    rw [ofText] at whole
    split at whole
    · next found left read =>
      obtain ⟨statements, rest, repeated, same⟩ := Reply.bind_eq_ok.mp read
      obtain ⟨rfl, left_eq⟩ := Prod.mk.inj (Except.ok.inj whole)
      cases same
      exact ⟨statements, rest, rounds_of_many repeated, left_eq, rfl⟩
    · cases whole
    · cases whole
  have text : (first ++ "\n" ++ second).toList = first.toList ++ '\n' :: second.toList := by simp
  have joined : (many readStatement (first.toList ++ '\n' :: second.toList)).trimmed =
      ((many readStatement second.toList).map (statements ++ ·)).trimmed := many_readStatement_append rounds ends rfl
  rw [ofText, ofText, text, read_eq, read_eq, joined, Reply.trimmed_map, Reply.map_map]
  cases (many readStatement second.toList).trimmed with
  | ok others left => simp [Except.map]
  | stop => rfl
  | fatal => rfl

def lookout : Source := ⟨[⟨"lookout", ⟨"Guard", none, none, none, []⟩⟩]⟩

def lookoutText : String := "tree lookout = Guard # stays"

theorem lookout_before_watch : ofText lookoutText = .ok (lookout, []) ∧
    ofText (lookoutText ++ "\n" ++ "tree watch = lookout ?") =
      .ok (⟨lookout.trees ++ [⟨"watch", ⟨"lookout", none, none, none, []⟩⟩]⟩, ['?']) := by
  have whole : ofText lookoutText = .ok (lookout, []) := by with_unfolding_all rfl
  have watch : ofText "tree watch = lookout ?" =
      .ok (⟨[⟨"watch", ⟨"lookout", none, none, none, []⟩⟩]⟩, ['?']) := by with_unfolding_all rfl
  exact ⟨whole, by rw [ofText_append whole, watch]; rfl⟩

end Source

end BehaviorTree
