import BehaviorTree.Definition.Grammar
import BehaviorTree.Proofs.Reading

/-! How definitions are written: one node a line, what a node does not have left out, and a condition in
parentheses only where it is bound less tightly than its place asks. Indentation, line breaks, blank lines,
comments and the numeral of a cooldown are the writer's choice, so a source is written in many ways. -/

set_option autoImplicit false

namespace BehaviorTree

open Text BehaviorTree.Parser

def isPlain (c : Char) : Bool := c != '"' && c != '\\'

def quote (text : String) : List Char := '"' :: (text.toList ++ ['"'])

namespace Condition

/-- Probes are called by names, and their arguments can be quoted as they are. -/
def Plain : Condition → Prop
  | .atom name argument => IsName name.toList ∧ ∀ text ∈ argument, Only isPlain text.toList
  | .not operand => operand.Plain
  | .and left right => left.Plain ∧ right.Plain
  | .or left right => left.Plain ∧ right.Plain

instance : DecidablePred IsName
  | [] => isFalse (by rintro ⟨_, _, same, _⟩; cases same)
  | c :: rest =>
    decidable_of_iff (isNameStart c = true ∧ Only isNamePart rest) ⟨fun parts => ⟨c, rest, rfl, parts⟩, by
      rintro ⟨_, _, same, parts⟩
      cases same
      exact parts⟩

instance decidablePlain : (condition : Condition) → Decidable condition.Plain
  | .atom name argument =>
    inferInstanceAs (Decidable (IsName name.toList ∧ ∀ text ∈ argument, Only isPlain text.toList))
  | .not operand => decidablePlain operand
  | .and left right | .or left right =>
    have := decidablePlain left
    have := decidablePlain right
    inferInstanceAs (Decidable (left.Plain ∧ right.Plain))

/-- Where the level is asked for, the condition needs parentheses. -/
def exceeds : Condition → Level → Bool
  | .and _ _, .factor => true
  | .or _ _, .factor => true
  | .or _ _, .conjunction => true
  | _, _ => false

def enclosed (needed : Bool) (text : List Char) : List Char :=
  if needed then '(' :: (text ++ [')']) else text

def writtenArgument : Option String → List Char
  | none => []
  | some text => '(' :: (quote text ++ [')'])

/-- Both connectives group to the left, so an operand on the right that is of the same kind is enclosed. -/
def written : Condition → List Char
  | .atom name argument => name.toList ++ writtenArgument argument
  | .not operand => '!' :: enclosed (operand.exceeds .factor) operand.written
  | .and left right =>
    enclosed (left.exceeds .conjunction) left.written ++
      ([' ', '&', '&', ' '] ++ enclosed (right.exceeds .factor) right.written)
  | .or left right =>
    enclosed (left.exceeds .disjunction) left.written ++
      ([' ', '|', '|', ' '] ++ enclosed (right.exceeds .conjunction) right.written)

example : (Condition.and (.atom "a" none) (.and (.not (.atom "b" (some "x"))) (.atom "c" none))).written =
    ['a', ' ', '&', '&', ' ', '(', '!', 'b', '(', '"', 'x', '"', ')', ' ', '&', '&', ' ', 'c', ')'] := by
  cbv

/-! A written condition is a text of the grammar. -/

theorem Derives.conjunction_of_factor {text : List Char} {tree : Condition} (derives : Derives .factor text tree) :
    Derives .conjunction text tree := by
  simpa using @Derives.conjunction text tree [] derives nofun

theorem Derives.disjunction_of_conjunction {text : List Char} {tree : Condition}
    (derives : Derives .conjunction text tree) : Derives .disjunction text tree := by
  simpa using @Derives.disjunction text tree [] derives nofun

theorem Derives.of_factor {text : List Char} {tree : Condition} (derives : Derives .factor text tree) (level : Level) :
    Derives level text tree := by
  cases level with
  | factor => exact derives
  | conjunction => exact derives.conjunction_of_factor
  | disjunction => exact derives.conjunction_of_factor.disjunction_of_conjunction

theorem Derives.and {first second : List Char} {left right : Condition} (begun : Derives .conjunction first left)
    (last : Derives .factor second right) :
    Derives .conjunction (first ++ ([' ', '&', '&', ' '] ++ second)) (.and left right) := by
  cases begun with
  | @conjunction text first others head each =>
    let operand : Operand := ⟨[' '], [' '], second, right, by decide, by decide⟩
    have all : ∀ other ∈ others ++ [operand], Derives .factor other.text other.tree := by
      intro other member
      rcases List.mem_append.mp member with old | new
      · exact each other old
      · obtain rfl := List.mem_singleton.mp new
        exact last
    simpa [operand, Operand.written] using Derives.conjunction head all

theorem Derives.or {first second : List Char} {left right : Condition} (begun : Derives .disjunction first left)
    (last : Derives .conjunction second right) :
    Derives .disjunction (first ++ ([' ', '|', '|', ' '] ++ second)) (.or left right) := by
  cases begun with
  | @disjunction text first others head each =>
    let operand : Operand := ⟨[' '], [' '], second, right, by decide, by decide⟩
    have all : ∀ other ∈ others ++ [operand], Derives .conjunction other.text other.tree := by
      intro other member
      rcases List.mem_append.mp member with old | new
      · exact each other old
      · obtain rfl := List.mem_singleton.mp new
        exact last
    simpa [operand, Operand.written] using Derives.disjunction head all

theorem isNotQuote_of_isPlain {c : Char} (plain : isPlain c = true) : isNotQuote c = true := by
  rw [isPlain, Bool.and_eq_true] at plain
  exact plain.1

theorem joinBackslashes_of_not_mem {text : List Char} (without : '\\' ∉ text) : Literal.joinBackslashes text = text := by
  induction text with
  | nil => rfl
  | cons c text ih =>
    have other : c ≠ '\\' := (List.ne_of_not_mem_cons without).symm
    rw [Literal.joinBackslashes.eq_2 c text fun _ same _ => other same, ih (List.not_mem_of_not_mem_cons without)]

theorem breakLines_of_not_mem {text : List Char} (without : '\\' ∉ text) : Literal.breakLines text = text := by
  induction text with
  | nil => rfl
  | cons c text ih =>
    have other : c ≠ '\\' := (List.ne_of_not_mem_cons without).symm
    rw [Literal.breakLines.eq_2 c text fun _ same _ => other same, ih (List.not_mem_of_not_mem_cons without)]

/-- Quoting a plain text does not change it. -/
theorem decode_of_plain {text : List Char} (plain : Only isPlain text) : Literal.decode text = text := by
  have without : '\\' ∉ text := fun member => nomatch plain _ member
  rw [Literal.decode, joinBackslashes_of_not_mem without, breakLines_of_not_mem without]

theorem argument_writtenArgument {text : String} (plain : Only isPlain text.toList) :
    Argument (writtenArgument (some text)) text := by
  have argument := Argument.mk (only_nil isBlank) (only_nil isSpace)
    (fun c member => isNotQuote_of_isPlain (plain c member)) (only_nil isSpace) (only_nil isBlank)
  rw [decode_of_plain plain, String.ofList_toList] at argument
  simpa [writtenArgument, quote] using argument

theorem derives_enclosed {condition : Condition}
    (derives : ∀ level, condition.exceeds level = false → Derives level condition.written condition) (level : Level) :
    Derives level (enclosed (condition.exceeds level) condition.written) condition := by
  cases needed : condition.exceeds level with
  | false => exact derives level needed
  | true =>
    have whole := derives .disjunction (by cases condition <;> rfl)
    have nested := Derives.nested (only_nil isBlank) (only_nil isSpace) whole (only_nil isSpace)
    simpa [enclosed] using nested.of_factor level

theorem derives_written {condition : Condition} (plain : condition.Plain) (level : Level)
    (fits : condition.exceeds level = false) : Derives level condition.written condition := by
  induction condition generalizing level with
  | atom name argument =>
    obtain ⟨isName, quotable⟩ := plain
    refine Derives.of_factor ?_ level
    cases argument with
    | none => simpa [written, writtenArgument] using Derives.atom (only_nil isBlank) isName
    | some text =>
      have argument := argument_writtenArgument (quotable text rfl)
      simpa [written] using Derives.atomWith (only_nil isBlank) isName argument
  | not operand ih =>
    refine Derives.of_factor ?_ level
    have inner := derives_enclosed (ih plain) .factor
    simpa [written] using Derives.not (only_nil isBlank) (only_nil isBlank) inner
  | and left right ihLeft ihRight =>
    have both := (derives_enclosed (ihLeft plain.1) .conjunction).and (derives_enclosed (ihRight plain.2) .factor)
    cases level with
    | factor => cases fits
    | conjunction => exact both
    | disjunction => exact both.disjunction_of_conjunction
  | or left right ihLeft ihRight =>
    have both := (derives_enclosed (ihLeft plain.1) .disjunction).or (derives_enclosed (ihRight plain.2) .conjunction)
    cases level with
    | factor => cases fits
    | conjunction => cases fits
    | disjunction => exact both

end Condition

/-- The end of a line: a comment may stand before the line break, blanks before both. -/
structure LineEnd where
  blanks : List Char
  comment : Option (List Char)
  carriageReturn : Bool
  only_blanks : Only isBlank blanks
  only_comment : ∀ text ∈ comment, Only (fun c => !isLineBreak c) text

namespace LineEnd

def bare : LineEnd := ⟨[], none, false, only_nil isBlank, nofun⟩

def remark (line : LineEnd) : List Char := line.comment.elim [] ('#' :: ·)

def lineBreak (line : LineEnd) : List Char := if line.carriageReturn then ['\r', '\n'] else ['\n']

def written (line : LineEnd) : List Char := line.blanks ++ (line.remark ++ line.lineBreak)

end LineEnd

def Attribute.Plain : Attribute → Prop
  | .when condition => condition.Plain
  | .cooldown _ => True

/-- Any numeral of the number may stand for it. -/
inductive Attribute.WrittenAs : Attribute → List Char → Prop where
  | when (condition : Condition) :
      WrittenAs (.when condition) (['w', 'h', 'e', 'n'] ++ ([':', ' '] ++ condition.written))
  | cooldown {seconds : Float} {numeral : List Char} : Decimal.read numeral = .ok seconds [] →
      WrittenAs (.cooldown seconds) (['c', 'o', 'o', 'l', 'd', 'o', 'w', 'n'] ++ ([':', ' '] ++ numeral))

namespace Definition

def attributes (definition : Definition) : List Attribute :=
  (definition.when.map .when).toList ++ (definition.cooldown.map .cooldown).toList

/-- Attributes that follow another one. -/
inductive FurtherWrittenAs : List Attribute → List Char → Prop where
  | nil : FurtherWrittenAs [] []
  | cons {next : Attribute} {text : List Char} {further : List Attribute} {more : List Char} :
      next.WrittenAs text → FurtherWrittenAs further more →
      FurtherWrittenAs (next :: further) ([',', ' '] ++ (text ++ more))

inductive AttributesWrittenAs : List Attribute → List Char → Prop where
  | none : AttributesWrittenAs [] []
  | some {first : Attribute} {text : List Char} {further : List Attribute} {more : List Char} :
      first.WrittenAs text → FurtherWrittenAs further more →
      AttributesWrittenAs (first :: further) ([' ', '('] ++ (text ++ (more ++ [')'])))

def writtenLabel : Option String → List Char
  | none => []
  | some label => ' ' :: quote label

def HeadedBy (definition : Definition) (head : List Char) : Prop :=
  ∃ attributes, AttributesWrittenAs definition.attributes attributes ∧
    head = definition.type.toList ++ (writtenLabel definition.label ++ attributes)

mutual

/-- A node on lines of its own, without the indentation of the first line and the end of the last one. -/
inductive WrittenAs : Definition → List Char → Prop where
  | leaf {definition : Definition} {head : List Char} : definition.HeadedBy head → definition.children = [] →
      WrittenAs definition head
  | branch {definition : Definition} {head lines indentation : List Char} (opening : LineEnd) :
      definition.HeadedBy head → definition.children ≠ [] → LinesWrittenAs definition.children lines →
      Only isBlank indentation →
      WrittenAs definition (head ++ ([' ', '{'] ++ (opening.written ++ (lines ++ (indentation ++ ['}'])))))

/-- The lines of a block. A line without a node is blank or holds a comment. -/
inductive LinesWrittenAs : List Definition → List Char → Prop where
  | nil : LinesWrittenAs [] []
  | skip {definitions : List Definition} {lines : List Char} (line : LineEnd) : LinesWrittenAs definitions lines →
      LinesWrittenAs definitions (line.written ++ lines)
  | node {definition : Definition} {definitions : List Definition} {indentation text lines : List Char}
      (ending : LineEnd) : Only isBlank indentation → WrittenAs definition text → LinesWrittenAs definitions lines →
      LinesWrittenAs (definition :: definitions) (indentation ++ (text ++ (ending.written ++ lines)))

end

structure Plain (definition : Definition) : Prop where
  type : Condition.IsName definition.type.toList
  label : ∀ label ∈ definition.label, Only isPlain label.toList
  when : ∀ condition ∈ definition.when, condition.Plain

instance (definition : Definition) : Decidable definition.Plain :=
  decidable_of_iff (Condition.IsName definition.type.toList ∧ (∀ label ∈ definition.label, Only isPlain label.toList) ∧
      ∀ condition ∈ definition.when, condition.Plain)
    ⟨fun ⟨type, label, when⟩ => ⟨type, label, when⟩, fun plain => ⟨plain.type, plain.label, plain.when⟩⟩

def HasNumeral (definition : Definition) : Prop :=
  ∀ seconds ∈ definition.cooldown, ∃ numeral, Decimal.read numeral = .ok seconds []

theorem HasNumeral.headedBy {definition : Definition} (numeral : definition.HasNumeral) :
    ∃ head, definition.HeadedBy head := by
  suffices attributes : ∃ text, AttributesWrittenAs definition.attributes text by
    obtain ⟨text, written⟩ := attributes
    exact ⟨_, text, written, rfl⟩
  rcases definition with ⟨type, label, _ | condition, _ | seconds, children⟩
  · exact ⟨_, .none⟩
  · obtain ⟨numeral, read⟩ := numeral seconds rfl
    exact ⟨_, .some (.cooldown read) .nil⟩
  · exact ⟨_, .some (.when condition) .nil⟩
  · obtain ⟨numeral, read⟩ := numeral seconds rfl
    exact ⟨_, .some (.when condition) (.cons (.cooldown read) .nil)⟩

theorem exists_linesWrittenAs {definitions : List Definition}
    (each : ∀ definition ∈ definitions, ∃ text, definition.WrittenAs text) :
    ∃ lines, LinesWrittenAs definitions lines := by
  induction definitions with
  | nil => exact ⟨[], .nil⟩
  | cons definition definitions ih =>
    obtain ⟨text, written⟩ := each definition List.mem_cons_self
    obtain ⟨lines, others⟩ := ih fun other member => each other (List.mem_cons_of_mem _ member)
    exact ⟨_, .node .bare (only_nil isBlank) written others⟩

theorem exists_writtenAs {definition : Definition} (numerals : ∀ other ∈ definition.preorder, other.HasNumeral) :
    ∃ text, definition.WrittenAs text := by
  induction definition using Definition.induction with
  | mk definition ih =>
    obtain ⟨head, headed⟩ := (numerals definition (mem_preorder_self definition)).headedBy
    by_cases childless : definition.children = []
    · exact ⟨head, .leaf headed childless⟩
    · obtain ⟨lines, written⟩ := exists_linesWrittenAs fun child member =>
        ih child member fun other inside => numerals other (mem_preorder.mpr (.inr ⟨child, member, inside⟩))
      exact ⟨_, .branch .bare headed childless written (only_nil isBlank)⟩

end Definition

namespace Source

inductive TreesWrittenAs : List TreeDefinition → List Char → Prop where
  | nil : TreesWrittenAs [] []
  | skip {trees : List TreeDefinition} {lines : List Char} (line : LineEnd) : TreesWrittenAs trees lines →
      TreesWrittenAs trees (line.written ++ lines)
  | tree {tree : TreeDefinition} {trees : List TreeDefinition} {indentation text lines : List Char}
      (ending : LineEnd) : Only isBlank indentation → tree.root.WrittenAs text → TreesWrittenAs trees lines →
      TreesWrittenAs (tree :: trees) (indentation ++ (['t', 'r', 'e', 'e', ' '] ++ (tree.name.toList ++
        ([' ', '=', ' '] ++ (text ++ (ending.written ++ lines))))))

def WrittenAs (source : Source) (text : List Char) : Prop := TreesWrittenAs source.trees text

/-- Trees and node types have names, and all other texts can be quoted as they are. -/
def Plain (source : Source) : Prop :=
  ∀ tree ∈ source.trees, Condition.IsName tree.name.toList ∧ ∀ definition ∈ tree.root.preorder, definition.Plain

instance (source : Source) : Decidable source.Plain :=
  inferInstanceAs (Decidable (∀ tree ∈ source.trees, _ ∧ _))

theorem exists_writtenAs {source : Source}
    (numerals : ∀ tree ∈ source.trees, ∀ definition ∈ tree.root.preorder, definition.HasNumeral) :
    ∃ text, source.WrittenAs text := by
  rcases source with ⟨trees⟩
  suffices ∃ lines, TreesWrittenAs trees lines from this
  induction trees with
  | nil => exact ⟨[], .nil⟩
  | cons tree trees ih =>
    obtain ⟨text, written⟩ := Definition.exists_writtenAs (numerals tree List.mem_cons_self)
    obtain ⟨lines, others⟩ := ih fun other member => numerals other (List.mem_cons_of_mem _ member)
    exact ⟨_, .tree .bare (only_nil isBlank) written others⟩

end Source

end BehaviorTree
