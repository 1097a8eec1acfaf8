import BehaviorTree.Proofs.Loadability
import Mathlib.Data.List.Forall2

/-! What a condition means. Its gate asks the atoms from left to right, each at most once and only while the answers
received so far leave the value open, and the answer that it gives is the value under these answers. -/

set_option autoImplicit false

namespace BehaviorTree

open Relation

variable {W A P : Type}

/-- These are among the answers of the atoms, which are numbered from left to right. -/
def Agrees (answers : Nat → Bool) (received : List (Nat × Bool)) : Prop :=
  ∀ reply ∈ received, answers reply.1 = reply.2

def shifted (count : Nat) (received : List (Nat × Bool)) : List (Nat × Bool) :=
  received.map fun reply => (count + reply.1, reply.2)

def spliced (count : Nat) (first second : Nat → Bool) (number : Nat) : Bool :=
  if number < count then first number else second (number - count)

theorem spliced_of_lt {count number : Nat} (below : number < count) (first second : Nat → Bool) :
    spliced count first second number = first number := if_pos below

theorem spliced_add (count number : Nat) (first second : Nat → Bool) :
    spliced count first second (count + number) = second number := by
  rw [spliced, if_neg (Nat.not_lt.mpr (Nat.le_add_right count number)), Nat.add_sub_cancel_left]

theorem Agrees.spliced_left {count : Nat} {first : Nat → Bool} {received : List (Nat × Bool)}
    (agrees : Agrees first received) (below : ∀ reply ∈ received, reply.1 < count) (second : Nat → Bool) :
    Agrees (spliced count first second) received :=
  fun reply member => (spliced_of_lt (below reply member) first second).trans (agrees reply member)

theorem Agrees.spliced_right {second : Nat → Bool} {received : List (Nat × Bool)} (agrees : Agrees second received)
    (count : Nat) (first : Nat → Bool) : Agrees (spliced count first second) (shifted count received) := by
  intro reply member
  obtain ⟨original, inside, rfl⟩ := List.mem_map.mp member
  exact (spliced_add count original.1 first second).trans (agrees original inside)

theorem agrees_append {answers : Nat → Bool} {received more : List (Nat × Bool)} :
    Agrees answers (received ++ more) ↔ Agrees answers received ∧ Agrees answers more :=
  List.forall_mem_append

theorem agrees_shifted {answers : Nat → Bool} {count : Nat} {received : List (Nat × Bool)} :
    Agrees answers (shifted count received) ↔ Agrees (fun number => answers (count + number)) received :=
  List.forall_mem_map

namespace Condition

/-- The value under these answers of the atoms. -/
def value : Condition → (Nat → Bool) → Bool
  | .atom _ _, answers => answers 0
  | .not operand, answers => !operand.value answers
  | .and left right, answers => left.value answers && right.value fun number => answers (left.atoms.length + number)
  | .or left right, answers => left.value answers || right.value fun number => answers (left.atoms.length + number)

/-- The value still depends on the answer of this atom. -/
def Open (condition : Condition) (received : List (Nat × Bool)) (number : Nat) : Prop :=
  ∃ one other, Agrees one received ∧ Agrees other received ∧
    (∀ another, another ≠ number → one another = other another) ∧ condition.value one ≠ condition.value other

/-- Asking one atom after the other comes to this answer. -/
structure Inquires (condition : Condition) (received : List (Nat × Bool)) (answer : Bool) : Prop where
  ordered : received.Pairwise fun earlier later => earlier.1 < later.1
  bounded : ∀ reply ∈ received, reply.1 < condition.atoms.length
  needed : ∀ front reply rear, received = front ++ reply :: rear → condition.Open front reply.1
  decided : ∀ answers, Agrees answers received → condition.value answers = answer
  possible : ∃ answers, Agrees answers received

/-- A connective that has the value of its right operand if the left one goes on, and else has its value at once. -/
structure Connects (whole left right : Condition) (goesOn : Bool) : Prop where
  atoms : whole.atoms = left.atoms ++ right.atoms
  value : ∀ answers, whole.value answers =
    if left.value answers = goesOn then right.value fun number => answers (left.atoms.length + number) else !goesOn

theorem connects_and (left right : Condition) : Connects (.and left right) left right true where
  atoms := rfl
  value answers := by cases first : left.value answers <;> simp [Condition.value, first]

theorem connects_or (left right : Condition) : Connects (.or left right) left right false where
  atoms := rfl
  value answers := by cases first : left.value answers <;> simp [Condition.value, first]

theorem value_congr (condition : Condition) {one other : Nat → Bool}
    (alike : ∀ number < condition.atoms.length, one number = other number) :
    condition.value one = condition.value other := by
  induction condition generalizing one other with
  | atom => exact alike 0 (Nat.zero_lt_one)
  | not operand ih => rw [value, value, ih alike]
  | and left right ihl ihr | or left right ihl ihr =>
    rw [atoms, List.length_append] at alike
    rw [value, value, ihl fun number below => alike number (Nat.lt_add_right _ below),
      ihr fun number below => alike _ (Nat.add_lt_add_left below _)]

namespace Connects

variable {whole left right : Condition} {goesOn : Bool}

theorem value_spliced (connects : Connects whole left right goesOn) (first second : Nat → Bool) :
    whole.value (spliced left.atoms.length first second) =
      if left.value first = goesOn then right.value second else !goesOn := by
  rw [connects.value, left.value_congr fun number below => spliced_of_lt below first second]
  simp only [spliced_add]

end Connects

theorem exists_value (condition : Condition) (answer : Bool) : ∃ answers, condition.value answers = answer := by
  have connected {whole left right : Condition} {goesOn : Bool} (connects : Connects whole left right goesOn)
      (ihl : ∀ answer, ∃ answers, left.value answers = answer)
      (ihr : ∀ answer, ∃ answers, right.value answers = answer) (answer : Bool) :
      ∃ answers, whole.value answers = answer := by
    obtain ⟨first, begins⟩ := ihl goesOn
    obtain ⟨second, ends⟩ := ihr answer
    exact ⟨_, by rw [connects.value_spliced first second, if_pos begins, ends]⟩
  induction condition generalizing answer with
  | atom => exact ⟨fun _ => answer, rfl⟩
  | not operand ih =>
    obtain ⟨answers, same⟩ := ih !answer
    exact ⟨answers, by rw [value, same, Bool.not_not]⟩
  | and left right ihl ihr => exact connected (connects_and left right) ihl ihr answer
  | or left right ihl ihr => exact connected (connects_or left right) ihl ihr answer

namespace Connects

variable {whole left right : Condition} {goesOn : Bool} {received more : List (Nat × Bool)} {answer : Bool}

theorem lt_length (connects : Connects whole left right goesOn) {number : Nat} (below : number < left.atoms.length) :
    number < whole.atoms.length := by
  rw [connects.atoms, List.length_append]
  exact Nat.lt_add_right _ below

theorem open_left (connects : Connects whole left right goesOn) {number : Nat} (isOpen : left.Open received number)
    (below : ∀ reply ∈ received, reply.1 < left.atoms.length) : whole.Open received number := by
  obtain ⟨one, other, agreesOne, agreesOther, alike, differ⟩ := isOpen
  obtain ⟨second, passes⟩ := right.exists_value goesOn
  have same (first : Nat → Bool) : whole.value (spliced left.atoms.length first second) = left.value first := by
    rw [connects.value_spliced, passes]
    cases left.value first <;> cases goesOn <;> rfl
  refine ⟨_, _, agreesOne.spliced_left below second, agreesOther.spliced_left below second, ?_, ?_⟩
  · intro another different
    rw [spliced, spliced, alike another different]
  · rwa [same, same]

theorem open_right (connects : Connects whole left right goesOn) (inquires : left.Inquires received goesOn)
    {number : Nat} (isOpen : right.Open more number) :
    whole.Open (received ++ shifted left.atoms.length more) (left.atoms.length + number) := by
  obtain ⟨first, begins⟩ := inquires.possible
  obtain ⟨one, other, agreesOne, agreesOther, alike, differ⟩ := isOpen
  have same (second : Nat → Bool) : whole.value (spliced left.atoms.length first second) = right.value second := by
    rw [connects.value_spliced, if_pos (inquires.decided first begins)]
  have agrees {second : Nat → Bool} (agrees : Agrees second more) :
      Agrees (spliced left.atoms.length first second) (received ++ shifted left.atoms.length more) :=
    agrees_append.mpr ⟨begins.spliced_left inquires.bounded second, agrees.spliced_right _ first⟩
  refine ⟨_, _, agrees agreesOne, agrees agreesOther, ?_, ?_⟩
  · intro another different
    rw [spliced, spliced]
    split
    · rfl
    · next above => exact alike _ fun same => different (by omega)
  · rwa [same, same]

theorem settled (connects : Connects whole left right goesOn) (inquires : left.Inquires received !goesOn) :
    whole.Inquires received !goesOn where
  ordered := inquires.ordered
  bounded reply member := connects.lt_length (inquires.bounded reply member)
  needed := by
    rintro front reply rear rfl
    exact connects.open_left (inquires.needed front reply rear rfl) fun earlier member =>
      inquires.bounded earlier (List.mem_append_left _ member)
  decided answers agrees := by
    rw [connects.value, inquires.decided answers agrees]
    cases goesOn <;> rfl
  possible := inquires.possible

theorem continued (connects : Connects whole left right goesOn) (first : left.Inquires received goesOn)
    (second : right.Inquires more answer) :
    whole.Inquires (received ++ shifted left.atoms.length more) answer where
  ordered := by
    rw [shifted, List.pairwise_append, List.pairwise_map]
    refine ⟨first.ordered, second.ordered.imp (Nat.add_lt_add_left · _), fun reply member => ?_⟩
    exact List.forall_mem_map.mpr fun another _ => Nat.lt_add_right _ (first.bounded reply member)
  bounded := by
    refine List.forall_mem_append.mpr ⟨fun reply member => connects.lt_length (first.bounded reply member), ?_⟩
    refine List.forall_mem_map.mpr fun reply member => ?_
    rw [connects.atoms, List.length_append]
    exact Nat.add_lt_add_left (second.bounded reply member) _
  -- Either the reply is one of the left operand, or the left operand has gone on before it.
  needed := by
    intro front reply rear same
    have right (between : List (Nat × Bool)) (front_eq : front = received ++ between)
        (rest : shifted left.atoms.length more = between ++ reply :: rear) : whole.Open front reply.1 := by
      obtain ⟨earlier, others, rfl, rfl, remain⟩ := List.map_eq_append_iff.mp rest
      obtain ⟨question, later, rfl, rfl, rfl⟩ := List.map_eq_cons_iff.mp remain
      rw [front_eq]
      exact connects.open_right first (second.needed earlier question later rfl)
    rcases List.append_eq_append_iff.mp same with ⟨between, front_eq, rest⟩ | ⟨between, rfl, rest⟩
    · exact right between front_eq rest
    · cases between with
      | nil => exact right [] (by rw [List.append_nil, List.append_nil]) rest.symm
      | cons question between =>
        obtain ⟨rfl, rfl⟩ := List.cons.inj rest
        exact connects.open_left (first.needed front reply between rfl) fun earlier member =>
          first.bounded earlier (List.mem_append_left _ member)
  decided answers agrees := by
    obtain ⟨begins, ends⟩ := agrees_append.mp agrees
    rw [connects.value, if_pos (first.decided answers begins)]
    exact second.decided _ (agrees_shifted.mp ends)
  possible := by
    obtain ⟨one, begins⟩ := first.possible
    obtain ⟨other, ends⟩ := second.possible
    exact ⟨_, agrees_append.mpr ⟨begins.spliced_left first.bounded other, ends.spliced_right _ one⟩⟩

end Connects

theorem inquires_atom (name : String) (argument : Option String) (answer : Bool) :
    (atom name argument).Inquires [(0, answer)] answer where
  ordered := List.pairwise_singleton _ _
  bounded := by simp [atoms]
  needed := by
    intro front reply rear same
    cases front with
    | nil =>
      obtain ⟨rfl, -⟩ := List.cons.inj same
      refine ⟨fun _ => true, fun number => number != 0, List.forall_mem_nil _, List.forall_mem_nil _,
        fun another different => ?_, by simp [value]⟩
      simpa using different
    | cons head tail => simp at same
  decided answers agrees := agrees (0, answer) List.mem_cons_self
  possible := ⟨fun _ => answer, by simp [Agrees]⟩

theorem Inquires.not {operand : Condition} {received : List (Nat × Bool)} {answer : Bool}
    (inquires : operand.Inquires received answer) : (Condition.not operand).Inquires received !answer where
  ordered := inquires.ordered
  bounded := inquires.bounded
  needed front reply rear same := by
    obtain ⟨one, other, agreesOne, agreesOther, alike, differ⟩ := inquires.needed front reply rear same
    exact ⟨one, other, agreesOne, agreesOther, alike, fun same => differ (Bool.not_inj same)⟩
  decided answers agrees := by rw [value, inquires.decided answers agrees]
  possible := inquires.possible

end Condition

/-! Checking a gate. -/

section Check
variable [Host W] [Probe W P] {context : ContextId}

/-- The gates of some atoms are checked in turn, each as the environment is by then. -/
inductive Consults (context : ContextId) :
    List (Gate P) → W → List (Nat × Bool) → List (Gate P) → W → Prop where
  | nothing (gates : List (Gate P)) (world : W) : Consults context gates world [] gates world
  | next {gates final : List (Gate P)} {world during after : W} {number : Nat} {gate checked : Gate P} {answer : Bool}
      {received : List (Nat × Bool)} (place : gates[number]? = some gate)
      (checks : gate.check context world = (answer, checked, during))
      (rest : Consults context (gates.set number checked) during received final after) :
      Consults context gates world ((number, answer) :: received) final after

namespace Consults

variable {gates final : List (Gate P)} {world during after : W} {received : List (Nat × Bool)}

theorem append {between : List (Gate P)} {more : List (Nat × Bool)}
    (first : Consults context gates world received between during)
    (second : Consults context between during more final after) :
    Consults context gates world (received ++ more) final after := by
  induction first with
  | nothing => exact second
  | next place checks _ ih => exact .next place checks (ih second)

theorem append_right (consults : Consults context gates world received final after) (others : List (Gate P)) :
    Consults context (gates ++ others) world received (final ++ others) after := by
  induction consults with
  | nothing gates world => exact .nothing _ _
  | @next gates _ _ _ _ number _ _ _ _ place checks _ ih =>
    obtain ⟨below, _⟩ := List.getElem?_eq_some_iff.mp place
    refine .next (by rw [List.getElem?_append_left below, place]) checks ?_
    rwa [List.set_append_left _ _ below]

theorem append_left (consults : Consults context gates world received final after) (others : List (Gate P)) :
    Consults context (others ++ gates) world (shifted others.length received) (others ++ final) after := by
  induction consults with
  | nothing gates world => exact .nothing _ _
  | @next gates _ _ _ _ number _ _ _ _ place checks _ ih =>
    refine .next (by rw [List.getElem?_append_right (Nat.le_add_right _ _), Nat.add_sub_cancel_left, place]) checks ?_
    rwa [List.set_append_right _ _ (Nat.le_add_right _ _), Nat.add_sub_cancel_left]

theorem both {others last : List (Gate P)} {replies : List (Nat × Bool)} {count : Nat}
    (first : Consults context gates world received final during) (count_eq : final.length = count)
    (second : Consults context others during replies last after) :
    Consults context (gates ++ others) world (received ++ shifted count replies) (final ++ last) after := by
  rw [← count_eq]
  exact (first.append_right others).append (second.append_left final)

end Consults

namespace Condition

/-- A gate of two, where the right one is asked if the left one answers `goesOn`, and else that settles it. -/
structure Joins (W : Type) [Host W] [Probe W P] (join : Gate P → Gate P → Gate P) (goesOn : Bool) : Prop where
  settled : ∀ {left asked : Gate P} {context : ContextId} {world during : W},
    left.check context world = (!goesOn, asked, during) → ∀ right : Gate P,
      (join left right).check context world = (!goesOn, join asked right, during)
  continued : ∀ {left right asked final : Gate P} {context : ContextId} {world during after : W} {answer : Bool},
    left.check context world = (goesOn, asked, during) → right.check context during = (answer, final, after) →
      (join left right).check context world = (answer, join asked final, after)

theorem joins_and : Joins W (Gate.and : Gate P → Gate P → Gate P) true where
  settled asks right := by simp only [Gate.check, asks, Bool.not_true]
  continued asks goes := by simp only [Gate.check, asks, goes]

theorem joins_or : Joins W (Gate.or : Gate P → Gate P → Gate P) false where
  settled asks right := by simp only [Gate.check, asks, Bool.not_false]
  continued asks goes := by simp only [Gate.check, asks, goes]

def Checks (W : Type) [Host W] [Probe W P] (context : ContextId) (condition : Condition) (gates : List (Gate P))
    (gate : Gate P) : Prop :=
  ∀ {world after : W} {answer : Bool} {checked : Gate P}, gate.check context world = (answer, checked, after) →
    ∃ received final, Consults context gates world received final after ∧ Makes condition final checked ∧
      condition.Inquires received answer

theorem Connects.checks {whole left right : Condition} {goesOn : Bool} {join : Gate P → Gate P → Gate P}
    (connects : Connects whole left right goesOn) (joins : Joins W join goesOn)
    (makes : ∀ {gates more first second}, Makes left gates first → Makes right more second →
      Makes whole (gates ++ more) (join first second))
    {gates more : List (Gate P)} {first second : Gate P} (makesRight : Makes right more second)
    (onLeft : Checks W context left gates first) (onRight : Checks W context right more second) :
    Checks W context whole (gates ++ more) (join first second) := by
  intro world after answer checked checks
  rcases begins : first.check context world with ⟨passes, asked, during⟩
  obtain ⟨received, final, consults, makesLeft, inquires⟩ := onLeft begins
  by_cases goes : passes = goesOn
  · subst goes
    rcases ends : second.check context during with ⟨outcome, last, later⟩
    obtain ⟨replies, others, further, makesLast, inquiresRight⟩ := onRight ends
    cases (joins.continued begins ends).symm.trans checks
    exact ⟨_, _, consults.both makesLeft.length_eq further, makes makesLeft makesLast,
      connects.continued inquires inquiresRight⟩
  · obtain rfl : passes = !goesOn := Bool.eq_not_of_ne goes
    cases (joins.settled begins second).symm.trans checks
    exact ⟨received, _, consults.append_right more, makes makesLeft makesRight, connects.settled inquires⟩

theorem Makes.check {condition : Condition} {gates : List (Gate P)} {gate : Gate P}
    (makes : Makes condition gates gate) : Checks W context condition gates gate := by
  induction makes with
  | atom name argument gate =>
    intro world after answer checked checks
    exact ⟨_, [checked], .next rfl checks (.nothing _ _), .atom name argument checked,
      inquires_atom name argument answer⟩
  | @not operand gates gate makes ih =>
    intro world after answer checked checks
    rcases inner : gate.check context world with ⟨answer, operand, later⟩
    rw [Gate.check, inner] at checks
    cases checks
    obtain ⟨received, final, consults, makes, inquires⟩ := ih inner
    exact ⟨received, final, consults, makes.not, inquires.not⟩
  | and _ makesRight ihl ihr => exact (connects_and _ _).checks joins_and .and makesRight ihl ihr
  | or _ makesRight ihl ihr => exact (connects_or _ _).checks joins_or .or makesRight ihl ihr

end Condition

inductive Gate.Turns (W : Type) [Host W] [Probe W P] (gate : Gate P) : Gate P → Prop where
  | activated (context : ContextId) (world : W) : Turns W gate (gate.activate context world).1
  | checked (context : ContextId) (world : W) : Turns W gate (gate.check context world).2.1

/-- What becomes of a gate in use. -/
abbrev Gate.Becomes (W : Type) [Host W] [Probe W P] : Gate P → Gate P → Prop :=
  ReflTransGen (Gate.Turns W)

/-- What becomes of several gates. -/
abbrev BecomeEach (W : Type) [Host W] [Probe W P] : List (Gate P) → List (Gate P) → Prop :=
  List.Forall₂ (Gate.Becomes W)

theorem BecomeEach.refl (gates : List (Gate P)) : BecomeEach W gates gates :=
  List.forall₂_same.mpr fun _ _ => .refl

theorem BecomeEach.trans {gates between final : List (Gate P)} (first : BecomeEach W gates between)
    (second : BecomeEach W between final) : BecomeEach W gates final := by
  induction first generalizing final with
  | nil => exact second
  | cons begins _ ih =>
    cases second with
    | cons ends rest => exact .cons (begins.trans ends) (ih rest)

theorem BecomeEach.set {gates : List (Gate P)} {number : Nat} {gate checked : Gate P}
    (place : gates[number]? = some gate) (becomes : gate.Becomes W checked) :
    BecomeEach W gates (gates.set number checked) := by
  induction gates generalizing number with
  | nil => cases place
  | cons first rest ih =>
    cases number with
    | zero =>
      obtain rfl := Option.some.inj place
      exact .cons becomes (BecomeEach.refl rest)
    | succ number => exact .cons .refl (ih place)

theorem Consults.becomeEach {gates final : List (Gate P)} {world after : W} {received : List (Nat × Bool)}
    (consults : Consults context gates world received final after) : BecomeEach W gates final := by
  induction consults with
  | nothing gates world => exact .refl gates
  | @next _ _ world _ _ number gate checked answer _ place checks _ ih =>
    have becomes : gate.Becomes W checked := by
      have turns : gate.Turns W (gate.check context world).2.1 := .checked context world
      rw [checks] at turns
      exact .single turns
    exact (BecomeEach.set place becomes).trans ih

namespace Condition

theorem Makes.activate {condition : Condition} {gates : List (Gate P)} {gate : Gate P}
    (makes : Makes condition gates gate) (context : ContextId) (world : W) : ∃ final,
      BecomeEach W gates final ∧ Makes condition final (gate.activate context world).1 := by
  induction makes generalizing world with
  | atom name argument gate =>
    exact ⟨[_], .cons (.single (.activated context world)) .nil, .atom name argument _⟩
  | not _ ih =>
    obtain ⟨final, becomes, makes⟩ := ih world
    exact ⟨final, becomes, makes.not⟩
  | and _ _ ihl ihr =>
    obtain ⟨first, becomes, makes⟩ := ihl world
    obtain ⟨second, others, makesRight⟩ := ihr _
    exact ⟨first ++ second, List.rel_append becomes others, makes.and makesRight⟩
  | or _ _ ihl ihr =>
    obtain ⟨first, becomes, makes⟩ := ihl world
    obtain ⟨second, others, makesRight⟩ := ihr _
    exact ⟨first ++ second, List.rel_append becomes others, makes.or makesRight⟩

theorem Makes.becomes {condition : Condition} {gates : List (Gate P)} {gate later : Gate P}
    (makes : Makes condition gates gate) (becomes : gate.Becomes W later) : ∃ current,
      BecomeEach W gates current ∧ Makes condition current later := by
  induction becomes with
  | refl => exact ⟨gates, .refl gates, makes⟩
  | tail _ turns ih =>
    obtain ⟨current, becomes, makes⟩ := ih
    cases turns with
    | activated context world =>
      obtain ⟨final, others, makes⟩ := makes.activate context world
      exact ⟨final, becomes.trans others, makes⟩
    | checked context world =>
      rcases checks : Gate.check _ context world with ⟨answer, checked, after⟩
      obtain ⟨_, final, consults, makes, _⟩ := makes.check checks
      exact ⟨final, becomes.trans consults.becomeEach, makes⟩

/-- However the gate was used before, checking it consults the gates that were built for the atoms, or what became of
them, and comes to the answer of the condition. -/
def Works (W : Type) [Host W] [Probe W P] (condition : Condition) (built : List (Gate P)) (gate : Gate P) : Prop :=
  ∀ later, gate.Becomes W later → ∃ current, BecomeEach W built current ∧ Makes condition current later ∧
    ∀ (context : ContextId) (world : W), ∃ received final,
      Consults context current world received final (later.check context world).2.2 ∧
        Makes condition final (later.check context world).2.1 ∧
        condition.Inquires received (later.check context world).1

theorem Makes.works {condition : Condition} {built : List (Gate P)} {gate : Gate P}
    (makes : Makes condition built gate) : condition.Works W built gate := by
  intro later becomes
  obtain ⟨current, becomeEach, makes⟩ := makes.becomes becomes
  exact ⟨current, becomeEach, makes, fun context world => makes.check rfl⟩

omit [Host W] [Probe W P] in
theorem load_ok_iff {registry : Registry W A P} (decided : registry.Decided) (condition : Condition) (before : W) :
    (∃ gate after, condition.load registry before = (.ok gate, after)) ↔
      ∀ atom ∈ condition.atoms, registry.Accepts atom.1 atom.2 := by
  constructor
  · rintro ⟨gate, after, loaded⟩
    exact accepts_of_ok decided loaded
  · intro accepted
    rcases loaded : condition.load registry before with ⟨error | gate, after⟩
    · obtain ⟨⟨atom, member, rejected⟩, _⟩ := not_accepts_of_error loaded
      exact absurd (accepted atom member) rejected
    · exact ⟨gate, after, rfl⟩

end Condition

end Check

/-! The gates of the standard registry. -/

inductive World.Affirms (context : ContextId) (key : String) (world : World) : Prop where
  | cell (number : Nat) (held : world.get? context key = some (.cell number)) (isSet : world.cell? number = some true)
  | bool (held : world.get? context key = some (.bool true))
  | text (held : world.get? context key = some (.text "true"))
  | literal (held : world.get? context key = some (.literal "true"))

theorem Value.readBool?_eq_true {written : String} : readBool? written = some true ↔ written = "true" := by
  rw [readBool?]
  split
  · simp [*]
  · split <;> simp [*]

theorem World.flag_iff (context : ContextId) (key : String) (world : World) :
    world.flag context key = true ↔ world.Affirms context key := by
  constructor
  · intro flag
    rw [World.flag] at flag
    rcases held : world.get? context key with _ | value
    · simp [held] at flag
    simp only [held] at flag
    cases value with
    | cell number =>
      refine .cell number held ?_
      simpa [Option.getD_eq_iff] using flag
    | bool answer => exact .bool (held.trans (congrArg (fun answer => some (Value.bool answer)) flag))
    | text written | literal written =>
      obtain rfl : written = "true" := by
        apply Value.readBool?_eq_true.mp
        simp only [Value.parsedAs?, Value.as?, Value.type, Value.ofText?] at flag
        cases read : Value.readBool? written with
        | none => simp [read] at flag
        | some answer => simpa [read] using flag
      first
        | exact .text held
        | exact .literal held
    | unit | int64 | int32 | byte | float | char => cases flag
  · intro affirms
    rw [World.flag]
    cases affirms with
    | cell number held isSet => simp only [held, isSet, Option.getD_some]
    | bool held => simp only [held]; rfl
    | text held | literal held => simp only [held]; rfl

def Gate.Tells [Host W] [Probe W P] (gate : Gate P) (holds : ContextId → W → Prop) : Prop :=
  ∀ later, gate.Becomes W later → ∀ context world, (later.check context world).1 = true ↔ holds context world

section Standard
variable {B Q : Type} [Probe World Q]

theorem Gate.constant_tells (answer : Bool) :
    (Gate.constant answer : Gate Q).Tells fun _ (_ : World) => answer = true := by
  intro later becomes context world
  suffices later = .constant answer by rw [this]; rfl
  induction becomes with
  | refl => rfl
  | tail _ turns ih =>
    subst ih
    cases turns <;> rfl

theorem Gate.flag_tells (key : String) :
    (Gate.flag key : Gate Q).Tells fun context (world : World) => world.Affirms context key := by
  intro later becomes context world
  suffices later = .flag key by rw [this]; exact world.flag_iff context key
  induction becomes with
  | refl => rfl
  | tail _ turns ih =>
    subst ih
    cases turns <;> rfl

/-- A condition loads if every atom can be built, and else the error is that of the leftmost atom that cannot. Every
check of its gate asks the gates of the atoms from left to right, each at most once and only while the value is open,
and answers with the value of the condition under the answers received. The standard gates are two constants and the
flags. -/
theorem Condition.load_meaning [Host W] [Probe W P] {registry : Registry W A P} (decided : registry.Decided)
    (condition : Condition) (before : W) :
    ((∃ gate after, condition.load registry before = (.ok gate, after)) ↔
        ∀ atom ∈ condition.atoms, registry.Accepts atom.1 atom.2) ∧
      (∀ error after, condition.load registry before = (.error error, after) →
        ∃ front name argument rear, condition.atoms = front ++ (name, argument) :: rear ∧
          (∀ atom ∈ front, registry.Accepts atom.1 atom.2) ∧ ¬ registry.Accepts name argument ∧
          error = registry.refusal name argument) ∧
      (∀ gate after, condition.load registry before = (.ok gate, after) →
        ∃ built, registry.BuildsEach condition.atoms before built after ∧ condition.Works W built gate) ∧
      ∀ (argument : Option String) (key : String) (start : World),
        let standard : Registry World B Q := Registry.standard
        (∃ gate, (Condition.atom "True" argument).load standard start = (.ok gate, start) ∧
          gate.Tells fun _ (_ : World) => True) ∧
        (∃ gate, (Condition.atom "False" argument).load standard start = (.ok gate, start) ∧
          gate.Tells fun _ (_ : World) => False) ∧
        ∃ gate, (Condition.atom "IsTrue" (some key)).load standard start = (.ok gate, start) ∧
          gate.Tells fun context (world : World) => world.Affirms context key := by
  refine ⟨load_ok_iff decided condition before, ?_, ?_, ?_⟩
  · intro error after failed
    obtain ⟨front, name, argument, rear, atoms, ⟨_, _, builds⟩, rejected, told⟩ := refusal_of_error failed
    exact ⟨front, name, argument, rear, atoms, builds.accepts decided, rejected, told⟩
  · intro gate after loaded
    obtain ⟨built, builds, makes⟩ := makes_of_ok loaded
    exact ⟨built, builds, makes.works⟩
  · intro argument key start standard
    refine ⟨⟨.constant true, rfl, ?_⟩, ⟨.constant false, rfl, ?_⟩, .flag key, rfl, Gate.flag_tells key⟩
    · simpa using Gate.constant_tells true
    · simpa using Gate.constant_tells false

end Standard

def lantern : Condition := .and (.atom "IsTrue" (some "dark")) (.not (.atom "False" none))

theorem lantern_works : Source.outpost.Decided ∧ ∃ gate after built,
    lantern.load Source.outpost World.empty = (.ok gate, after) ∧
      Source.outpost.BuildsEach lantern.atoms World.empty built after ∧ lantern.Works World built gate := by
  obtain ⟨loads, _, works, _⟩ := lantern.load_meaning (B := Script.Performer) (Q := Script.Sensor)
    Source.outpost_uniform.accepts World.empty
  obtain ⟨gate, after, loaded⟩ := loads.mpr <| List.forall_mem_cons.mpr
    ⟨⟨_, rfl, fun _ => rfl⟩, List.forall_mem_singleton.mpr ⟨_, rfl, fun _ => rfl⟩⟩
  obtain ⟨built, builds, works⟩ := works gate after loaded
  exact ⟨Source.outpost_uniform.accepts, gate, after, built, loaded, builds, works⟩

end BehaviorTree
