import BehaviorTree.Proofs.Asking
import BehaviorTree.Proofs.Passes

/-! From a node to its children. An evaluation that asks a node asks one of its children exactly if the node passes and
the child is the one at which a sequence is, or one to which a selector comes, past children that all refuse. -/

set_option autoImplicit false

namespace BehaviorTree

variable {W A P : Type}

namespace Node

theorem at?_append {node found : Node A P} {position : Position} (reached : node.at? position = some found)
    (path : Position) : node.at? (position ++ path) = found.at? path := by
  induction position generalizing node with
  | nil =>
    cases reached
    rfl
  | cons index rest ih =>
    obtain ⟨child, selected, onward⟩ := at?_cons_eq_some.mp reached
    simp only [List.cons_append, at?, selected, Option.bind_some, ih onward]

variable [Host W] [Action W A] [Probe W P] {first child : Node A P} {rest children : List (Node A P)} {index : Nat}
  {world before : W}

theorem refuse_iff {after : W} : Refuse children world after ↔
    ∃ others, Node.evaluateFirst children world = (none, others, after) := by
  constructor
  · exact Refuse.evaluateFirst_eq
  · rintro ⟨others, scan⟩
    induction children generalizing world others with
    | nil =>
      cases scan
      exact .nil
    | cons first rest ih =>
      rcases evaluated : first.evaluate world with ⟨_ | _, asked, during⟩
      · rcases further : Node.evaluateFirst rest during with ⟨winner, scanned, last⟩
        simp only [Node.evaluateFirst, evaluated, further, Prod.mk.injEq, Option.map_eq_none_iff] at scan
        obtain ⟨rfl, _, rfl⟩ := scan
        exact .cons evaluated (ih scanned further)
      · simp only [Node.evaluateFirst, evaluated] at scan
        cases scan

/-- A scan comes to the child at this place, in this environment: all children before it have refused. -/
structure ComesTo (children : List (Node A P)) (world : W) (index : Nat) (child : Node A P) (before : W) : Prop where
  selected : children[index]? = some child
  refused : Refuse (children.take index) world before

theorem comesTo_zero : ComesTo (first :: rest) world 0 child before ↔ child = first ∧ before = world := by
  constructor
  · rintro ⟨selected, refused⟩
    cases selected
    cases refused
    exact ⟨rfl, rfl⟩
  · rintro ⟨rfl, rfl⟩
    exact ⟨rfl, .nil⟩

theorem comesTo_succ : ComesTo (first :: rest) world (index + 1) child before ↔
    ∃ asked during, first.evaluate world = (false, asked, during) ∧ ComesTo rest during index child before := by
  constructor
  · rintro ⟨selected, refused⟩
    rw [List.take_succ_cons] at refused
    cases refused with
    | cons evaluated refused => exact ⟨_, _, evaluated, selected, refused⟩
  · rintro ⟨asked, during, evaluated, selected, refused⟩
    exact ⟨selected, .cons evaluated refused⟩

theorem evaluateFirst_eq_some_iff : (Node.evaluateFirst children world).1 = some index ↔
    ∃ child before, ComesTo children world index child before ∧ (child.evaluate before).1 = true := by
  induction children generalizing world index with
  | nil =>
    constructor
    · nofun
    · rintro ⟨child, before, ⟨selected, _⟩, _⟩
      cases selected
  | cons first rest ih =>
    rcases evaluated : first.evaluate world with ⟨_ | _, asked, during⟩
    · cases index with
      | zero => simp [Node.evaluateFirst, evaluated, comesTo_zero]
      | succ index => simp [Node.evaluateFirst, evaluated, comesTo_succ, ih]
    · cases index with
      | zero => simp [Node.evaluateFirst, evaluated, comesTo_zero]
      | succ index => simp [Node.evaluateFirst, evaluated, comesTo_succ]

theorem refuse_take_iff {count : Nat} : (∃ after, Refuse (children.take count) world after) ↔
    ∀ index < count, ∀ child, children[index]? = some child →
      ∃ before, ComesTo children world index child before ∧ (child.evaluate before).1 = false := by
  induction children generalizing world count with
  | nil =>
    rw [List.take_nil]
    exact iff_of_true ⟨world, .nil⟩ fun _ _ _ selected => nomatch selected
  | cons first rest ih =>
    cases count with
    | zero => exact iff_of_true ⟨world, .nil⟩ fun _ bound => absurd bound (Nat.not_lt_zero _)
    | succ count =>
      rw [List.take_succ_cons]
      constructor
      · rintro ⟨after, refuse⟩ index bound child selected
        cases refuse with
        | @cons _ asked _ _ during _ evaluated refuse =>
          cases index with
          | zero =>
            cases selected
            exact ⟨world, comesTo_zero.mpr ⟨rfl, rfl⟩, by rw [evaluated]⟩
          | succ index =>
            obtain ⟨before, comes, refused⟩ :=
              ih.mp ⟨after, refuse⟩ index (Nat.lt_of_succ_lt_succ bound) child selected
            exact ⟨before, comesTo_succ.mpr ⟨asked, during, evaluated, comes⟩, refused⟩
      · intro each
        obtain ⟨before, comes, refused⟩ := each 0 (Nat.succ_pos _) first rfl
        obtain ⟨_, rfl⟩ := comesTo_zero.mp comes
        rcases evaluated : first.evaluate before with ⟨answer, asked, during⟩
        obtain rfl : answer = false := by rwa [evaluated] at refused
        obtain ⟨after, refuse⟩ := ih.mpr fun index bound child selected => by
          obtain ⟨between, comes, refused⟩ := each (index + 1) (Nat.succ_lt_succ bound) child selected
          obtain ⟨_, _, same, comes⟩ := comesTo_succ.mp comes
          cases evaluated.symm.trans same
          exact ⟨between, comes, refused⟩
        exact ⟨after, .cons evaluated refuse⟩

theorem evaluateFirst_eq_none_iff : (Node.evaluateFirst children world).1 = none ↔
    ∀ index child, children[index]? = some child →
      ∃ before, ComesTo children world index child before ∧ (child.evaluate before).1 = false := by
  have all : (Node.evaluateFirst children world).1 = none ↔
      ∃ after, Refuse (children.take children.length) world after := by
    rw [List.take_length]
    constructor
    · intro none
      exact ⟨_, refuse_iff.mpr ⟨_, Prod.ext none rfl⟩⟩
    · rintro ⟨after, refuse⟩
      obtain ⟨others, scan⟩ := refuse_iff.mp refuse
      rw [scan]
  rw [all, refuse_take_iff]
  constructor
  · intro each index child selected
    exact each index (List.getElem?_eq_some_iff.mp selected).1 child selected
  · exact fun each index _ => each index

theorem Scans.evaluateFirst_eq {scanned : List (Node A P)} {after : W} {winner : Option Nat}
    (scan : Scans children world winner scanned after) :
    Node.evaluateFirst children world = (winner, scanned, after) := by
  induction scan with
  | exhausted => rfl
  | agreed evaluated => simp only [Node.evaluateFirst, evaluated]
  | refused evaluated _ ih => simp only [Node.evaluateFirst, evaluated, ih]

theorem Scans.eq_some_iff {scanned : List (Node A P)} {after : W} {winner : Option Nat}
    (scan : Scans children world winner scanned after) : winner = some index ↔
      ∃ child before, ComesTo children world index child before ∧ (child.evaluate before).1 = true := by
  rw [← evaluateFirst_eq_some_iff, scan.evaluateFirst_eq]

theorem Scans.getElem?_of_comesTo {scanned : List (Node A P)} {after : W} {winner : Option Nat}
    (scan : Scans children world winner scanned after) (come : ComesTo children world index child before) :
    scanned[index]? = some (child.evaluate before).2.1 := by
  obtain ⟨others, refused⟩ := come.refused.evaluateFirst_eq
  rcases scan.asked come.selected with ⟨_, _, scanning, found⟩ | ⟨_, _, _, scanning, _⟩
  · cases refused.symm.trans scanning
    exact found
  · cases refused.symm.trans scanning

/-! Descent. -/

theorem asks?_nil (node : Node A P) (world : W) : node.asks? [] world = some world := by
  cases node
  rfl

theorem asks?_append {node found : Node A P} {position : Position} (reached : node.at? position = some found)
    (path : Position) (world : W) :
    node.asks? (position ++ path) world = (node.asks? position world).bind (found.asks? path) := by
  induction position generalizing node world with
  | nil =>
    cases reached
    cases found
    rfl
  | cons index rest ih =>
    obtain ⟨child, selected, onward⟩ := at?_cons_eq_some.mp reached
    cases node with
    | mk state children =>
      have selected : children[index]? = some child := selected
      cases activated : state.context with
      | none => simp only [List.cons_append, asks?, activated, Option.bind_none]
      | some context =>
        rcases admission : state.pass context world with ⟨_ | _, admitted, during⟩
        · simp only [List.cons_append, asks?_refused activated admission, Option.bind_none]
        cases kind : state.kind with
        | sequence active =>
          simp only [List.cons_append, asks?_sequence activated admission kind, selected, Option.bind_some, ih onward]
          split <;> rfl
        | selector previous =>
          simp only [List.cons_append, asks?_selector activated admission kind, selected, Option.bind_some, ih onward]
          split <;> rfl
        | action lifecycle | inert | relay most least =>
          simp only [List.cons_append, asks?, activated, admission, kind, Option.bind_none]

theorem exists_at?_of_asks? {node : Node A P} {position : Position} {world during : W}
    (asks : node.asks? position world = some during) : ∃ found, node.at? position = some found := by
  induction position generalizing node world with
  | nil => exact ⟨node, rfl⟩
  | cons index rest ih =>
    cases node with
    | mk state children =>
      have descend {before : W} (asks : ((children[index]?).bind fun child => child.asks? rest before) = some during) :
          ∃ found, (mk state children).at? (index :: rest) = some found := by
        obtain ⟨child, selected, asks⟩ := Option.bind_eq_some_iff.mp asks
        obtain ⟨found, reached⟩ := ih asks
        exact ⟨found, at?_cons_eq_some.mpr ⟨child, selected, reached⟩⟩
      -- Only sequences and selectors ask further down.
      unfold asks? at asks
      split at asks
      · cases asks
      split at asks
      · cases asks
      split at asks
      · split at asks
        · exact descend asks
        · cases asks
      · split at asks
        · exact descend asks
        · cases asks
      · cases asks
      · cases asks
      · cases asks

/-- The evaluation of a tree asks the node at a position, and this is its answer. -/
def Answers (node : Node A P) (world : W) (position : Position) (answer : Bool) : Prop :=
  ∃ found before, node.at? position = some found ∧ node.asks? position world = some before ∧
    (found.evaluate before).1 = answer

theorem answers_append {node found : Node A P} {position : Position} (reached : node.at? position = some found)
    {world before : W} (asks : node.asks? position world = some before) (path : Position) (answer : Bool) :
    node.Answers world (position ++ path) answer ↔ found.Answers before path answer := by
  simp only [Answers, at?_append reached, asks?_append reached, asks, Option.bind_some]

/-- The first child of the node that agrees in its evaluation, or none of them. -/
def Elects (node : Node A P) (world : W) : Option Nat → Prop
  | some index => node.Answers world [index] true ∧ ∀ earlier < index, node.Answers world [earlier] false
  | none => ∀ index < node.children.length, node.Answers world [index] false

section Child
variable {state admitted : NodeState A P} {context : ContextId} {world during : W}

theorem asks?_selector_iff (activated : state.context = some context)
    (admission : state.pass context world = (true, admitted, during)) {previous : Option Nat}
    (kind : state.kind = .selector previous) (index : Nat) (path : Position) (later : W) :
    (mk state children).asks? (index :: path) world = some later ↔
      ∃ child before, ComesTo children during index child before ∧ child.asks? path before = some later := by
  rw [asks?_selector activated admission kind]
  constructor
  · intro asks
    rcases scan : Node.evaluateFirst (children.take index) during with ⟨_ | _, others, before⟩ <;> rw [scan] at asks
    · obtain ⟨child, selected, asks⟩ := Option.bind_eq_some_iff.mp asks
      exact ⟨child, before, ⟨selected, refuse_iff.mpr ⟨others, scan⟩⟩, asks⟩
    · cases asks
  · rintro ⟨child, before, ⟨selected, refused⟩, asks⟩
    obtain ⟨others, scan⟩ := refuse_iff.mp refused
    rw [scan, selected]
    exact asks

theorem answers_child_iff (activated : state.context = some context)
    (admission : state.pass context world = (true, admitted, during)) {previous : Option Nat}
    (kind : state.kind = .selector previous) (index : Nat) (answer : Bool) :
    (mk state children).Answers world [index] answer ↔
      ∃ child before, ComesTo children during index child before ∧ (child.evaluate before).1 = answer := by
  unfold Answers
  constructor
  · rintro ⟨found, before, reached, asks, answers⟩
    obtain ⟨child, later, come, same⟩ := (asks?_selector_iff activated admission kind index [] before).mp asks
    obtain ⟨other, selected, onward⟩ := at?_cons_eq_some.mp reached
    cases come.selected.symm.trans selected
    cases onward
    rw [asks?_nil] at same
    cases same
    exact ⟨_, _, come, answers⟩
  · rintro ⟨child, before, come, answers⟩
    refine ⟨child, before, at?_cons_eq_some.mpr ⟨child, come.selected, rfl⟩, ?_, answers⟩
    exact (asks?_selector_iff activated admission kind index [] before).mpr ⟨child, before, come, asks?_nil _ _⟩

theorem asks?_child_iff {parent : Node A P} (bound : index < parent.children.length) (world : W) :
    (∃ later, parent.asks? [index] world = some later) ↔ parent.passes world = true ∧
      ((∃ active, parent.state.kind = .sequence active ∧ active.getD 0 = index) ∨
        (∃ previous, parent.state.kind = .selector previous) ∧
          ∀ earlier < index, parent.Answers world [earlier] false) := by
  obtain ⟨state, children⟩ := parent
  have bound : index < children.length := bound
  have selected : children[index]? = some children[index] := List.getElem?_eq_getElem bound
  cases activated : state.context with
  | none => simp [asks?, passes, activated]
  | some context =>
    rcases admission : state.pass context world with ⟨_ | _, admitted, during⟩
    · simp [asks?_refused activated admission, passes, activated, admission]
    have passed : (mk state children).passes world = true := by
      simp only [passes, state_mk, activated, Option.any_some, admission]
    simp only [passed, true_and, state_mk]
    cases kind : state.kind with
    | sequence active => simp [asks?_sequence activated admission kind, selected, asks?_nil]
    | selector previous =>
      -- A scan comes to a child exactly if all children before it have refused.
      have came : (∃ later, (mk state children).asks? [index] world = some later) ↔
          ∃ after, Refuse (children.take index) during after := by
        simp only [asks?_selector_iff activated admission kind, asks?_nil, Option.some.injEq]
        constructor
        · rintro ⟨later, child, before, come, rfl⟩
          exact ⟨before, come.refused⟩
        · rintro ⟨after, refused⟩
          exact ⟨after, _, after, ⟨selected, refused⟩, rfl⟩
      rw [came, refuse_take_iff]
      simp only [answers_child_iff activated admission kind]
      constructor
      · intro each
        refine .inr ⟨⟨previous, rfl⟩, fun earlier less => ?_⟩
        have within : earlier < children.length := Nat.lt_trans less bound
        obtain ⟨before, come, refused⟩ := each earlier less _ (List.getElem?_eq_getElem within)
        exact ⟨_, before, come, refused⟩
      · rintro (⟨active, other, _⟩ | ⟨_, each⟩) earlier less child there
        · cases other
        · obtain ⟨sibling, before, come, refused⟩ := each earlier less
          cases there.symm.trans come.selected
          exact ⟨before, come, refused⟩
    | action lifecycle | inert | relay most least => simp [asks?, activated, admission, kind]

theorem evaluate_elects (sound : (mk state children).Sound) {previous : Option Nat}
    (kind : state.kind = .selector previous) (passes : (mk state children).passes world = true) :
    ∃ winner, (Node.evaluate (.mk state children) world).2.1.state.kind = .selector winner ∧
      (mk state children).Elects world winner ∧ (Node.evaluate (.mk state children) world).1 = winner.isSome := by
  have elects {context : ContextId} {admitted : NodeState A P} {during : W} (activated : state.context = some context)
      (admission : state.pass context world = (true, admitted, during)) :
      (mk state children).Elects world (Node.evaluateFirst children during).1 := by
    cases won : (Node.evaluateFirst children during).1 with
    | none =>
      intro index bound
      rw [answers_child_iff activated admission kind]
      have selected := List.getElem?_eq_getElem bound
      exact ⟨_, evaluateFirst_eq_none_iff.mp won index _ selected⟩
    | some index =>
      obtain ⟨child, before, come, agreed⟩ := evaluateFirst_eq_some_iff.mp won
      refine ⟨(answers_child_iff activated admission kind index true).mpr ⟨child, before, come, agreed⟩, ?_⟩
      intro earlier less
      rw [answers_child_iff activated admission kind]
      have within : earlier < children.length :=
        Nat.lt_trans less (List.getElem?_eq_some_iff.mp come.selected).1
      have selected := List.getElem?_eq_getElem within
      exact ⟨_, refuse_take_iff.mp ⟨before, come.refused⟩ earlier less _ selected⟩
  obtain ⟨context, activated⟩ := sound.context_eq
  rcases admission : state.pass context world with ⟨_ | _, admitted, during⟩
  · simp [Node.passes, activated, admission] at passes
  have kept := NodeState.pass_kind admission
  cases children with
  | nil =>
    -- Without children nothing was chosen before.
    have idle : previous = none := by
      cases previous with
      | none => rfl
      | some index =>
        have bound := sound.bounded index (by simp [activeChild, kind, Kind.activeChild])
        exact absurd bound (Nat.not_lt_zero index)
    refine ⟨none, ?_, fun index bound => absurd bound (Nat.not_lt_zero _), ?_⟩
    · simp only [Node.evaluate, activated, admission, kept, kind, List.isEmpty_nil, if_true, state_mk, idle]
    · simp only [Node.evaluate, activated, admission, kept, kind, List.isEmpty_nil, if_true, Option.isSome_none]
  | cons first rest =>
    refine ⟨_, ?_, elects activated admission, ?_⟩
    · simp only [Node.evaluate, activated, admission, kept, kind, List.isEmpty_cons, Bool.false_eq_true, if_false,
        state_mk]
    · simp only [Node.evaluate, activated, admission, kept, kind, List.isEmpty_cons, Bool.false_eq_true, if_false]

end Child

omit [Probe W P] in
theorem clear_unchosen {node found : Node A P} (steady : node.Steady) {position : Position}
    (reached : node.at? position = some found) {chosen : Option Nat} (kind : found.state.kind = .selector chosen)
    (world : W) : ∃ cleared, (node.clear world).1.at? position = some cleared ∧
      cleared.state.kind = .selector none := by
  have same := congrArg (fun framed => framed.at? position) (clear_frame (Hidden.of_const ()) steady world)
  unfold frame at same
  simp only [at?_map, reached, Option.map_some, Option.map_eq_some_iff] at same
  obtain ⟨cleared, there, alike⟩ := same
  -- Clearing keeps the kind of every node, and leaves each at rest.
  have rest : cleared.isRunning = false := Everywhere.at? (clear_resting steady world).atRest there
  refine ⟨cleared, there, ?_⟩
  obtain ⟨state, children⟩ := found
  obtain ⟨after, others⟩ := cleared
  simp only [map_mk, Node.mk.injEq] at alike
  have kinds := congrArg NodeState.kind alike.1
  simp only [NodeState.frame, show state.kind = .selector chosen from kind] at kinds
  simp only [isRunning, state_mk] at rest ⊢
  cases left : after.kind with
  | selector active =>
    rw [left] at rest
    rw [Option.not_isSome_iff_eq_none.mp (Bool.eq_false_iff.mp rest)]
  | action lifecycle | sequence active | inert | relay most least =>
    rw [left] at kinds
    cases kinds

/-- In the tree that an evaluation leaves, the selector at a position has the child that it elected, and if there is
one, the whole tree agrees. -/
def Decided (selector : Node A P) (before : W) (position : Position) (answer : Bool) (node : Node A P) : Prop :=
  ∃ after winner, node.at? position = some after ∧ after.state.kind = .selector winner ∧
    selector.Elects before winner ∧ (winner.isSome = true → answer = true)

section Decided
variable {selector : Node A P} {position : Position} {answer : Bool}

theorem Decided.below {state : NodeState A P} (decided : Decided selector before position answer child)
    (selected : children[index]? = some child) {whole : Bool} (agrees : answer = true → whole = true) :
    Decided selector before (index :: position) whole (mk state children) := by
  obtain ⟨after, winner, reached, kind, elects, won⟩ := decided
  exact ⟨after, winner, at?_cons_eq_some.mpr ⟨child, selected, reached⟩, kind, elects, agrees ∘ won⟩

theorem Decided.clear {node : Node A P} (decided : Decided selector before position false node) (steady : node.Steady)
    (world : W) : Decided selector before position false (node.clear world).1 := by
  -- A node that refuses has no choice that clearing could take back.
  obtain ⟨after, winner, reached, kind, elects, won⟩ := decided
  obtain rfl : winner = none := Option.not_isSome_iff_eq_none.mp fun some => Bool.false_ne_true (won some)
  obtain ⟨cleared, left, unchosen⟩ := clear_unchosen steady reached kind world
  exact ⟨cleared, none, left, unchosen, elects, won⟩

theorem Decided.switchTo {state admitted : NodeState A P} {scanned : List (Node A P)} {between after : W}
    {previous winner : Option Nat} (decided : Decided selector before position (child.evaluate between).1
      (child.evaluate between).2.1) (sound : (mk state children).Sound) (kind : state.kind = .selector previous)
    (scan : Scans children world winner scanned after) (come : ComesTo children world index child between)
    (steady : child.Steady) : Decided selector before (index :: position) winner.isSome
      (mk admitted (Node.switchTo winner previous scanned after).1) := by
  have still := (keeps_evaluate steady between).steady
  have found := scan.getElem?_of_comesTo come
  have wins (agrees : (child.evaluate between).1 = true) : winner = some index :=
    scan.eq_some_iff.mpr ⟨child, between, come, agrees⟩
  have agreed (agrees : (child.evaluate between).1 = true) : winner.isSome = true := by rw [wins agrees]; rfl
  rcases scan.switchTo_eq sound kind with ⟨_, same⟩ | ⟨last, other, was, changed, cleared, same⟩ <;> rw [same]
  · exact decided.below found agreed
  by_cases here : last = index
  · -- The child was the choice before and is not any more, so it refuses.
    subst here
    cases cleared.symm.trans found
    have refuses : (child.evaluate between).1 = false :=
      Bool.eq_false_iff.mpr fun agrees => changed ((wins agrees).trans was.symm)
    rw [refuses] at decided
    exact (decided.clear still after).below (getElem?_set_of_selected found) nofun
  · exact decided.below ((List.getElem?_set_ne here).trans found) agreed

end Decided

/-- A selector that is asked and passes ends with its first child that agrees. If there is one, then the whole tree
agrees. -/
theorem evaluate_decided {node found : Node A P} (steady : node.Steady) {position : Position}
    (reached : node.at? position = some found) {world before : W} (asks : node.asks? position world = some before)
    {previous : Option Nat} (kind : found.state.kind = .selector previous) (passes : found.passes before = true) :
    Decided found before position (node.evaluate world).1 (node.evaluate world).2.1 := by
  induction position generalizing node world with
  | nil =>
    cases reached
    rw [asks?_nil] at asks
    cases asks
    cases found with
    | mk state children =>
      obtain ⟨winner, chosen, elects, agrees⟩ := evaluate_elects (steady_mk.mp steady).1 kind passes
      exact ⟨_, winner, rfl, chosen, elects, agrees.trans⟩
  | cons index rest ih =>
    obtain ⟨child, selected, onward⟩ := at?_cons_eq_some.mp reached
    cases node with
    | mk state children =>
      have selected : children[index]? = some child := selected
      obtain ⟨sound, below⟩ := steady_mk.mp steady
      have held := below child (List.mem_of_getElem? selected)
      -- The child of a sequence that is asked is the one at which the sequence is.
      have descends {context : ContextId} {admitted : NodeState A P} {during : W} {active : Option Nat}
          (activated : state.context = some context) (admission : state.pass context world = (true, admitted, during))
          (kind : state.kind = .sequence active) : active.getD 0 = index ∧ child.asks? rest during = some before := by
        rw [asks?_sequence activated admission kind, selected, Option.bind_some] at asks
        split at asks
        · next same => exact ⟨same, asks⟩
        · cases asks
      have step := evaluates sound world
      generalize Node.evaluate (.mk state children) world = result at step ⊢
      cases step with
      | refused activated admission =>
        rw [asks?_refused activated admission] at asks
        cases asks
      | action _ _ _ leaf | emptySequence _ _ _ leaf | emptySelector _ _ _ leaf =>
        subst leaf
        cases selected
      | probe activated admission sort split evaluated =>
        obtain ⟨rfl, down⟩ := descends activated admission sort
        subst split
        cases selected
        have decided := ih held onward down
        rw [evaluated] at decided
        exact decided.below rfl id
      | continued activated admission sort found evaluated =>
        obtain ⟨rfl, down⟩ := descends activated admission sort
        cases selected.symm.trans found
        have decided := ih held onward down
        rw [evaluated] at decided
        exact decided.below (getElem?_set_of_selected found) id
      | @abandoned context admitted during after active other asked activated admission sort found evaluated =>
        obtain ⟨rfl, down⟩ := descends activated admission sort
        cases selected.symm.trans found
        have decided := ih held onward down
        have still := (keeps_evaluate held during).steady
        rw [evaluated] at decided still
        exact (decided.clear still after).below (getElem?_set_of_selected found) id
      | @selector context admitted during after previous winner scanned activated admission sort scan =>
        obtain ⟨other, between, come, down⟩ := (asks?_selector_iff activated admission sort index rest before).mp asks
        cases selected.symm.trans come.selected
        exact (ih held onward down).switchTo sound sort scan come held

end Node

end BehaviorTree
