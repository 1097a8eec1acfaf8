import BehaviorTree.Proofs.RunState
import BehaviorTree.Tree

/-! What one call does to a sound node, case by case. Each relation lists the outcomes of a call by
the node's kind and names the calls of children that it makes; later proofs follow these cases and
do not open the operations again. -/

set_option autoImplicit false

namespace BehaviorTree

variable {W A P : Type} [Host W]

namespace NodeState

variable [Probe W P]

theorem pass_eq {state admitted : NodeState A P} {context : ContextId} {world during : W} {answer : Bool}
    (admission : state.pass context world = (answer, admitted, during)) :
    admitted = { state with gate := admitted.gate, lastPass := admitted.lastPass } := by
  simp only [pass] at admission
  split at admission
  · simp only [passGate] at admission
    split at admission
    · cases admission; rfl
    · cases admission; rfl
  · cases admission; rfl

theorem pass_kind {state admitted : NodeState A P} {context : ContextId} {world during : W} {answer : Bool}
    (admission : state.pass context world = (answer, admitted, during)) : admitted.kind = state.kind := by
  rw [pass_eq admission]

theorem pass_context {state admitted : NodeState A P} {context : ContextId} {world during : W}
    {answer : Bool} (admission : state.pass context world = (answer, admitted, during)) :
    admitted.context = state.context := by
  rw [pass_eq admission]

end NodeState

namespace Node

variable [Action W A] {state : NodeState A P} {children : List (Node A P)}

/-! A node that is not activated does nothing, and complains when it is ticked. -/

section Inactive
variable {node : Node A P} (inactive : node.state.context = none) (world : W)
include inactive

theorem tick_of_inactive : node.tick world =
    (.ended, node, Host.report none node.name (.misuse .tickedBeforeActivation) world) := by
  obtain ⟨state, children⟩ := node
  unfold Node.tick
  rw [show state.context = none from inactive]
  rfl

theorem clear_of_inactive : node.clear world = (node, world) := by
  obtain ⟨state, children⟩ := node
  unfold Node.clear
  rw [show state.context = none from inactive]

theorem evaluate_of_inactive [Probe W P] : node.evaluate world = (false, node, world) := by
  obtain ⟨state, children⟩ := node
  unfold Node.evaluate
  rw [show state.context = none from inactive]

end Inactive

/-! A call of the child at a position replaces that child alone. -/

omit [Host W] [Action W A] in
theorem getElem?_set_of_selected {index : Nat} {child replacement : Node A P}
    (selected : children[index]? = some child) : (children.set index replacement)[index]? = some replacement :=
  List.getElem?_set_self (List.getElem?_eq_some_iff.mp selected).1

theorem clearAt_eq {index : Nat} {children : List (Node A P)} {child : Node A P}
    (selected : children[index]? = some child) (world : W) :
    Node.clearAt index children world = (children.set index (child.clear world).1, (child.clear world).2) := by
  induction children generalizing index world with
  | nil => cases selected
  | cons first rest ih =>
    cases index with
    | zero => cases selected; rfl
    | succ index =>
      have below : rest[index]? = some child := selected
      simp only [Node.clearAt, ih below, List.set_cons_succ]

theorem switchTo_eq {winner previous : Option Nat} {children : List (Node A P)}
    (bounded : ∀ index, previous = some index → index < children.length) (world : W) :
    ((previous = none ∨ winner = previous) ∧ Node.switchTo winner previous children world = (children, world)) ∨
    ∃ index child, previous = some index ∧ winner ≠ previous ∧ children[index]? = some child ∧
      Node.switchTo winner previous children world =
        (children.set index (child.clear world).1, (child.clear world).2) := by
  cases previous with
  | none => exact .inl ⟨.inl rfl, rfl⟩
  | some index =>
    by_cases same : winner = some index
    · exact .inl ⟨.inr same, by simp only [Node.switchTo, same, if_true]⟩
    · have selected := List.getElem?_eq_getElem (bounded index rfl)
      exact .inr ⟨index, _, rfl, same, selected, by simp only [Node.switchTo, same, if_false, clearAt_eq selected]⟩

theorem length_clearAt (index : Nat) (children : List (Node A P)) (world : W) :
    (Node.clearAt index children world).1.length = children.length := by
  induction children generalizing index world with
  | nil => rfl
  | cons first rest ih =>
    cases index with
    | zero => rfl
    | succ index => simp only [Node.clearAt, List.length_cons, ih]

theorem length_switchTo (winner previous : Option Nat) (children : List (Node A P)) (world : W) :
    (Node.switchTo winner previous children world).1.length = children.length := by
  simp only [Node.switchTo]
  split
  · split
    · rfl
    · exact length_clearAt _ _ _
  · rfl

theorem tickAt_eq {index : Nat} {children : List (Node A P)} {child : Node A P}
    (selected : children[index]? = some child) (world : W) :
    Node.tickAt index children world =
      ((child.tick world).1, children.set index (child.tick world).2.1, (child.tick world).2.2) := by
  induction children generalizing index world with
  | nil => cases selected
  | cons first rest ih =>
    cases index with
    | zero => cases selected; rfl
    | succ index =>
      have below : rest[index]? = some child := selected
      simp only [Node.tickAt, ih below, List.set_cons_succ]

inductive Clears (state : NodeState A P) (children : List (Node A P)) (world : W) : Node A P × W → Prop where
  | action {context : ContextId} {lifecycle : Lifecycle A} : state.context = some context →
      state.kind = .action lifecycle → children = [] →
      Clears state children world
        (.mk { state with kind := .action (lifecycle.clear state.name context world).1 } children,
          (lifecycle.clear state.name context world).2)
  | sequence {active : Option Nat} : state.kind = .sequence active →
      Clears state children world
        (.mk { state with kind := .sequence none } (Node.clearAll children world).1,
          (Node.clearAll children world).2)
  | idle : state.kind = .selector none → Clears state children world (.mk state children, world)
  | selector {index : Nat} {child : Node A P} : state.kind = .selector (some index) →
      children[index]? = some child →
      Clears state children world
        (.mk { state with kind := .selector none } (children.set index (child.clear world).1),
          (child.clear world).2)

theorem clears (sound : (Node.mk state children).Sound) (world : W) :
    Clears state children world (Node.clear (.mk state children) world) := by
  obtain ⟨name, kind, gate, cooldown, lastPass, held⟩ := state
  obtain ⟨context, rfl⟩ := sound.context_eq
  have core := sound.core
  cases kind with
  | action lifecycle => exact .action rfl rfl (List.isEmpty_iff.mp core)
  | sequence active => exact .sequence rfl
  | selector active =>
    cases active with
    | none => exact .idle rfl
    | some index =>
      have bound : index < children.length := sound.bounded index rfl
      have selected := List.getElem?_eq_getElem bound
      simp only [Node.clear, clearAt_eq selected]
      exact .selector rfl selected
  | inert | relay most least => cases core

/-- What ticking does. A sequence that has not started ticks its first child. -/
inductive Ticks (state : NodeState A P) (children : List (Node A P)) (world : W) :
    Progress × Node A P × W → Prop where
  | action {context : ContextId} {lifecycle : Lifecycle A} : state.context = some context →
      state.kind = .action lifecycle → children = [] →
      Ticks state children world
        ((lifecycle.tick state.name context world).1,
          .mk { state with kind := .action (lifecycle.tick state.name context world).2.1 } children,
          (lifecycle.tick state.name context world).2.2)
  | emptySequence {context : ContextId} {active : Option Nat} : state.context = some context →
      state.kind = .sequence active → children = [] →
      Ticks state children world
        (.ended, .mk state children, Host.report (some context) state.name (.misuse .emptySequence) world)
  | continued {active : Option Nat} {child ticked : Node A P} {after : W} :
      state.kind = .sequence active → children[active.getD 0]? = some child →
      child.tick world = (.running, ticked, after) →
      Ticks state children world
        (.running, .mk { state with kind := .sequence (some (active.getD 0)) }
          (children.set (active.getD 0) ticked), after)
  | advanced {active : Option Nat} {child ticked : Node A P} {after : W} :
      state.kind = .sequence active → children[active.getD 0]? = some child →
      child.tick world = (.ended, ticked, after) → active.getD 0 + 1 < children.length →
      Ticks state children world
        (.running, .mk { state with kind := .sequence (some (active.getD 0 + 1)) }
          (children.set (active.getD 0) (ticked.clear after).1), (ticked.clear after).2)
  | completed {active : Option Nat} {child ticked : Node A P} {after : W} :
      state.kind = .sequence active → children[active.getD 0]? = some child →
      child.tick world = (.ended, ticked, after) → ¬ active.getD 0 + 1 < children.length →
      Ticks state children world
        (.ended, .mk { state with kind := .sequence none }
          (children.set (active.getD 0) (ticked.clear after).1), (ticked.clear after).2)
  | emptySelector {context : ContextId} : state.context = some context → state.kind = .selector none →
      children = [] →
      Ticks state children world
        (.ended, .mk state children, Host.report (some context) state.name (.misuse .emptySelector) world)
  | unchosen : state.kind = .selector none → children ≠ [] →
      Ticks state children world (.ended, .mk state children, world)
  | chosen {index : Nat} {child ticked : Node A P} {after : W} : state.kind = .selector (some index) →
      children[index]? = some child → child.tick world = (.running, ticked, after) →
      Ticks state children world (.running, .mk state (children.set index ticked), after)
  | released {index : Nat} {child ticked : Node A P} {after : W} : state.kind = .selector (some index) →
      children[index]? = some child → child.tick world = (.ended, ticked, after) →
      Ticks state children world
        (.ended, .mk { state with kind := .selector none } (children.set index (ticked.clear after).1),
          (ticked.clear after).2)

theorem ticks (sound : (Node.mk state children).Sound) (world : W) :
    Ticks state children world (Node.tick (.mk state children) world) := by
  obtain ⟨name, kind, gate, cooldown, lastPass, held⟩ := state
  obtain ⟨context, rfl⟩ := sound.context_eq
  have core := sound.core
  cases kind with
  | action lifecycle => exact .action rfl rfl (List.isEmpty_iff.mp core)
  | sequence active =>
    by_cases empty : children = []
    · subst empty
      exact .emptySequence rfl rfl rfl
    have bound : active.getD 0 < children.length := by
      cases active with
      | none => exact List.length_pos_iff.mpr empty
      | some index => exact sound.bounded index rfl
    have selected := List.getElem?_eq_getElem bound
    have occupied : children.isEmpty = false := List.isEmpty_eq_false_iff.mpr empty
    rcases ticking : (children[active.getD 0]).tick world with ⟨_ | _, ticked, after⟩
    · simp only [Node.tick, occupied, tickAt_eq selected, ticking]
      exact .continued rfl selected ticking
    · have present : (children.set (active.getD 0) ticked)[active.getD 0]? = some ticked :=
        getElem?_set_of_selected selected
      -- The child is ticked and then cleared in the same place: one replacement in all.
      simp only [Node.tick, occupied, tickAt_eq selected, ticking, clearAt_eq present, List.set_set,
        List.length_set]
      by_cases further : active.getD 0 + 1 < children.length
      · simp only [further, if_true]
        exact .advanced rfl selected ticking further
      · simp only [further, if_false]
        exact .completed rfl selected ticking further
  | selector active =>
    cases active with
    | none =>
      by_cases empty : children = []
      · subst empty
        exact .emptySelector rfl rfl rfl
      · simp only [Node.tick, List.isEmpty_eq_false_iff.mpr empty]
        exact .unchosen rfl empty
    | some index =>
      have bound : index < children.length := sound.bounded index rfl
      have selected := List.getElem?_eq_getElem bound
      rcases ticking : (children[index]).tick world with ⟨_ | _, ticked, after⟩
      · simp only [Node.tick, tickAt_eq selected, ticking]
        exact .chosen rfl selected ticking
      · have present : (children.set index ticked)[index]? = some ticked :=
          getElem?_set_of_selected selected
        simp only [Node.tick, tickAt_eq selected, ticking, clearAt_eq present, List.set_set]
        exact .released rfl selected ticking
  | inert | relay most least => cases core

variable [Probe W P]

omit [Action W A] in
theorem Sound.admitted {admitted : NodeState A P} {context : ContextId} {world during : W} {answer : Bool}
    (sound : (Node.mk state children).Sound)
    (admission : state.pass context world = (answer, admitted, during)) : admitted.context.isSome = true :=
  NodeState.pass_context admission ▸ sound.activated

theorem evaluateAt_eq {index : Nat} {children : List (Node A P)} {child : Node A P}
    (selected : children[index]? = some child) (world : W) :
    Node.evaluateAt index children world =
      ((child.evaluate world).1, children.set index (child.evaluate world).2.1, (child.evaluate world).2.2) := by
  induction children generalizing index world with
  | nil => cases selected
  | cons first rest ih =>
    cases index with
    | zero => cases selected; rfl
    | succ index =>
      have below : rest[index]? = some child := selected
      simp only [Node.evaluateAt, ih below, List.set_cons_succ]

/-- Children are asked in order, up to the first that agrees. -/
inductive Scans : List (Node A P) → W → Option Nat → List (Node A P) → W → Prop where
  | exhausted {world : W} : Scans [] world none [] world
  | agreed {first asked : Node A P} {rest : List (Node A P)} {world after : W} :
      first.evaluate world = (true, asked, after) → Scans (first :: rest) world (some 0) (asked :: rest) after
  | refused {first asked : Node A P} {rest others : List (Node A P)} {winner : Option Nat}
      {world during after : W} :
      first.evaluate world = (false, asked, during) → Scans rest during winner others after →
      Scans (first :: rest) world (winner.map (· + 1)) (asked :: others) after

theorem scans (children : List (Node A P)) (world : W) :
    Scans children world (Node.evaluateFirst children world).1 (Node.evaluateFirst children world).2.1
      (Node.evaluateFirst children world).2.2 := by
  induction children generalizing world with
  | nil => exact .exhausted
  | cons first rest ih =>
    rcases asking : first.evaluate world with ⟨_ | _, asked, during⟩
    · simp only [Node.evaluateFirst, asking]
      exact .refused asking (ih during)
    · simp only [Node.evaluateFirst, asking]
      exact .agreed asking

theorem Scans.length_eq {children scanned : List (Node A P)} {world after : W} {winner : Option Nat}
    (scan : Scans children world winner scanned after) : scanned.length = children.length := by
  induction scan with
  | exhausted | agreed _ => rfl
  | refused _ _ ih => simp only [List.length_cons, ih]

theorem Scans.bounded {children scanned : List (Node A P)} {world after : W} {winner : Option Nat}
    (scan : Scans children world winner scanned after) {index : Nat} (chosen : winner = some index) :
    index < children.length := by
  induction scan generalizing index with
  | exhausted => cases chosen
  | agreed _ => cases chosen; exact Nat.succ_pos _
  | refused _ _ ih =>
    obtain ⟨position, found, rfl⟩ := Option.map_eq_some_iff.mp chosen
    exact Nat.succ_lt_succ (ih found)

/-- After a scan a child was asked, and agreed exactly if it is the winner, or it is as it was. -/
theorem Scans.get {children scanned : List (Node A P)} {world after : W} {winner : Option Nat}
    (scan : Scans children world winner scanned after) {index : Nat} {asked : Node A P}
    (selected : scanned[index]? = some asked) :
    ∃ child, children[index]? = some child ∧
      ((∃ before later : W, child.evaluate before = (decide (winner = some index), asked, later)) ∨
        asked = child ∧ winner ≠ some index) := by
  induction scan generalizing index with
  | exhausted => cases selected
  | agreed evaluated =>
    cases index with
    | zero => cases selected; exact ⟨_, rfl, .inl ⟨_, _, evaluated⟩⟩
    | succ index => exact ⟨asked, selected, .inr ⟨rfl, by simp⟩⟩
  | @refused _ _ _ others _ _ _ _ evaluated _ ih =>
    cases index with
    | zero => cases selected; exact ⟨_, rfl, .inl ⟨_, _, by simpa using evaluated⟩⟩
    | succ index =>
      have below : others[index]? = some asked := selected
      obtain ⟨child, found, known⟩ := ih below
      exact ⟨child, found, by simpa using known⟩

theorem Scans.forall_mem {p : Node A P → Prop} {children scanned : List (Node A P)} {world after : W}
    {winner : Option Nat} (scan : Scans children world winner scanned after) (holds : ∀ child ∈ children, p child)
    (kept : ∀ child ∈ children, ∀ world : W, p (child.evaluate world).2.1) : ∀ asked ∈ scanned, p asked := by
  intro asked member
  obtain ⟨index, selected⟩ := List.mem_iff_getElem?.mp member
  obtain ⟨child, found, ⟨before, later, evaluated⟩ | ⟨rfl, _⟩⟩ := scan.get selected
  · have asks := kept child (List.mem_of_getElem? found) before
    rwa [evaluated] at asks
  · exact holds asked (List.mem_of_getElem? found)

theorem Scans.switchTo_eq {scanned : List (Node A P)} {during after : W} {previous winner : Option Nat}
    (scan : Scans children during winner scanned after) (sound : (Node.mk state children).Sound)
    (kind : state.kind = .selector previous) :
    ((previous = none ∨ winner = previous) ∧
      Node.switchTo winner previous scanned after = (scanned, after)) ∨
    ∃ index child, previous = some index ∧ winner ≠ previous ∧ scanned[index]? = some child ∧
      Node.switchTo winner previous scanned after =
        (scanned.set index (child.clear after).1, (child.clear after).2) := by
  apply Node.switchTo_eq
  rw [scan.length_eq]
  simpa [kind, activeChild, Kind.activeChild] using sound.bounded

inductive Evaluates (state : NodeState A P) (children : List (Node A P)) (world : W) :
    Bool × Node A P × W → Prop where
  | refused {context : ContextId} {admitted : NodeState A P} {after : W} : state.context = some context →
      state.pass context world = (false, admitted, after) →
      Evaluates state children world (false, .mk admitted children, after)
  | action {context : ContextId} {admitted : NodeState A P} {during : W} {lifecycle : Lifecycle A} :
      state.context = some context → state.pass context world = (true, admitted, during) →
      state.kind = .action lifecycle → children = [] →
      Evaluates state children world
        ((lifecycle.check context during).1,
          .mk { admitted with kind := .action (lifecycle.check context during).2.1 } children,
          (lifecycle.check context during).2.2)
  | emptySequence {context : ContextId} {admitted : NodeState A P} {during : W} :
      state.context = some context → state.pass context world = (true, admitted, during) →
      state.kind = .sequence none → children = [] →
      Evaluates state children world
        (false, .mk admitted children,
          Host.report (some context) admitted.name (.misuse .emptySequence) during)
  | probe {context : ContextId} {admitted : NodeState A P} {during after : W} {answer : Bool}
      {first asked : Node A P} {rest : List (Node A P)} :
      state.context = some context → state.pass context world = (true, admitted, during) →
      state.kind = .sequence none → children = first :: rest →
      first.evaluate during = (answer, asked, after) →
      Evaluates state children world (answer, .mk admitted (asked :: rest), after)
  | continued {context : ContextId} {admitted : NodeState A P} {during after : W} {index : Nat}
      {child asked : Node A P} :
      state.context = some context → state.pass context world = (true, admitted, during) →
      state.kind = .sequence (some index) → children[index]? = some child →
      child.evaluate during = (true, asked, after) →
      Evaluates state children world (true, .mk admitted (children.set index asked), after)
  | abandoned {context : ContextId} {admitted : NodeState A P} {during after : W} {index : Nat}
      {child asked : Node A P} :
      state.context = some context → state.pass context world = (true, admitted, during) →
      state.kind = .sequence (some index) → children[index]? = some child →
      child.evaluate during = (false, asked, after) →
      Evaluates state children world
        (false, .mk { admitted with kind := .sequence none } (children.set index (asked.clear after).1),
          (asked.clear after).2)
  | emptySelector {context : ContextId} {admitted : NodeState A P} {during : W} {previous : Option Nat} :
      state.context = some context → state.pass context world = (true, admitted, during) →
      state.kind = .selector previous → children = [] →
      Evaluates state children world
        (false, .mk admitted children,
          Host.report (some context) admitted.name (.misuse .emptySelector) during)
  | selector {context : ContextId} {admitted : NodeState A P} {during after : W}
      {previous winner : Option Nat} {scanned : List (Node A P)} :
      state.context = some context → state.pass context world = (true, admitted, during) →
      state.kind = .selector previous → Scans children during winner scanned after →
      Evaluates state children world
        (winner.isSome,
          .mk { admitted with kind := .selector winner } (Node.switchTo winner previous scanned after).1,
          (Node.switchTo winner previous scanned after).2)

theorem evaluates (sound : (Node.mk state children).Sound) (world : W) :
    Evaluates state children world (Node.evaluate (.mk state children) world) := by
  obtain ⟨context, activated⟩ := sound.context_eq
  have core := sound.core
  rcases admission : state.pass context world with ⟨_ | _, admitted, during⟩
  · simp only [Node.evaluate, activated, admission]
    exact .refused activated admission
  simp only [Node.evaluate, activated, admission, NodeState.pass_kind admission]
  cases kind : state.kind with
  | action lifecycle =>
    simp only [isCore, kind, List.isEmpty_iff] at core
    exact .action activated admission kind core
  | sequence active =>
    cases active with
    | none =>
      cases children with
      | nil => exact .emptySequence activated admission kind rfl
      | cons first rest => exact .probe activated admission kind rfl rfl
    | some index =>
      have bound : index < children.length := sound.bounded index (by simp [activeChild, kind, Kind.activeChild])
      have selected := List.getElem?_eq_getElem bound
      rcases asking : (children[index]).evaluate during with ⟨_ | _, asked, after⟩
      · have present : (children.set index asked)[index]? = some asked :=
          getElem?_set_of_selected selected
        simp only [evaluateAt_eq selected, asking, clearAt_eq present, List.set_set]
        exact .abandoned activated admission kind selected asking
      · simp only [evaluateAt_eq selected, asking]
        exact .continued activated admission kind selected asking
  | selector previous =>
    cases children with
    | nil => exact .emptySelector activated admission kind rfl
    | cons first rest => exact .selector activated admission kind (scans _ _)
  | inert | relay most least => simp [isCore, kind] at core

end Node

namespace Tree

variable [Action W A] [Probe W P]

inductive Steps (tree : Tree A P) (world : W) : Option Progress × Tree A P × W → Prop where
  | refused {root : Node A P} {during : W} : tree.root.evaluate world = (false, root, during) →
      Steps tree world (none, ⟨(root.clear during).1, tree.context⟩, (root.clear during).2)
  | agreed {root : Node A P} {during : W} : tree.root.evaluate world = (true, root, during) →
      Steps tree world
        (some (root.tick during).1, ⟨(root.tick during).2.1, tree.context⟩, (root.tick during).2.2)

theorem steps (tree : Tree A P) (world : W) : Steps tree world (tree.step world) := by
  rcases evaluated : tree.root.evaluate world with ⟨_ | _, root, during⟩
  · simp only [step, evaluated]
    exact .refused evaluated
  · simp only [step, evaluated]
    exact .agreed evaluated

end Tree

end BehaviorTree
