import BehaviorTree.Proofs.Coherence
import BehaviorTree.Proofs.Survey

/-! What one call touches. An evaluation comes to a node at most once, and exactly if it comes to the parent, the parent
passes and has got as far as this child. It reads the node's clock then, asks its gate, and sets the time of the last
pass; no other node is inquired about or changed in that time. Ticks and clears inquire about no node. -/

set_option autoImplicit false

namespace BehaviorTree

variable {W A P : Type} [Host W] [Action W A] [Probe W P]

omit [Host W] [Action W A] [Probe W P] in
def Call.surveyed {context : ContextId} : Call W → Call (Survey context W)
  | .evaluate => .evaluate
  | .tick => .tick
  | .clear => .clear
  | .step => .step
  | .change outside => .change fun survey => ⟨outside survey.world, survey.record⟩

namespace Tree

variable {tree : Tree A P} {world : W}

def numbered (tree : Tree A P) : Tree A (Gate P) := ⟨tree.root.numberedAt [], tree.context⟩

def survey (tree : Tree A P) (world : W) (next : Call W) : List (Inquiry W) :=
  (tree.numbered.call (⟨world, []⟩ : Survey tree.context W) next.surveyed).2.record

def Surveyed (tree : Tree A P) (world : W) (next : Call W) : Prop :=
  tree.numbered.call (⟨world, []⟩ : Survey tree.context W) next.surveyed =
    ((tree.call world next).1.numbered, ⟨(tree.call world next).2, tree.survey world next⟩)

/-- An evaluation comes to the node at a position, in this environment: that is where it reads the node's clock. -/
def ComesTo (tree : Tree A P) (world : W) (position : Position) (during : W) : Prop :=
  ⟨position.number, .clock, during⟩ ∈ tree.survey world .evaluate

/-- The answer that the node at a position gives when an evaluation comes to it. -/
def Answers (tree : Tree A P) (world : W) (position : Position) (answer : Bool) : Prop :=
  ∃ found during, tree.root.at? position = some found ∧ tree.ComesTo world position during ∧
    (found.evaluate during).1 = answer

/-- The first of so many children of the node at a position that agrees, or none of them. -/
def Elects (tree : Tree A P) (world : W) (position : Position) (count : Nat) : Option Nat → Prop
  | some index => tree.Answers world (position ++ [index]) true ∧
      ∀ earlier < index, tree.Answers world (position ++ [earlier]) false
  | none => ∀ index < count, tree.Answers world (position ++ [index]) false

theorem evaluate_surveyed (holds : tree.root.Holds tree.context) (world : W) : tree.Surveyed world .evaluate ∧
    Records (fun path during => tree.root.asks? path world = some during) [] (tree.survey world .evaluate) := by
  obtain ⟨record, evaluated, records⟩ :=
    Node.evaluate_numbered holds [] (⟨world, []⟩ : Survey tree.context W)
  unfold Surveyed survey numbered Call.surveyed Tree.call
  simp only [evaluated]
  exact ⟨trivial, records⟩

theorem comesTo_iff (holds : tree.root.Holds tree.context) {position : Position} {during : W} :
    tree.ComesTo world position during ↔ tree.root.asks? position world = some during :=
  (evaluate_surveyed holds world).2.clock_iff position during

theorem answers_iff (holds : tree.root.Holds tree.context) {position : Position} {answer : Bool} :
    tree.Answers world position answer ↔ tree.root.Answers world position answer := by
  simp only [Answers, Node.Answers, comesTo_iff holds]

theorem answers_below_iff (holds : tree.root.Holds tree.context) {position : Position} {found : Node A P}
    (reached : tree.root.at? position = some found) {before : W} (comes : tree.ComesTo world position before)
    {path : Position} {answer : Bool} :
    tree.Answers world (position ++ path) answer ↔ found.Answers before path answer := by
  rw [answers_iff holds, Node.answers_append reached ((comesTo_iff holds).mp comes)]

theorem comesTo_child_iff (holds : tree.root.Holds tree.context) {position : Position} {parent : Node A P}
    (reached : tree.root.at? position = some parent) {index : Nat} (bound : index < parent.children.length) :
    (∃ during, tree.ComesTo world (position ++ [index]) during) ↔
      ∃ before, tree.ComesTo world position before ∧ parent.passes before = true ∧
        ((∃ active, parent.state.kind = .sequence active ∧ active.getD 0 = index) ∨
          (∃ previous, parent.state.kind = .selector previous) ∧
            ∀ earlier < index, tree.Answers world (position ++ [earlier]) false) := by
  have descends : (∃ during, tree.ComesTo world (position ++ [index]) during) ↔
      ∃ before, tree.ComesTo world position before ∧ ∃ during, parent.asks? [index] before = some during := by
    simp only [comesTo_iff holds, Node.asks?_append reached, Option.bind_eq_some_iff]
    exact exists_comm.trans (exists_congr fun before => exists_and_left)
  rw [descends]
  refine exists_congr fun before => and_congr_right fun comes => ?_
  simp only [Node.asks?_child_iff bound before, answers_below_iff holds reached comes]

theorem elects_of (holds : tree.root.Holds tree.context) {position : Position} {found : Node A P}
    (reached : tree.root.at? position = some found) {before : W} (comes : tree.ComesTo world position before)
    {winner : Option Nat} (elects : found.Elects before winner) :
    tree.Elects world position found.children.length winner := by
  cases winner with
  | none => exact fun index bound => (answers_below_iff holds reached comes).mpr (elects index bound)
  | some index =>
    refine ⟨(answers_below_iff holds reached comes).mpr elects.1, fun earlier less => ?_⟩
    exact (answers_below_iff holds reached comes).mpr (elects.2 earlier less)

theorem tick_surveyed (steady : tree.root.Steady) (holds : tree.root.Holds tree.context) (world : W) :
    tree.Surveyed world .tick ∧ tree.survey world .tick = [] := by
  have ticked := Node.tick_numbered steady holds [] (⟨world, []⟩ : Survey tree.context W)
  unfold Surveyed survey numbered Call.surveyed Tree.call
  simp only [ticked]
  exact ⟨trivial, trivial⟩

theorem clear_surveyed (holds : tree.root.Holds tree.context) (world : W) :
    tree.Surveyed world .clear ∧ tree.survey world .clear = [] := by
  have cleared := Node.clear_numbered holds [] (⟨world, []⟩ : Survey tree.context W)
  unfold Surveyed survey numbered Call.surveyed Tree.call Tree.clear
  simp only [cleared]
  exact ⟨trivial, trivial⟩

theorem exits_of_evaluate (steady : tree.root.Steady) (world : W) : ∃ exited : Option Position,
    (tree.trace world .evaluate).filter Entry.isLifecycle =
        exited.toList.map (fun position => .action .exit position) ∧
      ∀ position, exited = some position → tree.root.runningAt = [position] := by
  obtain ⟨exited, written, split, _⟩ :=
    Node.evaluate_lifecycle (Node.steady_placed.mpr steady) tree.root.labelled_placed (Journal.of world)
  rw [Node.runningAt_placed] at split
  have single := steady.length_runningAt
  rw [split, List.length_append] at single
  obtain ⟨gone, rfl⟩ := exists_toList (Nat.le_trans (Nat.le_add_right _ _) single)
  refine ⟨gone, written, fun position same => ?_⟩
  subst same
  -- There was no other action that ran.
  have alone := List.eq_nil_of_length_eq_zero (Nat.le_zero.mp (Nat.le_of_add_le_add_left single))
  rw [split, alone]
  rfl

/-- What an evaluation of the tree does, and to which of its nodes. -/
structure Evaluation (tree : Tree A P) (world : W) : Prop where
  /-- The survey is one of the evaluation that is made. -/
  surveyed : tree.Surveyed world .evaluate
  /-- No action is entered or executed, and none exits but the one that runs. -/
  exits : ∃ exited : Option Position, (tree.trace world .evaluate).filter Entry.isLifecycle =
      exited.toList.map (fun position => .action .exit position) ∧
    ∀ position, exited = some position → tree.root.runningAt = [position]
  /-- No clock is read twice, and no gate or action is asked twice. -/
  once : ((tree.survey world .evaluate).map Inquiry.topic).Nodup
  /-- A node to which the evaluation does not come is not inquired about. -/
  known : ∀ inquiry ∈ tree.survey world .evaluate, ∃ position found during, tree.root.at? position = some found ∧
    tree.ComesTo world position during ∧ inquiry.number = position.number
  root : ∀ during, tree.ComesTo world [] during ↔ during = world
  /-- To a child exactly if the parent passes and is a sequence at this child, or a selector whose children before it
  all refuse. -/
  child : ∀ position parent index, tree.root.at? position = some parent → index < parent.children.length →
    ((∃ during, tree.ComesTo world (position ++ [index]) during) ↔
      ∃ before, tree.ComesTo world position before ∧ parent.passes before = true ∧
        ((∃ active, parent.state.kind = .sequence active ∧ active.getD 0 = index) ∨
          (∃ previous, parent.state.kind = .selector previous) ∧
            ∀ earlier < index, tree.Answers world (position ++ [earlier]) false))
  /-- A selector that passes ends with the first child that agrees, or with none. -/
  elects : ∀ position found previous before, tree.root.at? position = some found →
    found.state.kind = .selector previous → tree.ComesTo world position before → found.passes before = true →
    ∃ after winner, (tree.call world .evaluate).1.root.at? position = some after ∧
      after.state.kind = .selector winner ∧ tree.Elects world position found.children.length winner
  /-- Where the evaluation does not come, the time of the last pass stays. -/
  kept : ∀ position, (∀ during, ¬ tree.ComesTo world position during) →
    (tree.call world .evaluate).1.root.timing? position = tree.root.timing? position

theorem evaluation (steady : tree.root.Steady) (holds : tree.root.Holds tree.context) (world : W) :
    tree.Evaluation world := by
  obtain ⟨surveyed, records⟩ := evaluate_surveyed holds world
  refine ⟨surveyed, exits_of_evaluate steady world, records.once, ?_, ?_, ?_, ?_, ?_⟩
  · intro inquiry member
    obtain ⟨position, during, asks, number⟩ := records.known inquiry member
    obtain ⟨found, reached⟩ := Node.exists_at?_of_asks? asks
    exact ⟨position, found, during, reached, (comesTo_iff holds).mpr asks, number⟩
  · intro during
    rw [comesTo_iff holds, Node.asks?_nil, Option.some.injEq, eq_comm]
  · intro position parent index reached bound
    exact comesTo_child_iff holds reached bound
  · intro position found previous before reached kind comes passes
    obtain ⟨after, winner, left, chosen, elects, _⟩ :=
      Node.evaluate_decided steady reached ((comesTo_iff holds).mp comes) kind passes
    exact ⟨after, winner, left, chosen, elects_of holds reached comes elects⟩
  -- A node that is not asked makes no check, and so it keeps the time of its last pass.
  · intro position absent
    have unasked : tree.root.asks? position world = none :=
      Option.eq_none_iff_forall_not_mem.mpr fun during asks => absent during ((comesTo_iff holds).mpr asks)
    have timed := Node.evaluate_timing steady position world
    simp only [unasked, Option.bind_none, Timing.after_none, Option.map_id'] at timed
    exact timed

theorem call_context (tree : Tree A P) (world : W) (next : Call W) :
    (tree.call world next).1.context = tree.context := by
  cases next with
  | evaluate | tick | clear | change outside => rfl
  | step =>
    have step := tree.steps world
    unfold Tree.call
    generalize tree.step world = result at step ⊢
    cases step <;> rfl

theorem run_holds {tree : Tree A P} (holds : tree.root.Holds tree.context) (world : W) (calls : List (Call W)) :
    (tree.run world calls).1.root.Holds (tree.run world calls).1.context := by
  induction calls generalizing tree world with
  | nil => exact holds
  | cons next rest ih =>
    have kept : (tree.call world next).1.root.Holds (tree.call world next).1.context := by
      rw [call_context]
      exact (Node.holds_congr (held_call tree world next)).mpr holds
    exact ih kept _

theorem play_holds {root : Node A P} (built : root.Built) {context : ContextId} {before world : W}
    {calls : List (Call W)} {tree : Tree A P} (reached : play root context before calls = (tree, world)) :
    tree.root.Holds tree.context := by
  have fresh : (start root context before).1.root.Holds context :=
    (Node.holds_congr (Node.held_activate root context before)).mpr (Node.adopt_holds_iff.mpr (built.adoptable context))
  have holds := run_holds fresh (start root context before).2 calls
  rw [show (start root context before).1.run (start root context before).2 calls = (tree, world) from reached] at holds
  exact holds

/-- After any run of a started tree: what an evaluation does, and that a tick and a clear inquire about no node and
change no time of a last pass. -/
theorem play_touches {root : Node A P} (built : root.Built) {context : ContextId} {before world : W}
    {calls : List (Call W)} {tree : Tree A P} (reached : play root context before calls = (tree, world)) :
    tree.Evaluation world ∧ ∀ next : Call W, next = .tick ∨ next = .clear →
      tree.Surveyed world next ∧ tree.survey world next = [] ∧
        ∀ position, (tree.call world next).1.root.timing? position = tree.root.timing? position := by
  have steady := play_steady built reached
  have holds := play_holds built reached
  refine ⟨evaluation steady holds world, ?_⟩
  rintro next (rfl | rfl)
  · obtain ⟨surveyed, quiet⟩ := tick_surveyed steady holds world
    exact ⟨surveyed, quiet, Node.tick_timing steady world⟩
  · obtain ⟨surveyed, quiet⟩ := clear_surveyed holds world
    exact ⟨surveyed, quiet, Node.clear_timing steady world⟩

/-- The alarm is seen before anybody asks about the round, and the watch elects the guard. -/
theorem alarmed_touches : (alarmed.1.survey alarmed.2 .evaluate).map Inquiry.topic =
      [(Position.number [], .clock), (Position.number [0], .clock), (Position.number [0], .gate),
        (Position.number [0], .check)] ∧
    alarmed.1.Elects alarmed.2 [] 2 (some 0) ∧ alarmed.1.survey alarmed.2 .tick = [] := by
  obtain ⟨evaluation, quiet⟩ :=
    play_touches patrol_built (show play patrol 0 World.post alarm = (alarmed.1, alarmed.2) from rfl)
  refine ⟨by decide +kernel, ?_, (quiet .tick (.inl rfl)).2.1⟩
  obtain ⟨after, winner, there, chosen, elects⟩ := evaluation.elects [] alarmed.1.root (some 1) alarmed.2 rfl rfl
    ((evaluation.root alarmed.2).mpr rfl) (by decide +kernel)
  have first : (alarmed.1.call alarmed.2 .evaluate).1.root.activeChild = some 0 := by decide +kernel
  cases there
  rw [Node.activeChild, chosen] at first
  obtain rfl : winner = some 0 := first
  exact elects

end Tree

end BehaviorTree
