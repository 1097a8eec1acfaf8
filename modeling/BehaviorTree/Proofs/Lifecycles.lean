import BehaviorTree.Proofs.Trace

/-! Lifecycles of actions over a run. Whatever is called in whatever order, actions run one at a time: an
action is entered when none runs, and exited before another one is entered. A step does one of a few
things with the action that runs before it and the one that it finds eligible. -/

set_option autoImplicit false

namespace BehaviorTree

/-- The hooks of a step, by the action that runs before it, its result, and the action that runs after
it. An action that exits because another one takes its place is not entered again. -/
inductive StepHooks : Option Position → Option Progress → List (Entry Position) → Option Position → Prop where
  | idle : StepHooks none none [] none
  | dropped (action : Position) : StepHooks (some action) none [.action .exit action] none
  | continued (action : Position) (progress : Progress) :
      StepHooks (some action) (some progress) [.action .execute action] (some action)
  | ended (action : Position) (progress : Progress) :
      StepHooks (some action) (some progress) [.action .execute action, .action .exit action] none
  | started (action : Position) (progress : Progress) :
      StepHooks none (some progress) [.action .enter action, .action .execute action] (some action)
  | startedAndEnded (action : Position) (progress : Progress) :
      StepHooks none (some progress)
        [.action .enter action, .action .execute action, .action .exit action] none
  | switched (last action : Position) (progress : Progress) : action ≠ last →
      StepHooks (some last) (some progress)
        [.action .exit last, .action .enter action, .action .execute action] (some action)
  | switchedAndEnded (last action : Position) (progress : Progress) : action ≠ last →
      StepHooks (some last) (some progress)
        [.action .exit last, .action .enter action, .action .execute action, .action .exit action] none

/-- Hooks of one action at a time, by the action that runs before them and the one that runs after. -/
inductive OneAtATime : Option Position → List (Entry Position) → Option Position → Prop where
  | done (running : Option Position) : OneAtATime running [] running
  | enter {action : Position} {rest : List (Entry Position)} {last : Option Position} :
      OneAtATime (some action) rest last → OneAtATime none (.action .enter action :: rest) last
  | execute {action : Position} {rest : List (Entry Position)} {last : Option Position} :
      OneAtATime (some action) rest last → OneAtATime (some action) (.action .execute action :: rest) last
  | exit {action : Position} {rest : List (Entry Position)} {last : Option Position} :
      OneAtATime none rest last → OneAtATime (some action) (.action .exit action :: rest) last

theorem StepHooks.oneAtATime {previous next : Option Position} {result : Option Progress}
    {hooks : List (Entry Position)} (pattern : StepHooks previous result hooks next) :
    OneAtATime previous hooks next := by
  cases pattern with
  | idle => exact .done none
  | dropped action => exact .exit (.done none)
  | continued action progress => exact .execute (.done _)
  | ended action progress => exact .execute (.exit (.done none))
  | started action progress => exact .enter (.execute (.done _))
  | startedAndEnded action progress => exact .enter (.execute (.exit (.done none)))
  | switched last action progress _ => exact .exit (.enter (.execute (.done _)))
  | switchedAndEnded last action progress _ => exact .exit (.enter (.execute (.exit (.done none))))

theorem OneAtATime.append {first second third : Option Position} {hooks more : List (Entry Position)}
    (before : OneAtATime first hooks second) (after : OneAtATime second more third) :
    OneAtATime first (hooks ++ more) third := by
  induction before with
  | done running => exact after
  | enter _ ih => exact .enter (ih after)
  | execute _ ih => exact .execute (ih after)
  | exit _ ih => exact .exit (ih after)

theorem exits_here (positions : List Position) :
    exits (positions.map Spot.here) = positions.map fun position => .action .exit position := by
  rw [exits, List.map_map]
  rfl

theorem toList_inj {first second : Option Position} (same : first.toList = second.toList) : first = second := by
  cases first <;> cases second <;> simp_all

theorem exists_toList {positions : List Position} (single : positions.length ≤ 1) :
    ∃ running : Option Position, positions = running.toList := by
  match positions, single with
  | [], _ => exact ⟨none, rfl⟩
  | [position], _ => exact ⟨some position, rfl⟩

theorem eq_of_toList_eq_append_singleton {positions : List Position} {position : Position}
    {running : Option Position} (split : running.toList = positions ++ [position]) :
    running = some position ∧ positions = [] := by
  cases running with
  | none => exact absurd split (by simp)
  | some action =>
    cases positions with
    | nil => exact ⟨congrArg some (List.cons.inj split).1, rfl⟩
    | cons first rest => simp at split

theorem oneAtATime_exits {exited kept : List Position} {running : Option Position}
    (split : running.toList = exited ++ kept) :
    ∃ still : Option Position, kept = still.toList ∧
      OneAtATime running (exited.map fun position => .action .exit position) still := by
  cases exited with
  | nil => exact ⟨running, split.symm, .done running⟩
  | cons first rest =>
    cases running with
    | none => cases split
    | some action =>
      obtain ⟨rfl, empty⟩ := List.cons.inj split
      obtain ⟨rfl, rfl⟩ := List.append_eq_nil_iff.mp empty.symm
      exact ⟨none, rfl, .exit (.done none)⟩

theorem Executes.oneAtATime {route : Option (Spot Position)} {before after : List Position}
    {hooks : List (Entry Position)}
    (executes : Executes route (before.map Spot.here) hooks (after.map Spot.here)) :
    ∃ previous next : Option Position, before = previous.toList ∧ after = next.toList ∧
      OneAtATime previous hooks next := by
  generalize first : before.map Spot.here = spots, second : after.map Spot.here = others at executes
  cases executes with
  | nothing =>
    exact ⟨none, none, List.map_eq_nil_iff.mp first, List.map_eq_nil_iff.mp second, .done none⟩
  | started spot =>
    obtain ⟨action, rfl, rfl⟩ := List.map_eq_singleton_iff.mp second
    exact ⟨none, some action, List.map_eq_nil_iff.mp first, rfl, .enter (.execute (.done _))⟩
  | startedAndEnded spot =>
    exact ⟨none, none, List.map_eq_nil_iff.mp first, List.map_eq_nil_iff.mp second,
      .enter (.execute (.exit (.done _)))⟩
  | continued spot =>
    obtain ⟨action, rfl, rfl⟩ := List.map_eq_singleton_iff.mp first
    obtain rfl := Spot.map_here_inj.mp (second.trans first.symm)
    exact ⟨some action, some action, rfl, rfl, .execute (.done _)⟩
  | ended spot =>
    obtain ⟨action, rfl, rfl⟩ := List.map_eq_singleton_iff.mp first
    exact ⟨some action, none, rfl, List.map_eq_nil_iff.mp second, .execute (.exit (.done _))⟩

theorem Executes.stepHooks {position : Position} {exited kept after : List Position}
    {hooks : List (Entry Position)} {previous : Option Position} (progress : Progress)
    (executes : Executes (some (Spot.here position)) (kept.map Spot.here) hooks (after.map Spot.here))
    (split : previous.toList = exited ++ kept) (fresh : position ∉ exited) :
    ∃ next : Option Position, after = next.toList ∧
      StepHooks previous (some progress) ((exited.map fun action => .action .exit action) ++ hooks) next := by
  have alone : [Spot.here position] = [position].map Spot.here := rfl
  generalize first : kept.map Spot.here = spots, second : after.map Spot.here = others,
    route : Spot.here position = spot at executes
  -- An action that the tick starts was not running before it, so whatever ran has exited.
  cases executes with
  | started =>
    subst route
    obtain rfl := List.map_eq_nil_iff.mp first
    obtain rfl := Spot.map_here_inj.mp (second.trans alone)
    rw [List.append_nil] at split
    subst split
    cases previous with
    | none => exact ⟨some position, rfl, .started position progress⟩
    | some last => exact ⟨some position, rfl, .switched last position progress (by simpa using fresh)⟩
  | startedAndEnded =>
    subst route
    obtain rfl := List.map_eq_nil_iff.mp first
    obtain rfl := List.map_eq_nil_iff.mp second
    rw [List.append_nil] at split
    subst split
    cases previous with
    | none => exact ⟨none, rfl, .startedAndEnded position progress⟩
    | some last => exact ⟨none, rfl, .switchedAndEnded last position progress (by simpa using fresh)⟩
  | continued =>
    subst route
    obtain rfl := Spot.map_here_inj.mp (first.trans alone)
    obtain rfl := Spot.map_here_inj.mp (second.trans alone)
    obtain ⟨rfl, rfl⟩ := eq_of_toList_eq_append_singleton split
    exact ⟨some position, rfl, .continued position progress⟩
  | ended =>
    subst route
    obtain rfl := Spot.map_here_inj.mp (first.trans alone)
    obtain rfl := List.map_eq_nil_iff.mp second
    obtain ⟨rfl, rfl⟩ := eq_of_toList_eq_append_singleton split
    exact ⟨none, rfl, .ended position progress⟩

theorem Executes.filter {route : Option (Spot Position)} {before after : List (Spot Position)}
    {hooks : List (Entry Position)} (executes : Executes route before hooks after) :
    hooks.filter Entry.isLifecycle = hooks := by
  cases executes <;> rfl

variable {W A P : Type} [Host W] [Action W A] [Probe W P]

namespace Node

variable {node : Node (Tagged Position A) (Tagged Position P)}

omit [Probe W P] in
theorem clear_lifecycle (steady : node.Steady) (labelled : node.Labelled) (journal : Journal Position W) :
    (node.clear journal).2.lifecycle =
      journal.lifecycle ++ node.runningAt.map (fun position => .action .exit position) := by
  have asked := clear_asked steady journal
  rw [labelled.running_eq] at asked
  rw [Journal.lifecycle_of_asked asked, exits_here]

omit [Probe W P] in
theorem tick_lifecycle (steady : node.Steady) (labelled : node.Labelled) (journal : Journal Position W) :
    ∃ hooks, (node.tick journal).2.2.lifecycle = journal.lifecycle ++ hooks ∧
      Executes (node.route? Tagged.label) (node.runningAt.map Spot.here) hooks
        ((node.tick journal).2.1.runningAt.map Spot.here) := by
  obtain ⟨hooks, asked, executes⟩ := tick_executes steady journal
  have still := labelled.congr (tick_shape Journal.hidden steady journal)
  rw [labelled.running_eq, still.running_eq] at executes
  refine ⟨hooks, ?_, executes⟩
  rw [Journal.lifecycle_eq, asked, List.filter_append, executes.filter, ← Journal.lifecycle_eq]

theorem evaluate_lifecycle (steady : node.Steady) (labelled : node.Labelled) (journal : Journal Position W) :
    ∃ exited, (node.evaluate journal).2.2.lifecycle =
        journal.lifecycle ++ exited.map (fun position => .action .exit position) ∧
      node.runningAt = exited ++ (node.evaluate journal).2.1.runningAt ∧
      ((node.evaluate journal).1 = true → ∃ position,
        (node.evaluate journal).2.1.route? Tagged.label = some (Spot.here position) ∧ position ∉ exited) := by
  obtain ⟨spots, written, yields⟩ := evaluate_yields steady journal
  have still := labelled.congr (evaluate_shape Journal.hidden steady journal)
  have split := yields.running
  rw [labelled.running_eq, still.running_eq] at split
  obtain ⟨exited, kept, before, rfl, after⟩ := List.map_eq_append_iff.mp split
  have same : kept = (node.evaluate journal).2.1.runningAt := by
    have positions := congrArg (List.map Prod.fst) after
    rwa [List.map_map, List.map_map, show Prod.fst ∘ Spot.here = id from rfl, List.map_id, List.map_id] at positions
  refine ⟨exited, by rw [written, exits_here], same ▸ before, fun eligible => ?_⟩
  obtain ⟨spot, leads, different⟩ := yields.leads eligible
  have labelledSpot := still.of_route? leads
  refine ⟨spot.1, labelledSpot ▸ leads, fun member => ?_⟩
  exact different (Spot.here spot.1) (List.mem_map_of_mem member) rfl

end Node

namespace Tree

variable (tree : Tree (Tagged Position A) (Tagged Position P))

theorem step_lifecycle (steady : tree.root.Steady) (labelled : tree.root.Labelled)
    (journal : Journal Position W) : ∃ (previous next : Option Position) (hooks : List (Entry Position)),
      tree.root.runningAt = previous.toList ∧ (tree.step journal).2.1.root.runningAt = next.toList ∧
      (tree.step journal).2.2.lifecycle = journal.lifecycle ++ hooks ∧
      StepHooks previous (tree.step journal).1 hooks next := by
  obtain ⟨exited, written, split, leads⟩ := Node.evaluate_lifecycle steady labelled journal
  have kept := (Node.keeps_evaluate steady journal).steady
  have still := labelled.congr (Node.evaluate_shape Journal.hidden steady journal)
  obtain ⟨previous, before⟩ := exists_toList steady.length_runningAt
  have step := tree.steps journal
  generalize tree.step journal = result at step ⊢
  cases step with
  | @refused root during evaluated =>
    rw [evaluated] at written split kept still
    have cleared := Node.clear_lifecycle kept still during
    -- What the evaluation did not make exit exits now: one action in all.
    refine ⟨previous, none, tree.root.runningAt.map fun position => .action .exit position, before,
      Node.runningAt_of_atRest (Node.clear_resting kept during).atRest, ?_, ?_⟩
    · rw [cleared, written, split, List.map_append, List.append_assoc]
    · rw [before]
      cases previous with
      | none => exact .idle
      | some action => exact .dropped action
  | @agreed root during evaluated =>
    rw [evaluated] at written split leads kept still
    obtain ⟨position, route, fresh⟩ := leads rfl
    obtain ⟨hooks, ticked, executes⟩ := Node.tick_lifecycle kept still during
    rw [route] at executes
    obtain ⟨next, after, pattern⟩ := executes.stepHooks (root.tick during).1 (before.symm.trans split) fresh
    exact ⟨previous, next, _, before, after, by rw [ticked, written, List.append_assoc], pattern⟩

theorem call_lifecycle (steady : tree.root.Steady) (labelled : tree.root.Labelled)
    (journal : Journal Position W) (next : Call W) :
    ∃ (previous last : Option Position) (hooks : List (Entry Position)),
      tree.root.runningAt = previous.toList ∧ (tree.call journal next.watched).1.root.runningAt = last.toList ∧
      (tree.call journal next.watched).2.lifecycle = journal.lifecycle ++ hooks ∧
      OneAtATime previous hooks last := by
  obtain ⟨previous, before⟩ := exists_toList steady.length_runningAt
  cases next with
  | evaluate =>
    obtain ⟨exited, written, split, _⟩ := Node.evaluate_lifecycle steady labelled journal
    obtain ⟨last, after, exits⟩ := oneAtATime_exits (before.symm.trans split)
    exact ⟨previous, last, _, before, after, written, exits⟩
  | tick =>
    obtain ⟨hooks, written, executes⟩ := Node.tick_lifecycle steady labelled journal
    obtain ⟨previous, last, before, after, ordered⟩ := executes.oneAtATime
    exact ⟨previous, last, hooks, before, after, written, ordered⟩
  | clear =>
    have written := Node.clear_lifecycle steady labelled journal
    have after := Node.runningAt_of_atRest (Node.clear_resting steady journal).atRest
    obtain ⟨last, none, exits⟩ := oneAtATime_exits (before.symm.trans (List.append_nil _).symm)
    exact ⟨previous, last, _, before, after.trans none, written, exits⟩
  | step =>
    obtain ⟨previous, last, hooks, before, after, written, pattern⟩ := step_lifecycle tree steady labelled journal
    exact ⟨previous, last, hooks, before, after, written, pattern.oneAtATime⟩
  | change outside => exact ⟨previous, previous, [], before, before, (List.append_nil _).symm, .done previous⟩

/-! The same of a tree that nobody watches. -/

section Unwatched
variable {tree : Tree A P}

theorem trace_oneAtATime (steady : tree.root.Steady) (world : W) (next : Call W) :
    ∃ previous last : Option Position, tree.root.runningAt = previous.toList ∧
      (tree.call world next).1.root.runningAt = last.toList ∧
      OneAtATime previous ((tree.trace world next).filter Entry.isLifecycle) last := by
  obtain ⟨previous, last, hooks, before, after, written, ordered⟩ :=
    call_lifecycle tree.placed (Node.steady_placed.mpr steady) tree.root.labelled_placed (Journal.of world) next
  refine ⟨previous, last, (Node.runningAt_placed _).symm.trans before, ?_, ?_⟩
  · rw [call_placed tree world next, ← after]
    exact Node.runningAt_exchange _
  · rw [show (tree.trace world next).filter Entry.isLifecycle = hooks from written]
    exact ordered

theorem history_oneAtATime (steady : tree.root.Steady) (world : W) (calls : List (Call W)) :
    ∃ previous last : Option Position, tree.root.runningAt = previous.toList ∧
      (tree.run world calls).1.root.runningAt = last.toList ∧
      OneAtATime previous ((tree.history world calls).filter Entry.isLifecycle) last := by
  induction calls generalizing tree world with
  | nil =>
    obtain ⟨running, known⟩ := exists_toList steady.length_runningAt
    exact ⟨running, running, known, known, .done running⟩
  | cons next rest ih =>
    obtain ⟨previous, between, before, middle, first⟩ := trace_oneAtATime steady world next
    obtain ⟨same, last, also, after, further⟩ := ih (call_steady steady world next) (tree.call world next).2
    -- What runs after one call is what runs before the next.
    obtain rfl : between = same := toList_inj (middle.symm.trans also)
    refine ⟨previous, last, before, after, ?_⟩
    rw [history, List.filter_append]
    exact first.append further

theorem step_hooks (steady : tree.root.Steady) (world : W) : ∃ previous next : Option Position,
    tree.root.runningAt = previous.toList ∧ (tree.step world).2.1.root.runningAt = next.toList ∧
      StepHooks previous (tree.step world).1 ((tree.trace world .step).filter Entry.isLifecycle) next := by
  obtain ⟨previous, next, hooks, before, after, written, pattern⟩ :=
    step_lifecycle tree.placed (Node.steady_placed.mpr steady) tree.root.labelled_placed (Journal.of world)
  refine ⟨previous, next, (Node.runningAt_placed _).symm.trans before, ?_, ?_⟩
  · rw [step_placed tree world, ← after]
    exact Node.runningAt_exchange _
  · rw [step_placed tree world, show (tree.trace world .step).filter Entry.isLifecycle = hooks from written]
    exact pattern

end Unwatched

/-- In every run of a started tree actions run one at a time, and each step after it does to the action
that runs, if any, and to the one that it finds eligible what `StepHooks` lists. -/
theorem play_conduct {root : Node A P} (built : root.Built) {context : ContextId} {before world : W}
    {calls : List (Call W)} {tree : Tree A P} (reached : play root context before calls = (tree, world)) :
    (∃ running : Option Position, tree.root.runningAt = running.toList ∧
      OneAtATime none
        (((start root context before).1.history (start root context before).2 calls).filter Entry.isLifecycle)
        running) ∧
    ∃ previous next : Option Position, tree.root.runningAt = previous.toList ∧
      (tree.step world).2.1.root.runningAt = next.toList ∧
      StepHooks previous (tree.step world).1 ((tree.trace world .step).filter Entry.isLifecycle) next := by
  refine ⟨?_, step_hooks (play_steady built reached) world⟩
  have fresh := start_resting built context before
  obtain ⟨previous, running, first, last, ordered⟩ :=
    history_oneAtATime fresh.steady (start root context before).2 calls
  obtain rfl : previous = none :=
    toList_inj (first.symm.trans (Node.runningAt_of_atRest fresh.atRest))
  rw [show (start root context before).1.run (start root context before).2 calls = (tree, world) from reached] at last
  exact ⟨running, last, ordered⟩

/-- The patrol exits before the guard is entered. -/
theorem alarmed_conduct : ∃ next : Option Position,
    (alarmed.1.step alarmed.2).2.1.root.runningAt = next.toList ∧
      StepHooks (some [1, 0]) (some .running)
        [.action .exit [1, 0], .action .enter [0], .action .execute [0]] next := by
  obtain ⟨_, previous, next, before, after, pattern⟩ :=
    play_conduct patrol_built (show play patrol 0 World.post alarm = (alarmed.1, alarmed.2) from rfl)
  have running : alarmed.1.root.runningAt = [[1, 0]] := by decide +kernel
  have result : (alarmed.1.step alarmed.2).1 = some .running := by decide +kernel
  have hooks : (alarmed.1.trace alarmed.2 .step).filter Entry.isLifecycle =
      [.action .exit [1, 0], .action .enter [0], .action .execute [0]] := by rfl
  obtain rfl : previous = some [1, 0] := toList_inj (before.symm.trans running)
  rw [result, hooks] at pattern
  exact ⟨next, after, pattern⟩

end Tree

end BehaviorTree
