import BehaviorTree.Proofs.Lifecycles

/-! Clearing a tree. After any run it leaves the whole tree at rest, as it was when it was started, and
asks for nothing but the exit of the action that ran. A step without a result clears the tree. -/

set_option autoImplicit false

namespace BehaviorTree

variable {W A P : Type} [Host W] [Action W A] [Probe W P]

omit [Probe W P] in
theorem Node.asked_clear_placed {lax : Prop} {node : Node A P} (settled : node.Settled lax) (world : W) :
    (node.placed.clear (Journal.of world)).2.asked = node.runningAt.map fun position => .action .exit position := by
  have asked := asked_clear (settled_placed.mpr settled) (Journal.of world)
  rw [node.labelled_placed.running_eq, exits_here, runningAt_placed] at asked
  exact asked

namespace Tree

variable {tree : Tree A P}

theorem clear_trace (steady : tree.root.Steady) (world : W) :
    ((tree.trace world .clear).filter fun entry => !entry.isReport) =
      tree.root.runningAt.map (fun position => .action .exit position) :=
  Node.asked_clear_placed (Node.settled_false.mpr steady) world

theorem trace_of_resting (resting : tree.root.Resting) (world : W) : tree.trace world .clear = [] := by
  have placed : tree.root.placed.Resting :=
    ⟨Node.steady_placed.mpr resting.steady, Node.atRest_placed.mpr resting.atRest⟩
  have still := congrArg (fun result => Journal.entries (Prod.snd result))
    (Node.clear_eq_self placed (Journal.of world))
  exact still

omit [Probe W P] in
theorem clear_of_resting (resting : tree.root.Resting) (world : W) : tree.clear world = (tree, world) := by
  rw [clear, Node.clear_eq_self resting]

theorem resting_of_step_none (steady : tree.root.Steady) {world : W} (refused : (tree.step world).1 = none) :
    (tree.step world).2.1.root.Resting := by
  have kept := (Node.keeps_evaluate steady world).steady
  have step := tree.steps world
  generalize tree.step world = result at step refused ⊢
  cases step with
  | @refused root during evaluated =>
    rw [evaluated] at kept
    exact Node.clear_resting kept during
  | agreed _ => cases refused

/-- After any run of a started tree, clearing restores what was started: the whole tree is at rest and
looks as it did then, names, gates, cooldowns, times of passes and children are as before the call, and
nothing is asked but the exit of the action that ran. Clearing again does nothing. A tree is at rest as
well after a step without a result. -/
theorem play_clear {root : Node A P} (built : root.Built) {context : ContextId} {before world : W}
    {calls : List (Call W)} {tree : Tree A P} (reached : play root context before calls = (tree, world)) :
    (tree.clear world).1.root.AtRest ∧
    (tree.clear world).1.root.outline = (start root context before).1.root.outline ∧
    (tree.clear world).1.root.frame (fun _ => ()) = tree.root.frame (fun _ => ()) ∧
    (∃ running : Option Position, tree.root.runningAt = running.toList ∧
      ((tree.trace world .clear).filter fun entry => !entry.isReport) =
        running.toList.map (fun position => .action .exit position)) ∧
    (∀ later : W, (tree.clear world).1.clear later = ((tree.clear world).1, later) ∧
      (tree.clear world).1.trace later .clear = []) ∧
    ((tree.step world).1 = none → (tree.step world).2.1.root.AtRest) := by
  have steady := play_steady built reached
  have fresh := start_resting built context before
  have same := run_shape (Hidden.of_const ()) fresh.steady (start root context before).2 calls
  rw [show (start root context before).1.run (start root context before).2 calls = (tree, world) from reached] at same
  have resting := Node.clear_resting steady world
  refine ⟨resting.atRest, ?_, Node.clear_frame (Hidden.of_const ()) steady world, ?_, fun later => ?_, fun refused => ?_⟩
  -- At rest all that can be seen of a tree is part of its shape, which no call changes.
  · rw [← Node.outline_shape fresh.atRest, ← same, ← Node.clear_shape (Hidden.of_const ()) steady world]
    exact (Node.outline_shape resting.atRest).symm
  · obtain ⟨running, known⟩ := exists_toList steady.length_runningAt
    exact ⟨running, known, known ▸ clear_trace steady world⟩
  · exact ⟨clear_of_resting resting later, trace_of_resting resting later⟩
  · exact (resting_of_step_none steady refused).atRest

/-- Cleared after the alarm, the patrol exits and the tree is as it was at the start. -/
theorem alarmed_clear : (alarmed.1.clear alarmed.2).1.root.outline = (start patrol 0 World.post).1.root.outline ∧
    ((alarmed.1.trace alarmed.2 .clear).filter fun entry => !entry.isReport) = [.action .exit [1, 0]] := by
  obtain ⟨_, restored, _, ⟨running, known, asked⟩, _⟩ :=
    play_clear patrol_built (show play patrol 0 World.post alarm = (alarmed.1, alarmed.2) from rfl)
  have before : alarmed.1.root.runningAt = [[1, 0]] := by decide +kernel
  rw [known] at before
  rw [before] at asked
  exact ⟨restored, asked⟩

end Tree

end BehaviorTree
