import BehaviorTree.Proofs.Lifecycles

/-! What is always true of a started tree. Active children exist, they lead to the one action that may
be running, and whatever lies beside them is at rest. The exception is the first child of a sequence that
has not started: it was asked, so selectors in it may have chosen, but nothing in it runs. -/

set_option autoImplicit false

namespace BehaviorTree

variable {W A P : Type}

theorem OneAtATime.fault_not_mem {previous last : Option Position} {hooks : List (Entry Position)}
    (ordered : OneAtATime previous hooks last) : Entry.fault ∉ hooks := by
  induction ordered with
  | done running => exact List.not_mem_nil
  | enter _ ih | execute _ ih | exit _ ih =>
    intro member
    rcases List.mem_cons.mp member with same | member
    · cases same
    · exact ih member

namespace Node

theorem Steady.active_of_at? {node found : Node A P} (steady : node.Steady) {position : Position} {action : A}
    (reached : node.at? position = some found) (kind : found.state.kind = .action ⟨action, .running⟩) :
    position ∈ node.runningAt ∧ node.Active position := by
  have member : (position, id action) ∈ node.running id := mem_running.mpr ⟨found, action, reached, kind, rfl⟩
  exact ⟨List.mem_map_of_mem member, steady.active_of_running member⟩

theorem Steady.eq_of_running {node : Node A P} (steady : node.Steady) {first second : Position}
    (one : first ∈ node.runningAt) (other : second ∈ node.runningAt) : first = second := by
  obtain ⟨running, known⟩ := exists_toList steady.length_runningAt
  rw [known] at one other
  exact Option.some.inj ((Option.mem_toList.mp one).symm.trans (Option.mem_toList.mp other))

end Node

namespace Tree

variable [Host W] [Action W A] [Probe W P] {tree : Tree A P}

theorem fault_not_mem_trace (steady : tree.root.Steady) (world : W) (next : Call W) :
    Entry.fault ∉ tree.trace world next := by
  obtain ⟨previous, last, _, _, ordered⟩ := trace_oneAtATime steady world next
  intro member
  exact ordered.fault_not_mem (List.mem_filter.mpr ⟨member, rfl⟩)

/-- After any run of a started tree, active children exist, and no call is at fault; a running action is
reached by active children alone, and there is only one; and a child that is not active is at rest, or
it is the first one of an idle sequence and runs no action and no sequence. -/
theorem play_invariant {root : Node A P} (built : root.Built) {context : ContextId} {before world : W}
    {calls : List (Call W)} {tree : Tree A P} (reached : play root context before calls = (tree, world)) :
    (∀ position found index, tree.root.at? position = some found → found.activeChild = some index →
      index < found.children.length) ∧
    (∀ (next : Call W) (later : W), Entry.fault ∉ tree.trace later next) ∧
    (∀ position found action, tree.root.at? position = some found →
      found.state.kind = .action ⟨action, .running⟩ →
      tree.root.Active position ∧ ∀ other another held, tree.root.at? other = some another →
        another.state.kind = .action ⟨held, .running⟩ → other = position) ∧
    ∀ position found index child, tree.root.at? position = some found → found.children[index]? = some child →
      found.activeChild ≠ some index →
      child.AtRest ∨ found.state.kind = .sequence none ∧ index = 0 ∧ child.Probed := by
  have steady := play_steady built reached
  refine ⟨?_, fun next later => fault_not_mem_trace steady later next, ?_, ?_⟩
  · intro position found index reached active
    exact (steady.at? reached).bounded index active
  · intro position found action reached kind
    obtain ⟨one, active⟩ := steady.active_of_at? reached kind
    refine ⟨active, fun other another held there also => ?_⟩
    exact steady.eq_of_running (steady.active_of_at? there also).1 one
  · intro position found index child reached selected inactive
    exact (steady.at? reached).others index child selected inactive

/-- The alarm finds the patrol on the active path. -/
theorem alarmed_invariant : alarmed.1.root.Active [1, 0] ∧ Entry.fault ∉ alarmed.1.trace alarmed.2 .step := by
  obtain ⟨_, faultless, active, _⟩ :=
    play_invariant patrol_built (show play patrol 0 World.post alarm = (alarmed.1, alarmed.2) from rfl)
  exact ⟨(active [1, 0] _ _ rfl rfl).1, faultless .step alarmed.2⟩

end Tree

end BehaviorTree
