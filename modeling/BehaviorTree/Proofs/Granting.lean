import BehaviorTree.Proofs.Lifecycles

/-! What an evaluation grants. A node that may run now leads to one action, by nodes that were all asked
in this evaluation and agreed, past siblings that were asked first and refused. The next tick executes
this action and no other. -/

set_option autoImplicit false

namespace BehaviorTree

variable {W A P : Type} [Host W]

/-- An activated node lets an evaluation pass: its cooldown is over and its gate agrees. -/
structure Admits [Probe W P] (state : NodeState A P) (context : ContextId) (world : W)
    (admitted : NodeState A P) (during : W) : Prop where
  activated : state.context = some context
  cooled : Cooldown.ready state.cooldown state.lastPass (Host.now context world).1 = true
  passed : NodeState.passGate { state with lastPass := some (Host.now context world).1 } context
    (Host.now context world).2 = (true, admitted, during)

theorem Admits.of_pass [Probe W P] {state admitted : NodeState A P} {context : ContextId} {world during : W}
    (activated : state.context = some context) (admission : state.pass context world = (true, admitted, during)) :
    Admits state context world admitted during := by
  simp only [NodeState.pass] at admission
  split at admission
  · next cooled => exact ⟨activated, cooled, admission⟩
  · cases admission

namespace Node

variable [Action W A] [Probe W P]

/-- The children are asked one after the other, and all refuse. -/
inductive Refuse : List (Node A P) → W → W → Prop where
  | nil {world : W} : Refuse [] world world
  | cons {first asked : Node A P} {rest : List (Node A P)} {world during after : W} :
      first.evaluate world = (false, asked, during) → Refuse rest during after →
      Refuse (first :: rest) world after

/-- The evaluation of the node grants the action at a position below it: every node on the way agrees,
and of a selector's children all that come before refuse. -/
inductive Grants : Node A P → W → Position → Prop where
  | action {state admitted : NodeState A P} {children : List (Node A P)} {context : ContextId}
      {world during : W} {lifecycle : Lifecycle A} :
      ((mk state children).evaluate world).1 = true → Admits state context world admitted during →
      state.kind = .action lifecycle → (lifecycle.check context during).1 = true →
      Grants (mk state children) world []
  | sequence {state admitted : NodeState A P} {children : List (Node A P)} {context : ContextId}
      {world during : W} {active : Option Nat} {child : Node A P} {path : Position} :
      ((mk state children).evaluate world).1 = true → Admits state context world admitted during →
      state.kind = .sequence active → children[active.getD 0]? = some child → Grants child during path →
      Grants (mk state children) world (active.getD 0 :: path)
  | selector {state admitted : NodeState A P} {earlier later : List (Node A P)} {context : ContextId}
      {world during before : W} {previous : Option Nat} {child : Node A P} {path : Position} :
      ((mk state (earlier ++ child :: later)).evaluate world).1 = true →
      Admits state context world admitted during → state.kind = .selector previous →
      Refuse earlier during before → Grants child before path →
      Grants (mk state (earlier ++ child :: later)) world (earlier.length :: path)

theorem Scans.winner {children scanned : List (Node A P)} {world after : W} {won : Option Nat}
    (scan : Scans children world won scanned after) {index : Nat} (chosen : won = some index) :
    ∃ earlier child later asked before, children = earlier ++ child :: later ∧ earlier.length = index ∧
      Refuse earlier world before ∧ child.evaluate before = (true, asked, after) ∧ scanned[index]? = some asked := by
  induction scan generalizing index with
  | exhausted => cases chosen
  | @agreed first asked rest world after evaluated =>
    cases chosen
    exact ⟨[], first, rest, asked, world, rfl, rfl, .nil, evaluated, rfl⟩
  | @refused first asked rest others winner world during after evaluated _ ih =>
    obtain ⟨position, found, rfl⟩ := Option.map_eq_some_iff.mp chosen
    obtain ⟨earlier, child, later, winning, before, rfl, rfl, refuse, agreed, selected⟩ := ih found
    exact ⟨first :: earlier, child, later, winning, before, rfl, rfl, .cons evaluated refuse, agreed, selected⟩

theorem grants_of_evaluate {node : Node A P} (steady : node.Steady) (world : W)
    (eligible : (node.evaluate world).1 = true) :
    ∃ path, Grants node world path ∧ (node.evaluate world).2.1.routeTo? = some path := by
  induction node generalizing world with
  | mk state children ih =>
    obtain ⟨sound, below⟩ := steady_mk.mp steady
    have step := evaluates sound world
    have agreed := eligible
    generalize Node.evaluate (.mk state children) world = result at step eligible ⊢
    cases step with
    | refused _ _ | emptySequence _ _ _ _ | emptySelector _ _ _ _ | abandoned _ _ _ _ _ => cases eligible
    | action activated admission kind leaf =>
      exact ⟨[], .action agreed (.of_pass activated admission) kind eligible, routeTo?_of_action rfl⟩
    | @probe context admitted during after answer first asked rest activated admission kind split evaluated =>
      subst split
      obtain rfl : answer = true := eligible
      obtain ⟨path, grants, leads⟩ := ih first List.mem_cons_self (below first List.mem_cons_self) during
        (by rw [evaluated])
      rw [evaluated] at leads
      refine ⟨0 :: path, .sequence agreed (.of_pass activated admission) kind rfl grants, ?_⟩
      rw [routeTo?_of_sequence ((NodeState.pass_kind admission).trans kind) rfl, leads]
      rfl
    | @continued context admitted during after index child asked activated admission kind selected evaluated =>
      have member := List.mem_of_getElem? selected
      obtain ⟨path, grants, leads⟩ := ih child member (below child member) during (by rw [evaluated])
      rw [evaluated] at leads
      refine ⟨index :: path, .sequence agreed (.of_pass activated admission) kind selected grants, ?_⟩
      have present : (children.set index asked)[index]? = some asked :=
        getElem?_set_of_selected selected
      rw [routeTo?_of_sequence ((NodeState.pass_kind admission).trans kind) present, leads]
      rfl
    | @selector context admitted during after previous winner scanned activated admission kind scan =>
      obtain ⟨index, rfl⟩ := Option.isSome_iff_exists.mp eligible
      obtain ⟨earlier, child, later, asked, before, rfl, rfl, refuse, evaluated, selected⟩ := scan.winner rfl
      have member : child ∈ earlier ++ child :: later := List.mem_append_right _ List.mem_cons_self
      obtain ⟨path, grants, leads⟩ := ih child member (below child member) before (by rw [evaluated])
      rw [evaluated] at leads
      refine ⟨earlier.length :: path, .selector agreed (.of_pass activated admission) kind refuse grants, ?_⟩
      -- Clearing the child that was chosen before leaves the winner alone.
      have present : (Node.switchTo (some earlier.length) previous scanned after).1[earlier.length]? = some asked := by
        rcases scan.switchTo_eq sound kind with ⟨_, same⟩ | ⟨last, dropped, rfl, left, _, same⟩
        · rw [same, selected]
        · rw [same, List.getElem?_set_ne fun equal => left (congrArg some equal.symm), selected]
      rw [routeTo?_of_selector rfl present, leads]
      rfl

end Node

/-! What is executed. -/

def executed (entries : List (Entry Position)) : List Position := entries.filterMap Entry.executed?

theorem executed_append (first second : List (Entry Position)) :
    executed (first ++ second) = executed first ++ executed second := List.filterMap_append

theorem executed_lifecycle (entries : List (Entry Position)) :
    executed (entries.filter Entry.isLifecycle) = executed entries := by
  rw [executed, executed, List.filterMap_filter]
  refine congrArg (fun look => entries.filterMap look) (funext fun entry => ?_)
  rcases entry with _ | _ | _ | _ | ⟨_ | _ | _ | _ | _, _⟩ | _ <;> rfl

theorem executed_exits (positions : List Position) :
    executed (positions.map fun position => .action .exit position) = [] := by
  rw [executed, List.filterMap_map]
  exact List.filterMap_eq_nil_iff.mpr fun _ _ => rfl

theorem Executes.executed_eq {spot : Spot Position} {before after : List (Spot Position)}
    {hooks : List (Entry Position)} (executes : Executes (some spot) before hooks after) :
    executed hooks = [spot.2] := by
  cases executes <;> rfl

theorem Node.tick_executed [Action W A] {node : Node (Tagged Position A) (Tagged Position P)}
    (steady : node.Steady) (labelled : node.Labelled) {path : Position} (leads : node.routeTo? = some path)
    (journal : Journal Position W) :
    executed (node.tick journal).2.2.lifecycle = executed journal.lifecycle ++ [path] := by
  obtain ⟨hooks, written, executes⟩ := tick_lifecycle steady labelled journal
  rw [← map_fst_route? Tagged.label] at leads
  obtain ⟨spot, route, rfl⟩ := Option.map_eq_some_iff.mp leads
  rw [route] at executes
  rw [written, executed_append, executes.executed_eq, labelled.of_route? route]
  rfl

namespace Tree

variable [Action W A] [Probe W P] {tree : Tree A P}

theorem tick_executed (steady : tree.root.Steady) {path : Position} (leads : tree.root.routeTo? = some path)
    (world : W) : executed (tree.trace world .tick) = [path] := by
  have ticked := Node.tick_executed (Node.steady_placed.mpr steady) tree.root.labelled_placed
    ((Node.routeTo?_placed _).trans leads) (Journal.of world)
  rwa [Journal.lifecycle, executed_lifecycle] at ticked

theorem step_executed (steady : tree.root.Steady) (world : W) :
    (∀ progress, (tree.step world).1 = some progress →
      ∃ path, Node.Grants tree.root world path ∧ executed (tree.trace world .step) = [path]) ∧
    ((tree.step world).1 = none → executed (tree.trace world .step) = []) := by
  have placed := Node.steady_placed.mpr steady
  have labelled := tree.root.labelled_placed
  obtain ⟨exited, written, _, _⟩ := Node.evaluate_lifecycle placed labelled (Journal.of world)
  have kept := (Node.keeps_evaluate placed (Journal.of world)).steady
  have still := labelled.congr (Node.evaluate_shape Journal.hidden placed (Journal.of world))
  have grants := Node.grants_of_evaluate steady world
  -- The grant is one of the tree itself, the entries are those of the tree in the journal.
  have watched : tree.root.evaluate world =
      ((tree.root.placed.evaluate (Journal.of world)).1,
        (tree.root.placed.evaluate (Journal.of world)).2.1.exchange Tagged.content Tagged.content,
        (tree.root.placed.evaluate (Journal.of world)).2.2.world) := by
    rw [← Simulates.evaluate_exchange Journal.erases, Node.exchange_placed]
    rfl
  rw [watched] at grants
  rw [step_placed tree world, ← executed_lifecycle]
  change (∀ progress, (tree.placed.step (Journal.of world)).1 = some progress → ∃ path,
      Node.Grants tree.root world path ∧ executed (tree.placed.step (Journal.of world)).2.2.lifecycle = [path]) ∧
    ((tree.placed.step (Journal.of world)).1 = none →
      executed (tree.placed.step (Journal.of world)).2.2.lifecycle = [])
  have step := tree.placed.steps (Journal.of world)
  generalize tree.placed.step (Journal.of world) = result at step ⊢
  cases step with
  | @refused root during evaluated =>
    rw [Tree.placed] at evaluated
    rw [evaluated] at written kept still
    refine ⟨fun _ result => (by cases result), fun _ => ?_⟩
    rw [Node.clear_lifecycle kept still during, written, executed_append, executed_append, executed_exits,
      executed_exits]
    rfl
  | @agreed root during evaluated =>
    rw [Tree.placed] at evaluated
    rw [evaluated] at written kept still grants
    refine ⟨fun _ _ => ?_, fun result => by cases result⟩
    obtain ⟨path, granted, leads⟩ := grants rfl
    rw [Node.routeTo?_exchange] at leads
    refine ⟨path, granted, ?_⟩
    rw [Node.tick_executed kept still leads during, written, executed_append, executed_exits]
    rfl

/-- After any run of a started tree, an evaluation that agrees grants one action, and a tick then executes
this action alone, whatever happens to the environment in between. A step executes an action exactly if
it has a result, and then the one that its own evaluation grants. -/
theorem play_executes_granted {root : Node A P} (built : root.Built) {context : ContextId} {before world : W}
    {calls : List (Call W)} {tree : Tree A P} (reached : play root context before calls = (tree, world)) :
    (∀ (asked : Node A P) (during : W), tree.root.evaluate world = (true, asked, during) →
      ∃ path, Node.Grants tree.root world path ∧
        ∀ later : W, executed (trace ⟨asked, tree.context⟩ later .tick) = [path]) ∧
    (∀ progress, (tree.step world).1 = some progress →
      ∃ path, Node.Grants tree.root world path ∧ executed (tree.trace world .step) = [path]) ∧
    ((tree.step world).1 = none → executed (tree.trace world .step) = []) := by
  have steady := play_steady built reached
  refine ⟨fun asked during evaluated => ?_, step_executed steady world⟩
  have kept := (Node.keeps_evaluate steady world).steady
  obtain ⟨path, granted, leads⟩ := Node.grants_of_evaluate steady world (by rw [evaluated])
  rw [evaluated] at kept leads
  exact ⟨path, granted, fun later => tick_executed kept leads later⟩

/-- After the alarm the evaluation grants the guard. -/
theorem alarmed_executes : Node.Grants alarmed.1.root alarmed.2 [0] ∧
    executed (alarmed.1.trace alarmed.2 .step) = [[0]] := by
  obtain ⟨_, stepped, _⟩ :=
    play_executes_granted patrol_built (show play patrol 0 World.post alarm = (alarmed.1, alarmed.2) from rfl)
  obtain ⟨path, granted, only⟩ := stepped .running (by decide +kernel)
  have guard : executed (alarmed.1.trace alarmed.2 .step) = [[0]] := by decide +kernel
  obtain rfl : path = [0] := List.singleton_inj.mp (only.symm.trans guard)
  exact ⟨granted, guard⟩

end Tree

end BehaviorTree
