import BehaviorTree.Proofs.Asking
import Mathlib.Data.List.Chain

/-! The pace of a node. A node with a cooldown passes its first check, and then never twice within the
interval, over any run of its tree. While the interval lasts, an evaluation that asks the node reads
the clock and does nothing else. An action is executed only in a step in which the checks of all nodes
above it pass. -/

set_option autoImplicit false

namespace BehaviorTree

variable {W A P : Type} [Host W]

open Float.Model (UnpackedFloat)

theorem unpacked_of_pos {number : UnpackedFloat} (positive : (UnpackedFloat.zero .positive).lt number = true) :
    number.isNaN = false ∧ number.le (.zero .positive) = false := by
  cases number with
  | notANumber => exact absurd positive (by decide)
  | infinity sign | zero sign => cases sign <;> revert positive <;> decide
  | finite sign =>
    cases sign with
    | positive => exact ⟨rfl, rfl⟩
    | negative => cases positive

theorem Cooldown.ready_of_pos {interval : Float} (positive : 0 < interval) (last : Option Float) (now : Float) :
    ready interval last now = (last.map fun time => !(now - time < interval)).getD true := by
  have zero : (0 : Float).toModel.unpack = .zero .positive := rfl
  have above : decide ((0 : Float).toModel.unpack.lt interval.toModel.unpack = true) = true := positive
  rw [zero, decide_eq_true_eq] at above
  obtain ⟨number, order⟩ := unpacked_of_pos above
  have below : ¬ interval ≤ 0 := by
    intro below
    have lifted : decide (interval.toModel.unpack.le (0 : Float).toModel.unpack = true) = true := below
    rw [zero, order] at lifted
    cases lifted
  have real : interval.isNaN = false := number
  have holds : ¬ (interval.isNaN || decide (interval ≤ 0)) = true := by
    rw [real, decide_eq_false below]
    exact Bool.false_ne_true
  unfold ready
  rw [if_neg holds]
  cases last <;> rfl

/-! Checks one after another. -/

def passes (checks : List Check) : List Float :=
  checks.filterMap fun check => if check.passed then some check.reading else none

/-- Checks of one cooldown, from the last pass before them to the last pass after them. -/
inductive Paced (interval : Float) : Option Float → List Check → Option Float → Prop where
  | done (last : Option Float) : Paced interval last [] last
  | passed {last final : Option Float} {now : Float} {rest : List Check} : Cooldown.ready interval last now = true →
      Paced interval (some now) rest final → Paced interval last (⟨now, true⟩ :: rest) final
  | held {last final : Option Float} {now : Float} {rest : List Check} : Cooldown.ready interval last now = false →
      Paced interval last rest final → Paced interval last (⟨now, false⟩ :: rest) final

namespace Paced

variable {interval : Float} {last final : Option Float} {checks : List Check}

theorem getLast?_passes (paced : Paced interval last checks final) :
    final = ((passes checks).getLast?).or last := by
  induction paced with
  | done last => rfl
  | @passed last final now rest _ _ ih =>
    rw [ih, show passes (⟨now, true⟩ :: rest) = now :: passes rest from rfl, List.getLast?_cons]
    cases (passes rest).getLast? <;> rfl
  | held _ _ ih => exact ih

theorem first_passed (paced : Paced interval none checks final) (positive : 0 < interval) :
    ∀ first, checks.head? = some first → first.passed = true := by
  intro first front
  cases paced with
  | done => cases front
  | passed _ _ => cases front; rfl
  | held refused _ => rw [Cooldown.ready_of_pos positive] at refused; cases refused

theorem isChain (paced : Paced interval last checks final) (positive : 0 < interval) :
    (last.toList ++ passes checks).IsChain fun earlier later => ¬ later - earlier < interval := by
  induction paced with
  | done last => cases last <;> simp [passes]
  | @passed last final now rest ready _ ih =>
    rw [Cooldown.ready_of_pos positive] at ready
    cases last with
    | none => exact ih
    | some time => exact .cons_cons (by simpa using ready) ih
  | held _ _ ih => exact ih

end Paced

namespace Node

variable [Action W A] [Probe W P]

/-- A node that its cooldown holds back reads the clock, refuses, and stays as it is. -/
theorem evaluate_held {node : Node A P} {context : ContextId} {world : W} (activated : node.state.context = some context)
    (held : Cooldown.ready node.state.cooldown node.state.lastPass (Host.now context world).1 = false) :
    node.evaluate world = (false, node, (Host.now context world).2) := by
  cases node with
  | mk state children =>
    rw [state_mk] at activated held
    simp only [Node.evaluate, activated, NodeState.pass, held]
    rfl

theorem activateAll_getElem? {children : List (Node A P)} {index : Nat} {child : Node A P}
    (selected : children[index]? = some child) (context : ContextId) (world : W) :
    ∃ during : W, (Node.activateAll children context world).1[index]? = some (child.activate context during).1 := by
  induction children generalizing index world with
  | nil => cases selected
  | cons first rest ih =>
    cases index with
    | zero => cases selected; exact ⟨world, rfl⟩
    | succ index =>
      have below : rest[index]? = some child := selected
      exact ih below _

theorem activate_timing {node : Node A P} (built : node.Built) (context : ContextId) (world : W) (position : Position) :
    (node.activate context world).1.timing? position =
      (node.timing? position).map fun timing => ⟨timing.cooldown, none, some context⟩ := by
  induction position generalizing node world with
  | nil =>
    cases node with
    | mk state children =>
      obtain ⟨⟨_, inactive, unasked, _⟩, _⟩ := built_mk.mp built
      have inactive : state.context = none := by simpa [isActivated] using inactive
      have unasked : state.lastPass = none := by simpa using unasked
      obtain ⟨name, kind, gate, cooldown, lastPass, held⟩ := state
      cases inactive
      cases unasked
      cases gate <;> rfl
  | cons index rest ih =>
    cases node with
    | mk state children =>
      obtain ⟨⟨_, inactive, _, _⟩, below⟩ := built_mk.mp built
      have inactive : state.context = none := by simpa [isActivated] using inactive
      simp only [Node.activate, inactive, timing?_cons]
      cases selected : children[index]? with
      | none =>
        have missing : (Node.activateAll children context (state.activateGate context world).2).1[index]? = none := by
          rw [List.getElem?_eq_none_iff] at selected ⊢
          rwa [length_activateAll]
        rw [missing]
        rfl
      | some child =>
        obtain ⟨during, found⟩ := activateAll_getElem? selected context (state.activateGate context world).2
        rw [found]
        exact ih (below child (List.mem_of_getElem? selected)) during

end Node

namespace Tree

variable [Action W A] [Probe W P] {tree : Tree A P} {position : Position}

/-- The cooldown check of the node at a position in a call, if the call asks the node. -/
def check? (tree : Tree A P) (world : W) (position : Position) : Call W → Option Check
  | .evaluate | .step => do
    let timing ← tree.root.timing? position
    let during ← tree.root.asks? position world
    timing.check? during
  | .tick | .clear | .change _ => none

def checks (tree : Tree A P) (world : W) (position : Position) : List (Call W) → List Check
  | [] => []
  | next :: rest =>
    (tree.check? world position next).toList ++ (tree.call world next).1.checks (tree.call world next).2 position rest

def playChecks (root : Node A P) (context : ContextId) (world : W) (position : Position) (calls : List (Call W)) :
    List Check :=
  let (tree, world) := start root context world
  tree.checks world position calls

theorem check?_eq {timing : Timing} (known : tree.root.timing? position = some timing) (world : W) {next : Call W}
    (asking : next matches .evaluate | .step) :
    tree.check? world position next = (tree.root.asks? position world).bind timing.check? := by
  cases next with
  | evaluate | step => simp only [check?, known]; rfl
  | tick | clear | change outside => cases asking

theorem passed_of_check? {timing : Timing} (known : tree.root.timing? position = some timing) {world : W}
    {next : Call W} {check : Check} (made : tree.check? world position next = some check) :
    check.passed = Cooldown.ready timing.cooldown timing.lastPass check.reading := by
  cases next with
  | tick | clear | change outside => cases made
  | evaluate | step =>
    rw [check?_eq known world rfl] at made
    obtain ⟨during, _, made⟩ := Option.bind_eq_some_iff.mp made
    obtain ⟨context, _, rfl⟩ := Option.map_eq_some_iff.mp made
    rfl

theorem call_timing (steady : tree.root.Steady) {timing : Timing} (known : tree.root.timing? position = some timing)
    (world : W) (next : Call W) :
    (tree.call world next).1.root.timing? position = some (timing.after (tree.check? world position next)) := by
  have asked := Node.evaluate_timing steady position world
  rw [known, Option.map_some] at asked
  cases next with
  | evaluate => rw [check?_eq known world rfl]; exact asked
  | tick => exact (Node.tick_timing steady world position).trans known
  | clear => exact (Node.clear_timing steady world position).trans known
  | step =>
    rw [check?_eq known world rfl, ← asked]
    have kept := (Node.keeps_evaluate steady world).steady
    have step := tree.steps world
    rw [call]
    generalize tree.step world = result at step ⊢
    cases step with
    | refused evaluated =>
      rw [evaluated] at kept ⊢
      exact Node.clear_timing kept _ position
    | agreed evaluated =>
      rw [evaluated] at kept ⊢
      exact Node.tick_timing kept _ position
  | change outside => exact known

theorem run_paced (steady : tree.root.Steady) {timing : Timing} (known : tree.root.timing? position = some timing)
    (world : W) (calls : List (Call W)) : ∃ final,
      (tree.run world calls).1.root.timing? position = some { timing with lastPass := final } ∧
      Paced timing.cooldown timing.lastPass (tree.checks world position calls) final := by
  induction calls generalizing tree world timing with
  | nil => exact ⟨timing.lastPass, known, .done _⟩
  | cons next rest ih =>
    have later := call_timing steady known world next
    obtain ⟨final, reached, paced⟩ := ih (call_steady steady world next) later (tree.call world next).2
    refine ⟨final, ?_, ?_⟩
    · refine reached.trans (congrArg some ?_)
      rcases tree.check? world position next with _ | ⟨_, _ | _⟩ <;> rfl
    · rw [checks]
      cases made : tree.check? world position next with
      | none =>
        rw [made] at paced
        exact paced
      | some check =>
        have answer := passed_of_check? known made
        rw [made] at paced
        obtain ⟨reading, _ | _⟩ := check
        · exact .held answer.symm paced
        · exact .passed answer.symm paced

/-- In every run of a started tree a node with a positive cooldown passes its first check. Of two passes in
a row the later is not within the interval after the earlier, and the node holds the time of the last one.
An evaluation within the interval after it reads the clock, refuses, and changes nothing of the node. A
step that executes an action below the node is one in which its check passes. -/
theorem play_pacing {root : Node A P} (built : root.Built) {context : ContextId} {before world : W}
    {calls : List (Call W)} {tree : Tree A P} (reached : play root context before calls = (tree, world))
    {position : Position} {node : Node A P} (there : root.at? position = some node)
    (positive : 0 < node.state.cooldown) :
    (∀ first, (playChecks root context before position calls).head? = some first → first.passed = true) ∧
    (passes (playChecks root context before position calls)).IsChain
      (fun earlier later => ¬ later - earlier < node.state.cooldown) ∧
    (∀ found, tree.root.at? position = some found →
      found.state.lastPass = (passes (playChecks root context before position calls)).getLast?) ∧
    (∀ found during last, tree.root.at? position = some found → tree.root.asks? position world = some during →
      (passes (playChecks root context before position calls)).getLast? = some last →
      (Host.now context during).1 - last < node.state.cooldown →
      found.evaluate during = (false, found, (Host.now context during).2)) ∧
    (∀ path, executed (tree.trace world .step) = [path] → position <+: path →
      ∃ check, tree.check? world position .step = some check ∧ check.passed = true) := by
  have fresh := start_resting built context before
  have steady := play_steady built reached
  have begun : (start root context before).1.root.timing? position =
      some ⟨node.state.cooldown, none, some context⟩ := by
    refine (Node.activate_timing built context before position).trans ?_
    rw [Node.timing?, there]
    rfl
  -- The node was not asked before the run, so all its passes are among the checks of the run.
  obtain ⟨final, timed, paced⟩ := run_paced fresh.steady begun (start root context before).2 calls
  rw [show (start root context before).1.run (start root context before).2 calls = (tree, world) from reached] at timed
  have last_eq := paced.getLast?_passes
  rw [Option.or_none] at last_eq
  have known {found : Node A P} (here : tree.root.at? position = some found) :
      found.state.timing = ⟨node.state.cooldown, final, some context⟩ := by
    rw [Node.timing?, here, Option.map_some] at timed
    exact Option.some.inj timed
  refine ⟨paced.first_passed positive, paced.isChain positive, ?_, ?_, ?_⟩
  · intro found here
    exact (congrArg Timing.lastPass (known here)).trans last_eq
  · intro found during last here _ latest within
    have cooldown : found.state.cooldown = node.state.cooldown := congrArg Timing.cooldown (known here)
    have lastPass : found.state.lastPass = some last :=
      (congrArg Timing.lastPass (known here)).trans (last_eq.trans latest)
    apply Node.evaluate_held (congrArg Timing.context (known here))
    rw [cooldown, lastPass, Cooldown.ready_of_pos positive]
    simpa using within
  · intro path only above
    cases result : (tree.step world).1 with
    | none =>
      rw [(step_executed steady world).2 result] at only
      cases only
    | some progress =>
      -- What was executed is what was granted, and the way there leads through the node.
      obtain ⟨granted, grants, same⟩ := (step_executed steady world).1 progress result
      obtain rfl : granted = path := List.singleton_inj.mp (same.symm.trans only)
      obtain ⟨timing, during, check, known, asked, made, passed⟩ := grants.asked above
      refine ⟨check, ?_, passed⟩
      rw [check?_eq known world rfl, asked, Option.bind_some, made]

/-! A lookout that scans at most every five seconds, and rests in between. -/

def lookout : Node Script.Performer Script.Sensor :=
  .mk (Node.fresh "lookout" (.selector none)).state
    [(Node.fresh "scan" (.action (.fresh .idle))).withCooldown 5, Node.fresh "rest" (.action (.fresh .idle))]

def pause : List (Call World) := [.step, .change (World.moveClock 0 fun clock => clock.advance 3)]

def paused : Tree Script.Performer Script.Sensor × World := play lookout 0 World.post pause

/-- The scan is held back, and the next step rests. -/
theorem paused_held : (passes (playChecks lookout 0 World.post [0] pause)).getLast? = some 0 ∧
    (∀ found, paused.1.root.at? [0] = some found → found.evaluate paused.2 = (false, found, paused.2)) ∧
    executed (paused.1.trace paused.2 .step) = [[1]] := by
  have scan : lookout.at? [0] = some ((Node.fresh "scan" (.action (.fresh .idle))).withCooldown 5) := rfl
  obtain ⟨_, _, _, held, _⟩ := play_pacing (show lookout.Built by decide)
    (show play lookout 0 World.post pause = (paused.1, paused.2) from rfl) scan (by decide +kernel)
  have last : (passes (playChecks lookout 0 World.post [0] pause)).getLast? = some 0 := by rfl
  have asked : paused.1.root.asks? [0] paused.2 = some paused.2 := by rfl
  refine ⟨last, fun found here => held found _ 0 here asked last (by decide +kernel), by decide +kernel⟩

end Tree

end BehaviorTree
