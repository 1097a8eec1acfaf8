import BehaviorTree.Proofs.Granting

/-! Whom an evaluation asks. An evaluation descends from a node that lets it pass: a sequence asks one
child, a selector its children up to the first that agrees. A node that is asked checks its cooldown,
and sets the time of its last pass if it passes. Nothing else in a call changes that time. -/

set_option autoImplicit false

namespace BehaviorTree

variable {W A P : Type} [Host W]

structure Check where
  reading : Float
  passed : Bool
  deriving Repr

/-- What a node's cooldown depends on. -/
structure Timing where
  cooldown : Float
  lastPass : Option Float
  context : Option ContextId

namespace Timing

def check? (timing : Timing) (world : W) : Option Check :=
  timing.context.map fun context =>
    ⟨(Host.now context world).1, Cooldown.ready timing.cooldown timing.lastPass (Host.now context world).1⟩

def after (timing : Timing) : Option Check → Timing
  | some ⟨reading, true⟩ => { timing with lastPass := some reading }
  | _ => timing

@[simp] theorem after_none (timing : Timing) : timing.after none = timing := rfl

end Timing

def NodeState.timing (state : NodeState A P) : Timing := ⟨state.cooldown, state.lastPass, state.context⟩

theorem NodeState.pass_timing [Probe W P] {state admitted : NodeState A P} {context : ContextId}
    {world during : W} {answer : Bool} (activated : state.context = some context)
    (admission : state.pass context world = (answer, admitted, during)) :
    admitted.timing = state.timing.after (state.timing.check? world) := by
  simp only [Timing.check?, timing, activated, Option.map_some]
  simp only [pass] at admission
  split at admission
  · next cooled =>
    rw [cooled]
    simp only [passGate] at admission
    split at admission <;> cases admission <;> simp only [Timing.after, activated]
  · next held =>
    cases admission
    rw [Bool.eq_false_iff.mpr held]
    simp only [Timing.after, activated]

theorem Admits.pass_eq [Probe W P] {state admitted : NodeState A P} {context : ContextId} {world during : W}
    (admits : Admits state context world admitted during) : state.pass context world = (true, admitted, during) := by
  simp only [NodeState.pass, admits.cooled, if_true, admits.passed]

namespace Node

def timing? (node : Node A P) (position : Position) : Option Timing :=
  (node.at? position).map fun found => found.state.timing

omit [Host W] in
@[simp] theorem timing?_nil (node : Node A P) : node.timing? [] = some node.state.timing := rfl

omit [Host W] in
@[simp] theorem timing?_cons (state : NodeState A P) (children : List (Node A P)) (index : Nat) (rest : Position) :
    (mk state children).timing? (index :: rest) = (children[index]?).bind fun child => child.timing? rest := by
  simp only [timing?, Node.at?, children_mk, Option.map_bind]
  rfl

omit [Host W] in
theorem timing?_frame {B : Type} (view : A → B) (node : Node A P) (position : Position) :
    (node.frame view).timing? position = node.timing? position := by
  rw [timing?, frame, at?_map, Option.map_map]
  refine congrArg (fun look => (node.at? position).map look) (funext fun found => ?_)
  cases found
  simp only [Function.comp_apply, map_mk, state_mk, NodeState.timing, NodeState.frame]

section Calls
variable [Action W A] {node : Node A P}

theorem clear_timing (steady : node.Steady) (world : W) (position : Position) :
    (node.clear world).1.timing? position = node.timing? position := by
  rw [← timing?_frame fun _ => (), clear_frame (Hidden.of_const ()) steady, timing?_frame]

theorem tick_timing (steady : node.Steady) (world : W) (position : Position) :
    (node.tick world).2.1.timing? position = node.timing? position := by
  rw [← timing?_frame fun _ => (), tick_frame (Hidden.of_const ()) steady, timing?_frame]

end Calls

variable [Action W A] [Probe W P]

/-- The environment in which an evaluation asks the node at a position, if it comes to ask it. Every
node above has to let the evaluation pass and, if it is a selector, has to find that all earlier
children refuse. -/
def asks? : Node A P → Position → W → Option W
  | _, [], world => some world
  | .mk state children, index :: rest, world =>
    match state.context with
    | none => none
    | some context =>
      match state.pass context world with
      | (false, _, _) => none
      | (true, _, during) =>
        match state.kind with
        | .sequence active =>
          if active.getD 0 = index then (children[index]?).bind fun child => child.asks? rest during else none
        | .selector _ =>
          match Node.evaluateFirst (children.take index) during with
          | (none, _, before) => (children[index]?).bind fun child => child.asks? rest before
          | (some _, _, _) => none
        | .action _ | .inert | .relay _ _ => none

section Descent
variable {state admitted : NodeState A P} {children : List (Node A P)} {context : ContextId} {world during : W}

theorem asks?_refused (activated : state.context = some context)
    (admission : state.pass context world = (false, admitted, during)) (index : Nat) (rest : Position) :
    (mk state children).asks? (index :: rest) world = none := by
  simp only [asks?, activated, admission]

theorem asks?_sequence (activated : state.context = some context)
    (admission : state.pass context world = (true, admitted, during)) {active : Option Nat}
    (kind : state.kind = .sequence active) (index : Nat) (rest : Position) :
    (mk state children).asks? (index :: rest) world =
      if active.getD 0 = index then (children[index]?).bind fun child => child.asks? rest during else none := by
  simp only [asks?, activated, admission, kind]

theorem asks?_selector (activated : state.context = some context)
    (admission : state.pass context world = (true, admitted, during)) {previous : Option Nat}
    (kind : state.kind = .selector previous) (index : Nat) (rest : Position) :
    (mk state children).asks? (index :: rest) world =
      match Node.evaluateFirst (children.take index) during with
      | (none, _, before) => (children[index]?).bind fun child => child.asks? rest before
      | (some _, _, _) => none := by
  simp only [asks?, activated, admission, kind]

end Descent

theorem Scans.asked {children scanned : List (Node A P)} {world after : W} {winner : Option Nat}
    (scan : Scans children world winner scanned after) {index : Nat} {child : Node A P}
    (selected : children[index]? = some child) :
    (∃ others before, Node.evaluateFirst (children.take index) world = (none, others, before) ∧
      scanned[index]? = some (child.evaluate before).2.1) ∨
    ∃ earlier others before, Node.evaluateFirst (children.take index) world = (some earlier, others, before) ∧
      scanned[index]? = some child := by
  induction scan generalizing index with
  | exhausted => cases selected
  | @agreed first asked rest world after evaluated =>
    cases index with
    | zero => cases selected; exact .inl ⟨[], world, rfl, by rw [evaluated]; rfl⟩
    | succ index =>
      refine .inr ⟨0, asked :: rest.take index, after, ?_, selected⟩
      simp only [List.take_succ_cons, Node.evaluateFirst, evaluated]
  | @refused first asked rest others winner world during after evaluated _ ih =>
    cases index with
    | zero => cases selected; exact .inl ⟨[], world, rfl, by rw [evaluated]; rfl⟩
    | succ index =>
      have below : rest[index]? = some child := selected
      rcases ih below with ⟨left, before, scanning, found⟩ | ⟨earlier, left, before, scanning, found⟩
      · refine .inl ⟨asked :: left, before, ?_, found⟩
        simp only [List.take_succ_cons, Node.evaluateFirst, evaluated, scanning, Option.map_none]
      · refine .inr ⟨earlier + 1, asked :: left, before, ?_, found⟩
        simp only [List.take_succ_cons, Node.evaluateFirst, evaluated, scanning, Option.map_some]

theorem timing_set {children : List (Node A P)} {active : Nat} {child replacement : Node A P} {during : W}
    {rest : Position} (selected : children[active]? = some child)
    (changed : replacement.timing? rest =
      (child.timing? rest).map fun timing => timing.after ((child.asks? rest during).bind timing.check?))
    (index : Nat) :
    ((children.set active replacement)[index]?).bind (fun other => other.timing? rest) =
      ((children[index]?).bind fun other => other.timing? rest).map fun timing => timing.after
        ((if active = index then (children[index]?).bind fun other => other.asks? rest during
          else none).bind timing.check?) := by
  by_cases same : active = index
  · subst same
    rw [getElem?_set_of_selected selected, if_pos rfl, selected]
    exact changed
  · rw [List.getElem?_set_ne same, if_neg same]
    simp only [Option.bind_none, Timing.after_none, Option.map_id']

/-- An evaluation changes the timing of the nodes that it asks, by their checks, and of no other. -/
theorem evaluate_timing {node : Node A P} (steady : node.Steady) (position : Position) (world : W) :
    (node.evaluate world).2.1.timing? position =
      (node.timing? position).map fun timing => timing.after ((node.asks? position world).bind timing.check?) := by
  induction position generalizing node world with
  | nil =>
    cases node with
    | mk state children =>
      obtain ⟨sound, _⟩ := steady_mk.mp steady
      have checked {context : ContextId} {admitted : NodeState A P} {answer : Bool} {during : W}
          (activated : state.context = some context)
          (admission : state.pass context world = (answer, admitted, during)) :
          some admitted.timing = some (state.timing.after (state.timing.check? world)) :=
        congrArg some (NodeState.pass_timing activated admission)
      have step := evaluates sound world
      generalize Node.evaluate (.mk state children) world = result at step ⊢
      cases step with
      | refused activated admission | action activated admission _ _ | emptySequence activated admission _ _
      | probe activated admission _ _ _ | continued activated admission _ _ _ | abandoned activated admission _ _ _
      | emptySelector activated admission _ _ | selector activated admission _ _ =>
        exact (checked activated admission :)
  | cons index rest ih =>
    cases node with
    | mk state children =>
      obtain ⟨sound, below⟩ := steady_mk.mp steady
      -- A child that a sequence asks, and may clear afterwards.
      have asks {position : Nat} {child asked : Node A P} {answer : Bool} {during after : W}
          (selected : children[position]? = some child) (evaluated : child.evaluate during = (answer, asked, after)) :
          asked.timing? rest = (child.timing? rest).map (fun timing =>
            timing.after ((child.asks? rest during).bind timing.check?)) ∧
          (asked.clear after).1.timing? rest = asked.timing? rest := by
        have held := below child (List.mem_of_getElem? selected)
        have changed := ih held during
        have still := (keeps_evaluate held during).steady
        rw [evaluated] at changed still
        exact ⟨changed, clear_timing still after rest⟩
      have step := evaluates sound world
      generalize Node.evaluate (.mk state children) world = result at step ⊢
      cases step with
      | refused activated admission =>
        rw [asks?_refused activated admission]
        simp only [timing?_cons, Option.bind_none, Timing.after_none, Option.map_id']
      | action _ _ _ leaf | emptySequence _ _ _ leaf | emptySelector _ _ _ leaf =>
        subst leaf
        simp only [timing?_cons, List.getElem?_nil, Option.bind_none, Option.map_none]
      | @probe context admitted during after answer first asked others activated admission kind split evaluated =>
        subst split
        have selected : (first :: others)[0]? = some first := rfl
        simp only [timing?_cons, asks?_sequence activated admission kind]
        exact timing_set selected (asks selected evaluated).1 index
      | @continued context admitted during after active child asked activated admission kind selected evaluated =>
        simp only [timing?_cons, asks?_sequence activated admission kind]
        exact timing_set selected (asks selected evaluated).1 index
      | @abandoned context admitted during after active child asked activated admission kind selected evaluated =>
        simp only [timing?_cons, asks?_sequence activated admission kind]
        exact timing_set selected ((asks selected evaluated).2.trans (asks selected evaluated).1) index
      | @selector context admitted during after previous winner scanned activated admission kind scan =>
        -- Clearing the child that was chosen before keeps its timing.
        have switched : ((Node.switchTo winner previous scanned after).1[index]?).bind (fun other => other.timing? rest) =
            (scanned[index]?).bind fun other => other.timing? rest := by
          rcases scan.switchTo_eq sound kind with ⟨_, same⟩ | ⟨last, child, _, _, selected, same⟩
          · rw [same]
          · rw [same]
            by_cases here : last = index
            · subst here
              rw [getElem?_set_of_selected selected, selected]
              exact clear_timing (scan.steady below child (List.mem_of_getElem? selected)) after rest
            · rw [List.getElem?_set_ne here]
        simp only [timing?_cons, asks?_selector activated admission kind, switched]
        cases selected : children[index]? with
        | none =>
          have missing : scanned[index]? = none := by
            rw [List.getElem?_eq_none_iff] at selected ⊢
            rwa [scan.length_eq]
          rw [missing]
          rfl
        | some child =>
          rcases scan.asked selected with ⟨_, before, scanning, found⟩ | ⟨_, _, _, scanning, found⟩
          · rw [found, scanning]
            exact ih (below child (List.mem_of_getElem? selected)) before
          · rw [found, scanning]
            simp only [Option.bind_some, Option.bind_none, Timing.after_none, Option.map_id']

theorem Refuse.evaluateFirst_eq {children : List (Node A P)} {world after : W} (refuse : Refuse children world after) :
    ∃ others, Node.evaluateFirst children world = (none, others, after) := by
  induction refuse with
  | nil => exact ⟨[], rfl⟩
  | @cons first asked rest world during after evaluated _ ih =>
    obtain ⟨others, scanning⟩ := ih
    exact ⟨asked :: others, by simp only [Node.evaluateFirst, evaluated, scanning, Option.map_none]⟩

/-- On the way to an action that is granted, every node is asked, and its cooldown check passes. -/
theorem Grants.asked {node : Node A P} {world : W} {path position : Position} (grants : Grants node world path)
    (above : position <+: path) : ∃ timing during check, node.timing? position = some timing ∧
      node.asks? position world = some during ∧ timing.check? during = some check ∧ check.passed = true := by
  -- Every node on the way lets the evaluation pass, so its check passes.
  have here {state admitted : NodeState A P} {children : List (Node A P)} {context : ContextId} {world during : W}
      (admits : Admits state context world admitted during) : ∃ timing before check,
        (mk state children).timing? [] = some timing ∧ (mk state children).asks? [] world = some before ∧
          timing.check? before = some check ∧ check.passed = true :=
    ⟨state.timing, world, _, rfl, rfl, by rw [Timing.check?, NodeState.timing, admits.activated]; rfl, admits.cooled⟩
  induction grants generalizing position with
  | action _ admits _ _ =>
    obtain rfl := List.prefix_nil.mp above
    exact here admits
  | @sequence state admitted children context world during active child path _ admits kind selected _ ih =>
    cases position with
    | nil => exact here admits
    | cons index rest =>
      obtain ⟨rfl, onward⟩ := List.cons_prefix_cons.mp above
      obtain ⟨timing, before, check, known, asked, checks, passed⟩ := ih onward
      refine ⟨timing, before, check, ?_, ?_, checks, passed⟩
      · rw [timing?_cons, selected, Option.bind_some, known]
      · rw [asks?_sequence admits.activated admits.pass_eq kind, if_pos rfl, selected, Option.bind_some, asked]
  | @selector state admitted earlier later context world during before previous child path _ admits kind refuse _ ih =>
    cases position with
    | nil => exact here admits
    | cons index rest =>
      obtain ⟨rfl, onward⟩ := List.cons_prefix_cons.mp above
      obtain ⟨timing, within, check, known, asked, checks, passed⟩ := ih onward
      obtain ⟨others, scanning⟩ := refuse.evaluateFirst_eq
      have selected : (earlier ++ child :: later)[earlier.length]? = some child := by
        rw [List.getElem?_append_right (Nat.le_refl _), Nat.sub_self]
        rfl
      refine ⟨timing, within, check, ?_, ?_, checks, passed⟩
      · rw [timing?_cons, selected, Option.bind_some, known]
      · rw [asks?_selector admits.activated admits.pass_eq kind, List.take_left, scanning, selected]
        exact asked

end Node

end BehaviorTree
