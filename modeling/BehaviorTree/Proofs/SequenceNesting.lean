import BehaviorTree.Proofs.Nesting

/-! A sequence in a sequence is as good as its children in its place, where reading a clock changes
nothing. While the outer sequence is at the inner one, the flat sequence is at the child that the inner
one is at. What the inner sequence clears itself, the outer one clears in vain. -/

set_option autoImplicit false

namespace BehaviorTree

variable {A P W : Type}

/-- Nothing holds the node back by itself. -/
structure NodeState.Free (state : NodeState A P) : Prop where
  gate : state.gate = none
  ready : ∀ last now, Cooldown.ready state.cooldown last now = true

theorem NodeState.Free.of_none {state : NodeState A P} (gate : state.gate = none) (cooldown : state.cooldown = 0) :
    state.Free := by
  refine ⟨gate, fun last now => ?_⟩
  have never : ((0 : Float).isNaN || (0 : Float) ≤ 0) = true := by decide +kernel
  simp only [cooldown, Cooldown.ready, never, if_true]

theorem NodeState.Free.map {B Q : Type} {state : NodeState A P} (free : state.Free) (action : A → B) (probe : P → Q) :
    (state.map action probe).Free := ⟨by simp [NodeState.map, free.gate], free.ready⟩

namespace NodeState

variable [Host W] [Probe W P]

theorem pass_withKind (state : NodeState A P) (kind : Kind A) (context : ContextId) (world : W) :
    pass { state with kind } context world =
      ((state.pass context world).1, { (state.pass context world).2.1 with kind }, (state.pass context world).2.2) := by
  obtain ⟨name, _, gate, cooldown, lastPass, held⟩ := state
  simp only [pass]
  split
  · cases gate <;> rfl
  · rfl

theorem Free.pass {state : NodeState A P} (free : state.Free) (context : ContextId) (world : W) :
    state.pass context world =
      (true, { state with lastPass := some (Host.now context world).1 }, (Host.now context world).2) := by
  simp only [NodeState.pass, free.ready, if_true, passGate, free.gate]

end NodeState

namespace Node

variable [Host W] [Action W A] {state : NodeState A P} {children : List (Node A P)} {child : Node A P}

theorem clearAll_append (front rear : List (Node A P)) (world : W) :
    Node.clearAll (front ++ rear) world =
      ((Node.clearAll front world).1 ++ (Node.clearAll rear (Node.clearAll front world).2).1,
        (Node.clearAll rear (Node.clearAll front world).2).2) := by
  induction front generalizing world with
  | nil => rfl
  | cons first rest ih => simp only [List.cons_append, Node.clearAll, ih]

theorem length_clearAll (children : List (Node A P)) (world : W) :
    (Node.clearAll children world).1.length = children.length := by
  induction children generalizing world with
  | nil => rfl
  | cons first rest ih => simp only [Node.clearAll, List.length_cons, ih]

theorem clearAll_eq_set {index : Nat} (selected : children[index]? = some child)
    (others : ∀ position other, children[position]? = some other → index ≠ position → other.Resting) (world : W) :
    Node.clearAll children world = (children.set index (child.clear world).1, (child.clear world).2) := by
  induction children generalizing index world with
  | nil => cases selected
  | cons first rest ih =>
    cases index with
    | zero =>
      cases selected
      have still : ∀ other ∈ rest, ∀ later : W, other.clear later = (other, later) := fun other member later => by
        obtain ⟨position, found⟩ := List.mem_iff_getElem?.mp member
        exact clear_eq_self (others (position + 1) other found (Nat.succ_ne_zero position).symm) later
      simp only [Node.clearAll, clearAll_eq_self still, List.set_cons_zero]
    | succ index =>
      have first := clear_eq_self (others 0 first rfl (Nat.succ_ne_zero index)) world
      have present : rest[index]? = some child := selected
      have below := ih present (fun position other found different =>
        others (position + 1) other found (fun same => different (Nat.succ.inj same))) world
      simp only [Node.clearAll, first, below, List.set_cons_succ]

/-! A sequence acts on its active child, or on its first one. -/

section Sequence
variable {context : ContextId} {active : Option Nat} (kind : state.kind = .sequence active)
  (selected : children[active.getD 0]? = some child)
include kind selected

theorem clear_sequence (activated : state.context = some context)
    (others : ∀ position other, children[position]? = some other → active.getD 0 ≠ position → other.Resting)
    (world : W) : Node.clear (.mk state children) world =
      (.mk { state with kind := .sequence none } (children.set (active.getD 0) (child.clear world).1),
        (child.clear world).2) := by
  simp only [Node.clear, activated, kind, clearAll_eq_set selected others]

theorem tick_sequence (activated : state.context = some context) (world : W) :
    Node.tick (.mk state children) world =
      match child.tick world with
      | (.running, ticked, after) =>
        (.running, .mk { state with kind := .sequence (some (active.getD 0)) }
          (children.set (active.getD 0) ticked), after)
      | (.ended, ticked, after) =>
        if active.getD 0 + 1 < children.length then
          (.running, .mk { state with kind := .sequence (some (active.getD 0 + 1)) }
            (children.set (active.getD 0) (ticked.clear after).1), (ticked.clear after).2)
        else
          (.ended, .mk { state with kind := .sequence none }
            (children.set (active.getD 0) (ticked.clear after).1), (ticked.clear after).2) := by
  have occupied : children.isEmpty = false := by
    cases children with
    | nil => cases selected
    | cons => rfl
  simp only [Node.tick, activated, kind, occupied, tickAt_eq selected]
  rcases child.tick world with ⟨_ | _, ticked, after⟩
  · rfl
  · have present : (children.set (active.getD 0) ticked)[active.getD 0]? = some ticked :=
      getElem?_set_of_selected selected
    simp only [clearAt_eq present, List.set_set, List.length_set]
    rfl

theorem evaluate_sequence [Probe W P] (activated : state.context = some context) (world : W) :
    Node.evaluate (.mk state children) world =
      match state.pass context world with
      | (false, admitted, during) => (false, .mk admitted children, during)
      | (true, admitted, during) =>
        match child.evaluate during with
        | (true, asked, after) => (true, .mk admitted (children.set (active.getD 0) asked), after)
        | (false, asked, after) =>
          if active.isSome then
            (false, .mk { admitted with kind := .sequence none } (children.set (active.getD 0) (asked.clear after).1),
              (asked.clear after).2)
          else (false, .mk admitted (children.set (active.getD 0) asked), after) := by
  rcases admission : state.pass context world with ⟨_ | _, admitted, during⟩
  · simp only [Node.evaluate, activated, admission]
  · simp only [Node.evaluate, activated, admission, NodeState.pass_kind admission, kind]
    cases active with
    | none =>
      cases children with
      | nil => cases selected
      | cons first rest =>
        cases selected
        simp only [evaluateHead, Option.getD_none, List.set_cons_zero]
        rcases child.evaluate during with ⟨_ | _, asked, after⟩ <;> rfl
    | some index =>
      rw [Option.getD_some] at selected
      simp only [evaluateAt_eq selected, Option.getD_some]
      rcases child.evaluate during with ⟨_ | _, asked, after⟩
      · simp only [clearAt_eq (getElem?_set_of_selected selected), List.set_set, Option.isSome_some, if_true]
      · rfl

/-- Whether a sequence has cleared its child itself or not, when it is cleared it has. -/
theorem clear_refused [Probe W P] (steady : (mk state children).Steady) (admitted : NodeState A P)
    (kept : admitted.kind = state.kind) (held : admitted.context = state.context) {asked : Node A P}
    {during after : W} (asking : child.evaluate during = (false, asked, after)) : ∃ refused later,
      (if active.isSome then
        (false, Node.mk { admitted with kind := .sequence none } (children.set (active.getD 0) (asked.clear after).1),
          (asked.clear after).2)
      else (false, .mk admitted (children.set (active.getD 0) asked), after)) = (false, refused, later) ∧
      refused.clear later =
        (.mk { admitted with kind := .sequence none } (children.set (active.getD 0) (asked.clear after).1),
          (asked.clear after).2) := by
  obtain ⟨context, activated⟩ := (steady_mk.mp steady).1.context_eq
  have others (position : Nat) (other : Node A P) (found : children[position]? = some other) :
      active.getD 0 ≠ position → other.Resting := steady.resting_of_sequence kind found
  by_cases started : active.isSome = true
  · refine ⟨_, _, if_pos started, clear_eq_self ?_ _⟩
    have calm : asked.Steady := by
      have kept := (keeps_evaluate ((steady_mk.mp steady).2 child (List.mem_of_getElem? selected)) during).steady
      rwa [asking] at kept
    exact .of_set { admitted with kind := .sequence none } rfl (by simp [held, activated]) rfl
      (clear_resting calm after) others
  · refine ⟨_, _, if_neg started, ?_⟩
    have present : (children.set (active.getD 0) asked)[active.getD 0]? = some asked :=
      getElem?_set_of_selected selected
    have cleared := clear_sequence (kept.trans kind) present (held.trans activated)
      (fun position other found different =>
        others position other (by rwa [List.getElem?_set_ne different] at found) different) after
    rwa [List.set_set] at cleared

end Sequence

end Node

namespace Nesting

/-- A sequence in a sequence: without gate and cooldown, and not without children. -/
structure Sequences (nesting : Nesting A P) : Prop where
  outer : ∃ active, nesting.outer.kind = .sequence active
  inner : ∃ active, nesting.inner.kind = .sequence active
  free : nesting.inner.Free
  occupied : nesting.within ≠ []

variable {nesting : Nesting A P} {outer inner : NodeState A P} {child : Node A P} {active inside next : Option Nat}
  {index : Nat}

theorem flatState_pass [Host W] [Probe W P] (context : ContextId) (world : W) :
    nesting.flatState.pass context world =
      ((nesting.outer.pass context world).1, { (nesting.outer.pass context world).2.1 with kind := nesting.flatKind },
        (nesting.outer.pass context world).2.2) := NodeState.pass_withKind _ _ _ _

theorem flatKind_sequence (kind : nesting.outer.kind = .sequence active) :
    nesting.flatKind = .sequence (nesting.flatActive active (some (nesting.inner.kind.activeChild.getD 0))) := by
  simp only [flatKind, kind]

theorem flatKind_congr (kept : outer.kind = nesting.outer.kind) :
    { nesting with outer }.flatKind = nesting.flatKind := by
  simp only [flatKind, kept, flatActive, flatIndex]

theorem Sequences.replace (sequences : nesting.Sequences) (kind : outer.kind = .sequence next) :
    Sequences { nesting.replace index child with outer } where
  outer := ⟨next, kind⟩
  inner := by rw [replace_inner]; exact sequences.inner
  free := by rw [replace_inner]; exact sequences.free
  occupied := by rw [replace_within]; exact sequences.occupied

theorem Sequences.within (sequences : nesting.Sequences) (kind : outer.kind = .sequence next)
    (innerKind : inner.kind = .sequence inside) (gate : inner.gate = nesting.inner.gate)
    (cooldown : inner.cooldown = nesting.inner.cooldown) :
    Sequences { nesting with outer, inner, within := nesting.within.set index child } where
  outer := ⟨next, kind⟩
  inner := ⟨inside, innerKind⟩
  free := ⟨gate.trans sequences.free.gate, cooldown ▸ sequences.free.ready⟩
  occupied := (@sameForm_within _ _ nesting index child inner).occupied sequences.occupied

theorem flatKind_replace (kind : outer.kind = .sequence next) :
    { nesting.replace index child with outer }.flatKind =
      .sequence (nesting.flatActive next (some (nesting.inner.kind.activeChild.getD 0))) := by
  have form : (nesting.replace index child).SameForm nesting := sameForm_replace
  have same : SameForm { nesting.replace index child with outer } nesting := ⟨form.before, form.within, form.after⟩
  rw [flatKind_sequence kind, same.flatActive, replace_inner]

variable [Host W] [Action W A] [Probe W P] {context : ContextId}

/-! The outer sequence is at one of its other children. -/

section Outside
variable (sequences : nesting.Sequences) (kind : nesting.outer.kind = .sequence active)
  (activated : nesting.outer.context = some context) (outside : active.getD 0 ≠ nesting.before.length)
  (selected : nesting.children[active.getD 0]? = some child)
include kind outside

omit [Host W] [Action W A] [Probe W P] in
theorem flatKind_outside : nesting.flatKind = .sequence (active.map nesting.flatIndex) := by
  rw [flatKind_sequence kind, flatActive_outside]
  rintro rfl
  exact outside rfl

omit [Host W] [Action W A] [Probe W P] kind in
theorem getD_flatIndex : (active.map nesting.flatIndex).getD 0 = nesting.flatIndex (active.getD 0) := by
  cases active with
  | some index => rfl
  | none =>
    have first : 0 < nesting.before.length := Nat.pos_of_ne_zero fun none => outside none.symm
    simp [flatIndex, first]

omit [Host W] [Action W A] [Probe W P] kind in
include selected in
theorem flatSelected_outside : nesting.flatChildren[(active.map nesting.flatIndex).getD 0]? = some child := by
  rw [getD_flatIndex outside, getElem?_flatIndex outside, selected]

include sequences activated selected

theorem Sequences.evaluate_outside (world : W) :
    Agree Sequences nesting (nesting.nested.evaluate world) (nesting.flat.evaluate world) := by
  have place := getD_flatIndex outside
  have flatSelected := flatSelected_outside outside selected
  have held : nesting.flatState.kind = .sequence (active.map nesting.flatIndex) := flatKind_outside kind outside
  rw [flat, Node.evaluate_sequence held flatSelected activated, flatState_pass, nested,
    Node.evaluate_sequence kind selected activated]
  rcases admission : nesting.outer.pass context world with ⟨_ | _, admitted, during⟩
  · have kept := NodeState.pass_kind admission
    exact .of_after .refl ⟨⟨active, kept.trans kind⟩, sequences.inner, sequences.free, sequences.occupied⟩
      (flatKind_congr kept)
  have kept := (NodeState.pass_kind admission).trans kind
  have still (asked : Node A P) :
      { nesting.replace (active.getD 0) asked with outer := admitted }.flatKind = nesting.flatKind := by
    rw [flatKind_replace kept, flatKind_sequence kind]
  rcases asking : child.evaluate during with ⟨_ | _, asked, after⟩
  · cases active with
    | none => simpa only [asking, place] using .of_outside outside (sequences.replace kept) (still asked)
    | some index =>
      have idle : ({ admitted with kind := .sequence none } : NodeState A P).kind = .sequence none := rfl
      simp only [asking, place, Option.isSome_map, Option.isSome_some, if_true]
      exact .of_outside outside (sequences.replace idle) (flatKind_replace idle)
  · simpa only [asking, place] using Agree.of_outside outside (sequences.replace kept) (still asked)

omit [Probe W P] in
theorem Sequences.tick_outside (steady : nesting.nested.Steady) (world : W) :
    Agree Sequences nesting (nesting.nested.tick world) (nesting.flat.tick world) := by
  -- A sequence that moves on to the inner one finds it idle.
  have place := getD_flatIndex outside
  have flatSelected := flatSelected_outside outside selected
  have held : nesting.flatState.kind = .sequence (active.map nesting.flatIndex) := flatKind_outside kind outside
  have bound := (List.getElem?_eq_some_iff.mp selected).1
  have further : nesting.flatIndex (active.getD 0) + 1 < nesting.flatChildren.length ↔
      active.getD 0 + 1 < nesting.children.length := by
    have some := List.length_pos_iff.mpr sequences.occupied
    rw [length_children] at bound
    rw [length_children, length_flatChildren, flatIndex]
    split <;> omega
  rw [flat, Node.tick_sequence held flatSelected activated, nested, Node.tick_sequence kind selected activated, place]
  have become (next : Option Nat) (replacement : Node A P) : Sequences
      { nesting.replace (active.getD 0) replacement with outer := { nesting.outer with kind := .sequence next } } :=
    sequences.replace rfl
  rcases child.tick world with ⟨_ | _, ticked, after⟩
  · refine .of_outside outside (become _ _) ((flatKind_replace rfl).trans ?_)
    rw [flatActive_outside (mt Option.some.inj outside), Option.map_some]
  · simp only [further]
    split
    · refine .of_outside outside (become _ _) ((flatKind_replace rfl).trans (congrArg Kind.sequence ?_))
      -- If the inner sequence is next, it is idle, and the flat sequence goes on to its first child.
      have idle : nesting.inner.kind.activeChild = none :=
        Kind.activeChild_of_idle (Node.atRest_mk.mp (steady.resting_of_sequence kind getElem?_inner outside).atRest).1
      by_cases reached : active.getD 0 + 1 = nesting.before.length
      · have early : active.getD 0 < nesting.before.length := by omega
        rw [reached, flatActive_here, idle, flatIndex, if_pos early, reached]
        rfl
      · rw [flatActive_outside (mt Option.some.inj reached), Option.map_some, flatIndex, flatIndex]
        congr 1
        split <;> split <;> omega
    · exact .of_outside outside (become _ _) ((flatKind_replace rfl).trans rfl)

end Outside

/-! The outer sequence is at the inner one. -/

section Inside
variable (sequences : nesting.Sequences) (kind : nesting.outer.kind = .sequence active)
  (innerKind : nesting.inner.kind = .sequence inside) (activated : nesting.outer.context = some context)
  (steady : nesting.nested.Steady) (here : active.getD 0 = nesting.before.length)
  (selected : nesting.within[inside.getD 0]? = some child)
include kind innerKind steady here

omit [Host W] [Action W A] [Probe W P] here in
theorem active_of_started (started : inside.isSome = true) : active = some nesting.before.length := by
  obtain ⟨sound, _⟩ := Node.steady_mk.mp steady
  have running : nesting.inner.kind.isRunning = true := by rw [innerKind]; exact started
  by_contra inactive
  rcases sound.others _ _ getElem?_inner (by simpa [Node.activeChild, kind, Kind.activeChild] using inactive) with
    resting | ⟨_, _, probed⟩
  · exact absurd running (by simp [(Node.atRest_mk.mp resting).1])
  · exact absurd ((Node.probed_mk.mp probed).1 running) (by simp [innerKind, Kind.isSelector])

omit [Host W] [Action W A] [Probe W P] steady in
theorem flatKind_inside :
    nesting.flatKind = .sequence (active.map fun _ => nesting.before.length + inside.getD 0) := by
  rw [flatKind_sequence kind, innerKind]
  cases active with
  | none => rfl
  | some index =>
    obtain rfl : index = nesting.before.length := here
    rw [flatActive_here]
    rfl

omit [Host W] [Action W A] [Probe W P] in
theorem getD_within : (active.map fun _ => nesting.before.length + inside.getD 0).getD 0 =
    nesting.before.length + inside.getD 0 := by
  cases active with
  | some index => rfl
  | none =>
    have first : nesting.before.length = 0 := here.symm
    cases inside with
    | none => simp [first]
    | some index => cases active_of_started kind innerKind steady rfl

omit [Host W] [Action W A] [Probe W P] in
include selected in
theorem flatSelected_inside :
    nesting.flatChildren[(active.map fun _ => nesting.before.length + inside.getD 0).getD 0]? = some child := by
  rw [getD_within kind innerKind steady here, getElem?_within (List.getElem?_eq_some_iff.mp selected).1, selected]

omit [Host W] [Action W A] [Probe W P] kind innerKind steady in
theorem outerSelected_inside : nesting.children[active.getD 0]? = some (.mk nesting.inner nesting.within) := by
  rw [here, getElem?_inner]

include sequences activated selected

theorem Sequences.evaluate_inside (still : ∀ (context : ContextId) (world : W), (Host.now context world).2 = world)
    (world : W) : Agree Sequences nesting (nesting.nested.evaluate world) (nesting.flat.evaluate world) := by
  have place := getD_within kind innerKind steady here
  have bound := (List.getElem?_eq_some_iff.mp selected).1
  have flatSelected := flatSelected_inside kind innerKind steady here selected
  have held : nesting.flatState.kind = .sequence (active.map fun _ => nesting.before.length + inside.getD 0) :=
    flatKind_inside kind innerKind here
  obtain ⟨innerContext, innerActivated⟩ := (Node.steady_mk.mp (steady_inner steady)).1.context_eq
  rw [flat, Node.evaluate_sequence held flatSelected activated, flatState_pass, nested,
    Node.evaluate_sequence kind (outerSelected_inside here) activated]
  rcases admission : nesting.outer.pass context world with ⟨_ | _, admitted, during⟩
  · have kept := NodeState.pass_kind admission
    exact .of_after .refl ⟨⟨active, kept.trans kind⟩, sequences.inner, sequences.free, sequences.occupied⟩
      (flatKind_congr kept)
  have kept := (NodeState.pass_kind admission).trans kind
  simp only [Node.evaluate_sequence innerKind selected innerActivated, sequences.free.pass, still, place, here]
  -- Neither the child nor the time of the inner pass decides where the flat sequence is.
  have stays (asked : Node A P) (lastPass : Option Float) : { nesting with
      outer := admitted
      inner := { nesting.inner with lastPass }
      within := nesting.within.set (inside.getD 0) asked }.flatKind = nesting.flatKind := by
    rw [flatKind_sequence kept, flatKind_sequence kind]
    simp only [flatActive, flatIndex, List.length_set]
  rcases asking : child.evaluate during with ⟨_ | _, asked, after⟩
  · -- The inner sequence may have cleared the child itself; if the outer one clears, it is cleared once.
    obtain ⟨refused, later, result, cleared⟩ := Node.clear_refused innerKind selected (steady_inner steady)
      { nesting.inner with lastPass := some (Host.now innerContext during).1 } rfl rfl asking
    simp only [result]
    by_cases started : active.isSome = true
    · simp only [started, Option.isSome_map, if_true, cleared]
      have reset : ({ admitted with kind := .sequence none } : NodeState A P).kind = .sequence none := rfl
      have idle : ({ nesting.inner with lastPass := some (Host.now innerContext during).1, kind := .sequence none } :
        NodeState A P).kind = .sequence none := rfl
      exact .of_inside bound (sequences.within reset idle rfl rfl) rfl
    · obtain rfl : active = none := by simpa using started
      have idle : ¬ inside.isSome = true := fun busy => by cases active_of_started kind innerKind steady busy
      rw [if_neg idle] at result
      obtain ⟨_, same⟩ := Prod.mk.inj result
      obtain ⟨rfl, rfl⟩ := Prod.mk.inj same
      exact .of_inside bound (sequences.within kept innerKind rfl rfl) (stays _ _)
  · exact .of_inside bound (sequences.within kept innerKind rfl rfl) (stays _ _)

omit [Probe W P] in
theorem Sequences.tick_inside (world : W) :
    Agree Sequences nesting (nesting.nested.tick world) (nesting.flat.tick world) := by
  have place := getD_within kind innerKind steady here
  have bound := (List.getElem?_eq_some_iff.mp selected).1
  have flatSelected := flatSelected_inside kind innerKind steady here selected
  have held : nesting.flatState.kind = .sequence (active.map fun _ => nesting.before.length + inside.getD 0) :=
    flatKind_inside kind innerKind here
  obtain ⟨innerContext, innerActivated⟩ := (Node.steady_mk.mp (steady_inner steady)).1.context_eq
  rw [flat, Node.tick_sequence held flatSelected activated, nested,
    Node.tick_sequence kind (outerSelected_inside here) activated, Node.tick_sequence innerKind selected innerActivated,
    place, here, length_flatChildren, length_children]
  have sort (next within : Option Nat) (replacement : Node A P) : Sequences { nesting with
      outer := { nesting.outer with kind := .sequence next }
      inner := { nesting.inner with kind := .sequence within }
      within := nesting.within.set (inside.getD 0) replacement } := sequences.within rfl rfl rfl rfl
  -- The child goes on, or the inner sequence moves on, or it ends and the outer one moves on.
  rcases ticking : child.tick world with ⟨_ | _, ticked, after⟩
  · exact .of_inside bound (sort _ _ _) ((flatKind_sequence rfl).trans (congrArg Kind.sequence flatActive_here))
  by_cases more : inside.getD 0 + 1 < nesting.within.length
  · have further : nesting.before.length + inside.getD 0 + 1 <
        nesting.before.length + (nesting.within.length + nesting.after.length) := by omega
    simp only [more, further, if_true]
    exact .of_inside bound (sort _ _ _) ((flatKind_sequence rfl).trans (congrArg Kind.sequence flatActive_here))
  · -- The inner sequence has ended and is at rest: clearing it again does nothing.
    have calm : ticked.Steady := by
      have held := (Node.steady_mk.mp (steady_inner steady)).2 child (List.mem_of_getElem? selected)
      have kept := (Node.tick_steady held world).1
      rwa [ticking] at kept
    have resting : (Node.mk { nesting.inner with kind := .sequence none }
        (nesting.within.set (inside.getD 0) (ticked.clear after).1)).Resting :=
      .of_set _ rfl (by simp [innerActivated]) rfl (Node.clear_resting calm after)
        fun position other found different => (steady_inner steady).resting_of_sequence innerKind found different
    have further : nesting.before.length + inside.getD 0 + 1 <
          nesting.before.length + (nesting.within.length + nesting.after.length) ↔
        nesting.before.length + 1 < nesting.before.length + (nesting.after.length + 1) := by omega
    simp only [more, if_false, Node.clear_eq_self resting, further]
    split
    · refine .of_inside bound (sort _ _ _) ((flatKind_sequence rfl).trans (congrArg Kind.sequence ?_))
      rw [flatActive_outside (by simp), Option.map_some, flatIndex]
      simp only [List.length_set]
      congr 1
      split <;> omega
    · exact .of_inside bound (sort _ _ _) ((flatKind_sequence rfl).trans rfl)

end Inside

omit [Probe W P] in
theorem Sequences.clear_agree (sequences : nesting.Sequences) (steady : nesting.nested.Steady) (world : W) :
    Agree Sequences nesting ((), nesting.nested.clear world) ((), nesting.flat.clear world) := by
  -- A sequence clears all its children in order, and so does a sequence in it.
  obtain ⟨active, kind⟩ := sequences.outer
  obtain ⟨inside, innerKind⟩ := sequences.inner
  obtain ⟨context, activated⟩ := (Node.steady_mk.mp steady).1.context_eq
  obtain ⟨innerContext, innerActivated⟩ := (Node.steady_mk.mp (steady_inner steady)).1.context_eq
  have held : nesting.flatState.kind = .sequence _ := flatKind_sequence kind
  have same : nesting.flatState.context = some context := activated
  rcases first : Node.clearAll nesting.before world with ⟨before, second⟩
  rcases middle : Node.clearAll nesting.within second with ⟨within, third⟩
  rcases last : Node.clearAll nesting.after third with ⟨after, final⟩
  have lengths := fun (children : List (Node A P)) (world : W) => Node.length_clearAll children world
  let cleared : Nesting A P :=
    ⟨{ nesting.outer with kind := .sequence none }, { nesting.inner with kind := .sequence none }, before, within,
      after⟩
  have form : cleared.SameForm nesting := by
    refine ⟨?_, ?_, ?_⟩
    · rw [← lengths nesting.before world, first]
    · rw [← lengths nesting.within second, middle]
    · rw [← lengths nesting.after third, last]
  have sorted : cleared.Sequences :=
    ⟨⟨_, rfl⟩, ⟨_, rfl⟩, ⟨sequences.free.gate, sequences.free.ready⟩, form.occupied sequences.occupied⟩
  refine ⟨(), cleared, final, sorted, form, ?_, ?_⟩
  · simp only [cleared, nested, Node.clear, activated, kind, children, Node.clearAll_append, Node.clearAll, first,
      innerActivated, innerKind, middle, last]
  · simp only [flat, Node.clear, same, held, flatChildren, Node.clearAll_append, first, middle, last]
    rw [← same]
    rfl

omit [Host W] [Action W A] [Probe W P] in
theorem Sequences.located (sequences : nesting.Sequences) (steady : nesting.nested.Steady) :
    ∃ (active inside : Option Nat) (context : ContextId), nesting.outer.kind = .sequence active ∧
      nesting.inner.kind = .sequence inside ∧ nesting.outer.context = some context ∧
      active.getD 0 < nesting.children.length ∧ inside.getD 0 < nesting.within.length := by
  obtain ⟨active, kind⟩ := sequences.outer
  obtain ⟨inside, innerKind⟩ := sequences.inner
  have sound := (Node.steady_mk.mp steady).1
  have inner := (Node.steady_mk.mp (steady_inner steady)).1
  obtain ⟨context, activated⟩ := sound.context_eq
  refine ⟨active, inside, context, kind, innerKind, activated, ?_, ?_⟩
  · cases active with
    | none => rw [length_children]; exact Nat.lt_of_lt_of_le (Nat.succ_pos _) (Nat.le_add_left _ _)
    | some index => exact sound.bounded index (by simp [Node.activeChild, kind, Kind.activeChild])
  · cases inside with
    | none => exact List.length_pos_iff.mpr sequences.occupied
    | some index => exact inner.bounded index (by simp [Node.activeChild, innerKind, Kind.activeChild])

theorem sequences_interchangeable (still : ∀ (context : ContextId) (world : W), (Host.now context world).2 = world) :
    Interchangeable W (Sequences : Nesting A P → Prop) where
  evaluate nesting sequences steady world := by
    obtain ⟨active, inside, context, kind, innerKind, activated, bound, started⟩ := sequences.located steady
    by_cases here : active.getD 0 = nesting.before.length
    · exact sequences.evaluate_inside kind innerKind activated steady here (List.getElem?_eq_getElem started) still
        world
    · exact sequences.evaluate_outside kind activated here (List.getElem?_eq_getElem bound) world
  tick nesting sequences steady world := by
    obtain ⟨active, inside, context, kind, innerKind, activated, bound, started⟩ := sequences.located steady
    by_cases here : active.getD 0 = nesting.before.length
    · exact sequences.tick_inside kind innerKind activated steady here (List.getElem?_eq_getElem started) world
    · exact sequences.tick_outside kind activated here (List.getElem?_eq_getElem bound) steady world
  clear nesting sequences steady world := sequences.clear_agree steady world

omit [Host W] [Action W A] [Probe W P] in
theorem Sequences.placed (sequences : nesting.Sequences) : nesting.placed.Sequences := by
  obtain ⟨⟨active, kind⟩, ⟨inside, innerKind⟩, free, occupied⟩ := sequences
  refine ⟨⟨active, ?_⟩, ⟨inside, ?_⟩, free.map _ _, Node.placeFrom_ne_nil occupied⟩
  · simp [Nesting.placed, NodeState.map, kind, Kind.map]
  · simp [Nesting.placed, NodeState.map, innerKind, Kind.map]

/-- Nesting sequences is associative. Both trees are started alike and called alike, in an environment in
which reading a clock changes nothing. -/
theorem play_sequences (still : ∀ (context : ContextId) (world : W), (Host.now context world).2 = world)
    {nesting : Nesting A P} (outer : nesting.outer.kind = .sequence none) (inner : nesting.inner.kind = .sequence none)
    (free : nesting.inner.Free) (occupied : nesting.within ≠ []) (built : nesting.nested.Built)
    (context : ContextId) (world : W) (calls : List (Call W)) :
    Tree.playAnswers nesting.nested context world calls =
        Tree.playAnswers (.mk nesting.outer nesting.flatChildren) context world calls ∧
      ((Tree.playHistory nesting.nested context world calls).map (Entry.relabel nesting.flatPosition)).filter
          (fun entry => !entry.isClock) =
        (Tree.playHistory (.mk nesting.outer nesting.flatChildren) context world calls).filter
          (fun entry => !entry.isClock) ∧
      ∃ (after : Nesting A P) (later : W), after.SameForm nesting ∧
        Tree.play nesting.nested context world calls = (after.nestedIn context, later) ∧
        Tree.play (.mk nesting.outer nesting.flatChildren) context world calls = (after.flatIn context, later) := by
  -- The requests are compared without readings of the clock, of which the nested tree makes more.
  have silent (context : ContextId) (ledger : Ledger Position W fun entry => !entry.isClock) :
      (Host.now context ledger).2 = ledger := ledger.now_eq rfl (still context ledger.world)
  have known (started : Nesting A P) (form : started.SameForm nesting)
      (top : ∃ gate context, started.outer = { nesting.outer with gate, context })
      (middle : ∃ context, started.inner = { nesting.inner with context }) : started.Sequences := by
    obtain ⟨gate, context, top⟩ := top
    obtain ⟨innerContext, middle⟩ := middle
    exact ⟨⟨none, by rw [top, outer]⟩, ⟨none, by rw [middle, inner]⟩, middle ▸ ⟨free.gate, free.ready⟩,
      form.occupied occupied⟩
  obtain ⟨answers, history, after, one, other, form, same, nestedRun, flatRun⟩ :=
    play_agree (Simulates.refl (W := W) (A := A) (P := P)) (sequences_interchangeable still)
      (sequences_interchangeable silent) (fun _ sequences => sequences.placed)
      ⟨.inl outer, inner.trans outer.symm, free.gate⟩ built known context world
      (List.forall₂_same.mpr fun next _ => next.alike_self)
  obtain rfl : one = other := same
  exact ⟨answers, history, after, one, form, nestedRun, flatRun⟩

/-! A delivery with a visit on its way. Each of its actions ends when it is executed. -/

def errand (name : String) : Node Script.Performer Script.Sensor :=
  Node.fresh name (.action (.fresh (.callback ⟨name, [], none, [], []⟩ .start)))

def delivery : Nesting Script.Performer Script.Sensor where
  outer := ((Node.fresh "delivery" (.sequence none)).withGate (some (.constant true))).state
  inner := (Node.fresh "visit" (.sequence none)).state
  before := [errand "load"]
  within := [errand "ring", errand "hand over"]
  after := [errand "return"]

def delivered : Node Script.Performer Script.Sensor := .mk delivery.outer delivery.flatChildren

/-- The delivery with the visit in it takes the steps of the flat one, and does the same in them. -/
theorem delivery_delivered : Tree.playAnswers delivery.nested 0 World.post [.step, .step, .step, .step] =
      [.stepped (some .running), .stepped (some .running), .stepped (some .running), .stepped (some .ended)] ∧
    ((Tree.playHistory delivery.nested 0 World.post [.step, .step]).map (Entry.relabel delivery.flatPosition)).filter
        (fun entry => !entry.isClock) =
      (Tree.playHistory delivered 0 World.post [.step, .step]).filter (fun entry => !entry.isClock) := by
  have alike := play_sequences (fun _ _ => rfl) (show delivery.outer.kind = .sequence none from rfl) rfl
    (.of_none rfl rfl) (by simp [delivery]) (by decide) 0 World.post
  exact ⟨(alike _).1.trans (by decide +kernel), (alike _).2.1⟩

/-! Where time goes on while a tree is evaluated, the two can be told apart: a nested sequence reads the clock for
itself, so what is in it is asked later. -/

/-- An environment whose clock goes on by one at every reading. -/
structure Restless where
  time : Float

instance : Host Restless where
  now _ restless := (restless.time, ⟨restless.time + 1⟩)
  flag _ _ _ := false
  report _ _ _ restless := restless
  visit _ restless := restless
  fault restless := restless

instance : Action Restless Unit := {}

instance : Probe Restless Unit where
  check _ _ restless := (true, (), restless)

def round : Nesting Unit Unit where
  outer := (Node.fresh "round" (.sequence none)).state
  inner := (Node.fresh "visit" (.sequence none)).state
  before := []
  within := [(Node.fresh "call" (.action (.fresh ()))).withCooldown 3]
  after := []

/-- The call is asked at 2 and at 5 in the visit, and without the visit at 1 and at 3, when it still cools down. -/
theorem round_told_apart : round.outer.kind = .sequence none ∧ round.inner.kind = .sequence none ∧
    round.inner.Free ∧ round.within ≠ [] ∧ round.nested.Built ∧
    Tree.playAnswers round.nested 0 (⟨0⟩ : Restless) [.evaluate, .evaluate] = [.eligible true, .eligible true] ∧
    Tree.playAnswers (.mk round.outer round.flatChildren) 0 (⟨0⟩ : Restless) [.evaluate, .evaluate] =
      [.eligible true, .eligible false] :=
  ⟨rfl, rfl, .of_none rfl rfl, by simp [round], by decide, by decide +kernel, by decide +kernel⟩

end Nesting

end BehaviorTree
