import BehaviorTree.Proofs.Discretion
import BehaviorTree.Proofs.SequenceNesting

/-! A selector in a selector is as good as its children in its place, in a discreet environment. Both
choose the same child. The inner selector may give up its choice before the children after it are asked,
where the flat selector gives it up only then; those children are at rest and do not notice. -/

set_option autoImplicit false

namespace BehaviorTree

variable {A P V W : Type}

namespace Node

variable [Host W] [Action W A] {state : NodeState A P} {children : List (Node A P)} {child : Node A P}
  {context : ContextId}

def release (active : Option Nat) (children : List (Node A P)) (world : W) : List (Node A P) × W :=
  match active with
  | none => (children, world)
  | some index => Node.clearAt index children world

theorem clear_selector {active : Option Nat} (kind : state.kind = .selector active)
    (activated : state.context = some context) (world : W) :
    Node.clear (.mk state children) world =
      (.mk { state with kind := .selector none } (release active children world).1,
        (release active children world).2) := by
  obtain ⟨name, _, gate, cooldown, lastPass, _⟩ := state
  obtain rfl := kind
  obtain rfl := activated
  cases active <;> rfl

theorem tick_selector {index : Nat} (kind : state.kind = .selector (some index))
    (selected : children[index]? = some child) (activated : state.context = some context) (world : W) :
    Node.tick (.mk state children) world =
      match child.tick world with
      | (.running, ticked, after) => (.running, .mk state (children.set index ticked), after)
      | (.ended, ticked, after) =>
        (.ended, .mk { state with kind := .selector none } (children.set index (ticked.clear after).1),
          (ticked.clear after).2) := by
  simp only [Node.tick, activated, kind, tickAt_eq selected]
  rcases child.tick world with ⟨_ | _, ticked, after⟩
  · rfl
  · simp only [clearAt_eq (getElem?_set_of_selected selected), List.set_set]

variable [Probe W P]

end Node

namespace Nesting

/-- A selector in a selector: without gate and cooldown, and not without children. -/
structure Selectors (nesting : Nesting A P) : Prop where
  outer : ∃ active, nesting.outer.kind = .selector active
  inner : ∃ active, nesting.inner.kind = .selector active
  free : nesting.inner.Free
  occupied : nesting.within ≠ []

/-- Which children of both selectors are active; they exist. -/
structure Choosing (nesting : Nesting A P) (active inside : Option Nat) (context : ContextId) : Prop where
  inner : nesting.inner.kind = .selector inside
  activated : nesting.inner.context = some context
  bounded : ∀ index, active = some index → index < nesting.children.length
  innerBounded : ∀ index, inside = some index → index < nesting.within.length

variable {nesting : Nesting A P} {outer : NodeState A P} {active inside next : Option Nat} {index : Nat}
  {context : ContextId}

theorem flatKind_selector (kind : nesting.outer.kind = .selector active) :
    nesting.flatKind = .selector (nesting.flatActive active nesting.inner.kind.activeChild) := by
  simp only [flatKind, kind]

theorem flatState_selector (kind : nesting.outer.kind = .selector active)
    (innerKind : nesting.inner.kind = .selector inside) :
    nesting.flatState = { nesting.outer with kind := .selector (nesting.flatActive active inside) } := by
  rw [flatState, flatKind_selector kind, innerKind]
  rfl

namespace Choosing

theorem outerChild (choosing : nesting.Choosing active inside context) (chosen : active = some index) :
    ∃ child, nesting.children[index]? = some child :=
  ⟨_, List.getElem?_eq_getElem (choosing.bounded index chosen)⟩

theorem innerChild (choosing : nesting.Choosing active inside context) (chosen : inside = some index) :
    ∃ child, nesting.within[index]? = some child :=
  ⟨_, List.getElem?_eq_getElem (choosing.innerBounded index chosen)⟩

end Choosing

theorem Selectors.agree {R : Type} {answer : R} {after : Nesting A P} {flatNext : Option Nat} {world : W}
    (selectors : nesting.Selectors) (form : after.SameForm nesting) (kind : outer.kind = .selector next)
    (innerKind : after.inner.kind = .selector inside) (free : after.inner.Free)
    (flat : nesting.flatActive next inside = flatNext) :
    Agree Selectors nesting (answer, .mk outer after.children, world)
      (answer, .mk { outer with kind := .selector flatNext } after.flatChildren, world) := by
  refine .of_after form ⟨⟨next, kind⟩, ⟨inside, innerKind⟩, free, form.occupied selectors.occupied⟩
    ((flatKind_selector kind).trans ?_)
  have same : SameForm { after with outer } nesting := ⟨form.before, form.within, form.after⟩
  rw [same.flatActive, innerKind, ← flat]
  rfl

theorem Selectors.choosing (selectors : nesting.Selectors) (steady : nesting.nested.Steady) :
    ∃ (active inside : Option Nat) (context innerContext : ContextId), nesting.outer.kind = .selector active ∧
      nesting.outer.context = some context ∧ nesting.Choosing active inside innerContext ∧
      (active ≠ some nesting.before.length → inside = none) := by
  obtain ⟨active, kind⟩ := selectors.outer
  obtain ⟨inside, innerKind⟩ := selectors.inner
  have sound := (Node.steady_mk.mp steady).1
  have inner := (Node.steady_mk.mp (steady_inner steady)).1
  obtain ⟨context, activated⟩ := sound.context_eq
  obtain ⟨innerContext, innerActivated⟩ := inner.context_eq
  refine ⟨active, inside, context, innerContext, kind, activated, ⟨innerKind, innerActivated, fun index chosen => ?_,
    fun index chosen => ?_⟩, fun other => ?_⟩
  · exact sound.bounded index (by simp [Node.activeChild, kind, Kind.activeChild, chosen])
  · exact inner.bounded index (by simp [Node.activeChild, innerKind, Kind.activeChild, chosen])
  · have resting := (Node.atRest_mk.mp (steady.resting_of_selector kind getElem?_inner other).atRest).1
    simpa [innerKind, Kind.isRunning] using resting

variable [Host W] [Action W A]

/-- The active child is cleared in both trees. Only the inner selector may change besides, if it was active:
it has no active child then. -/
theorem release_agree (choosing : nesting.Choosing active inside context) (world : W) :
    ∃ (after : Nesting A P) (later : W), after.SameForm nesting ∧
      (after.inner = nesting.inner ∨
        active = some nesting.before.length ∧ after.inner = { nesting.inner with kind := .selector none }) ∧
      Node.release active nesting.children world = (after.children, later) ∧
      Node.release (nesting.flatActive active inside) nesting.flatChildren world = (after.flatChildren, later) := by
  cases active with
  | none => exact ⟨nesting, world, .refl, .inl rfl, rfl, rfl⟩
  | some index =>
    by_cases here : index = nesting.before.length
    · subst here
      have cleared := @Node.clear_selector A P W _ _ _ nesting.within _ _ choosing.inner choosing.activated world
      let idle : NodeState A P := { nesting.inner with kind := .selector none }
      rw [flatActive_here]
      cases inside with
      | none =>
        -- Without a choice of its own, the inner selector is cleared in vain.
        refine ⟨{ nesting with inner := idle }, world, ⟨rfl, rfl, rfl⟩, .inr ⟨rfl, rfl⟩, ?_, rfl⟩
        simp only [Node.release, Node.clearAt_eq getElem?_inner, cleared, children_set_inner, idle]
      | some inside =>
        have bound := choosing.innerBounded inside rfl
        obtain ⟨child, selected⟩ := choosing.innerChild rfl
        refine ⟨{ nesting with inner := idle, within := nesting.within.set inside (child.clear world).1 },
          (child.clear world).2, sameForm_within, .inr ⟨rfl, rfl⟩, ?_, ?_⟩
        · simp only [Node.release, Node.clearAt_eq getElem?_inner, cleared, Node.clearAt_eq selected,
            children_set_inner, idle]
        · simp only [Node.release, Option.map_some, Node.clearAt_eq ((getElem?_within bound).trans selected),
            ← flatChildren_set_within bound]
          rfl
    · obtain ⟨child, selected⟩ := choosing.outerChild rfl
      rw [flatActive_outside (mt Option.some.inj here)]
      refine ⟨nesting.replace index (child.clear world).1, (child.clear world).2, sameForm_replace,
        .inl replace_inner, ?_, ?_⟩
      · simp only [Node.release, Node.clearAt_eq selected, children_replace here]
      · simp only [Node.release, Option.map_some, Node.clearAt_eq ((getElem?_flatIndex here).trans selected),
          flatChildren_replace here]

theorem Selectors.clear_agree (selectors : nesting.Selectors) (steady : nesting.nested.Steady) (world : W) :
    Agree Selectors nesting ((), nesting.nested.clear world) ((), nesting.flat.clear world) := by
  obtain ⟨active, inside, context, innerContext, kind, activated, choosing, _⟩ := selectors.choosing steady
  obtain ⟨after, later, form, inner, released, also⟩ := release_agree choosing world
  have held : nesting.flatState.kind = .selector _ := congrArg NodeState.kind (flatState_selector kind choosing.inner)
  have flatActivated : nesting.flatState.context = some context := activated
  rw [nested, Node.clear_selector kind activated, released, flat, Node.clear_selector held flatActivated, also]
  have idle : ({ nesting.outer with kind := .selector none } : NodeState A P).kind = .selector none := rfl
  rcases inner with inner | ⟨_, inner⟩
  · exact selectors.agree form idle (inner ▸ choosing.inner) (inner ▸ selectors.free) rfl
  · have empty : after.inner.kind = .selector none := by rw [inner]
    exact selectors.agree form idle empty (inner ▸ ⟨selectors.free.gate, selectors.free.ready⟩) rfl

section Ticks
variable (selectors : nesting.Selectors) (choosing : nesting.Choosing active inside context)
  {outerContext : ContextId} (activated : nesting.outer.context = some outerContext)
include selectors choosing activated

theorem Selectors.tick_outside (kind : nesting.outer.kind = .selector (some index)) (chosen : active = some index)
    (outside : index ≠ nesting.before.length) (world : W) :
    Agree Selectors nesting (nesting.nested.tick world) (nesting.flat.tick world) := by
  obtain ⟨child, selected⟩ := choosing.outerChild chosen
  have flatState := flatState_selector kind choosing.inner
  rw [flatActive_outside (mt Option.some.inj outside)] at flatState
  have held : nesting.flatState.kind = .selector (some (nesting.flatIndex index)) := congrArg NodeState.kind flatState
  have released : ({ nesting.outer with kind := .selector none } : NodeState A P).kind = .selector none := rfl
  have same (child : Node A P) : (nesting.replace index child).inner = nesting.inner := replace_inner
  rw [nested, flat, Node.tick_selector kind selected activated,
    Node.tick_selector held ((getElem?_flatIndex outside).trans selected) activated]
  rcases child.tick world with ⟨_ | _, ticked, after⟩
  · simp only [← children_replace outside, ← flatChildren_replace outside, flatState]
    exact selectors.agree sameForm_replace kind (same ticked ▸ choosing.inner) (same ticked ▸ selectors.free)
      (flatActive_outside (mt Option.some.inj outside))
  · simp only [← children_replace outside, ← flatChildren_replace outside]
    exact selectors.agree sameForm_replace released (same _ ▸ choosing.inner) (same _ ▸ selectors.free) rfl

end Ticks

section Choice

variable {winner : Option Nat}

variable [Probe W P]

section Cases
variable (selectors : nesting.Selectors) (choosing : nesting.Choosing active inside context)
include selectors choosing

section Asked
variable (reading : ∀ (context : ContextId) (world : W), (Host.now context world).2 = world)
  (alone : active ≠ some nesting.before.length → inside = none)
  {world during between : W} {before within : List (Node A P)}
  (scan : Node.evaluateFirst nesting.before world = (none, before, during))
include reading alone scan

end Asked

end Cases

end Choice

variable [Probe W P]

omit [Host W] [Action W A] [Probe W P] in
theorem Selectors.placed (selectors : nesting.Selectors) : nesting.placed.Selectors := by
  obtain ⟨⟨active, kind⟩, ⟨inside, innerKind⟩, free, occupied⟩ := selectors
  refine ⟨⟨active, ?_⟩, ⟨inside, ?_⟩, free.map _ _, Node.placeFrom_ne_nil occupied⟩
  · simp [Nesting.placed, NodeState.map, kind, Kind.map]
  · simp [Nesting.placed, NodeState.map, innerKind, Kind.map]

end Nesting

/-! A watch with a lamp. Its duties count how often they are executed and exited, and write that down; what
was written down cannot be seen. -/

structure Duty where
  label : String
  executed : Nat
  exited : Nat

/-- The world without its log. -/
structure Unlogged where
  world : World

instance : Action World Duty where
  execute duty _ world :=
    (.running, { duty with executed := duty.executed + 1 }, world.write (.hook .execute duty.label))
  exit duty _ world := ({ duty with exited := duty.exited + 1 }, world.write (.hook .exit duty.label))

instance : Host Unlogged where
  now context unlogged := (unlogged.world.now context, unlogged)
  flag context key unlogged := unlogged.world.flag context key
  report _ _ _ unlogged := unlogged
  visit _ unlogged := unlogged
  fault unlogged := unlogged

instance : Action Unlogged Duty where
  execute duty _ unlogged := (.running, { duty with executed := duty.executed + 1 }, unlogged)
  exit duty _ unlogged := ({ duty with exited := duty.exited + 1 }, unlogged)

instance : Probe Unlogged Script.Sensor where
  check sensor _ unlogged :=
    (Script.answerAt sensor.answers sensor.asked true, { sensor with asked := sensor.asked + 1 }, unlogged)

theorem Unlogged.discreet : Discreet Unlogged Duty Script.Sensor where
  reading _ _ := rfl
  report _ _ _ _ := rfl
  exit _ _ :=
    { now := fun _ => ⟨fun _ => rfl, fun _ => rfl, fun _ => rfl⟩
      flag := fun _ _ => ⟨fun _ => rfl, fun _ => rfl, fun _ => rfl⟩
      check := fun _ _ => ⟨fun _ => rfl, fun _ => rfl, fun _ => rfl⟩
      probe := fun _ _ => ⟨fun _ => rfl, fun _ => rfl, fun _ => rfl⟩ }

def duty (name : String) : Node Duty Script.Sensor := Node.fresh name (.action (.fresh ⟨name, 0, 0⟩))

def watch : Nesting Duty Script.Sensor where
  outer := (Node.fresh "watch" (.selector none)).state
  inner := (Node.fresh "lookout" (.selector none)).state
  before := []
  within := [(duty "scan").withGate (some (.flag "lamp"))]
  after := [duty "rest"]

end BehaviorTree
