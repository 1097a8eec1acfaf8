import BehaviorTree.Proofs.Subtree

/-! Run state in a tree. At rest, nothing runs. Between two calls run state lies along one path: the
active child of a node may run, and all other children are at rest. There is one exception. A
sequence that has not started asks its first child whether it could, and selectors below that child
keep the choice that they made for the answer. A tree may have gained children that are not activated.
No call reaches what is below such a node, and it stays at rest. -/

set_option autoImplicit false

namespace BehaviorTree

def Kind.isSelector {A : Type} : Kind A → Bool
  | .selector _ => true
  | _ => false

theorem Kind.isRunning_of_activeChild {A : Type} {kind : Kind A} {index : Nat}
    (active : kind.activeChild = some index) : kind.isRunning = true := by
  cases kind with
  | sequence chosen | selector chosen => exact Option.isSome_of_mem active
  | action lifecycle | inert | relay most least => cases active

theorem Kind.activeChild_of_idle {A : Type} {kind : Kind A} (idle : kind.isRunning = false) :
    kind.activeChild = none := by
  cases chosen : kind.activeChild with
  | none => rfl
  | some index => exact absurd (isRunning_of_activeChild chosen) (by simp [idle])

namespace Node

variable {A P : Type}

def isCore : Node A P → Bool
  | .mk state children =>
    match state.kind with
    | .action _ => children.isEmpty
    | .sequence _ | .selector _ => true
    | .inert | .relay _ _ => false

/-- No action is running and no composite has an active child. -/
def AtRest (node : Node A P) : Prop := node.Everywhere fun other => other.isRunning = false

/-- No action is running and no sequence has started; selectors may have chosen. -/
def Probed (node : Node A P) : Prop :=
  node.Everywhere fun other => other.isRunning = true → other.state.kind.isSelector = true

/-- What holds of every node of an activated tree between two calls. -/
structure Sound (node : Node A P) : Prop where
  core : node.isCore = true
  activated : node.isActivated = true
  bounded : ∀ index, node.activeChild = some index → index < node.children.length
  others : ∀ index child, node.children[index]? = some child → node.activeChild ≠ some index →
    child.AtRest ∨ node.state.kind = .sequence none ∧ index = 0 ∧ child.Probed

def Steady (node : Node A P) : Prop := node.Everywhere Sound

structure Resting (node : Node A P) : Prop where
  steady : node.Steady
  atRest : node.AtRest

/-- A node that is not activated, at rest with all that is below it. -/
structure Dormant (node : Node A P) : Prop where
  core : node.isCore = true
  inactive : node.state.context = none
  atRest : node.AtRest

/-- What holds of every node of a tree between two calls, where the tree may be allowed to have dormant nodes. -/
def Settled (lax : Prop) (node : Node A P) : Prop := node.Everywhere fun other => other.Sound ∨ lax ∧ other.Dormant

structure Still (lax : Prop) (node : Node A P) : Prop where
  settled : node.Settled lax
  atRest : node.AtRest

variable {state : NodeState A P} {children : List (Node A P)} {node : Node A P} {lax : Prop}

theorem atRest_mk : (Node.mk state children).AtRest ↔
    state.kind.isRunning = false ∧ ∀ child ∈ children, child.AtRest := everywhere_mk

theorem probed_mk : (Node.mk state children).Probed ↔
    (state.kind.isRunning = true → state.kind.isSelector = true) ∧ ∀ child ∈ children, child.Probed :=
  everywhere_mk

theorem steady_mk : (Node.mk state children).Steady ↔
    (Node.mk state children).Sound ∧ ∀ child ∈ children, child.Steady := everywhere_mk

theorem settled_mk : (Node.mk state children).Settled lax ↔
    ((Node.mk state children).Sound ∨ lax ∧ (Node.mk state children).Dormant) ∧
      ∀ child ∈ children, child.Settled lax := everywhere_mk

theorem settled_false : node.Settled False ↔ node.Steady := by
  simp only [Settled, Steady, false_and, or_false]

theorem still_false : node.Still False ↔ node.Resting := by
  constructor
  · rintro ⟨settled, rest⟩
    exact ⟨settled_false.mp settled, rest⟩
  · rintro ⟨steady, rest⟩
    exact ⟨settled_false.mpr steady, rest⟩

theorem still_mk : (mk state children).Still lax ↔
    ((mk state children).Sound ∨ lax ∧ (mk state children).Dormant) ∧ state.kind.isRunning = false ∧
      ∀ child ∈ children, child.Still lax := by
  constructor
  · rintro ⟨settled, rest⟩
    obtain ⟨here, below⟩ := settled_mk.mp settled
    obtain ⟨idle, resting⟩ := atRest_mk.mp rest
    exact ⟨here, idle, fun child member => ⟨below child member, resting child member⟩⟩
  · rintro ⟨here, idle, each⟩
    exact ⟨settled_mk.mpr ⟨here, fun child member => (each child member).settled⟩,
      atRest_mk.mpr ⟨idle, fun child member => (each child member).atRest⟩⟩

theorem resting_mk : (mk state children).Resting ↔
    (mk state children).Sound ∧ state.kind.isRunning = false ∧ ∀ child ∈ children, child.Resting := by
  simp only [← still_false, still_mk, false_and, or_false]

theorem AtRest.probed (rest : node.AtRest) : node.Probed :=
  rest.mono fun _ idle running => absurd running (by simp [idle])

theorem Sound.context_eq (sound : (Node.mk state children).Sound) : ∃ context, state.context = some context :=
  Option.isSome_iff_exists.mp sound.activated

theorem Sound.atRest_of_ne (sound : (Node.mk state children).Sound) (started : state.kind ≠ .sequence none)
    {index : Nat} {child : Node A P} (selected : children[index]? = some child)
    (inactive : state.kind.activeChild ≠ some index) : child.AtRest :=
  (sound.others index child selected inactive).resolve_right fun idle => started idle.1

theorem Sound.atRest_of_selector (sound : (Node.mk state children).Sound) {active : Option Nat}
    (kind : state.kind = .selector active) {index : Nat} {child : Node A P}
    (selected : children[index]? = some child) (different : active ≠ some index) : child.AtRest := by
  apply sound.atRest_of_ne _ selected
  · rwa [kind]
  · rw [kind]
    nofun

/-- The first child of an idle sequence is the only one of a node without active child that may hold
run state. -/
theorem Sound.rest_atRest {first : Node A P} {rest : List (Node A P)}
    (sound : (Node.mk state (first :: rest)).Sound) (inactive : state.kind.activeChild = none) :
    first.Probed ∧ ∀ child ∈ rest, child.AtRest := by
  constructor
  · rcases sound.others 0 first rfl (by simp [activeChild, inactive]) with idle | ⟨_, _, probed⟩
    · exact idle.probed
    · exact probed
  · intro child member
    obtain ⟨index, selected⟩ := List.mem_iff_getElem?.mp member
    refine (sound.others (index + 1) child selected (by simp [activeChild, inactive])).resolve_right ?_
    exact fun exception => Nat.succ_ne_zero index exception.2.1

theorem Sound.atRest_of_sequence (sound : (Node.mk state children).Sound) {active : Option Nat}
    (kind : state.kind = .sequence active) {index : Nat} {child : Node A P}
    (selected : children[index]? = some child) (different : active.getD 0 ≠ index) : child.AtRest := by
  have inactive : active ≠ some index := by
    rintro rfl
    exact different rfl
  rcases sound.others index child selected (by simpa [activeChild, kind, Kind.activeChild] using inactive) with
    rest | ⟨idle, first, _⟩
  · exact rest
  · obtain rfl : active = none := by simpa [kind] using idle
    exact absurd first.symm different

theorem Sound.congr {other : NodeState A P} (sound : (Node.mk state children).Sound)
    (kind : other.kind = state.kind) (context : other.context = state.context) :
    (Node.mk other children).Sound := by
  obtain ⟨core, activated, bounded, others⟩ := sound
  simp only [isCore, isActivated, activeChild, state_mk, children_mk] at core activated bounded others
  rw [← kind] at core bounded others
  rw [← context] at activated
  exact ⟨core, activated, bounded, others⟩

/-- Run state lies in the active child alone. -/
theorem Settled.of_active (core : (Node.mk state children).isCore = true)
    (activated : state.context.isSome = true)
    (bounded : ∀ index, state.kind.activeChild = some index → index < children.length)
    (each : ∀ index child, children[index]? = some child →
      child.Settled lax ∧ (state.kind.activeChild ≠ some index → child.AtRest)) :
    (Node.mk state children).Settled lax := by
  refine settled_mk.mpr ⟨.inl ⟨core, activated, bounded, fun index child selected inactive => ?_⟩, ?_⟩
  · exact .inl ((each index child selected).2 inactive)
  · intro child member
    obtain ⟨index, selected⟩ := List.mem_iff_getElem?.mp member
    exact (each index child selected).1

theorem Still.of_idle (core : (Node.mk state children).isCore = true)
    (activated : state.context.isSome = true) (idle : state.kind.isRunning = false)
    (each : ∀ child ∈ children, child.Still lax) : (Node.mk state children).Still lax := by
  refine ⟨.of_active core activated ?_ ?_, atRest_mk.mpr ⟨idle, fun child member => (each child member).atRest⟩⟩
  · intro index active
    exact absurd (Kind.isRunning_of_activeChild active) (by simp [idle])
  · intro index child selected
    have known := each child (List.mem_of_getElem? selected)
    exact ⟨known.settled, fun _ => known.atRest⟩

theorem Resting.of_idle (core : (Node.mk state children).isCore = true)
    (activated : state.context.isSome = true) (idle : state.kind.isRunning = false)
    (each : ∀ child ∈ children, child.Resting) : (Node.mk state children).Resting :=
  still_false.mp (.of_idle core activated idle fun child member => still_false.mpr (each child member))

theorem Sound.still_of_sequence (sound : (Node.mk state children).Sound)
    (below : ∀ child ∈ children, child.Settled lax) {active : Option Nat} (kind : state.kind = .sequence active)
    {index : Nat} {child : Node A P} (selected : children[index]? = some child) (different : active.getD 0 ≠ index) :
    child.Still lax :=
  ⟨below child (List.mem_of_getElem? selected), sound.atRest_of_sequence kind selected different⟩

theorem Sound.still_of_selector (sound : (Node.mk state children).Sound)
    (below : ∀ child ∈ children, child.Settled lax) {active : Option Nat} (kind : state.kind = .selector active)
    {index : Nat} {child : Node A P} (selected : children[index]? = some child) (different : active ≠ some index) :
    child.Still lax :=
  ⟨below child (List.mem_of_getElem? selected), sound.atRest_of_selector kind selected different⟩

theorem Sound.still_of_unchosen (sound : (Node.mk state children).Sound)
    (below : ∀ child ∈ children, child.Settled lax) (kind : state.kind = .selector none) :
    (Node.mk state children).Still lax := by
  refine still_mk.mpr ⟨.inl sound, by rw [kind]; rfl, fun child member => ?_⟩
  obtain ⟨index, selected⟩ := List.mem_iff_getElem?.mp member
  exact sound.still_of_selector below kind selected nofun

theorem Steady.below (steady : (Node.mk state children).Steady) : ∀ child ∈ children, child.Settled False :=
  fun child member => settled_false.mpr ((steady_mk.mp steady).2 child member)

theorem Steady.resting_of_sequence (steady : (Node.mk state children).Steady) {active : Option Nat}
    (kind : state.kind = .sequence active) {index : Nat} {child : Node A P}
    (selected : children[index]? = some child) (different : active.getD 0 ≠ index) : child.Resting :=
  still_false.mp ((steady_mk.mp steady).1.still_of_sequence steady.below kind selected different)

theorem Steady.resting_of_selector (steady : (Node.mk state children).Steady) {active : Option Nat}
    (kind : state.kind = .selector active) {index : Nat} {child : Node A P}
    (selected : children[index]? = some child) (different : active ≠ some index) : child.Resting :=
  still_false.mp ((steady_mk.mp steady).1.still_of_selector steady.below kind selected different)

theorem Steady.resting_of_unchosen (steady : (Node.mk state children).Steady) (kind : state.kind = .selector none) :
    (Node.mk state children).Resting :=
  still_false.mp ((steady_mk.mp steady).1.still_of_unchosen steady.below kind)

end Node

end BehaviorTree
