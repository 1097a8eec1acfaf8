import BehaviorTree.Proofs.Driving

/-! What a tree in use keeps. Where every request but an activation keeps a property of the environment, of actions
and of probes, clearing, ticking and evaluating keep it as well, whatever the kinds of the nodes and their state. -/

set_option autoImplicit false

namespace BehaviorTree

variable {W A P : Type}

namespace Gate

def atoms : Gate P → List P
  | .atom probe => [probe]
  | .constant _ | .flag _ => []
  | .not operand => operand.atoms
  | .and left right | .or left right => left.atoms ++ right.atoms

end Gate

def NodeState.atoms (state : NodeState A P) : List P := state.gate.elim [] Gate.atoms

variable (leaf : A → Prop) (question : P → Prop)

def Kind.Meets : Kind A → Prop
  | .action lifecycle => leaf lifecycle.action
  | _ => True

theorem Kind.meets_sequence {leaf : A → Prop} {active : Option Nat} : (Kind.sequence active).Meets leaf := trivial

theorem Kind.meets_selector {leaf : A → Prop} {active : Option Nat} : (Kind.selector active).Meets leaf := trivial

/-- The properties hold of the action and of the probes of a node. -/
structure NodeState.Meets (state : NodeState A P) : Prop where
  action : state.kind.Meets leaf
  gate : ∀ probe ∈ state.atoms, question probe

def Node.Meets (node : Node A P) : Prop := node.Everywhere fun other => other.state.Meets leaf question

variable {leaf question} {state : NodeState A P} {children : List (Node A P)}

theorem Node.meets_mk : (Node.mk state children).Meets leaf question ↔
    state.Meets leaf question ∧ ∀ child ∈ children, child.Meets leaf question := everywhere_mk

theorem NodeState.Meets.withKind (meets : state.Meets leaf question) {kind : Kind A} (acts : kind.Meets leaf) :
    ({ state with kind } : NodeState A P).Meets leaf question := ⟨acts, meets.gate⟩

theorem NodeState.Meets.of_action (meets : state.Meets leaf question) {lifecycle : Lifecycle A}
    (kind : state.kind = .action lifecycle) : leaf lifecycle.action := by
  have acts := meets.action
  rwa [kind] at acts

/-- The properties hold of what an operation leaves behind: of a node and its environment. -/
def Kept (safe : W → Prop) (leaf : A → Prop) (question : P → Prop) (result : Node A P × W) : Prop :=
  result.1.Meets leaf question ∧ safe result.2

def KeptAll (safe : W → Prop) (leaf : A → Prop) (question : P → Prop) (result : List (Node A P) × W) : Prop :=
  (∀ child ∈ result.1, child.Meets leaf question) ∧ safe result.2

theorem KeptAll.cons {safe : W → Prop} {first : Node A P} {rest : List (Node A P)} {during after : W}
    (here : Kept safe leaf question (first, during)) (below : KeptAll safe leaf question (rest, after)) :
    KeptAll safe leaf question (first :: rest, after) :=
  ⟨List.forall_mem_cons.mpr ⟨here.1, below.1⟩, below.2⟩

theorem KeptAll.mk {safe : W → Prop} {result : List (Node A P) × W} (meets : state.Meets leaf question)
    (kept : KeptAll safe leaf question result) : Kept safe leaf question (.mk state result.1, result.2) :=
  ⟨Node.meets_mk.mpr ⟨meets, kept.1⟩, kept.2⟩

variable [Host W] [Action W A]

/-! A walk over children keeps the properties if each child does. -/

namespace Node

variable {safe : W → Prop}

theorem keptAll_clearAll (each : ∀ child ∈ children, ∀ world, safe world → Kept safe leaf question (child.clear world))
    {world : W} (holds : safe world) : KeptAll safe leaf question (Node.clearAll children world) := by
  induction children generalizing world with
  | nil => exact ⟨List.forall_mem_nil _, holds⟩
  | cons first rest ih =>
    have here := each first List.mem_cons_self world holds
    exact .cons here (ih (fun child member => each child (List.mem_cons_of_mem _ member)) here.2)

theorem keptAll_tickAll (each : ∀ child ∈ children, ∀ world, safe world → Kept safe leaf question (child.tick world).2)
    {world : W} (holds : safe world) : KeptAll safe leaf question (Node.tickAll children world).2 := by
  induction children generalizing world with
  | nil => exact ⟨List.forall_mem_nil _, holds⟩
  | cons first rest ih =>
    have here := each first List.mem_cons_self world holds
    exact .cons here (ih (fun child member => each child (List.mem_cons_of_mem _ member)) here.2)

variable [Probe W P]

theorem keptAll_evaluateHead (meets : ∀ child ∈ children, child.Meets leaf question)
    (each : ∀ child ∈ children, ∀ world, safe world → Kept safe leaf question (child.evaluate world).2)
    {world : W} (holds : safe world) : KeptAll safe leaf question (Node.evaluateHead children world).2 := by
  cases children with
  | nil => exact ⟨meets, holds⟩
  | cons first rest =>
    obtain ⟨asked, after⟩ := each first List.mem_cons_self world holds
    exact ⟨List.forall_mem_cons.mpr ⟨asked, (List.forall_mem_cons.mp meets).2⟩, after⟩

theorem keptAll_evaluateFirst (meets : ∀ child ∈ children, child.Meets leaf question)
    (each : ∀ child ∈ children, ∀ world, safe world → Kept safe leaf question (child.evaluate world).2)
    {world : W} (holds : safe world) : KeptAll safe leaf question (Node.evaluateFirst children world).2 := by
  induction children generalizing world with
  | nil => exact ⟨meets, holds⟩
  | cons first rest ih =>
    obtain ⟨_, below⟩ := List.forall_mem_cons.mp meets
    have here := each first List.mem_cons_self world holds
    unfold Node.evaluateFirst
    rcases asking : first.evaluate world with ⟨_ | _, asked, during⟩ <;> rw [asking] at here
    · exact .cons here (ih below (fun child member => each child (List.mem_cons_of_mem _ member)) here.2)
    · exact ⟨List.forall_mem_cons.mpr ⟨here.1, below⟩, here.2⟩

end Node

variable [Probe W P]

/-- Every request but an activation keeps the properties. -/
structure Upholds (safe : W → Prop) (leaf : A → Prop) (question : P → Prop) : Prop where
  now : ∀ context world, safe world → safe (Host.now context world).2
  report : ∀ context name report world, safe world → safe (Host.report context name report world)
  visit : ∀ visit world, visit ≠ .activated → safe world → safe (Host.visit visit world)
  fault : ∀ world, safe world → safe (Host.fault world)
  check : ∀ action context world, leaf action → safe world →
    leaf (Action.check action context world).2.1 ∧ safe (Action.check action context world).2.2
  enter : ∀ action context world, leaf action → safe world →
    leaf (Action.enter action context world).1 ∧ safe (Action.enter action context world).2
  execute : ∀ action context world, leaf action → safe world →
    leaf (Action.execute action context world).2.1 ∧ safe (Action.execute action context world).2.2
  exit : ∀ action context world, leaf action → safe world →
    leaf (Action.exit action context world).1 ∧ safe (Action.exit action context world).2
  ask : ∀ probe context world, question probe → safe world →
    question (Probe.check probe context world).2.1 ∧ safe (Probe.check probe context world).2.2

namespace Upholds

variable {safe : W → Prop} (upholds : Upholds safe leaf question)
include upholds

section Lifecycle
variable {lifecycle : Lifecycle A} (name : String) (context : ContextId) {world : W} (meets : leaf lifecycle.action)
  (holds : safe world)
include meets holds

theorem lifecycle_finish :
    leaf (lifecycle.finish name context world).1.action ∧ safe (lifecycle.finish name context world).2 := by
  obtain ⟨exits, after⟩ := upholds.exit lifecycle.action context world meets holds
  exact ⟨exits, upholds.report _ _ _ _ after⟩

theorem lifecycle_clear :
    leaf (lifecycle.clear name context world).1.action ∧ safe (lifecycle.clear name context world).2 := by
  unfold Lifecycle.clear
  split
  · exact ⟨meets, holds⟩
  · exact upholds.lifecycle_finish name context meets holds

theorem lifecycle_start :
    leaf (lifecycle.start name context world).1.action ∧ safe (lifecycle.start name context world).2 := by
  unfold Lifecycle.start
  split
  · exact ⟨meets, holds⟩
  · exact upholds.enter _ context _ meets (upholds.report _ _ _ _ holds)

theorem lifecycle_tick :
    leaf (lifecycle.tick name context world).2.1.action ∧ safe (lifecycle.tick name context world).2.2 := by
  obtain ⟨starts, started⟩ := upholds.lifecycle_start name context meets holds
  have executed := upholds.execute _ context _ starts started
  unfold Lifecycle.tick
  dsimp only
  split
  · next ran => rwa [ran] at executed
  · next ran =>
    rw [ran] at executed
    exact upholds.lifecycle_finish name context executed.1 executed.2

end Lifecycle

theorem gate_check {gate : Gate P} (context : ContextId) {world : W} (meets : ∀ probe ∈ gate.atoms, question probe)
    (holds : safe world) : (∀ probe ∈ (gate.check context world).2.1.atoms, question probe) ∧
      safe (gate.check context world).2.2 := by
  induction gate generalizing world with
  | atom probe =>
    obtain ⟨asks, after⟩ := upholds.ask probe context world (meets probe (List.mem_singleton_self probe)) holds
    exact ⟨List.forall_mem_singleton.mpr asks, after⟩
  | constant answer | flag key => exact ⟨meets, holds⟩
  | not operand ih => exact ih meets holds
  -- The right side is asked too, or it stays as it is.
  | and left right ihl ihr =>
    obtain ⟨onLeft, onRight⟩ := List.forall_mem_append.mp meets
    have asked := ihl onLeft holds
    unfold Gate.check
    rcases answered : left.check context world with ⟨_ | _, other, during⟩ <;> rw [answered] at asked
    · exact ⟨List.forall_mem_append.mpr ⟨asked.1, onRight⟩, asked.2⟩
    · obtain ⟨further, after⟩ := ihr onRight asked.2
      exact ⟨List.forall_mem_append.mpr ⟨asked.1, further⟩, after⟩
  | or left right ihl ihr =>
    obtain ⟨onLeft, onRight⟩ := List.forall_mem_append.mp meets
    have asked := ihl onLeft holds
    unfold Gate.check
    rcases answered : left.check context world with ⟨_ | _, other, during⟩ <;> rw [answered] at asked
    · obtain ⟨further, after⟩ := ihr onRight asked.2
      exact ⟨List.forall_mem_append.mpr ⟨asked.1, further⟩, after⟩
    · exact ⟨List.forall_mem_append.mpr ⟨asked.1, onRight⟩, asked.2⟩

theorem pass (context : ContextId) {world : W} (meets : state.Meets leaf question) (holds : safe world) :
    (state.pass context world).2.1.Meets leaf question ∧ safe (state.pass context world).2.2 := by
  have after := upholds.now context world holds
  unfold NodeState.pass
  dsimp only
  split
  · unfold NodeState.passGate
    split
    · exact ⟨⟨meets.action, meets.gate⟩, after⟩
    · next gate gated =>
      have gated : state.gate = some gate := gated
      have asks : ∀ probe ∈ gate.atoms, question probe := by
        have all := meets.gate
        rwa [NodeState.atoms, gated] at all
      obtain ⟨asked, later⟩ := upholds.gate_check context asks after
      exact ⟨⟨meets.action, asked⟩, later⟩
  · exact ⟨meets, after⟩

/-! Clearing. -/

theorem clearAt (meets : ∀ child ∈ children, child.Meets leaf question)
    (each : ∀ child ∈ children, ∀ world, safe world → Kept safe leaf question (child.clear world)) (index : Nat)
    {world : W} (holds : safe world) : KeptAll safe leaf question (Node.clearAt index children world) := by
  induction children generalizing index with
  | nil => exact ⟨meets, upholds.fault world holds⟩
  | cons first rest ih =>
    obtain ⟨here, below⟩ := List.forall_mem_cons.mp meets
    cases index with
    | zero =>
      obtain ⟨cleared, after⟩ := each first List.mem_cons_self world holds
      exact ⟨List.forall_mem_cons.mpr ⟨cleared, below⟩, after⟩
    | succ index =>
      have onward := ih below (fun child member => each child (List.mem_cons_of_mem _ member)) index
      exact ⟨List.forall_mem_cons.mpr ⟨here, onward.1⟩, onward.2⟩

theorem clear {node : Node A P} (meets : node.Meets leaf question) {world : W} (holds : safe world) :
    Kept safe leaf question (node.clear world) := by
  induction node generalizing world with
  | mk state children ih =>
    obtain ⟨here, below⟩ := Node.meets_mk.mp meets
    have each := fun child member (world : W) (holds : safe world) => ih child member (below child member) holds
    unfold Node.clear
    split
    · exact ⟨meets, holds⟩
    next context _ =>
    split
    · next lifecycle kind =>
      obtain ⟨acts, after⟩ := upholds.lifecycle_clear state.name context (here.of_action kind) holds
      exact ⟨Node.meets_mk.mpr ⟨here.withKind acts, below⟩, after⟩
    · exact (Node.keptAll_clearAll each holds).mk (here.withKind Kind.meets_sequence)
    · exact ⟨meets, holds⟩
    · next index _ => exact (upholds.clearAt below each index holds).mk (here.withKind Kind.meets_selector)
    · exact ⟨meets, holds⟩
    · exact (Node.keptAll_clearAll each (upholds.visit (.cleared state.name) _ (by simp) holds)).mk here

theorem clearAt_of_meets (index : Nat) {result : List (Node A P) × W} (kept : KeptAll safe leaf question result) :
    KeptAll safe leaf question (Node.clearAt index result.1 result.2) :=
  upholds.clearAt kept.1 (fun child member _ => upholds.clear (kept.1 child member)) index kept.2

theorem switchTo (winner previous : Option Nat) {result : List (Node A P) × W}
    (kept : KeptAll safe leaf question result) :
    KeptAll safe leaf question (Node.switchTo winner previous result.1 result.2) := by
  unfold Node.switchTo
  split
  · split
    · exact kept
    · exact upholds.clearAt_of_meets _ kept
  · exact kept

/-! Ticking. -/

theorem tickAt (meets : ∀ child ∈ children, child.Meets leaf question)
    (each : ∀ child ∈ children, ∀ world, safe world → Kept safe leaf question (child.tick world).2) (index : Nat)
    {world : W} (holds : safe world) : KeptAll safe leaf question (Node.tickAt index children world).2 := by
  induction children generalizing index with
  | nil => exact ⟨meets, upholds.fault world holds⟩
  | cons first rest ih =>
    obtain ⟨here, below⟩ := List.forall_mem_cons.mp meets
    cases index with
    | zero =>
      obtain ⟨ticked, after⟩ := each first List.mem_cons_self world holds
      exact ⟨List.forall_mem_cons.mpr ⟨ticked, below⟩, after⟩
    | succ index =>
      have onward := ih below (fun child member => each child (List.mem_cons_of_mem _ member)) index
      exact ⟨List.forall_mem_cons.mpr ⟨here, onward.1⟩, onward.2⟩

theorem tick {node : Node A P} (meets : node.Meets leaf question) {world : W} (holds : safe world) :
    Kept safe leaf question (node.tick world).2 := by
  induction node generalizing world with
  | mk state children ih =>
    obtain ⟨here, below⟩ := Node.meets_mk.mp meets
    have each := fun child member (world : W) (holds : safe world) => ih child member (below child member) holds
    have idle {world : W} (holds : safe world) : Kept safe leaf question (Node.mk state children, world) :=
      ⟨meets, holds⟩
    unfold Node.tick
    split
    · exact idle (upholds.report _ _ _ _ holds)
    next context _ =>
    split
    · next lifecycle kind =>
      obtain ⟨acts, after⟩ := upholds.lifecycle_tick state.name context (here.of_action kind) holds
      exact ⟨Node.meets_mk.mpr ⟨here.withKind acts, below⟩, after⟩
    · next active _ =>
      split
      · exact idle (upholds.report _ _ _ _ holds)
      dsimp only
      have ticked := upholds.tickAt below each (active.getD 0) holds
      rcases ticking : Node.tickAt (active.getD 0) children world with ⟨_ | _, others, during⟩ <;>
        rw [ticking] at ticked
      · exact ticked.mk (here.withKind Kind.meets_sequence)
      · -- A child that ended is cleared in the same call, whether the sequence goes on or not.
        have cleared := upholds.clearAt_of_meets (active.getD 0) ticked
        dsimp only
        split <;> exact cleared.mk (here.withKind Kind.meets_sequence)
    · split
      · exact idle (upholds.report _ _ _ _ holds)
      · exact idle holds
    · next index _ =>
      have ticked := upholds.tickAt below each index holds
      rcases ticking : Node.tickAt index children world with ⟨_ | _, others, during⟩ <;> rw [ticking] at ticked
      · exact ticked.mk here
      · exact (upholds.clearAt_of_meets index ticked).mk (here.withKind Kind.meets_selector)
    · exact idle holds
    · have read := upholds.now context world holds
      have shown := upholds.visit (.ticked state.name (Host.now context world).1) _ (by simp) read
      exact (Node.keptAll_tickAll each shown).mk here

/-! Evaluation. -/

theorem evaluateAt (meets : ∀ child ∈ children, child.Meets leaf question)
    (each : ∀ child ∈ children, ∀ world, safe world → Kept safe leaf question (child.evaluate world).2) (index : Nat)
    {world : W} (holds : safe world) : KeptAll safe leaf question (Node.evaluateAt index children world).2 := by
  induction children generalizing index with
  | nil => exact ⟨meets, upholds.fault world holds⟩
  | cons first rest ih =>
    obtain ⟨here, below⟩ := List.forall_mem_cons.mp meets
    cases index with
    | zero =>
      obtain ⟨asked, after⟩ := each first List.mem_cons_self world holds
      exact ⟨List.forall_mem_cons.mpr ⟨asked, below⟩, after⟩
    | succ index =>
      have onward := ih below (fun child member => each child (List.mem_cons_of_mem _ member)) index
      exact ⟨List.forall_mem_cons.mpr ⟨here, onward.1⟩, onward.2⟩

theorem evaluate {node : Node A P} (meets : node.Meets leaf question) {world : W} (holds : safe world) :
    Kept safe leaf question (node.evaluate world).2 := by
  induction node generalizing world with
  | mk state children ih =>
    obtain ⟨here, below⟩ := Node.meets_mk.mp meets
    have each := fun child member (world : W) (holds : safe world) => ih child member (below child member) holds
    unfold Node.evaluate
    split
    · exact ⟨meets, holds⟩
    next context _ =>
    have passed := upholds.pass context here holds
    rcases admission : state.pass context world with ⟨_ | _, admitted, during⟩ <;> rw [admission] at passed <;>
      obtain ⟨admits, entered⟩ := passed
    · exact ⟨Node.meets_mk.mpr ⟨admits, below⟩, entered⟩
    have idle {world : W} (holds : safe world) : Kept safe leaf question (Node.mk admitted children, world) :=
      ⟨Node.meets_mk.mpr ⟨admits, below⟩, holds⟩
    dsimp only
    split
    · next lifecycle kind =>
      obtain ⟨acts, after⟩ := upholds.check lifecycle.action context during (admits.of_action kind) entered
      exact ⟨Node.meets_mk.mpr ⟨admits.withKind acts, below⟩, after⟩
    · have asked := Node.keptAll_evaluateHead below each entered
      rcases asking : Node.evaluateHead children during with ⟨_ | _, others, after⟩ <;> rw [asking] at asked
      · exact ⟨Node.meets_mk.mpr ⟨admits, asked.1⟩, upholds.report _ _ _ _ asked.2⟩
      · exact asked.mk admits
    · next index _ =>
      have asked := upholds.evaluateAt below each index entered
      rcases asking : Node.evaluateAt index children during with ⟨_ | _, others, after⟩ <;> rw [asking] at asked
      · exact (upholds.clearAt_of_meets index asked).mk (admits.withKind Kind.meets_sequence)
      · exact asked.mk admits
    · next previous _ =>
      split
      · exact idle (upholds.report _ _ _ _ entered)
      · -- The choice may change, and then the child that was chosen before is cleared.
        have asked := Node.keptAll_evaluateFirst below each entered
        exact (upholds.switchTo _ previous asked).mk (admits.withKind Kind.meets_selector)
    · exact idle entered
    · exact idle (upholds.visit (.checked admitted.name children.length) _ (by simp) entered)

end Upholds

end BehaviorTree
