import BehaviorTree.Proofs.Driving

/-! The contexts that the nodes of a tree hold. Only activation gives a node a context, and only if it holds none.
Every other operation leaves every node with what it holds, whatever its kind and its state. -/

set_option autoImplicit false

namespace BehaviorTree

variable {W A P : Type}

def NodeState.bare (state : NodeState A P) : NodeState Empty Empty where
  name := ""
  kind := .inert
  gate := none
  cooldown := 0
  lastPass := none
  context := state.context

namespace Node

/-- The form of the tree, and the contexts that its nodes hold. -/
def held (node : Node A P) : Node Empty Empty := node.map NodeState.bare

/-- Every node of the tree is activated and holds this context. -/
def Holds (context : ContextId) (node : Node A P) : Prop :=
  node.Everywhere fun other => other.state.context = some context

variable {state : NodeState A P} {children : List (Node A P)} {context : ContextId}

@[simp] theorem held_mk : (mk state children).held = mk state.bare (children.map held) := map_mk _ _ _

theorem held_congr {other : NodeState A P} {others : List (Node A P)} (same : other.context = state.context)
    (below : others.map held = children.map held) : (mk other others).held = (mk state children).held := by
  rw [held_mk, held_mk, below, NodeState.bare, NodeState.bare, same]

theorem holds_mk : (mk state children).Holds context ↔
    state.context = some context ∧ ∀ child ∈ children, child.Holds context := everywhere_mk

theorem holds_held {node : Node A P} : node.held.Holds context ↔ node.Holds context := by
  unfold held Holds
  rw [everywhere_map]
  refine forall₂_congr fun other _ => ?_
  cases other
  simp only [map_mk]
  rfl

theorem holds_congr {node other : Node A P} (same : other.held = node.held) :
    other.Holds context ↔ node.Holds context := by
  rw [← holds_held, same, holds_held]

theorem forall_holds_congr {others : List (Node A P)} (same : others.map held = children.map held)
    (holds : ∀ child ∈ children, child.Holds context) : ∀ child ∈ others, child.Holds context := by
  have all : ∀ child ∈ others.map held, child.Holds context := by
    rw [same]
    exact List.forall_mem_map.mpr fun child member => holds_held.mpr (holds child member)
  exact fun child member => holds_held.mp (List.forall_mem_map.mp all child member)

/-! Clearing. -/

variable [Host W] [Action W A]

theorem map_clearAt {C : Type} {f : Node A P → C} {children : List (Node A P)}
    (each : ∀ child ∈ children, ∀ world : W, f (child.clear world).1 = f child) (index : Nat) (world : W) :
    (Node.clearAt index children world).1.map f = children.map f := by
  induction children generalizing index world with
  | nil => rfl
  | cons first rest ih =>
    cases index with
    | zero => simp only [Node.clearAt, List.map_cons, each first List.mem_cons_self]
    | succ index =>
      simp only [Node.clearAt, List.map_cons, ih fun child member => each child (List.mem_cons_of_mem _ member)]

theorem held_clear (node : Node A P) (world : W) : (node.clear world).1.held = node.held := by
  induction node generalizing world with
  | mk state children ih =>
    unfold Node.clear
    split
    · rfl
    split
    · exact held_congr rfl rfl
    · exact held_congr rfl (map_clearAll ih world)
    · rfl
    · exact held_congr rfl (map_clearAt ih _ world)
    · rfl
    · exact held_congr rfl (map_clearAll ih _)

theorem map_held_clearAt (index : Nat) (children : List (Node A P)) (world : W) :
    (Node.clearAt index children world).1.map held = children.map held :=
  map_clearAt (fun child _ world => held_clear child world) index world

theorem map_held_switchTo (winner previous : Option Nat) (children : List (Node A P)) (world : W) :
    (Node.switchTo winner previous children world).1.map held = children.map held := by
  unfold Node.switchTo
  split
  · split
    · rfl
    · exact map_held_clearAt _ children world
  · rfl

/-! Ticking. -/

theorem map_tickAt {C : Type} {f : Node A P → C} {children : List (Node A P)}
    (each : ∀ child ∈ children, ∀ world : W, f (child.tick world).2.1 = f child) (index : Nat) (world : W) :
    (Node.tickAt index children world).2.1.map f = children.map f := by
  induction children generalizing index world with
  | nil => rfl
  | cons first rest ih =>
    cases index with
    | zero => simp only [Node.tickAt, List.map_cons, each first List.mem_cons_self]
    | succ index =>
      simp only [Node.tickAt, List.map_cons, ih fun child member => each child (List.mem_cons_of_mem _ member)]

theorem map_tickAll {C : Type} {f : Node A P → C} {children : List (Node A P)}
    (each : ∀ child ∈ children, ∀ world : W, f (child.tick world).2.1 = f child) (world : W) :
    (Node.tickAll children world).2.1.map f = children.map f := by
  induction children generalizing world with
  | nil => rfl
  | cons first rest ih =>
    simp only [Node.tickAll, List.map_cons, each first List.mem_cons_self,
      ih fun child member => each child (List.mem_cons_of_mem _ member)]

theorem held_tick (node : Node A P) (world : W) : (node.tick world).2.1.held = node.held := by
  induction node generalizing world with
  | mk state children ih =>
    unfold Node.tick
    split
    · rfl
    split
    · exact held_congr rfl rfl
    · next active _ =>
      split
      · rfl
      dsimp only
      have kept := map_tickAt ih (active.getD 0) world
      rcases ticking : Node.tickAt (active.getD 0) children world with ⟨_ | _, ticked, during⟩ <;>
        rw [ticking] at kept
      · exact held_congr rfl kept
      · have both := (map_held_clearAt (active.getD 0) ticked during).trans kept
        dsimp only
        split <;> exact held_congr rfl both
    · split <;> rfl
    · next index _ =>
      have kept := map_tickAt ih index world
      rcases ticking : Node.tickAt index children world with ⟨_ | _, ticked, during⟩ <;> rw [ticking] at kept
      · exact held_congr rfl kept
      · exact held_congr rfl ((map_held_clearAt index ticked during).trans kept)
    · rfl
    · exact held_congr rfl (map_tickAll ih _)

theorem holds_tickAt (holds : ∀ child ∈ children, child.Holds context) (index : Nat) (world : W) :
    ∀ child ∈ (Node.tickAt index children world).2.1, child.Holds context :=
  forall_holds_congr (map_tickAt (fun child _ world => held_tick child world) index world) holds

/-! Evaluation. -/

variable [Probe W P]

theorem map_evaluateHead {C : Type} {f : Node A P → C} {children : List (Node A P)}
    (each : ∀ child ∈ children, ∀ world : W, f (child.evaluate world).2.1 = f child) (world : W) :
    (Node.evaluateHead children world).2.1.map f = children.map f := by
  cases children with
  | nil => rfl
  | cons first rest => simp only [Node.evaluateHead, List.map_cons, each first List.mem_cons_self]

theorem map_evaluateAt {C : Type} {f : Node A P → C} {children : List (Node A P)}
    (each : ∀ child ∈ children, ∀ world : W, f (child.evaluate world).2.1 = f child) (index : Nat) (world : W) :
    (Node.evaluateAt index children world).2.1.map f = children.map f := by
  induction children generalizing index world with
  | nil => rfl
  | cons first rest ih =>
    cases index with
    | zero => simp only [Node.evaluateAt, List.map_cons, each first List.mem_cons_self]
    | succ index =>
      simp only [Node.evaluateAt, List.map_cons, ih fun child member => each child (List.mem_cons_of_mem _ member)]

theorem held_evaluate (node : Node A P) (world : W) : (node.evaluate world).2.1.held = node.held := by
  induction node generalizing world with
  | mk state children ih =>
    unfold Node.evaluate
    split
    · rfl
    next context _ =>
    rcases admission : state.pass context world with ⟨_ | _, admitted, during⟩
    · exact held_congr (NodeState.pass_context admission) rfl
    have admits : admitted.context = state.context := NodeState.pass_context admission
    dsimp only
    split
    · exact held_congr admits rfl
    · have kept := map_evaluateHead ih during
      rcases asking : Node.evaluateHead children during with ⟨_ | _, asked, after⟩ <;> rw [asking] at kept
      · exact held_congr admits kept
      · exact held_congr admits kept
    · next index _ =>
      have kept := map_evaluateAt ih index during
      rcases asking : Node.evaluateAt index children during with ⟨_ | _, asked, after⟩ <;> rw [asking] at kept
      · exact held_congr admits ((map_held_clearAt index asked after).trans kept)
      · exact held_congr admits kept
    · next previous _ =>
      split
      · exact held_congr admits rfl
      · have kept := (scans children during).map_eq ih
        exact held_congr admits ((map_held_switchTo _ previous _ _).trans kept)
    · exact held_congr admits rfl
    · exact held_congr admits rfl

theorem holds_evaluateAt (holds : ∀ child ∈ children, child.Holds context) (index : Nat) (world : W) :
    ∀ child ∈ (Node.evaluateAt index children world).2.1, child.Holds context :=
  forall_holds_congr (map_evaluateAt (fun child _ world => held_evaluate child world) index world) holds

theorem holds_evaluateFirst (holds : ∀ child ∈ children, child.Holds context) (world : W) :
    ∀ child ∈ (Node.evaluateFirst children world).2.1, child.Holds context :=
  forall_holds_congr ((scans children world).map_eq fun child _ world => held_evaluate child world) holds

/-! Activation. -/

mutual

/-- What activation does to the contexts: from the root down it gives the context to every node that holds none,
and stops where a node holds one. -/
def adopt (context : ContextId) : Node A P → Node A P
  | .mk state children =>
    match state.context with
    | some _ => .mk state children
    | none => .mk { state with context := some context } (adoptAll context children)

def adoptAll (context : ContextId) : List (Node A P) → List (Node A P)
  | [] => []
  | node :: rest => node.adopt context :: adoptAll context rest

end

section Adopt
omit [Host W] [Action W A] [Probe W P]

theorem adoptAll_eq_map (context : ContextId) (children : List (Node A P)) :
    adoptAll context children = children.map (adopt context) := by
  induction children with
  | nil => rw [adoptAll, List.map_nil]
  | cons first rest ih => rw [adoptAll, ih, List.map_cons]

theorem adopt_of_active {other : ContextId} (active : state.context = some other) :
    (mk state children).adopt context = mk state children := by
  unfold adopt
  rw [active]

theorem adopt_of_inactive (inactive : state.context = none) :
    (mk state children).adopt context = mk { state with context := some context } (children.map (adopt context)) := by
  unfold adopt
  rw [inactive, adoptAll_eq_map]

theorem held_adopt (node : Node A P) (context : ContextId) : (node.adopt context).held = node.held.adopt context := by
  induction node with
  | mk state children ih =>
    cases before : state.context with
    | some other =>
      have bare : state.bare.context = some other := before
      rw [held_mk, adopt_of_active before, adopt_of_active bare, held_mk]
    | none =>
      have bare : state.bare.context = none := before
      rw [held_mk, adopt_of_inactive before, adopt_of_inactive bare, held_mk, List.map_map, List.map_map]
      exact congrArg _ (List.map_congr_left ih)

theorem held_adopt_congr {node other : Node A P} (same : node.held = other.held) (context : ContextId) :
    (node.adopt context).held = (other.adopt context).held := by
  rw [held_adopt, held_adopt, same]

end Adopt

theorem map_activateAll {C : Type} {f g : Node A P → C} {children : List (Node A P)}
    (each : ∀ child ∈ children, ∀ world : W, f (child.activate context world).1 = g child) (world : W) :
    (Node.activateAll children context world).1.map f = children.map g := by
  induction children generalizing world with
  | nil => rfl
  | cons first rest ih =>
    simp only [Node.activateAll, List.map_cons, each first List.mem_cons_self,
      ih fun child member => each child (List.mem_cons_of_mem _ member)]

theorem held_activate (node : Node A P) (context : ContextId) (world : W) :
    (node.activate context world).1.held = (node.adopt context).held := by
  induction node generalizing world with
  | mk state children ih =>
    unfold Node.activate
    cases before : state.context with
    | some other => rw [adopt_of_active before]
    | none =>
      rw [adopt_of_inactive before]
      apply held_congr rfl
      rw [map_activateAll ih, List.map_map]
      rfl

/-- Activation reaches every node that does not hold the context yet, and finds none that holds another. -/
inductive Adoptable (context : ContextId) : Node A P → Prop where
  | held {node : Node A P} : node.Holds context → Adoptable context node
  | fresh {state : NodeState A P} {children : List (Node A P)} : state.context = none →
      (∀ child ∈ children, Adoptable context child) → Adoptable context (mk state children)

omit [Host W] [Action W A] [Probe W P] in
/-- After activation every node holds the context exactly if the tree was adoptable. -/
theorem adopt_holds_iff {node : Node A P} : (node.adopt context).Holds context ↔ node.Adoptable context := by
  induction node with
  | mk state children ih =>
    cases before : state.context with
    | some other =>
      -- Activation stops here, so all below must hold the context already.
      rw [adopt_of_active before]
      constructor
      · exact .held
      · intro adoptable
        cases adoptable with
        | held holds => exact holds
        | fresh inactive _ => cases before.symm.trans inactive
    | none =>
      simp only [adopt_of_inactive before, holds_mk, true_and, List.forall_mem_map]
      rw [forall₂_congr ih]
      constructor
      · exact .fresh before
      · intro adoptable
        cases adoptable with
        | held holds => cases before.symm.trans (holds_mk.mp holds).1
        | fresh _ below => exact below

omit [Host W] [Action W A] [Probe W P] in
theorem Built.adoptable {node : Node A P} (built : node.Built) (context : ContextId) : node.Adoptable context := by
  induction node with
  | mk state children ih =>
    exact .fresh built.inactive fun child member => ih child member ((built_mk.mp built).2 child member)

end Node

end BehaviorTree
