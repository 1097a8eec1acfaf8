import BehaviorTree.Node.Editing
import BehaviorTree.Proofs.Contexts

/-! Where the requests of a tree go. Every request names the context that the node holds, so a tree whose nodes
hold one context reads no other clock, checks no flag elsewhere and hands no other context to a hook: an environment
that takes every request as one for this context makes no difference to it. -/

set_option autoImplicit false

namespace BehaviorTree

variable {W A P : Type}

section Only

variable (W) (context : ContextId)

/-- Takes every request as one for the context. -/
@[reducible] def Host.only [Host W] : Host W where
  now _ := Host.now context
  flag _ := Host.flag context
  report _ := Host.report (some context)
  visit := Host.visit
  fault := Host.fault

@[reducible] def Action.only (A : Type) [Action W A] : Action W A where
  activate action _ := Action.activate action context
  check action _ := Action.check action context
  enter action _ := Action.enter action context
  execute action _ := Action.execute action context
  exit action _ := Action.exit action context

@[reducible] def Probe.only (P : Type) [Probe W P] : Probe W P where
  activate probe _ := Probe.activate probe context
  check probe _ := Probe.check probe context

end Only

variable [Host W] [Action W A] {context : ContextId}

namespace Node

/-! Clearing. -/

abbrev clearOnly (context : ContextId) (node : Node A P) (world : W) : Node A P × W :=
  @Node.clear W A P (Host.only W context) (Action.only W context A) node world

variable {children : List (Node A P)}

theorem clearAll_only (each : ∀ child ∈ children, ∀ world : W, child.clearOnly context world = child.clear world)
    (world : W) : @Node.clearAll W A P (Host.only W context) (Action.only W context A) children world =
      Node.clearAll children world := by
  induction children generalizing world with
  | nil => rfl
  | cons first rest ih =>
    simp only [Node.clearAll, each first List.mem_cons_self,
      ih fun child member => each child (List.mem_cons_of_mem _ member)]

theorem clearAt_only (each : ∀ child ∈ children, ∀ world : W, child.clearOnly context world = child.clear world)
    (index : Nat) (world : W) :
    @Node.clearAt W A P (Host.only W context) (Action.only W context A) index children world =
      Node.clearAt index children world := by
  induction children generalizing index world with
  | nil => rfl
  | cons first rest ih =>
    cases index with
    | zero => simp only [Node.clearAt, each first List.mem_cons_self]
    | succ index =>
      simp only [Node.clearAt, ih fun child member => each child (List.mem_cons_of_mem _ member)]

theorem clear_only {node : Node A P} (holds : node.Holds context) (world : W) :
    node.clearOnly context world = node.clear world := by
  induction node generalizing world with
  | mk state children ih =>
    obtain ⟨here, below⟩ := holds_mk.mp holds
    have each := fun child member => ih child member (below child member)
    unfold clearOnly Node.clear
    rw [here]
    cases state.kind with
    | action lifecycle => rcases lifecycle with ⟨action, _ | _⟩ <;> rfl
    | sequence active => simp only [clearAll_only each]
    | selector active =>
      cases active with
      | none => rfl
      | some index => simp only [clearAt_only each]
    | inert => rfl
    | relay most least =>
      simp only [clearAll_only each]
      rfl

theorem clearAt_only_of_holds (holds : ∀ child ∈ children, child.Holds context) (index : Nat) (world : W) :
    @Node.clearAt W A P (Host.only W context) (Action.only W context A) index children world =
      Node.clearAt index children world :=
  clearAt_only (fun child member => clear_only (holds child member)) index world

/-! Ticking. -/

abbrev tickOnly (context : ContextId) (node : Node A P) (world : W) : Progress × Node A P × W :=
  @Node.tick W A P (Host.only W context) (Action.only W context A) node world

theorem tickAt_only (each : ∀ child ∈ children, ∀ world : W, child.tickOnly context world = child.tick world)
    (index : Nat) (world : W) :
    @Node.tickAt W A P (Host.only W context) (Action.only W context A) index children world =
      Node.tickAt index children world := by
  induction children generalizing index world with
  | nil => rfl
  | cons first rest ih =>
    cases index with
    | zero => simp only [Node.tickAt, each first List.mem_cons_self]
    | succ index =>
      simp only [Node.tickAt, ih fun child member => each child (List.mem_cons_of_mem _ member)]

theorem tickAll_only (each : ∀ child ∈ children, ∀ world : W, child.tickOnly context world = child.tick world)
    (world : W) : @Node.tickAll W A P (Host.only W context) (Action.only W context A) children world =
      Node.tickAll children world := by
  induction children generalizing world with
  | nil => rfl
  | cons first rest ih =>
    simp only [Node.tickAll, each first List.mem_cons_self,
      ih fun child member => each child (List.mem_cons_of_mem _ member)]

theorem tick_only {node : Node A P} (holds : node.Holds context) (world : W) :
    node.tickOnly context world = node.tick world := by
  induction node generalizing world with
  | mk state children ih =>
    obtain ⟨here, below⟩ := holds_mk.mp holds
    have each := fun child member => ih child member (below child member)
    unfold tickOnly Node.tick
    rw [here]
    cases state.kind with
    | action lifecycle => rcases lifecycle with ⟨action, _ | _⟩ <;> rfl
    | sequence active =>
      have held := holds_tickAt below (active.getD 0) world
      simp only [tickAt_only each]
      generalize Node.tickAt (active.getD 0) children world = result at held ⊢
      rcases result with ⟨_ | _, after, during⟩
      · rfl
      · simp only [clearAt_only_of_holds held]
        rfl
    | selector active =>
      cases active with
      | none => rfl
      | some index =>
        have held := holds_tickAt below index world
        simp only [tickAt_only each]
        generalize Node.tickAt index children world = result at held ⊢
        rcases result with ⟨_ | _, after, during⟩
        · rfl
        · simp only [clearAt_only_of_holds held]
    | inert => rfl
    | relay most least =>
      simp only [tickAll_only each]
      rfl

end Node

/-! Evaluation. -/

variable [Probe W P]

omit [Action W A] in
theorem Gate.check_only (gate : Gate P) (world : W) :
    @Gate.check W P (Host.only W context) (Probe.only W context P) gate context world = gate.check context world := by
  induction gate generalizing world with
  | atom | constant | flag => rfl
  | not operand ih => simp only [Gate.check, ih]
  | and left right ihl ihr | or left right ihl ihr => simp only [Gate.check, ihl, ihr]

omit [Action W A] in
theorem NodeState.passGate_only (state : NodeState A P) (world : W) :
    @NodeState.passGate W A P (Host.only W context) (Probe.only W context P) state context world =
      state.passGate context world := by
  unfold NodeState.passGate
  cases state.gate with
  | none => rfl
  | some gate => simp only [Gate.check_only]

omit [Action W A] in
theorem NodeState.pass_only (state : NodeState A P) (world : W) :
    @NodeState.pass W A P (Host.only W context) (Probe.only W context P) state context world =
      state.pass context world := by
  unfold NodeState.pass
  simp only [passGate_only]
  rfl

namespace Node

variable {children : List (Node A P)}

abbrev evaluateOnly (context : ContextId) (node : Node A P) (world : W) : Bool × Node A P × W :=
  @Node.evaluate W A P (Host.only W context) (Action.only W context A) (Probe.only W context P) node world

section Each
variable (each : ∀ child ∈ children, ∀ world : W, child.evaluateOnly context world = child.evaluate world)
include each

theorem evaluateHead_only (world : W) :
    @Node.evaluateHead W A P (Host.only W context) (Action.only W context A) (Probe.only W context P) children world =
      Node.evaluateHead children world := by
  cases children with
  | nil => rfl
  | cons first rest => simp only [Node.evaluateHead, each first List.mem_cons_self]

theorem evaluateAt_only (index : Nat) (world : W) :
    @Node.evaluateAt W A P (Host.only W context) (Action.only W context A) (Probe.only W context P) index children
      world = Node.evaluateAt index children world := by
  induction children generalizing index world with
  | nil => rfl
  | cons first rest ih =>
    cases index with
    | zero => simp only [Node.evaluateAt, each first List.mem_cons_self]
    | succ index =>
      simp only [Node.evaluateAt, ih fun child member => each child (List.mem_cons_of_mem _ member)]

theorem evaluateFirst_only (world : W) :
    @Node.evaluateFirst W A P (Host.only W context) (Action.only W context A) (Probe.only W context P) children world =
      Node.evaluateFirst children world := by
  induction children generalizing world with
  | nil => rfl
  | cons first rest ih =>
    simp only [Node.evaluateFirst, each first List.mem_cons_self,
      ih fun child member => each child (List.mem_cons_of_mem _ member)]

end Each

omit [Probe W P] in
theorem switchTo_only (holds : ∀ child ∈ children, child.Holds context) (winner previous : Option Nat) (world : W) :
    @Node.switchTo W A P (Host.only W context) (Action.only W context A) winner previous children world =
      Node.switchTo winner previous children world := by
  unfold Node.switchTo
  simp only [clearAt_only_of_holds holds]

theorem evaluate_only {node : Node A P} (holds : node.Holds context) (world : W) :
    node.evaluateOnly context world = node.evaluate world := by
  induction node generalizing world with
  | mk state children ih =>
    obtain ⟨here, below⟩ := holds_mk.mp holds
    have each := fun child member => ih child member (below child member)
    unfold evaluateOnly Node.evaluate
    rw [here]
    simp only [NodeState.pass_only]
    rcases state.pass context world with ⟨_ | _, admitted, during⟩
    · rfl
    dsimp only
    cases admitted.kind with
    | action lifecycle => rfl
    | sequence active =>
      cases active with
      | none =>
        simp only [evaluateHead_only each]
        rcases Node.evaluateHead children during with ⟨_ | _, after, later⟩ <;> rfl
      | some index =>
        have held := holds_evaluateAt below index during
        simp only [evaluateAt_only each]
        generalize Node.evaluateAt index children during = result at held ⊢
        rcases result with ⟨_ | _, after, later⟩
        · simp only [clearAt_only_of_holds held]
        · rfl
    | selector previous =>
      have held := holds_evaluateFirst below during
      simp only [evaluateFirst_only each, switchTo_only held]
      rfl
    | inert => rfl
    | relay most least => rfl

end Node

namespace Tree

/-- A call where only the context of the tree can be asked. -/
def callOnly (tree : Tree A P) (world : W) (next : Call W) : Tree A P × W :=
  @Tree.call W A P (Host.only W tree.context) (Action.only W tree.context A) (Probe.only W tree.context P)
    tree world next

theorem step_only {root : Node A P} (holds : root.Holds context) (world : W) :
    @Tree.step W A P (Host.only W context) (Action.only W context A) (Probe.only W context P) ⟨root, context⟩
      world = Tree.step ⟨root, context⟩ world := by
  have held := (Node.holds_congr (Node.held_evaluate root world)).mpr holds
  unfold Tree.step
  simp only [Node.evaluate_only holds]
  generalize root.evaluate world = result at held ⊢
  rcases result with ⟨_ | _, asked, during⟩
  · simp only [Node.clear_only held]
  · simp only [Node.tick_only held]

def removeOnly (tree : Tree A P) (world : W) (index : Nat) : Except EditError (Node A P × Node A P) × W :=
  @Node.removeChild W A P (Host.only W tree.context) (Action.only W tree.context A) tree.root index world

omit [Probe W P] in
theorem remove_only {tree : Tree A P} (holds : tree.root.Holds tree.context) (world : W) (index : Nat) :
    tree.removeOnly world index = tree.root.removeChild index world := by
  have here : tree.root.state.context = some tree.context := Node.Everywhere.here holds
  unfold removeOnly Node.removeChild
  simp only [Node.clear_only holds]
  unfold Node.reject
  rw [here]
  rfl

theorem call_only {tree : Tree A P} (holds : tree.root.Holds tree.context) (world : W) (next : Call W) :
    tree.callOnly world next = tree.call world next := by
  obtain ⟨root, context⟩ := tree
  unfold callOnly Tree.call
  cases next with
  | evaluate => simp only [Node.evaluate_only holds]
  | tick => simp only [Node.tick_only holds]
  | clear => simp only [Tree.clear, Node.clear_only holds]
  | step => simp only [step_only holds]
  | change outside => rfl

end Tree

end BehaviorTree
