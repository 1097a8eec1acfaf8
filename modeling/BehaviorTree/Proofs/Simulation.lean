import BehaviorTree.Node.Activation
import BehaviorTree.Proofs.RunState
import BehaviorTree.Tree

/-! One environment standing for another. Where every request is answered alike and leaves corresponding
environments, actions and probes behind, all operations of a tree carry over: they give the same
answers and leave corresponding trees. Nodes of every kind are covered, in any state. -/

set_option autoImplicit false

namespace BehaviorTree

variable {V W A B P Q : Type}

def Lifecycle.map (action : A → B) (lifecycle : Lifecycle A) : Lifecycle B :=
  ⟨action lifecycle.action, lifecycle.status⟩

def Kind.map (action : A → B) : Kind A → Kind B
  | .action lifecycle => .action (lifecycle.map action)
  | .sequence active => .sequence active
  | .selector active => .selector active
  | .inert => .inert
  | .relay most least => .relay most least

def Gate.map (probe : P → Q) : Gate P → Gate Q
  | .atom question => .atom (probe question)
  | .constant answer => .constant answer
  | .flag key => .flag key
  | .not operand => .not (operand.map probe)
  | .and left right => .and (left.map probe) (right.map probe)
  | .or left right => .or (left.map probe) (right.map probe)

def NodeState.map (action : A → B) (probe : P → Q) (state : NodeState A P) : NodeState B Q :=
  { state with kind := state.kind.map action, gate := state.gate.map (Gate.map probe) }

/-- The tree with every action and every probe exchanged. -/
def Node.exchange (action : A → B) (probe : P → Q) : Node A P → Node B Q := Node.map (NodeState.map action probe)

def Tree.exchange (action : A → B) (probe : P → Q) (tree : Tree A P) : Tree B Q :=
  ⟨tree.root.exchange action probe, tree.context⟩

@[simp] theorem Node.exchange_mk {action : A → B} {probe : P → Q} (state : NodeState A P)
    (children : List (Node A P)) : (Node.mk state children).exchange action probe =
      .mk (state.map action probe) (children.map (Node.exchange action probe)) := Node.map_mk _ _ _

/-! Exchanging actions and probes twice, or for themselves. -/

section Exchange

variable {C R : Type} {first : A → B} {second : B → C} {asks : P → Q} {other : Q → R}

theorem Gate.map_map (gate : Gate P) : (gate.map asks).map other = gate.map (other ∘ asks) := by
  induction gate with
  | atom | constant | flag => rfl
  | not operand ih => simp only [Gate.map, ih]
  | and left right ihl ihr | or left right ihl ihr => simp only [Gate.map, ihl, ihr]

theorem Gate.map_id (gate : Gate P) : gate.map id = gate := by
  induction gate with
  | atom | constant | flag => rfl
  | not operand ih => simp only [Gate.map, ih]
  | and left right ihl ihr | or left right ihl ihr => simp only [Gate.map, ihl, ihr]

theorem NodeState.map_map (state : NodeState A P) :
    (state.map first asks).map second other = state.map (second ∘ first) (other ∘ asks) := by
  obtain ⟨name, kind, gate, cooldown, lastPass, held⟩ := state
  cases kind <;> cases gate <;> simp [NodeState.map, Kind.map, Lifecycle.map, Gate.map_map]

theorem NodeState.map_id (state : NodeState A P) : state.map id id = state := by
  obtain ⟨name, kind, gate, cooldown, lastPass, held⟩ := state
  cases kind <;> cases gate <;> simp [NodeState.map, Kind.map, Lifecycle.map, Gate.map_id]

theorem Node.exchange_id (node : Node A P) : node.exchange id id = node := by
  induction node with
  | mk state children ih =>
    rw [exchange_mk, NodeState.map_id, List.map_congr_left ih, List.map_id']

theorem Tree.exchange_id (tree : Tree A P) : tree.exchange id id = tree := by rw [exchange, Node.exchange_id]

end Exchange

section RunState
variable {action : A → B} {probe : P → Q}

@[simp] theorem Kind.activeChild_map (kind : Kind A) : (kind.map action).activeChild = kind.activeChild := by
  cases kind <;> rfl

@[simp] theorem Kind.isRunning_map (kind : Kind A) : (kind.map action).isRunning = kind.isRunning := by
  cases kind <;> rfl

theorem Kind.map_eq_idle {kind : Kind A} : kind.map action = .sequence none ↔ kind = .sequence none := by
  cases kind <;> simp [Kind.map]

theorem Kind.isSelector_map (kind : Kind A) : (kind.map action).isSelector = kind.isSelector := by
  cases kind <;> rfl

theorem Node.isCore_exchange (node : Node A P) : (node.exchange action probe).isCore = node.isCore := by
  cases node with
  | mk state children => cases kind : state.kind <;> simp [isCore, NodeState.map, kind, Kind.map]

@[simp] theorem Node.length_children_exchange (node : Node A P) :
    (node.exchange action probe).children.length = node.children.length := by
  cases node
  simp

@[simp] theorem Node.maxChildren_exchange (node : Node A P) :
    (node.exchange action probe).maxChildren = node.maxChildren := by
  obtain ⟨⟨_, _ | _ | _ | _ | _, _, _, _, _⟩, _⟩ := node <;> rfl

@[simp] theorem Node.minChildren_exchange (node : Node A P) :
    (node.exchange action probe).minChildren = node.minChildren := by
  obtain ⟨⟨_, _ | _ | _ | _ | _, _, _, _, _⟩, _⟩ := node <;> rfl

theorem Node.name_exchange (node : Node A P) : (node.exchange action probe).name = node.name := by
  cases node
  rw [Node.exchange_mk]
  rfl

theorem Node.atRest_exchange {node : Node A P} : (node.exchange action probe).AtRest ↔ node.AtRest := by
  refine everywhere_map.trans (forall₂_congr fun other _ => ?_)
  cases other
  simp [isRunning, NodeState.map]

theorem Node.probed_exchange {node : Node A P} : (node.exchange action probe).Probed ↔ node.Probed := by
  refine everywhere_map.trans (forall₂_congr fun other _ => ?_)
  cases other
  simp [isRunning, NodeState.map, Kind.isSelector_map]

theorem Node.sound_exchange {node : Node A P} : (node.exchange action probe).Sound ↔ node.Sound := by
  have core : (node.exchange action probe).isCore = node.isCore := isCore_exchange node
  cases node with
  | mk state children =>
    rw [exchange_mk] at core ⊢
    constructor
    · rintro ⟨known, activated, bounded, others⟩
      refine ⟨core ▸ known, activated, ?_, fun index child selected inactive => ?_⟩
      · simpa [activeChild, NodeState.map] using bounded
      · have held := others index (child.exchange action probe)
          (List.getElem?_map.trans (congrArg (Option.map _) selected))
          (by simpa [activeChild, NodeState.map] using inactive)
        simpa [atRest_exchange, probed_exchange, NodeState.map, Kind.map_eq_idle] using held
    · rintro ⟨known, activated, bounded, others⟩
      refine ⟨core ▸ known, activated, ?_, fun index changed selected inactive => ?_⟩
      · simpa [activeChild, NodeState.map] using bounded
      · rw [children_mk, List.getElem?_map] at selected
        obtain ⟨child, found, rfl⟩ := Option.map_eq_some_iff.mp selected
        have held := others index child found (by simpa [activeChild, NodeState.map] using inactive)
        simpa [atRest_exchange, probed_exchange, NodeState.map, Kind.map_eq_idle] using held

theorem Node.dormant_exchange {node : Node A P} : (node.exchange action probe).Dormant ↔ node.Dormant := by
  have core : (node.exchange action probe).isCore = node.isCore := isCore_exchange node
  have rest : (node.exchange action probe).AtRest ↔ node.AtRest := atRest_exchange
  have held : (node.exchange action probe).state.context = node.state.context := by
    cases node
    rw [exchange_mk]
    rfl
  constructor
  · rintro ⟨known, inactive, still⟩
    exact ⟨core ▸ known, held ▸ inactive, rest.mp still⟩
  · rintro ⟨known, inactive, still⟩
    exact ⟨core ▸ known, held ▸ inactive, rest.mpr still⟩

theorem Node.settled_exchange {lax : Prop} {node : Node A P} :
    (node.exchange action probe).Settled lax ↔ node.Settled lax :=
  everywhere_map.trans (forall₂_congr fun _ _ => or_congr sound_exchange (and_congr_right' dormant_exchange))

theorem Node.steady_exchange {node : Node A P} : (node.exchange action probe).Steady ↔ node.Steady := by
  rw [← settled_false, settled_exchange, settled_false]

end RunState

variable [Host V] [Action V A] [Probe V P] [Host W] [Action W B] [Probe W Q]

/-- Whatever is asked in the first environment is answered alike in the second. -/
structure Simulates (world : V → W) (action : A → B) (probe : P → Q) : Prop where
  now : ∀ context here, Host.now context (world here) =
    ((Host.now context here).1, world (Host.now context here).2)
  flag : ∀ context key here, Host.flag context key (world here) = Host.flag context key here
  report : ∀ context name report here, Host.report context name report (world here) =
    world (Host.report context name report here)
  visit : ∀ visit here, Host.visit visit (world here) = world (Host.visit visit here)
  fault : ∀ here, Host.fault (world here) = world (Host.fault here)
  activate : ∀ leaf context here, Action.activate (action leaf) context (world here) =
    (action (Action.activate leaf context here).1, world (Action.activate leaf context here).2)
  check : ∀ leaf context here, Action.check (action leaf) context (world here) =
    ((Action.check leaf context here).1, action (Action.check leaf context here).2.1,
      world (Action.check leaf context here).2.2)
  enter : ∀ leaf context here, Action.enter (action leaf) context (world here) =
    (action (Action.enter leaf context here).1, world (Action.enter leaf context here).2)
  execute : ∀ leaf context here, Action.execute (action leaf) context (world here) =
    ((Action.execute leaf context here).1, action (Action.execute leaf context here).2.1,
      world (Action.execute leaf context here).2.2)
  exit : ∀ leaf context here, Action.exit (action leaf) context (world here) =
    (action (Action.exit leaf context here).1, world (Action.exit leaf context here).2)
  activateProbe : ∀ question context here, Probe.activate (probe question) context (world here) =
    (probe (Probe.activate question context here).1, world (Probe.activate question context here).2)
  checkProbe : ∀ question context here, Probe.check (probe question) context (world here) =
    ((Probe.check question context here).1, probe (Probe.check question context here).2.1,
      world (Probe.check question context here).2.2)

section Children

variable (world : V → W) (action : A → B) (probe : P → Q)

/-! What it means for an operation to carry over at one node. -/

abbrev ActivatesAlike (node : Node A P) : Prop := ∀ (context : ContextId) (here : V),
  (node.exchange action probe).activate context (world here) =
    ((node.activate context here).1.exchange action probe, world (node.activate context here).2)

abbrev ClearsAlike (node : Node A P) : Prop := ∀ here : V,
  (node.exchange action probe).clear (world here) =
    ((node.clear here).1.exchange action probe, world (node.clear here).2)

abbrev EvaluatesAlike (node : Node A P) : Prop := ∀ here : V,
  (node.exchange action probe).evaluate (world here) =
    ((node.evaluate here).1, (node.evaluate here).2.1.exchange action probe, world (node.evaluate here).2.2)

abbrev TicksAlike (node : Node A P) : Prop := ∀ here : V,
  (node.exchange action probe).tick (world here) =
    ((node.tick here).1, (node.tick here).2.1.exchange action probe, world (node.tick here).2.2)

variable {world : V → W} {action : A → B} {probe : P → Q} {children : List (Node A P)}

theorem activateAll_exchange (each : ∀ child ∈ children, ActivatesAlike world action probe child)
    (context : ContextId) (here : V) :
    Node.activateAll (children.map (Node.exchange action probe)) context (world here) =
      ((Node.activateAll children context here).1.map (Node.exchange action probe),
        world (Node.activateAll children context here).2) := by
  induction children generalizing here with
  | nil => rfl
  | cons first rest ih =>
    simp only [List.map_cons, Node.activateAll, each first List.mem_cons_self,
      ih fun child member => each child (List.mem_cons_of_mem _ member)]

omit [Probe V P] [Probe W Q] in
theorem clearAll_exchange (each : ∀ child ∈ children, ClearsAlike world action probe child) (here : V) :
    Node.clearAll (children.map (Node.exchange action probe)) (world here) =
      ((Node.clearAll children here).1.map (Node.exchange action probe), world (Node.clearAll children here).2) := by
  induction children generalizing here with
  | nil => rfl
  | cons first rest ih =>
    simp only [List.map_cons, Node.clearAll, each first List.mem_cons_self,
      ih fun child member => each child (List.mem_cons_of_mem _ member)]

omit [Probe V P] [Probe W Q] in
theorem tickAll_exchange (each : ∀ child ∈ children, TicksAlike world action probe child) (here : V) :
    Node.tickAll (children.map (Node.exchange action probe)) (world here) =
      ((Node.tickAll children here).1, (Node.tickAll children here).2.1.map (Node.exchange action probe),
        world (Node.tickAll children here).2.2) := by
  induction children generalizing here with
  | nil => rfl
  | cons first rest ih =>
    simp only [List.map_cons, Node.tickAll, each first List.mem_cons_self,
      ih fun child member => each child (List.mem_cons_of_mem _ member)]

theorem evaluateHead_exchange (each : ∀ child ∈ children, EvaluatesAlike world action probe child) (here : V) :
    Node.evaluateHead (children.map (Node.exchange action probe)) (world here) =
      ((Node.evaluateHead children here).1, (Node.evaluateHead children here).2.1.map (Node.exchange action probe),
        world (Node.evaluateHead children here).2.2) := by
  cases children with
  | nil => rfl
  | cons first rest => simp only [List.map_cons, Node.evaluateHead, each first List.mem_cons_self]

theorem evaluateFirst_exchange (each : ∀ child ∈ children, EvaluatesAlike world action probe child) (here : V) :
    Node.evaluateFirst (children.map (Node.exchange action probe)) (world here) =
      ((Node.evaluateFirst children here).1,
        (Node.evaluateFirst children here).2.1.map (Node.exchange action probe),
        world (Node.evaluateFirst children here).2.2) := by
  induction children generalizing here with
  | nil => rfl
  | cons first rest ih =>
    simp only [List.map_cons, Node.evaluateFirst, each first List.mem_cons_self]
    rcases first.evaluate here with ⟨_ | _, asked, later⟩
    · simp only [ih fun child member => each child (List.mem_cons_of_mem _ member), List.map_cons]
    · rfl

end Children

namespace Simulates

variable {world : V → W} {action : A → B} {probe : P → Q} (sim : Simulates world action probe)
include sim

theorem gate_activate (gate : Gate P) (context : ContextId) (here : V) :
    (gate.map probe).activate context (world here) =
      ((gate.activate context here).1.map probe, world (gate.activate context here).2) := by
  induction gate generalizing here with
  | atom question => simp only [Gate.map, Gate.activate, sim.activateProbe]
  | constant answer | flag key => rfl
  | not operand ih => simp only [Gate.map, Gate.activate, ih]
  | and left right ihl ihr | or left right ihl ihr => simp only [Gate.map, Gate.activate, ihl, ihr]

theorem gate_check (gate : Gate P) (context : ContextId) (here : V) :
    (gate.map probe).check context (world here) =
      ((gate.check context here).1, (gate.check context here).2.1.map probe,
        world (gate.check context here).2.2) := by
  induction gate generalizing here with
  | atom question => simp only [Gate.map, Gate.check, sim.checkProbe]
  | constant answer => rfl
  | flag key => simp only [Gate.map, Gate.check, sim.flag]
  | not operand ih => simp only [Gate.map, Gate.check, ih]
  | and left right ihl ihr | or left right ihl ihr =>
    simp only [Gate.map, Gate.check, ihl]
    rcases left.check context here with ⟨_ | _, asked, later⟩ <;> simp only [Gate.map, ihr]

theorem pass_exchange (state : NodeState A P) (context : ContextId) (here : V) :
    (state.map action probe).pass context (world here) =
      ((state.pass context here).1, (state.pass context here).2.1.map action probe,
        world (state.pass context here).2.2) := by
  obtain ⟨name, kind, gate, cooldown, lastPass, held⟩ := state
  simp only [NodeState.pass, NodeState.map, sim.now]
  split
  · cases gate with
    | none => rfl
    | some gate => simp only [NodeState.passGate, Option.map_some, sim.gate_check]
  · rfl

theorem activateGate (state : NodeState A P) (context : ContextId) (here : V) :
    (state.map action probe).activateGate context (world here) =
      ((state.activateGate context here).1.map action probe, world (state.activateGate context here).2) := by
  obtain ⟨name, kind, gate, cooldown, lastPass, held⟩ := state
  cases gate with
  | none => rfl
  | some gate => simp only [NodeState.activateGate, NodeState.map, Option.map_some, sim.gate_activate]

theorem lifecycle_clear (lifecycle : Lifecycle A) (name : String) (context : ContextId) (here : V) :
    (lifecycle.map action).clear name context (world here) =
      ((lifecycle.clear name context here).1.map action, world (lifecycle.clear name context here).2) := by
  rcases lifecycle with ⟨leaf, _ | _⟩
  · rfl
  · simp only [Lifecycle.map, Lifecycle.clear, Lifecycle.finish, sim.exit, sim.report]

theorem lifecycle_check (lifecycle : Lifecycle A) (context : ContextId) (here : V) :
    (lifecycle.map action).check context (world here) =
      ((lifecycle.check context here).1, (lifecycle.check context here).2.1.map action,
        world (lifecycle.check context here).2.2) := by
  simp only [Lifecycle.map, Lifecycle.check, sim.check]

theorem lifecycle_tick (lifecycle : Lifecycle A) (name : String) (context : ContextId) (here : V) :
    (lifecycle.map action).tick name context (world here) =
      ((lifecycle.tick name context here).1, (lifecycle.tick name context here).2.1.map action,
        world (lifecycle.tick name context here).2.2) := by
  have started : (lifecycle.map action).start name context (world here) =
      ((lifecycle.start name context here).1.map action, world (lifecycle.start name context here).2) := by
    rcases lifecycle with ⟨leaf, _ | _⟩
    · simp only [Lifecycle.map, Lifecycle.start, sim.enter, sim.report]
    · rfl
  simp only [Lifecycle.tick, started]
  rcases lifecycle.start name context here with ⟨⟨leaf, status⟩, later⟩
  simp only [Lifecycle.map, sim.execute]
  rcases Action.execute leaf context later with ⟨_ | _, executed, after⟩
  · rfl
  · simp only [Lifecycle.finish, sim.exit, sim.report]

/-! The child at a position is missing in both trees or in none. -/

section Position
variable {children : List (Node A P)}

theorem clearAt_exchange (each : ∀ child ∈ children, ClearsAlike world action probe child) (index : Nat) (here : V) :
    Node.clearAt index (children.map (Node.exchange action probe)) (world here) =
      ((Node.clearAt index children here).1.map (Node.exchange action probe),
        world (Node.clearAt index children here).2) := by
  induction children generalizing index here with
  | nil => simp only [List.map_nil, Node.clearAt, sim.fault]
  | cons first rest ih =>
    cases index with
    | zero => simp only [List.map_cons, Node.clearAt, each first List.mem_cons_self]
    | succ index =>
      simp only [List.map_cons, Node.clearAt, ih fun child member => each child (List.mem_cons_of_mem _ member)]

theorem tickAt_exchange (each : ∀ child ∈ children, TicksAlike world action probe child) (index : Nat) (here : V) :
    Node.tickAt index (children.map (Node.exchange action probe)) (world here) =
      ((Node.tickAt index children here).1,
        (Node.tickAt index children here).2.1.map (Node.exchange action probe),
        world (Node.tickAt index children here).2.2) := by
  induction children generalizing index here with
  | nil => simp only [List.map_nil, Node.tickAt, sim.fault]
  | cons first rest ih =>
    cases index with
    | zero => simp only [List.map_cons, Node.tickAt, each first List.mem_cons_self]
    | succ index =>
      simp only [List.map_cons, Node.tickAt, ih fun child member => each child (List.mem_cons_of_mem _ member)]

theorem evaluateAt_exchange (each : ∀ child ∈ children, EvaluatesAlike world action probe child) (index : Nat) (here : V) :
    Node.evaluateAt index (children.map (Node.exchange action probe)) (world here) =
      ((Node.evaluateAt index children here).1,
        (Node.evaluateAt index children here).2.1.map (Node.exchange action probe),
        world (Node.evaluateAt index children here).2.2) := by
  induction children generalizing index here with
  | nil => simp only [List.map_nil, Node.evaluateAt, sim.fault]
  | cons first rest ih =>
    cases index with
    | zero => simp only [List.map_cons, Node.evaluateAt, each first List.mem_cons_self]
    | succ index =>
      simp only [List.map_cons, Node.evaluateAt, ih fun child member => each child (List.mem_cons_of_mem _ member)]

theorem switchTo_exchange (each : ∀ child ∈ children, ClearsAlike world action probe child)
    (winner previous : Option Nat) (here : V) :
    Node.switchTo winner previous (children.map (Node.exchange action probe)) (world here) =
      ((Node.switchTo winner previous children here).1.map (Node.exchange action probe),
        world (Node.switchTo winner previous children here).2) := by
  cases previous with
  | none => rfl
  | some index =>
    by_cases stays : winner = some index
    · simp only [Node.switchTo, stays, if_true]
    · simp only [Node.switchTo, stays, if_false, sim.clearAt_exchange each]

end Position

theorem activate_exchange (node : Node A P) : ActivatesAlike world action probe node := by
  induction node with
  | mk state children ih =>
    intro context here
    have held : (state.map action probe).context = state.context := rfl
    simp only [Node.exchange_mk, Node.activate, held]
    cases state.context with
    | some _ => simp
    | none =>
      simp only [sim.activateGate, activateAll_exchange ih]
      rcases state.activateGate context here with ⟨⟨name, kind, gate, cooldown, lastPass, held⟩, during⟩
      cases kind <;> simp [NodeState.map, Kind.map, Kind.activate, Lifecycle.activate, Lifecycle.map,
        sim.activate, sim.visit]

theorem clear_exchange (node : Node A P) : ClearsAlike world action probe node := by
  induction node with
  | mk state children ih =>
    intro here
    obtain ⟨name, kind, gate, cooldown, lastPass, held⟩ := state
    cases held with
    | none => simp [Node.clear, NodeState.map]
    | some context =>
      cases kind with
      | action lifecycle => simp [Node.clear, NodeState.map, Kind.map, sim.lifecycle_clear]
      | sequence active => simp [Node.clear, NodeState.map, Kind.map, clearAll_exchange ih]
      | selector active =>
        cases active with
        | none => simp [Node.clear, NodeState.map, Kind.map]
        | some index => simp [Node.clear, NodeState.map, Kind.map, sim.clearAt_exchange ih]
      | inert => simp [Node.clear, NodeState.map, Kind.map]
      | relay most least => simp [Node.clear, NodeState.map, Kind.map, sim.visit, clearAll_exchange ih]

theorem tick_exchange (node : Node A P) : TicksAlike world action probe node := by
  -- Answers agree, so both trees take the same branch. The cases are those of the first tree.
  induction node with
  | mk state children ih =>
    intro here
    obtain ⟨name, kind, gate, cooldown, lastPass, held⟩ := state
    have clearing (children : List (Node A P)) := sim.clearAt_exchange fun child (_ : child ∈ children) => sim.clear_exchange child
    cases held with
    | none => simp [Node.tick, NodeState.map, sim.report]
    | some context =>
      cases kind with
      | action lifecycle => simp [Node.tick, NodeState.map, Kind.map, sim.lifecycle_tick]
      | sequence active =>
        simp only [Node.exchange_mk, NodeState.map, Kind.map, Node.tick, List.isEmpty_map, sim.tickAt_exchange ih]
        split
        · simp [sim.report, NodeState.map, Kind.map]
        · rcases Node.tickAt (active.getD 0) children here with ⟨_ | _, ticked, later⟩
          · simp [NodeState.map, Kind.map]
          · simp only [clearing, List.length_map]
            split <;> simp [NodeState.map, Kind.map]
      | selector active =>
        cases active with
        | none =>
          simp only [Node.exchange_mk, NodeState.map, Kind.map, Node.tick, List.isEmpty_map]
          split <;> simp [sim.report, NodeState.map, Kind.map]
        | some index =>
          simp only [Node.exchange_mk, NodeState.map, Kind.map, Node.tick, sim.tickAt_exchange ih]
          rcases Node.tickAt index children here with ⟨_ | _, ticked, later⟩ <;>
            simp [clearing, NodeState.map, Kind.map]
      | inert => simp [Node.tick, NodeState.map, Kind.map]
      | relay most least => simp [Node.tick, NodeState.map, Kind.map, sim.now, sim.visit, tickAll_exchange ih]

theorem evaluate_exchange (node : Node A P) : EvaluatesAlike world action probe node := by
  induction node with
  | mk state children ih =>
    intro here
    have clearing (children : List (Node A P)) := sim.clearAt_exchange fun child (_ : child ∈ children) => sim.clear_exchange child
    have switching (children : List (Node A P)) :=
      sim.switchTo_exchange fun child (_ : child ∈ children) => sim.clear_exchange child
    have held : (state.map action probe).context = state.context := rfl
    simp only [Node.exchange_mk, Node.evaluate, held]
    cases state.context with
    | none => simp
    | some context =>
      simp only [sim.pass_exchange]
      rcases state.pass context here with ⟨_ | _, ⟨name, kind, gate, cooldown, lastPass, held⟩, during⟩
      · simp
      cases kind with
      | action lifecycle => simp [NodeState.map, Kind.map, sim.lifecycle_check]
      | sequence active =>
        cases active with
        | none =>
          simp only [NodeState.map, Kind.map, evaluateHead_exchange ih]
          rcases Node.evaluateHead children during with ⟨_ | _, asked, later⟩ <;>
            simp [sim.report, NodeState.map, Kind.map]
        | some index =>
          simp only [NodeState.map, Kind.map, sim.evaluateAt_exchange ih]
          rcases Node.evaluateAt index children during with ⟨_ | _, asked, later⟩ <;>
            simp [clearing, NodeState.map, Kind.map]
      | selector previous =>
        simp only [NodeState.map, Kind.map, List.isEmpty_map]
        split
        · simp [sim.report, NodeState.map, Kind.map]
        · simp [evaluateFirst_exchange ih, switching, NodeState.map, Kind.map]
      | inert => simp [NodeState.map, Kind.map]
      | relay most least => simp [NodeState.map, Kind.map, sim.visit]

theorem step_exchange (tree : Tree A P) (here : V) : (tree.exchange action probe).step (world here) =
    ((tree.step here).1, (tree.step here).2.1.exchange action probe, world (tree.step here).2.2) := by
  simp only [Tree.step, Tree.exchange, sim.evaluate_exchange tree.root here]
  rcases tree.root.evaluate here with ⟨_ | _, asked, later⟩
  · simp only [sim.clear_exchange asked later]
  · simp only [sim.tick_exchange asked later]

end Simulates

end BehaviorTree
