import BehaviorTree.Proofs.Loads
import BehaviorTree.Proofs.Expansion
import BehaviorTree.Proofs.Simulation

/-! The node of a definition that holds no references, told from the definition and from what constructors
answer, and how a reference changes the node of its tree. A computation of the loader yields such a node
if it ends with it in every environment. -/

set_option autoImplicit false

namespace BehaviorTree

variable {W A B P Q : Type}

namespace Registry

/-- A constructor answers the same on every call, up to what `action` and `probe` leave out. -/
structure Consistent (registry : Registry W A P) (action : A → B) (probe : P → Q) : Prop where
  kinds : ∀ name construct, registry.kind? name = some construct → ∀ one other : W,
    (construct one).1.map action = (construct other).1.map action
  gates : ∀ name construct, registry.gate? name = some construct → ∀ argument (one other : W),
    (construct argument one).1.map (Gate.map probe) = (construct argument other).1.map (Gate.map probe)

def kindAt (registry : Registry W A P) (action : A → B) (world : W) (name : String) : Option (Kind B) :=
  (registry.kind? name).map fun construct => (construct world).1.map action

def gateAt (registry : Registry W A P) (probe : P → Q) (world : W) (name : String) (argument : Option String) :
    Option (Gate Q) :=
  (registry.gate? name).bind fun construct => (construct argument world).1.map (Gate.map probe)

end Registry

section Plan

variable (registry : Registry W A P) (action : A → B) (probe : P → Q) (world : W)

/-- The gate of a condition, if its atoms are answered as in one environment. -/
def Condition.gateAt : Condition → Option (Gate Q)
  | .atom name argument => registry.gateAt probe world name argument
  | .not operand => operand.gateAt.bind fun operand => some (.not operand)
  | .and left right => left.gateAt.bind fun left => right.gateAt.bind fun right => some (.and left right)
  | .or left right => left.gateAt.bind fun left => right.gateAt.bind fun right => some (.or left right)

def Definition.gateAt : Option Condition → Option (Option (Gate Q))
  | none => some none
  | some condition => (condition.gateAt registry probe world).bind fun gate => some (some gate)

def Node.give (node child : Node B Q) : Option (Node B Q) :=
  if (ChildLimit.finite node.children.length).lt node.maxChildren then
    some (.mk node.state (node.children ++ [child]))
  else none

def Node.grow (node : Node B Q) : List (Node B Q) → Option (Node B Q)
  | [] => some node
  | child :: rest => (node.give child).bind fun node => node.grow rest

def Node.filled (node : Node B Q) : Option (Node B Q) :=
  if node.minChildren ≤ node.children.length then some node else none

mutual

/-- The node of a definition that holds no references. -/
def Definition.nodeAt : Definition → Option (Node B Q)
  | ⟨type, label, when, cooldown, children⟩ =>
    (registry.kindAt action world type).bind fun kind =>
      (Definition.gateAt registry probe world when).bind fun gate =>
        ((Definition.nodesAt children).bind (Definition.dress label cooldown gate (Node.fresh type kind)).grow).bind
          Node.filled

def Definition.nodesAt : List Definition → Option (List (Node B Q))
  | [] => some []
  | definition :: rest =>
    definition.nodeAt.bind fun node => (Definition.nodesAt rest).bind fun nodes => some (node :: nodes)

end

variable {registry action probe world}

theorem Definition.nodeAt_eq (definition : Definition) : definition.nodeAt registry action probe world =
    (registry.kindAt action world definition.type).bind fun kind =>
      (Definition.gateAt registry probe world definition.when).bind fun gate =>
        ((Definition.nodesAt registry action probe world definition.children).bind
          (Definition.dress definition.label definition.cooldown gate (Node.fresh definition.type kind)).grow).bind
            Node.filled := by
  cases definition
  rw [nodeAt]

theorem Definition.gateAt_both (first second : Option Condition) :
    Definition.gateAt registry probe world (Condition.both first second) =
      (Definition.gateAt registry probe world first).bind fun inner =>
        (Definition.gateAt registry probe world second).bind fun outer => some (Gate.both inner outer) := by
  cases first with
  | none =>
    cases second with
    | none => rfl
    | some second => cases given : second.gateAt registry probe world <;> simp [gateAt, Condition.both, Gate.both, given]
  | some first =>
    cases second with
    | none => cases given : first.gateAt registry probe world <;> simp [gateAt, Condition.both, Gate.both, given]
    | some second =>
      cases given : first.gateAt registry probe world <;> cases asked : second.gateAt registry probe world <;>
        simp [gateAt, Condition.both, Condition.gateAt, Gate.both, given, asked]

end Plan

namespace Node

variable {node : Node B Q} {change : NodeState B Q → NodeState B Q}

theorem give_withState (same : ∀ state, (change state).kind = state.kind) (node child : Node B Q) :
    (node.withState change).give child = (node.give child).map fun node => node.withState change := by
  by_cases room : (ChildLimit.finite node.children.length).lt node.state.kind.maxChildren = true <;>
    simp [give, withState, maxChildren, same, room]

theorem grow_withState (same : ∀ state, (change state).kind = state.kind) (node : Node B Q) (nodes : List (Node B Q)) :
    (node.withState change).grow nodes = (node.grow nodes).map fun node => node.withState change := by
  induction nodes generalizing node with
  | nil => rfl
  | cons child rest ih =>
    rw [grow, grow, give_withState same]
    cases node.give child with
    | none => rfl
    | some grown => exact ih grown

theorem filled_withState (same : ∀ state, (change state).kind = state.kind) (node : Node B Q) :
    (node.withState change).filled = node.filled.map fun node => node.withState change := by
  by_cases enough : node.state.kind.minChildren ≤ node.children.length <;>
    simp [filled, withState, minChildren, same, enough]

theorem filled_of_eq_some {grown : Node B Q} (full : node.filled = some grown) : grown.filled = some grown := by
  rw [filled] at full
  split at full
  · cases full
    next enough => exact if_pos enough
  · cases full

end Node

namespace Definition

def redress (definition : Definition) (gate : Option (Gate Q)) (node : Node B Q) : Node B Q :=
  dress definition.label definition.cooldown gate (node.withName definition.type)

theorem redress_eq (definition : Definition) (gate : Option (Gate Q)) :
    (definition.redress gate : Node B Q → Node B Q) = fun node => node.withState fun state => { state with
      name := definition.label.getD definition.type
      cooldown := definition.cooldown.getD state.cooldown
      gate := Gate.both state.gate gate } := by
  funext node
  exact Source.dress_eq _ _ gate _

theorem grow_redress (definition : Definition) (gate : Option (Gate Q)) (node : Node B Q) (nodes : List (Node B Q)) :
    (definition.redress gate node).grow nodes = (node.grow nodes).map (definition.redress gate) := by
  rw [redress_eq]
  refine Node.grow_withState ?_ node nodes
  exact fun _ => rfl

theorem filled_redress (definition : Definition) (gate : Option (Gate Q)) (node : Node B Q) :
    (definition.redress gate node).filled = node.filled.map (definition.redress gate) := by
  rw [redress_eq]
  refine Node.filled_withState ?_ node
  exact fun _ => rfl

theorem dress_inPlaceOf (root reference : Definition) (inner outer : Option (Gate Q)) (node : Node B Q)
    (bare : node.state.gate = none) :
    dress (root.inPlaceOf reference).label (root.inPlaceOf reference).cooldown (Gate.both inner outer) node =
      reference.redress outer (dress root.label root.cooldown inner node) := by
  obtain ⟨type, label, when, cooldown, children⟩ := root
  obtain ⟨name, title, asked, pause, rest⟩ := reference
  cases node with
  | mk state nodes =>
    simp only [Node.state_mk] at bare
    cases label <;> cases cooldown <;> cases title <;> cases pause <;>
      simp [inPlaceOf, redress, dress, Node.withName, Node.withCooldown, Node.withGate, Node.withState, bare, Gate.both]

variable {registry : Registry W A P} {action : A → B} {probe : P → Q} {world : W}

theorem filled_of_nodeAt {definition : Definition} {node : Node B Q}
    (made : definition.nodeAt registry action probe world = some node) : node.filled = some node := by
  rw [nodeAt_eq] at made
  obtain ⟨kind, _, made⟩ := Option.bind_eq_some_iff.mp made
  obtain ⟨gate, _, made⟩ := Option.bind_eq_some_iff.mp made
  obtain ⟨grown, _, full⟩ := Option.bind_eq_some_iff.mp made
  exact Node.filled_of_eq_some full

theorem nodeAt_inPlaceOf (root reference : Definition) :
    (root.inPlaceOf reference).nodeAt registry action probe world =
      (root.nodeAt registry action probe world).bind fun node =>
        (gateAt registry probe world reference.when).bind fun gate => some (reference.redress gate node) := by
  have asked : (root.inPlaceOf reference).when = Condition.both root.when reference.when := rfl
  have type : (root.inPlaceOf reference).type = root.type := rfl
  have children : (root.inPlaceOf reference).children = root.children := rfl
  rw [nodeAt_eq, nodeAt_eq, asked, type, children, gateAt_both]
  cases registry.kindAt action world root.type with
  | none => rfl
  | some kind =>
    cases gateAt registry probe world root.when with
    | none => rfl
    | some inner =>
      cases nodesAt registry action probe world root.children with
      | none =>
        -- The gate of the reference comes before the children here and after them there; neither makes a node.
        cases gateAt registry probe world reference.when <;> rfl
      | some nodes =>
        simp only [Option.bind_some]
        cases gateAt registry probe world reference.when with
        | none => simp only [Option.bind_none, Option.bind_fun_none]
        | some outer =>
          have bare : (Node.fresh (A := B) (P := Q) root.type kind).state.gate = none := rfl
          simp only [Option.bind_some, dress_inPlaceOf root reference inner outer _ bare, grow_redress]
          cases (dress root.label root.cooldown inner (Node.fresh root.type kind)).grow nodes with
          | none => rfl
          | some grown =>
            simp only [Option.map_some, Option.bind_some, filled_redress]
            cases grown.filled <;> rfl

end Definition

namespace Loading

variable {α β γ δ : Type}

/-- What a computation ends with in any environment, or `none` if it fails in all of them. -/
def Yields (view : α → γ) (run : Loading W α) (result : Option γ) : Prop :=
  ∀ world, (run world).1.toOption.map view = result

theorem Yields.bind {view : α → γ} {shown : β → δ} {run : Loading W α} {next : α → Loading W β} {result : Option γ}
    {after : γ → Option δ} (first : Yields view run result)
    (second : ∀ value, Yields shown (next value) (after (view value))) :
    Yields shown (run >>= next) (result.bind after) := by
  intro world
  rw [bind_apply, ← first world]
  rcases run world with ⟨error | value, during⟩
  · rfl
  · exact second value during

theorem yields_pure (view : α → γ) (value : α) : Yields view (pure value : Loading W α) (some (view value)) :=
  fun _ => rfl

theorem yields_fail (view : α → γ) (error : LoadError) : Yields view (fail error : Loading W α) none :=
  fun _ => rfl

end Loading

section Yields

open Loading

variable {registry : Registry W A P} {action : A → B} {probe : P → Q}

theorem Condition.load_yields (consistent : registry.Consistent action probe) (world : W) (condition : Condition) :
    Yields (Gate.map probe) (condition.load registry) (condition.gateAt registry probe world) := by
  induction condition with
  | atom name argument =>
    intro other
    rw [load_atom, gateAt, Registry.gateAt]
    cases known : registry.gate? name with
    | none => rfl
    | some construct =>
      rw [Option.bind_some, consistent.gates name construct known argument world other]
      dsimp only
      rcases construct argument other with ⟨_ | gate, after⟩ <;> rfl
  | not operand ih => exact ih.bind fun gate => yields_pure (Gate.map probe) (.not gate)
  | and left right ihl ihr =>
    exact ihl.bind fun first => ihr.bind fun second => yields_pure (Gate.map probe) (.and first second)
  | or left right ihl ihr =>
    exact ihl.bind fun first => ihr.bind fun second => yields_pure (Gate.map probe) (.or first second)

theorem Definition.loadGate_yields (consistent : registry.Consistent action probe) (world : W)
    (condition : Option Condition) :
    Yields (Option.map (Gate.map probe)) (loadGate registry condition) (gateAt registry probe world condition) := by
  cases condition with
  | none => exact yields_pure _ none
  | some condition =>
    exact (condition.load_yields consistent world).bind fun gate => yields_pure (Option.map (Gate.map probe)) (some gate)

theorem Definition.exchange_dress (label : Option String) (cooldown : Option Float) (gate : Option (Gate P))
    (node : Node A P) : (dress label cooldown gate node).exchange action probe =
      dress label cooldown (gate.map (Gate.map probe)) (node.exchange action probe) := by
  cases node with
  | mk state children =>
    cases label <;> cases cooldown <;> cases gate <;> cases held : state.gate <;>
      simp [dress, Node.withName, Node.withCooldown, Node.withGate, Node.withState, NodeState.map, Gate.both,
        Gate.map, held]

theorem Node.exchange_fresh (name : String) (kind : Kind A) :
    (Node.fresh name kind : Node A P).exchange action probe = Node.fresh name (kind.map action) := by
  simp [Node.fresh, NodeState.map]

theorem Node.exchange_withName (node : Node A P) (name : String) :
    (node.withName name).exchange action probe = (node.exchange action probe).withName name := by
  cases node
  simp [withName, withState, NodeState.map]

variable [Host W]

theorem Definition.adopt_yields (type : String) (parent child : Node A P) :
    Yields (Node.exchange action probe) (adopt type parent child : Loading W (Node A P))
      ((parent.exchange action probe).give (child.exchange action probe)) := by
  intro world
  rw [Node.give, Node.length_children_exchange, Node.maxChildren_exchange]
  cases room : (ChildLimit.finite parent.children.length).lt parent.maxChildren with
  | true =>
    rw [Source.adopt_of_room room, if_pos rfl]
    cases parent
    simp [Except.toOption]
  | false =>
    obtain ⟨cause, later, failed⟩ := Source.adopt_of_full type child room world
    rw [failed]
    rfl

omit [Host W] in
theorem Definition.checkChildren_yields (node : Node A P) :
    Yields (Node.exchange action probe) (checkChildren node : Loading W (Node A P))
      (node.exchange action probe).filled := by
  rw [checkChildren, Node.filled, Node.length_children_exchange, Node.minChildren_exchange]
  by_cases few : node.children.length < node.minChildren
  · rw [if_pos few, if_neg (Nat.not_le_of_lt few)]
    exact yields_fail _ _
  · rw [if_neg few, if_pos (Nat.le_of_not_lt few)]
    exact yields_pure _ node

end Yields

end BehaviorTree
