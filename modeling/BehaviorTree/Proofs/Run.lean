import BehaviorTree.Node.Editing
import BehaviorTree.Proofs.Steadiness
import BehaviorTree.Script.Action

/-! Runs. A tree is built, started in a context, and called any number of times in any order; between
two calls its environment may change in any way. The tree is steady after every run. -/

set_option autoImplicit false

namespace BehaviorTree

variable {W A P : Type}

namespace Node

/-- A node as it is built: never activated, evaluated or ticked. -/
structure Untouched (node : Node A P) : Prop where
  core : node.isCore = true
  inactive : node.isActivated = false
  unasked : node.state.lastPass.isNone = true
  idle : node.isRunning = false

instance : DecidablePred (Untouched (A := A) (P := P)) := fun node =>
  decidable_of_iff (node.isCore = true ∧ node.isActivated = false ∧ node.state.lastPass.isNone = true ∧
      node.isRunning = false)
    ⟨fun ⟨core, inactive, unasked, idle⟩ => ⟨core, inactive, unasked, idle⟩,
      fun ⟨core, inactive, unasked, idle⟩ => ⟨core, inactive, unasked, idle⟩⟩

/-- A tree of actions, sequences and selectors before its activation. -/
def Built (node : Node A P) : Prop := node.Everywhere Untouched

instance (node : Node A P) : Decidable node.Built := inferInstanceAs (Decidable (node.Everywhere Untouched))

theorem built_mk {state : NodeState A P} {children : List (Node A P)} : (mk state children).Built ↔
    (mk state children).Untouched ∧ ∀ child ∈ children, child.Built := everywhere_mk

theorem built_action (name : String) (action : A) :
    (Node.fresh name (.action (.fresh action)) : Node A P).Built :=
  built_mk.mpr ⟨⟨rfl, rfl, rfl, rfl⟩, nofun⟩

theorem built_sequence (name : String) : (Node.fresh name (.sequence none) : Node A P).Built :=
  built_mk.mpr ⟨⟨rfl, rfl, rfl, rfl⟩, nofun⟩

theorem built_selector (name : String) : (Node.fresh name (.selector none) : Node A P).Built :=
  built_mk.mpr ⟨⟨rfl, rfl, rfl, rfl⟩, nofun⟩

theorem Built.withState {node : Node A P} (built : node.Built) {change : NodeState A P → NodeState A P}
    (kind : (change node.state).kind = node.state.kind)
    (lastPass : (change node.state).lastPass = node.state.lastPass)
    (context : (change node.state).context = node.state.context) : (node.withState change).Built := by
  cases node with
  | mk state children =>
    obtain ⟨⟨core, inactive, unasked, idle⟩, below⟩ := built_mk.mp built
    simp only [isCore, isActivated, isRunning, state_mk] at core inactive unasked idle kind lastPass context
    rw [← kind] at core idle
    rw [← lastPass] at unasked
    rw [← context] at inactive
    exact built_mk.mpr ⟨⟨core, inactive, unasked, idle⟩, below⟩

theorem Built.addChild [Host W] {node child after : Node A P} {world later : W} (built : node.Built)
    (added : child.Built) (accepted : node.addChild child world = (.ok after, later)) : after.Built := by
  simp only [Node.addChild] at accepted
  split at accepted
  · next room =>
    cases accepted
    cases node with
    | mk state children =>
      obtain ⟨⟨core, inactive, unasked, idle⟩, below⟩ := built_mk.mp built
      refine built_mk.mpr ⟨⟨?_, inactive, unasked, idle⟩, ?_⟩
      · cases kind : state.kind with
        | action lifecycle =>
          -- An action has no room for a child.
          simp [ChildLimit.lt, ChildLimit.compare?, Node.maxChildren, kind, Kind.maxChildren,
            Lifecycle.maxChildren, Nat.compare_eq_lt] at room
        | sequence active | selector active => simp [isCore, kind]
        | inert | relay most least => simp [isCore, kind] at core
      · rintro other member
        rcases List.mem_append.mp member with member | member
        · exact below other member
        · exact List.mem_singleton.mp member ▸ added
  · split at accepted <;> cases accepted

end Node

variable [Host W] [Action W A] [Probe W P]

omit [Host W] [Action W A] in
theorem NodeState.activateGate_kind (state : NodeState A P) (context : ContextId) (world : W) :
    (state.activateGate context world).1.kind = state.kind := by
  simp only [activateGate]
  split <;> rfl

namespace Node

theorem forall_activateAll {p : Node A P → Prop} {children : List (Node A P)} {context : ContextId}
    (each : ∀ child ∈ children, ∀ world : W, p (child.activate context world).1) (world : W) :
    ∀ child ∈ (Node.activateAll children context world).1, p child := by
  induction children generalizing world with
  | nil => exact fun _ member => nomatch member
  | cons first rest ih =>
    simp only [Node.activateAll, List.forall_mem_cons]
    exact ⟨each first List.mem_cons_self world, ih (fun child member => each child (List.mem_cons_of_mem _ member)) _⟩

theorem length_activateAll (children : List (Node A P)) (context : ContextId) (world : W) :
    (Node.activateAll children context world).1.length = children.length := by
  induction children generalizing world with
  | nil => rfl
  | cons first rest ih => simp only [Node.activateAll, List.length_cons, ih]

theorem activate_resting {node : Node A P} (built : node.Built) (context : ContextId) (world : W) :
    (node.activate context world).1.Resting := by
  induction node generalizing world with
  | mk state children ih =>
    obtain ⟨⟨core, inactive, _, idle⟩, below⟩ := built_mk.mp built
    have each := forall_activateAll (fun child member => ih child member (below child member))
      (state.activateGate context world).2
    have inactive : state.context = none := by simpa [isActivated] using inactive
    simp only [isCore, isRunning, state_mk] at core idle
    simp only [Node.activate, inactive, NodeState.activateGate_kind]
    cases kind : state.kind with
    | action lifecycle =>
      rw [kind] at core idle
      obtain rfl := List.isEmpty_iff.mp core
      exact .of_idle rfl rfl idle (List.forall_mem_nil _)
    | sequence active | selector active =>
      rw [kind] at idle
      exact .of_idle rfl rfl idle each
    | inert | relay most least => simp [kind] at core

end Node

/-- What a host does with a started tree: it makes a call, or changes the environment in between. -/
inductive Call (W : Type) where
  | evaluate
  | tick
  | clear
  | step
  | change (outside : W → W)

namespace Tree

def call (tree : Tree A P) (world : W) : Call W → Tree A P × W
  | .evaluate =>
    let (_, root, world) := tree.root.evaluate world
    (⟨root, tree.context⟩, world)
  | .tick =>
    let (_, root, world) := tree.root.tick world
    (⟨root, tree.context⟩, world)
  | .clear => tree.clear world
  | .step => (tree.step world).2
  | .change outside => (tree, outside world)

def run (tree : Tree A P) (world : W) : List (Call W) → Tree A P × W
  | [] => (tree, world)
  | first :: rest =>
    let (tree, world) := tree.call world first
    tree.run world rest

def play (root : Node A P) (context : ContextId) (world : W) (calls : List (Call W)) : Tree A P × W :=
  let (tree, world) := start root context world
  tree.run world calls

theorem step_settled {lax : Prop} {tree : Tree A P} (settled : tree.root.Settled lax) (world : W) :
    (tree.step world).2.1.root.Settled lax := by
  have kept := (Node.evaluate_settled settled world).settled
  have step := tree.steps world
  generalize tree.step world = result at step ⊢
  cases step with
  | refused evaluated =>
    rw [evaluated] at kept
    exact (Node.clear_still kept _).settled
  | agreed evaluated =>
    rw [evaluated] at kept
    exact (Node.tick_settled kept _).1

theorem call_settled {lax : Prop} {tree : Tree A P} (settled : tree.root.Settled lax) (world : W) (next : Call W) :
    (tree.call world next).1.root.Settled lax := by
  cases next with
  | evaluate => exact (Node.evaluate_settled settled world).settled
  | tick => exact (Node.tick_settled settled world).1
  | clear => exact (Node.clear_still settled world).settled
  | step => exact step_settled settled world
  | change outside => exact settled

theorem call_steady {tree : Tree A P} (steady : tree.root.Steady) (world : W) (next : Call W) :
    (tree.call world next).1.root.Steady :=
  Node.settled_false.mp (call_settled (Node.settled_false.mpr steady) world next)

theorem run_steady {tree : Tree A P} (steady : tree.root.Steady) (world : W) (calls : List (Call W)) :
    (tree.run world calls).1.root.Steady := by
  induction calls generalizing tree world with
  | nil => exact steady
  | cons first rest ih => exact ih (call_steady steady world first) _

theorem start_resting {root : Node A P} (built : root.Built) (context : ContextId) (world : W) :
    (start root context world).1.root.Resting := Node.activate_resting built context world

theorem play_steady {root : Node A P} (built : root.Built) {context : ContextId} {before world : W}
    {calls : List (Call W)} {tree : Tree A P} (reached : play root context before calls = (tree, world)) :
    tree.root.Steady := by
  have steady := run_steady (start_resting built context before).steady (start root context before).2 calls
  rw [show (start root context before).1.run (start root context before).2 calls = (tree, world) from reached] at steady
  exact steady

end Tree

/-! A tree in which a guard takes over from a patrol as soon as there is an alarm. -/

def patrol : Node Script.Performer Script.Sensor :=
  .mk (Node.fresh "watch" (.selector none)).state
    [(Node.fresh "guard" (.action (.fresh .idle))).withGate (some (.flag "alarm")),
      .mk (Node.fresh "round" (.sequence none)).state
        [Node.fresh "out" (.action (.fresh .idle)), Node.fresh "back" (.action (.fresh .idle))]]

theorem patrol_built : patrol.Built := by decide

def World.post : World := ((World.empty.addClock 0).2.addContext 0 .silent).2

/-- The patrol is on its way out when the alarm is raised. -/
def alarm : List (Call World) := [.step, .change (World.set 0 "alarm" (.bool true))]

def alarmed : Tree Script.Performer Script.Sensor × World := Tree.play patrol 0 World.post alarm

end BehaviorTree
