import BehaviorTree.Node.Outline
import BehaviorTree.Proofs.Run

/-! What calls leave alone. The frame of a tree is what is left of it without its run state: names,
gates, cooldowns, times of passes, contexts, the form of the tree, and of each action what a view of
it shows. Clearing and ticking keep the frame. Evaluation asks gates and sets times of passes, and
keeps the shape, which is the frame without these. -/

set_option autoImplicit false

namespace BehaviorTree

variable {W A B P : Type}

def Kind.frame (view : A → B) : Kind A → Kind B
  | .action lifecycle => .action (.fresh (view lifecycle.action))
  | .sequence _ => .sequence none
  | .selector _ => .selector none
  | .inert => .inert
  | .relay most least => .relay most least

theorem Kind.isRunning_frame (view : A → B) (kind : Kind A) : (kind.frame view).isRunning = false := by
  cases kind <;> rfl

theorem Kind.activeChild_frame (view : A → B) (kind : Kind A) : (kind.frame view).activeChild = none := by
  cases kind <;> rfl

def NodeState.frame (view : A → B) (state : NodeState A P) : NodeState B P :=
  { state with kind := state.kind.frame view }

def NodeState.ungated (state : NodeState A P) : NodeState A P := { state with gate := none, lastPass := none }

namespace Node

def frame (view : A → B) : Node A P → Node B P := map (NodeState.frame view)

def shape (view : A → B) (node : Node A P) : Node B P := (node.frame view).map NodeState.ungated

variable {view : A → B} {state : NodeState A P} {children : List (Node A P)}

@[simp] theorem frame_mk : (mk state children).frame view = mk (state.frame view) (children.map (frame view)) :=
  map_mk _ _ _

@[simp] theorem shape_mk :
    (mk state children).shape view = mk (state.frame view).ungated (children.map (shape view)) := by
  rw [shape, frame_mk, map_mk, List.map_map]
  rfl

theorem state_shape (node : Node A P) : (node.shape view).state = (node.state.frame view).ungated := by
  cases node
  rw [shape_mk, state_mk, state_mk]

theorem at?_shape (node : Node A P) (position : Position) :
    (node.shape view).at? position = (node.at? position).map (shape view) := by
  rw [shape, at?_map, frame, at?_map, Option.map_map]
  rfl

end Node

/-- The hooks of an action change nothing that the view shows. -/
structure Hidden (W : Type) [Action W A] (view : A → B) : Prop where
  check : ∀ action context (world : W), view (Action.check action context world).2.1 = view action
  enter : ∀ action context (world : W), view (Action.enter action context world).1 = view action
  execute : ∀ action context (world : W), view (Action.execute action context world).2.1 = view action
  exit : ∀ action context (world : W), view (Action.exit action context world).1 = view action

theorem Hidden.of_const [Action W A] (value : B) : Hidden W (fun _ : A => value) :=
  ⟨fun _ _ _ => rfl, fun _ _ _ => rfl, fun _ _ _ => rfl, fun _ _ _ => rfl⟩

section Lifecycle
variable [Host W] [Action W A] {view : A → B} (hidden : Hidden W view) (lifecycle : Lifecycle A)
  (name : String) (context : ContextId) (world : W)
include hidden

omit [Host W] in
theorem Lifecycle.view_check : view (lifecycle.check context world).2.1.action = view lifecycle.action :=
  hidden.check _ _ _

theorem Lifecycle.view_clear : view (lifecycle.clear name context world).1.action = view lifecycle.action := by
  rcases lifecycle with ⟨action, _ | _⟩
  · rfl
  · exact hidden.exit _ _ _

theorem Lifecycle.view_tick : view (lifecycle.tick name context world).2.1.action = view lifecycle.action := by
  have started : view (lifecycle.start name context world).1.action = view lifecycle.action := by
    rcases lifecycle with ⟨action, _ | _⟩
    · exact hidden.enter _ _ _
    · rfl
  have executed := hidden.execute (lifecycle.start name context world).1.action context
    (lifecycle.start name context world).2
  simp only [Lifecycle.tick]
  split
  · next ran => rw [← started, ← executed, ran]
  · next ran => exact (hidden.exit _ _ _).trans (by rw [← started, ← executed, ran])

end Lifecycle

namespace Node

variable [Host W] [Action W A] {view : A → B} {state : NodeState A P} {children : List (Node A P)}

theorem map_set {C : Type} {f : Node A P → C} {index : Nat} {child replacement : Node A P}
    (selected : children[index]? = some child) (same : f replacement = f child) :
    (children.set index replacement).map f = children.map f := by
  obtain ⟨bound, rfl⟩ := List.getElem?_eq_some_iff.mp selected
  rw [List.map_set, same, ← List.getElem_map f (h := by simpa using bound), List.set_getElem_self]

theorem map_clearAll {C : Type} {f : Node A P → C} {children : List (Node A P)}
    (each : ∀ child ∈ children, ∀ world : W, f (child.clear world).1 = f child) (world : W) :
    (Node.clearAll children world).1.map f = children.map f := by
  induction children generalizing world with
  | nil => rfl
  | cons first rest ih =>
    simp only [Node.clearAll, List.map_cons, each first List.mem_cons_self,
      ih fun child member => each child (List.mem_cons_of_mem _ member)]

theorem clear_frame (hidden : Hidden W view) {node : Node A P} (steady : node.Steady) (world : W) :
    (node.clear world).1.frame view = node.frame view := by
  induction node generalizing world with
  | mk state children ih =>
    obtain ⟨sound, below⟩ := steady_mk.mp steady
    have each := fun child member => ih child member (below child member)
    have step := clears sound world
    generalize Node.clear (.mk state children) world = result at step ⊢
    cases step with
    | action _ kind _ => simp [NodeState.frame, Kind.frame, kind, Lifecycle.view_clear hidden]
    | sequence kind => simp [NodeState.frame, Kind.frame, kind, map_clearAll each]
    | idle kind => rfl
    | selector kind selected =>
      simp [NodeState.frame, Kind.frame, kind, map_set selected (each _ (List.mem_of_getElem? selected) world)]

theorem tick_frame (hidden : Hidden W view) {node : Node A P} (steady : node.Steady) (world : W) :
    (node.tick world).2.1.frame view = node.frame view := by
  induction node generalizing world with
  | mk state children ih =>
    obtain ⟨sound, below⟩ := steady_mk.mp steady
    -- The child that was ticked may have been cleared afterwards.
    have ticked {index : Nat} {child after : Node A P} {progress : Progress} {later : W}
        (selected : children[index]? = some child) (ticking : child.tick world = (progress, after, later)) :
        after.frame view = child.frame view ∧ (after.clear later).1.frame view = child.frame view := by
      have member := List.mem_of_getElem? selected
      have kept := ih child member (below child member) world
      have still := (tick_steady (below child member) world).1
      rw [ticking] at kept still
      exact ⟨kept, (clear_frame hidden still later).trans kept⟩
    have step := ticks sound world
    generalize Node.tick (.mk state children) world = result at step ⊢
    cases step with
    | action _ kind _ => simp [NodeState.frame, Kind.frame, kind, Lifecycle.view_tick hidden]
    | emptySequence _ _ _ | emptySelector _ _ _ | unchosen _ _ => rfl
    | continued kind selected ticking | chosen kind selected ticking =>
      simp [NodeState.frame, Kind.frame, kind, map_set selected (ticked selected ticking).1]
    | advanced kind selected ticking _ | completed kind selected ticking _ | released kind selected ticking =>
      simp [NodeState.frame, Kind.frame, kind, map_set selected (ticked selected ticking).2]

theorem clear_shape (hidden : Hidden W view) {node : Node A P} (steady : node.Steady) (world : W) :
    (node.clear world).1.shape view = node.shape view := by
  rw [shape, clear_frame hidden steady, shape]

theorem tick_shape (hidden : Hidden W view) {node : Node A P} (steady : node.Steady) (world : W) :
    (node.tick world).2.1.shape view = node.shape view := by
  rw [shape, tick_frame hidden steady, shape]

variable [Probe W P]

theorem Scans.map_eq {C : Type} {f : Node A P → C} {children scanned : List (Node A P)} {world after : W}
    {winner : Option Nat} (scan : Scans children world winner scanned after)
    (each : ∀ child ∈ children, ∀ world : W, f (child.evaluate world).2.1 = f child) :
    scanned.map f = children.map f := by
  induction scan with
  | exhausted => rfl
  | @agreed first asked rest world after evaluated =>
    have same := each first List.mem_cons_self world
    rw [evaluated] at same
    rw [List.map_cons, List.map_cons, same]
  | @refused first asked rest others winner world during after evaluated _ ih =>
    have same := each first List.mem_cons_self world
    rw [evaluated] at same
    rw [List.map_cons, List.map_cons, same, ih fun child member => each child (List.mem_cons_of_mem _ member)]

theorem evaluate_shape (hidden : Hidden W view) {node : Node A P} (steady : node.Steady) (world : W) :
    (node.evaluate world).2.1.shape view = node.shape view := by
  induction node generalizing world with
  | mk state children ih =>
    obtain ⟨sound, below⟩ := steady_mk.mp steady
    have each := fun child member => ih child member (below child member)
    -- Admission changes only what the shape does not show.
    have admits {admitted : NodeState A P} {context : ContextId} {answer : Bool} {during : W}
        (admission : state.pass context world = (answer, admitted, during)) (kind : Kind A)
        (same : kind.frame view = state.kind.frame view) :
        (NodeState.frame view { admitted with kind }).ungated = (state.frame view).ungated := by
      rw [NodeState.pass_eq admission]
      simp only [NodeState.frame, NodeState.ungated, same]
    have asks {child asked : Node A P} {answer : Bool} {during after : W} (member : child ∈ children)
        (evaluated : child.evaluate during = (answer, asked, after)) :
        asked.shape view = child.shape view ∧ (asked.clear after).1.shape view = child.shape view := by
      have kept := each child member during
      have still := (keeps_evaluate (below child member) during).steady
      rw [evaluated] at kept still
      exact ⟨kept, (clear_shape hidden still after).trans kept⟩
    have step := evaluates sound world
    generalize Node.evaluate (.mk state children) world = result at step ⊢
    cases step with
    | refused _ admission | emptySequence _ admission _ _ | emptySelector _ admission _ _ =>
      rw [shape_mk, shape_mk, ← admits admission _ rfl, ← NodeState.pass_kind admission]
    | action _ admission kind _ =>
      rw [shape_mk, shape_mk, admits admission]
      rw [kind]
      simp only [Kind.frame, Lifecycle.view_check hidden]
    | probe _ admission _ split evaluated =>
      subst split
      rw [shape_mk, shape_mk, List.map_cons, List.map_cons, (asks List.mem_cons_self evaluated).1,
        ← admits admission _ rfl, ← NodeState.pass_kind admission]
    | continued _ admission _ selected evaluated =>
      rw [shape_mk, shape_mk, map_set selected (asks (List.mem_of_getElem? selected) evaluated).1,
        ← admits admission _ rfl, ← NodeState.pass_kind admission]
    | abandoned _ admission kind selected evaluated =>
      rw [shape_mk, shape_mk, map_set selected (asks (List.mem_of_getElem? selected) evaluated).2, admits admission]
      rw [kind]
      rfl
    | @selector context admitted during after previous winner scanned _ admission kind scan =>
      have switched : (Node.switchTo winner previous scanned after).1.map (shape view) = children.map (shape view) := by
        have scanned_eq := scan.map_eq each
        rcases scan.switchTo_eq sound kind with ⟨_, same⟩ | ⟨index, child, _, _, selected, same⟩
        · rw [same, scanned_eq]
        · have still := scan.steady below child (List.mem_of_getElem? selected)
          rw [same, map_set selected (clear_shape hidden still after), scanned_eq]
      rw [shape_mk, shape_mk, switched, admits admission]
      rw [kind]
      rfl

/-- At rest, all that can be seen of a tree from outside is part of its shape. -/
theorem outline_shape {A P : Type} {B : Type} {view : A → B} {node : Node A P} (rest : node.AtRest) :
    (node.shape view).outline = node.outline := by
  induction node with
  | mk state children ih =>
    obtain ⟨idle, below⟩ := atRest_mk.mp rest
    have all : outlineAll (children.map (shape view)) = outlineAll children := by
      clear rest
      induction children with
      | nil => rfl
      | cons first others each =>
        rw [List.map_cons, outlineAll, outlineAll, ih first List.mem_cons_self (below first List.mem_cons_self),
          each (fun child member => ih child (List.mem_cons_of_mem _ member))
            fun child member => below child (List.mem_cons_of_mem _ member)]
    rw [shape_mk, outline, outline, all]
    simp only [headline, name, isActivated, isRunning, activeChild, state_mk, children_mk, NodeState.frame,
      NodeState.ungated, Kind.isRunning_frame, Kind.activeChild_frame, idle, Kind.activeChild_of_idle idle,
      List.length_map]

end Node

namespace Tree

variable [Host W] [Action W A] [Probe W P] {view : A → B} {tree : Tree A P}

theorem call_shape (hidden : Hidden W view) (steady : tree.root.Steady) (world : W) (next : Call W) :
    (tree.call world next).1.root.shape view = tree.root.shape view := by
  cases next with
  | evaluate => exact Node.evaluate_shape hidden steady world
  | tick => exact Node.tick_shape hidden steady world
  | clear => exact Node.clear_shape hidden steady world
  | step =>
    have asked := Node.evaluate_shape hidden steady world
    have kept := (Node.keeps_evaluate steady world).steady
    have step := tree.steps world
    rw [call]
    generalize tree.step world = result at step ⊢
    cases step with
    | refused evaluated =>
      rw [evaluated] at asked kept
      exact (Node.clear_shape hidden kept _).trans asked
    | agreed evaluated =>
      rw [evaluated] at asked kept
      exact (Node.tick_shape hidden kept _).trans asked
  | change outside => rfl

theorem run_shape (hidden : Hidden W view) (steady : tree.root.Steady) (world : W) (calls : List (Call W)) :
    (tree.run world calls).1.root.shape view = tree.root.shape view := by
  induction calls generalizing tree world with
  | nil => rfl
  | cons next rest ih =>
    exact (ih (call_steady steady world next) _).trans (call_shape hidden steady world next)

end Tree

end BehaviorTree
