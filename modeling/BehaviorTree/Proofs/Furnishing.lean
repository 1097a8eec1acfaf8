import BehaviorTree.Proofs.Complaints
import BehaviorTree.Proofs.Loadability

/-! The trees that loading makes. From a registry of sequences, selectors and actions they are built and not
yet touched, and every node has the children that its kind asks for. So no call of them complains. -/

set_option autoImplicit false

namespace BehaviorTree

variable {W A P : Type}

inductive Kind.New : Kind A → Prop where
  | action (action : A) : New (.action (.fresh action))
  | sequence : New (.sequence none)
  | selector : New (.selector none)

/-- Every registered type is the sequence, the selector or an action. -/
def Registry.Plain (registry : Registry W A P) : Prop :=
  ∀ name construct, registry.kind? name = some construct → ∀ world, (construct world).1.New

namespace Node

theorem Furnished.withState {node : Node A P} (furnished : node.Furnished) {change : NodeState A P → NodeState A P}
    (kind : (change node.state).kind = node.state.kind) : (node.withState change).Furnished := by
  cases node with
  | mk state children =>
    obtain ⟨enough, served⟩ := furnished_mk.mp furnished
    exact furnished_mk.mpr ⟨kind ▸ enough, served⟩

theorem Untouched.kind_cases {node : Node A P} (untouched : node.Untouched)
    (enough : node.minChildren ≤ node.children.length) :
    (∃ action, node.state.kind = .action (.fresh action)) ∧ node.children = [] ∨
      (node.state.kind = .sequence none ∨ node.state.kind = .selector none) ∧ node.children ≠ [] := by
  cases node with
  | mk state children =>
    have core := untouched.core
    have idle := untouched.idle
    simp only [isCore, isRunning, minChildren, state_mk, children_mk] at core idle enough ⊢
    cases kind : state.kind with
    | action lifecycle =>
      rw [kind] at core idle
      obtain ⟨action, _ | _⟩ := lifecycle
      · exact .inl ⟨⟨action, rfl⟩, List.isEmpty_iff.mp core⟩
      · cases idle
    | sequence active | selector active =>
      rw [kind] at idle enough
      obtain rfl : active = none := by simpa [Kind.isRunning] using idle
      exact .inr ⟨by simp, List.length_pos_iff.mp enough⟩
    | inert | relay most least => simp [kind] at core

theorem Furnished.activate [Host W] [Action W A] [Probe W P] {node : Node A P} (furnished : node.Furnished)
    (context : ContextId) (world : W) : (node.activate context world).1.Furnished := by
  induction node generalizing world with
  | mk state children ih =>
    obtain ⟨enough, served⟩ := furnished_mk.mp furnished
    have each : ∀ child ∈ (activateAll children context (state.activateGate context world).2).1, child.Furnished :=
      forall_activateAll (fun child member => ih child member (served child member)) _
    rw [Node.activate]
    cases state.context with
    | some _ => exact furnished
    | none =>
      refine furnished_mk.mpr ⟨?_, each⟩
      rw [length_activateAll]
      simp only [NodeState.activateGate_kind]
      cases kind : state.kind <;> rw [kind] at enough <;> exact enough

end Node

namespace Source

variable [Host W] {source : Source} {registry : Registry W A P} {loading : List String}

theorem LoadsEach.forall_mem {p : Node A P → Prop} {definitions : List Definition} {world after : W}
    {nodes : List (Node A P)} (loads : LoadsEach source registry loading definitions world nodes after)
    (each : ∀ definition ∈ definitions, ∀ (before later : W) (node : Node A P),
      source.loadNode registry loading definition before = (.ok node, later) → p node) : ∀ node ∈ nodes, p node := by
  induction loads with
  | nil => exact fun _ member => nomatch member
  | cons loaded _ ih =>
    refine List.forall_mem_cons.mpr ⟨each _ List.mem_cons_self _ _ _ loaded, ih fun definition member => ?_⟩
    exact each definition (List.mem_cons_of_mem _ member)

/-- A node that is made of a new kind and of children is untouched if an action has got none. -/
theorem untouched_of_new {kind : Kind A} (new : kind.New) {state : NodeState A P} {nodes : List (Node A P)}
    (same : state.kind = kind) (inactive : state.context = none) (unasked : state.lastPass = none)
    (fits : (ChildLimit.finite nodes.length).le kind.maxChildren = true) : (Node.mk state nodes).Untouched := by
  subst same
  refine ⟨?_, by simp [Node.isActivated, inactive], by simp [unasked], ?_⟩
  · cases held : state.kind with
    | action lifecycle =>
      rw [held] at fits
      have few : nodes.length = 0 := by
        simpa [ChildLimit.le, ChildLimit.lt, ChildLimit.compare?, Kind.maxChildren, Lifecycle.maxChildren,
          Nat.compare_eq_lt, Nat.compare_eq_eq] using fits
      simpa [Node.isCore, held] using few
    | sequence active | selector active => simp [Node.isCore, held]
    | inert | relay most least =>
      rw [held] at new
      cases new
  · rw [Node.isRunning, Node.state_mk]
    generalize state.kind = kind at new
    cases new <;> rfl

theorem built_of_ok (plain : registry.Plain) {definition : Definition} {world after : W} {node : Node A P}
    (loaded : source.loadNode registry loading definition world = (.ok node, after)) :
    node.Built ∧ node.Furnished := by
  induction loading, definition using load_induction source registry generalizing world after node with
  | step loading definition children tree =>
    cases loadNode_eq_ok.mp loaded with
    | kind known _ loads enough fits =>
      have each := loads.forall_mem fun child member _ _ _ => children child member
      rw [dress_eq]
      refine ⟨Node.built_mk.mpr ⟨?_, fun child member => (each child member).1⟩,
        Node.furnished_mk.mpr ⟨enough, fun child member => (each child member).2⟩⟩
      exact untouched_of_new (plain _ _ known world) rfl rfl rfl fits
    | tree unknown found free leaf inside _ =>
      have target := target_eq_tree.mpr ⟨unknown, found, free, List.isEmpty_iff.mpr leaf⟩
      obtain ⟨built, furnished⟩ := tree _ target inside
      rw [dress_eq]
      exact ⟨(built.withState rfl rfl rfl).withState rfl rfl rfl, (furnished.withState rfl).withState rfl⟩

variable [Action W A] [Probe W P]

/-- Every tree that loads from a registry of sequences, selectors and actions is inactive throughout, its
composites have children and its actions none; and after it is started, no run of calls makes it complain. -/
theorem load_without_complaint (plain : registry.Plain) {name : String} {before after : W} {root : Node A P}
    (loaded : source.load registry name before = (.ok root, after)) :
    (∀ position found, root.at? position = some found →
      found.isActivated = false ∧ found.isRunning = false ∧ found.activeChild = none ∧ found.state.lastPass = none ∧
      ((∃ action, found.state.kind = .action (.fresh action)) ∧ found.children = [] ∨
        (found.state.kind = .sequence none ∨ found.state.kind = .selector none) ∧ found.children ≠ [])) ∧
    ∀ (context : ContextId) (world : W) (calls : List (Call W)),
      ∀ entry ∈ (Tree.start root context world).1.history (Tree.start root context world).2 calls,
        entry.isComplaint = false := by
  obtain ⟨tree, _, _, _, found, _⟩ := loadsTree_of_load loaded
  rw [load_of_found found] at loaded
  obtain ⟨built, furnished⟩ := built_of_ok plain loaded
  refine ⟨fun position found reached => ?_, fun context world calls => ?_⟩
  · have untouched := built.at? reached
    refine ⟨untouched.inactive, untouched.idle, Kind.activeChild_of_idle untouched.idle,
      by simpa using untouched.unasked, ?_⟩
    exact untouched.kind_cases (furnished.at? reached)
  · have resting := Tree.start_resting built context world
    exact Tree.history_not_complaint resting.steady (furnished.activate context world) _ calls

/-! A garrison whose watch refers to its round. -/

def garrison : Registry World Script.Performer Script.Sensor :=
  Registry.standard.registerKind "Guard" fun world => (.action (.fresh .idle), world)

theorem garrison_plain : garrison.Plain := by
  intro name construct known world
  simp only [garrison, Registry.registerKind, Registry.standard, Registry.kind?, List.lookup_cons,
    List.lookup_nil] at known
  split at known
  · cases known
    exact .action _
  · split at known
    · cases known
      exact .sequence
    · split at known
      · cases known
        exact .selector
      · cases known

def sentinel : Definition := ⟨"Guard", none, some (.atom "IsTrue" (some "alarm")), none, []⟩

def rota : Source :=
  ⟨[⟨"watch", ⟨"PrioritySelector", none, none, none, [sentinel, ⟨"round", none, none, some 2, []⟩]⟩⟩,
    ⟨"round", ⟨"Sequence", some "outer round", none, none, [sentinel, sentinel]⟩⟩]⟩

theorem rota_loads : ∃ root, rota.load garrison "watch" World.empty = (.ok root, World.empty) := by
  have stands (loading : List String) :
      ∃ node, rota.loadNode garrison loading sentinel World.empty = (.ok node, World.empty) :=
    ⟨_, loadNode_eq_ok.mpr (.kind rfl rfl .nil (Nat.le_refl 0) rfl)⟩
  obtain ⟨one, first⟩ := stands ["round", "watch"]
  obtain ⟨other, second⟩ := stands ["watch"]
  have round : ∃ node, rota.loadNode garrison ["watch"] ⟨"round", none, none, some 2, []⟩ World.empty =
      (.ok node, World.empty) :=
    ⟨_, loadNode_eq_ok.mpr (.tree rfl rfl (by decide) rfl
      (loadNode_eq_ok.mpr (.kind rfl rfl (.cons first (.cons first .nil)) (Nat.le_succ 1) rfl)) rfl)⟩
  obtain ⟨turn, third⟩ := round
  rw [load_of_found rfl]
  exact ⟨_, loadNode_eq_ok.mpr (.kind rfl rfl (.cons second (.cons third .nil)) (Nat.le_succ 1) rfl)⟩

/-- The watch is ticked before it has been asked, asked without being ticked, and cleared half way. -/
theorem rota_without_complaint : ∃ root after, rota.load garrison "watch" World.empty = (.ok root, after) ∧
    root.isActivated = false ∧
    ∀ entry ∈ (Tree.start root 0 World.post).1.history (Tree.start root 0 World.post).2
      [.tick, .evaluate, .change (World.set 0 "alarm" (.bool true)), .step, .clear, .tick],
      entry.isComplaint = false := by
  obtain ⟨root, loaded⟩ := rota_loads
  obtain ⟨inactive, quiet⟩ := load_without_complaint garrison_plain loaded
  exact ⟨root, World.empty, loaded, (inactive [] root rfl).1, quiet 0 World.post _⟩

end Source

end BehaviorTree
