import BehaviorTree.Proofs.Requests
import BehaviorTree.Proofs.Sites

/-! Activation happens once, in order and before use. A root may be used in any way before its first activation:
nothing but ticks gets through, and those only to be reported. The first activation calls the activation hook at each
site of the tree. Whatever the root is used for afterwards, no activation hook is called again, and no hook at all but
at these sites. -/

set_option autoImplicit false

namespace BehaviorTree

variable {L W A P : Type}

namespace Journal

/-- What was written since is no activation, and the hooks in it were called at these sites. -/
def Since (start : List (Entry L)) (sites : List L) (journal : Journal L W) : Prop :=
  ∃ later, journal.entries = start ++ later ∧
    ∀ entry ∈ later, entry.isActivation = false ∧ ∀ label, entry.label? = some label → label ∈ sites

variable {start : List (Entry L)} {sites : List L}

theorem Since.wrote {journal : Journal L W} (since : journal.Since start sites) (entry : Entry L)
    (inactive : entry.isActivation = false) (known : ∀ label, entry.label? = some label → label ∈ sites) (world : W) :
    (journal.wrote entry world).Since start sites := by
  obtain ⟨later, wrote, quiet⟩ := since
  refine ⟨later ++ [entry], ?_, List.forall_mem_append.mpr ⟨quiet, List.forall_mem_singleton.mpr ⟨inactive, known⟩⟩⟩
  rw [Journal.wrote, wrote, List.append_assoc]

theorem Since.called {journal : Journal L W} (since : journal.Since start sites) {label : L} (known : label ∈ sites)
    (entry : Entry L) (inactive : entry.isActivation = false) (labelled : entry.label? = some label) (world : W) :
    (journal.wrote entry world).Since start sites :=
  since.wrote entry inactive (fun _ other => Option.some.inj (labelled.symm.trans other) ▸ known) world

variable [Host W] [Action W A] [Probe W P]

theorem upholds_since : Upholds (Since start sites : Journal L W → Prop)
    (fun action : Tagged L A => action.label ∈ sites) (fun probe : Tagged L P => probe.label ∈ sites) where
  now context _ since := since.wrote (.clock context) rfl nofun _
  report context name report _ since := since.wrote (.report context name report) rfl nofun _
  visit visit _ other since := by
    cases visit with
    | activated => exact absurd rfl other
    | checked | ticked | cleared => exact since.wrote (.visit _) rfl nofun _
  fault _ since := since.wrote .fault rfl nofun _
  check action _ _ known since := ⟨known, since.called known (.action .check action.label) rfl rfl _⟩
  enter action _ _ known since := ⟨known, since.called known (.action .enter action.label) rfl rfl _⟩
  execute action _ _ known since := ⟨known, since.called known (.action .execute action.label) rfl rfl _⟩
  exit action _ _ known since := ⟨known, since.called known (.action .exit action.label) rfl rfl _⟩
  ask probe _ _ known since := ⟨known, since.called known (.probe .check probe.label) rfl rfl _⟩

end Journal

namespace Use

def isActivation : Use W → Bool
  | .activate _ => true
  | _ => false

def isTick : Use W → Bool
  | .tick => true
  | _ => false

end Use

namespace Node

variable [Host W] [Action W A] [Probe W P]

theorem drive_append (node : Node A P) (world : W) (front rear : List (Use W)) :
    node.drive world (front ++ rear) = (node.drive world front).1.drive (node.drive world front).2 rear := by
  induction front generalizing node world with
  | nil => rfl
  | cons first rest ih => exact ih _ _

theorem drive_exchange (node : Node (Tagged L A) (Tagged L P)) (journal : Journal L W) (uses : List (Use W)) :
    (node.exchange Tagged.content Tagged.content).drive journal.world uses =
      ((node.drive journal (uses.map Use.noted)).1.exchange Tagged.content Tagged.content,
        (node.drive journal (uses.map Use.noted)).2.world) := by
  induction uses generalizing node journal with
  | nil => rfl
  | cons next rest ih =>
    simp only [drive, use_exchange node journal next]
    exact ih _ _

def record (root : Node A P) (before : W) (uses : List (Use W)) :
    Node (Tagged Site A) (Tagged Site P) × Journal Site W :=
  root.marked.drive ⟨before, []⟩ (uses.map Use.noted)

/-- Everything that a run of uses asks, in order, by the sites of the tree. -/
def chronicle (root : Node A P) (before : W) (uses : List (Use W)) : List (Entry Site) :=
  (root.record before uses).2.entries

theorem drive_record (root : Node A P) (before : W) (uses : List (Use W)) : root.drive before uses =
    ((root.record before uses).1.exchange Tagged.content Tagged.content, (root.record before uses).2.world) := by
  have watched := root.marked.drive_exchange (⟨before, []⟩ : Journal Site W) uses
  rwa [exchange_marked] at watched

/-! Before the first activation. -/

theorem drive_of_inactive {node : Node A P} (inactive : node.state.context = none) {uses : List (Use W)}
    (waiting : ∀ next ∈ uses, next.isActivation = false) (world : W) : (node.drive world uses).1 = node := by
  induction uses generalizing world with
  | nil => rfl
  | cons next rest ih =>
    obtain ⟨first, others⟩ := List.forall_mem_cons.mp waiting
    have same : (node.use world next).1 = node := by
      cases next with
      | activate context => cases first
      | evaluate => rw [use, evaluate_of_inactive inactive]
      | tick => rw [use, tick_of_inactive inactive]
      | clear => rw [use, clear_of_inactive inactive]
      | change outside => rfl
    simp only [drive, same]
    exact ih others _

theorem entries_of_inactive {node : Node (Tagged L A) (Tagged L P)} (inactive : node.state.context = none)
    {uses : List (Use W)} (waiting : ∀ next ∈ uses, next.isActivation = false) (journal : Journal L W) :
    (node.drive journal (uses.map Use.noted)).2.entries =
      journal.entries ++
        (uses.filter Use.isTick).map fun _ => .report none node.name (.misuse .tickedBeforeActivation) := by
  induction uses generalizing journal with
  | nil => exact (List.append_nil _).symm
  | cons next rest ih =>
    obtain ⟨first, others⟩ := List.forall_mem_cons.mp waiting
    cases next with
    | activate context => cases first
    | evaluate =>
      simp only [List.map_cons, drive, Use.noted, use, evaluate_of_inactive inactive, ih others]
      rfl
    | tick =>
      simp only [List.map_cons, drive, Use.noted, use, tick_of_inactive inactive, ih others]
      exact List.append_assoc _ _ _
    | clear =>
      simp only [List.map_cons, drive, Use.noted, use, clear_of_inactive inactive, ih others]
      rfl
    | change outside =>
      simp only [List.map_cons, drive, Use.noted, use, ih others]
      rfl

/-! The first activation. -/

abbrev activateOnly (node : Node A P) (context : ContextId) (world : W) : Node A P × W :=
  @Node.activate W A P (Host.only W context) (Action.only W context A) (Probe.only W context P) node context world

omit [Host W] [Action W A] in
theorem activateGate_only (state : NodeState A P) (context : ContextId) (world : W) :
    @NodeState.activateGate W A P (Probe.only W context P) state context world =
      state.activateGate context world := by
  have only (gate : Gate P) (world : W) :
      @Gate.activate W P (Probe.only W context P) gate context world = gate.activate context world := by
    induction gate generalizing world with
    | atom | constant | flag => rfl
    | not operand ih => simp only [Gate.activate, ih]
    | and left right ihl ihr | or left right ihl ihr => simp only [Gate.activate, ihl, ihr]
  unfold NodeState.activateGate
  simp only [only]

theorem activate_only (node : Node A P) (context : ContextId) (world : W) :
    node.activateOnly context world = node.activate context world := by
  induction node generalizing world with
  | mk state children ih =>
    have all (world : W) : @Node.activateAll W A P (Host.only W context) (Action.only W context A)
        (Probe.only W context P) children context world = Node.activateAll children context world := by
      induction children generalizing world with
      | nil => rfl
      | cons first rest each =>
        simp only [Node.activateAll, ih first List.mem_cons_self,
          each fun child member => ih child (List.mem_cons_of_mem _ member)]
    have kinds (kind : Kind A) (world : W) :
        @Kind.activate W A (Host.only W context) (Action.only W context A) kind context world =
          kind.activate context world := by
      cases kind <;> rfl
    unfold activateOnly Node.activate
    simp only [activateGate_only, all, kinds]

theorem holds_activate {node : Node A P} (inactive : node.Inactive) (context : ContextId) (world : W) :
    (node.activate context world).1.Holds context :=
  (holds_congr (held_activate node context world)).mpr (adopt_holds_iff.mpr (inactive.adoptable context))

/-! Afterwards. -/

theorem holds_use {node : Node A P} {context : ContextId} (holds : node.Holds context) (world : W) (next : Use W) :
    (node.use world next).1.Holds context := by
  cases next with
  | activate other =>
    have active : node.isActivated = true := Option.isSome_iff_exists.mpr ⟨context, Everywhere.here holds⟩
    rwa [use, activate_of_active active]
  | evaluate => exact (holds_congr (held_evaluate node world)).mpr holds
  | tick => exact (holds_congr (held_tick node world)).mpr holds
  | clear => exact (holds_congr (held_clear node world)).mpr holds
  | change outside => exact holds

theorem holds_drive {node : Node A P} {context : ContextId} (holds : node.Holds context) (world : W)
    (uses : List (Use W)) : (node.drive world uses).1.Holds context := by
  induction uses generalizing node world with
  | nil => exact holds
  | cons next rest ih => exact ih (holds_use holds world next) _

theorem since_use {start : List (Entry L)} {sites : List L} {node : Node (Tagged L A) (Tagged L P)}
    (active : node.isActivated = true)
    (meets : node.Meets (fun action => action.label ∈ sites) fun probe => probe.label ∈ sites) {journal : Journal L W}
    (since : journal.Since start sites) (next : Use W) :
    Kept (Journal.Since start sites) (fun action => action.label ∈ sites) (fun probe => probe.label ∈ sites)
      (node.use journal next.noted) := by
  cases next with
  | activate context =>
    rw [Use.noted, use, activate_of_active active]
    exact ⟨meets, since⟩
  | evaluate => exact Journal.upholds_since.evaluate meets since
  | tick => exact Journal.upholds_since.tick meets since
  | clear => exact Journal.upholds_since.clear meets since
  | change outside => exact ⟨meets, since⟩

theorem since_drive {start : List (Entry L)} {sites : List L} {node : Node (Tagged L A) (Tagged L P)}
    {context : ContextId} (holds : node.Holds context)
    (meets : node.Meets (fun action => action.label ∈ sites) fun probe => probe.label ∈ sites) {journal : Journal L W}
    (since : journal.Since start sites) (uses : List (Use W)) :
    (node.drive journal (uses.map Use.noted)).2.Since start sites := by
  induction uses generalizing node journal with
  | nil => exact since
  | cons next rest ih =>
    have active : node.isActivated = true := Option.isSome_iff_exists.mpr ⟨context, Everywhere.here holds⟩
    obtain ⟨meeting, later⟩ := since_use active meets since next
    exact ih (holds_use holds journal next.noted) meeting later

theorem mem_of_split {α : Type} {settled later front rear : List α} {entry : α}
    (whole : settled ++ later = front ++ entry :: rear) (early : entry ∉ settled) :
    entry ∈ later ∧ settled <+: front := by
  rcases List.append_eq_append_iff.mp whole with ⟨gap, split, rfl⟩ | ⟨_ | ⟨next, gap⟩, rfl, others⟩
  · exact ⟨List.mem_append_right _ List.mem_cons_self, gap, split.symm⟩
  · have others : later = entry :: rear := others.symm
    rw [others, List.append_nil]
    exact ⟨List.mem_cons_self, List.prefix_rfl⟩
  · -- The entry would be in the first list.
    cases others
    exact absurd (List.mem_append_right _ List.mem_cons_self) early

section Run
variable {root : Node A P} (inactive : root.Inactive) (before : W) {idle : List (Use W)}
  (waiting : ∀ next ∈ idle, next.isActivation = false) (context : ContextId) (rest : List (Use W))
include inactive waiting

theorem record_idle : (root.record before idle).1 = root.marked := by
  have here : root.marked.state.context = none := (inactive_marked.mpr inactive).here
  apply drive_of_inactive here
  intro next member
  obtain ⟨use, among, rfl⟩ := List.mem_map.mp member
  have idles := waiting use among
  cases use with
  | activate other => cases idles
  | evaluate | tick | clear | change => rfl

theorem record_activated : root.record before (idle ++ .activate context :: rest) =
    (root.marked.activate context (root.record before idle).2).1.drive
      (root.marked.activate context (root.record before idle).2).2 (rest.map Use.noted) := by
  rw [record, List.map_append, drive_append]
  have start := record_idle inactive before waiting
  rw [record] at start
  rw [start]
  rfl

theorem chronicle_since : (root.record before (idle ++ .activate context :: rest)).2.Since
    (root.chronicle before idle ++ root.marked.roll) root.sites := by
  have fresh := inactive_marked.mpr inactive
  obtain ⟨same, wrote⟩ := activate_roll fresh context (root.record before idle).2
  rw [record_activated inactive before waiting]
  refine since_drive (holds_activate fresh context _) (meets_of_roll ?_) ⟨[], ?_, List.forall_mem_nil _⟩ rest
  · rw [same, roll_marked]
    exact fun _ member => member
  · rw [wrote, List.append_nil]
    rfl

theorem chronicle_idle : root.chronicle before idle =
    (idle.filter Use.isTick).map fun _ => .report none root.name (.misuse .tickedBeforeActivation) := by
  have here : root.marked.state.context = none := (inactive_marked.mpr inactive).here
  have named : root.marked.name = root.name := by cases root; rfl
  rw [chronicle, record, entries_of_inactive here waiting, named, List.nil_append]

theorem filter_chronicle :
    (root.chronicle before (idle ++ .activate context :: rest)).filter Entry.isActivation = root.marked.roll := by
  obtain ⟨later, whole, known⟩ := chronicle_since inactive before waiting context rest
  have silent : (root.chronicle before idle).filter Entry.isActivation = [] := by
    rw [chronicle_idle inactive before waiting, List.filter_map]
    simp [Function.comp_def, Entry.isActivation]
  have calm : later.filter Entry.isActivation = [] :=
    List.filter_eq_nil_iff.mpr fun entry member => by simp [(known entry member).1]
  rw [chronicle, whole, List.filter_append, List.filter_append, silent, calm,
    List.filter_eq_self.mpr isActivation_of_mem_roll, List.nil_append, List.append_nil]

/-- A hook that is called for anything else is called after its site was activated. -/
theorem activated_before {front rear : List (Entry Site)} {entry : Entry Site} {site : Site}
    (whole : root.chronicle before (idle ++ .activate context :: rest) = front ++ entry :: rear)
    (quiet : entry.isActivation = false) (labelled : entry.label? = some site) :
    ∃ call ∈ front, call.isActivation = true ∧ call.label? = some site := by
  obtain ⟨later, same, known⟩ := chronicle_since inactive before waiting context rest
  -- Before the first activation there are only reports of misuse, and the roll has activations only.
  have early : entry ∉ root.chronicle before idle ++ root.marked.roll := by
    intro member
    rcases List.mem_append.mp member with member | member
    · rw [chronicle_idle inactive before waiting] at member
      obtain ⟨_, _, rfl⟩ := List.mem_map.mp member
      cases labelled
    · cases quiet.symm.trans (isActivation_of_mem_roll entry member)
  obtain ⟨member, leading⟩ := mem_of_split (same.symm.trans whole) early
  obtain ⟨call, rolled, named⟩ : ∃ call ∈ root.marked.roll, call.label? = some site := by
    have listed := (known entry member).2 site labelled
    rw [← roll_marked] at listed
    exact List.mem_filterMap.mp listed
  exact ⟨call, leading.mem (List.mem_append_right _ rolled), isActivation_of_mem_roll call rolled, named⟩

end Run

/-- What a root that holds no context does with uses of which one activates it: `idle` are those before the first
activation, `rest` those after it. -/
structure Activation (root : Node A P) (before : W) (idle : List (Use W)) (context : ContextId)
    (rest : List (Use W)) : Prop where
  /-- The chronicle is about the run itself. -/
  watched : ∀ uses : List (Use W), root.drive before uses =
    ((root.record before uses).1.exchange Tagged.content Tagged.content, (root.record before uses).2.world)
  /-- The tree stays as it is up to its first activation. -/
  unchanged : (root.drive before idle).1 = root
  refused : ∀ world : W, root.evaluate world = (false, root, world) ∧
    root.tick world = (.ended, root, Host.report none root.name (.misuse .tickedBeforeActivation) world) ∧
    root.clear world = (root, world)
  silent : root.chronicle before idle =
    (idle.filter Use.isTick).map fun _ => .report none root.name (.misuse .tickedBeforeActivation)
  /-- The first activation calls the roll, which names every site once and in order. -/
  called : root.chronicle before (idle ++ [.activate context]) = root.chronicle before idle ++ root.marked.roll
  named : root.marked.roll.filterMap Entry.label? = root.sites
  distinct : root.sites.Nodup
  /-- No other context is given to a hook. -/
  only : ∀ world : W, root.activateOnly context world = root.activate context world
  holds : (root.drive before (idle ++ .activate context :: rest)).1.Holds context
  again : ∀ (other : ContextId) (world : W),
    (root.drive before (idle ++ .activate context :: rest)).1.activate other world =
      ((root.drive before (idle ++ .activate context :: rest)).1, world)
  once : (root.chronicle before (idle ++ .activate context :: rest)).filter Entry.isActivation = root.marked.roll
  /-- What is asked of an action or of a probe is asked after its activation. -/
  first : ∀ front entry rear site, root.chronicle before (idle ++ .activate context :: rest) = front ++ entry :: rear →
    entry.isActivation = false → entry.label? = some site →
      ∃ call ∈ front, call.isActivation = true ∧ call.label? = some site

theorem drive_activation {root : Node A P} (inactive : root.Inactive) (before : W) {idle : List (Use W)}
    (waiting : ∀ next ∈ idle, next.isActivation = false) (context : ContextId) (rest : List (Use W)) :
    root.Activation before idle context rest := by
  have here : root.state.context = none := inactive.here
  have holds : (root.drive before (idle ++ .activate context :: rest)).1.Holds context := by
    rw [drive_append, drive_of_inactive here waiting before]
    exact holds_drive (holds_activate inactive context _) _ rest
  exact {
    watched := drive_record root before
    unchanged := drive_of_inactive here waiting before
    refused := fun world => ⟨evaluate_of_inactive here world, tick_of_inactive here world, clear_of_inactive here world⟩
    silent := chronicle_idle inactive before waiting
    called := by
      rw [chronicle, record_activated inactive before waiting]
      exact (activate_roll (inactive_marked.mpr inactive) context _).2
    named := roll_marked root
    distinct := sites_nodup root
    only := activate_only root context
    holds := holds
    again := activate_of_active (Option.isSome_iff_exists.mpr ⟨context, holds.here⟩)
    once := filter_chronicle inactive before waiting context rest
    first := fun _ _ _ _ => activated_before inactive before waiting context rest }

end Node

/-! A lamp that is lit at dusk, or else if there is no storm. As long as it is dusk the storm is never asked about. -/

def lamp : Node Script.Performer Script.Sensor :=
  (Node.mk (Node.fresh "lamp" (.sequence none)).state [Node.fresh "glow" (.action (.fresh .idle))]).withGate
    (some (.or (.atom ⟨"dusk", [true], true, 0⟩) (.not (.atom ⟨"storm", [false], true, 0⟩))))

theorem lamp_activation : lamp.Inactive ∧ lamp.sites = [.atom [] 0, .atom [] 1, .action [0]] ∧
    lamp.Activation World.post [.tick, .evaluate, .clear] 0 [.evaluate, .activate 1, .tick] :=
  ⟨by decide, rfl, Node.drive_activation (by decide) World.post (by decide) 0 _⟩

end BehaviorTree
