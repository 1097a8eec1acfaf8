import BehaviorTree.Proofs.Contexts
import BehaviorTree.Proofs.Upkeep

/-! What there is to activate in a tree. Every atom of a gate and every action has a site of its own. Activation of a
tree in which no node holds a context calls at each site once: at the atoms of a node, then below it, then at its own
kind. -/

set_option autoImplicit false

namespace BehaviorTree

variable {L W A P : Type}

/-- Where a hook is called: at an atom of a node's gate, by its number from left to right, or at a node's action. -/
inductive Site where
  | atom (position : Position) (number : Nat)
  | action (position : Position)
  deriving Repr, DecidableEq

def Site.position : Site → Position
  | .atom position _ | .action position => position

namespace Entry

def isActivation : Entry L → Bool
  | .action .activate _ | .probe .activate _ | .visit .activated => true
  | _ => false

def label? : Entry L → Option L
  | .action _ label | .probe _ label => some label
  | _ => none

end Entry

/-! The tree with every action and every atom labelled by its site. -/

def Gate.number (start : Nat) : Gate (Tagged Position P) → Gate (Tagged Site P)
  | .atom probe => .atom ⟨.atom probe.label start, probe.content⟩
  | .constant answer => .constant answer
  | .flag key => .flag key
  | .not operand => .not (operand.number start)
  | .and left right => .and (left.number start) (right.number (start + left.atoms.length))
  | .or left right => .or (left.number start) (right.number (start + left.atoms.length))

def NodeState.number (state : NodeState (Tagged Position A) (Tagged Position P)) :
    NodeState (Tagged Site A) (Tagged Site P) :=
  { state with
    kind := state.kind.map fun action => ⟨.action action.label, action.content⟩
    gate := state.gate.map (Gate.number 0) }

def Node.marked (node : Node A P) : Node (Tagged Site A) (Tagged Site P) := node.placed.map NodeState.number

theorem Gate.content_number (gate : Gate (Tagged Position P)) (start : Nat) :
    (gate.number start).map Tagged.content = gate.map Tagged.content := by
  induction gate generalizing start with
  | atom | constant | flag => rfl
  | not operand ih => simp only [number, map, ih]
  | and left right ihl ihr | or left right ihl ihr => simp only [number, map, ihl, ihr]

theorem NodeState.content_number (state : NodeState (Tagged Position A) (Tagged Position P)) :
    state.number.map Tagged.content Tagged.content = state.map Tagged.content Tagged.content := by
  obtain ⟨name, kind, gate, cooldown, lastPass, held⟩ := state
  cases kind <;> cases gate <;> simp [number, map, Kind.map, Lifecycle.map, Gate.content_number]

theorem Node.exchange_marked (node : Node A P) : node.marked.exchange Tagged.content Tagged.content = node := by
  have kept (placed : Node (Tagged Position A) (Tagged Position P)) :
      (placed.map NodeState.number).exchange Tagged.content Tagged.content =
        placed.exchange Tagged.content Tagged.content := by
    induction placed with
    | mk state children ih =>
      rw [map_mk, exchange_mk, exchange_mk, NodeState.content_number, List.map_map]
      exact congrArg _ (List.map_congr_left ih)
  rw [marked, kept, exchange_placed]

/-! The calls that activation makes. -/

def NodeState.roll (state : NodeState (Tagged L A) (Tagged L P)) : List (Entry L) :=
  state.atoms.map fun probe => .probe .activate probe.label

def Kind.roll : Kind (Tagged L A) → List (Entry L)
  | .action lifecycle => [.action .activate lifecycle.action.label]
  | .relay _ _ => [.visit .activated]
  | _ => []

namespace Node

mutual

/-- The activation hooks of a tree: the atoms of a node from left to right, what is below the node, then its kind. -/
def roll : Node (Tagged L A) (Tagged L P) → List (Entry L)
  | .mk state children => state.roll ++ rollAll children ++ state.kind.roll

def rollAll : List (Node (Tagged L A) (Tagged L P)) → List (Entry L)
  | [] => []
  | node :: rest => node.roll ++ rollAll rest

end

theorem rollAll_eq (children : List (Node (Tagged L A) (Tagged L P))) : rollAll children = children.flatMap roll := by
  induction children with
  | nil => rfl
  | cons child rest ih => simp only [rollAll, ih, List.flatMap_cons]

theorem roll_mk (state : NodeState (Tagged L A) (Tagged L P)) (children : List (Node (Tagged L A) (Tagged L P))) :
    (mk state children).roll = state.roll ++ children.flatMap roll ++ state.kind.roll := by
  rw [roll, rollAll_eq]

theorem isActivation_of_mem_roll {node : Node (Tagged L A) (Tagged L P)} :
    ∀ entry ∈ node.roll, entry.isActivation = true := by
  induction node with
  | mk state children ih =>
    intro entry member
    rw [roll_mk] at member
    rcases List.mem_append.mp member with member | member
    · rcases List.mem_append.mp member with member | member
      · obtain ⟨probe, _, rfl⟩ := List.mem_map.mp member
        rfl
      · obtain ⟨child, among, called⟩ := List.mem_flatMap.mp member
        exact ih child among entry called
    · cases kind : state.kind with
      | action lifecycle | relay most least =>
        rw [kind] at member
        cases List.mem_singleton.mp member
        rfl
      | sequence active | selector active | inert =>
        rw [kind] at member
        cases member

/-- Where the roll names only some labels, the tree has no others. -/
theorem meets_of_roll {known : L → Prop} {node : Node (Tagged L A) (Tagged L P)}
    (named : ∀ label ∈ node.roll.filterMap Entry.label?, known label) :
    node.Meets (fun action => known action.label) fun probe => known probe.label := by
  induction node with
  | mk state children ih =>
    simp only [roll_mk, List.filterMap_append, List.forall_mem_append] at named
    obtain ⟨⟨onGate, below⟩, onKind⟩ := named
    refine meets_mk.mpr ⟨⟨?_, fun probe member => ?_⟩, fun child member => ih child member fun label called => ?_⟩
    · cases kind : state.kind with
      | action lifecycle =>
        rw [kind] at onKind
        exact onKind _ (List.mem_singleton_self _)
      | sequence | selector | inert | relay => trivial
    · exact onGate probe.label (List.mem_filterMap.mpr ⟨_, List.mem_map_of_mem member, rfl⟩)
    · obtain ⟨entry, called, labelled⟩ := List.mem_filterMap.mp called
      exact below label (List.mem_filterMap.mpr ⟨entry, List.mem_flatMap.mpr ⟨child, member, called⟩, labelled⟩)

/-- No node of the tree holds a context. -/
def Inactive (node : Node A P) : Prop := node.Everywhere fun other => other.state.context = none

instance (node : Node A P) : Decidable node.Inactive :=
  inferInstanceAs (Decidable (node.Everywhere fun other => other.state.context = none))

theorem inactive_mk {state : NodeState A P} {children : List (Node A P)} :
    (mk state children).Inactive ↔ state.context = none ∧ ∀ child ∈ children, child.Inactive := everywhere_mk

theorem Inactive.adoptable {node : Node A P} (inactive : node.Inactive) (context : ContextId) :
    node.Adoptable context := by
  induction node with
  | mk state children ih =>
    obtain ⟨here, below⟩ := inactive_mk.mp inactive
    exact .fresh here fun child member => ih child member (below child member)

theorem inactive_map {B Q : Type} {change : NodeState A P → NodeState B Q} {node : Node A P}
    (same : ∀ state, (change state).context = state.context) : (node.map change).Inactive ↔ node.Inactive := by
  refine everywhere_map.trans (forall₂_congr fun other _ => ?_)
  cases other
  simp only [map_mk, state_mk, same]

theorem inactive_marked {node : Node A P} : node.marked.Inactive ↔ node.Inactive := by
  have same : (node.marked.exchange Tagged.content Tagged.content).Inactive ↔ node.marked.Inactive :=
    inactive_map fun _ => rfl
  rw [exchange_marked] at same
  exact same.symm

end Node

section Activation

theorem Gate.activate_roll [Probe W P] (gate : Gate (Tagged L P)) (context : ContextId) (journal : Journal L W) :
    (gate.activate context journal).1.atoms.map Tagged.label = gate.atoms.map Tagged.label ∧
      (gate.activate context journal).2.entries =
        journal.entries ++ gate.atoms.map fun probe => .probe .activate probe.label := by
  induction gate generalizing journal with
  | atom probe => exact ⟨rfl, rfl⟩
  | constant answer | flag key => exact ⟨rfl, (List.append_nil _).symm⟩
  | not operand ih => exact ih journal
  | and left right ihl ihr | or left right ihl ihr =>
    obtain ⟨leftSame, leftWrote⟩ := ihl journal
    obtain ⟨rightSame, rightWrote⟩ := ihr (left.activate context journal).2
    simp only [activate, atoms, List.map_append, leftSame, rightSame, rightWrote, leftWrote, List.append_assoc,
      and_self]

theorem NodeState.activate_roll [Probe W P] (state : NodeState (Tagged L A) (Tagged L P)) (context : ContextId)
    (journal : Journal L W) : (state.activateGate context journal).1.roll = state.roll ∧
      (state.activateGate context journal).2.entries = journal.entries ++ state.roll := by
  obtain ⟨name, kind, gate, cooldown, lastPass, held⟩ := state
  cases gate with
  | none => exact ⟨rfl, (List.append_nil _).symm⟩
  | some gate =>
    obtain ⟨same, wrote⟩ := gate.activate_roll context journal
    have labels := congrArg (List.map fun label => (.probe .activate label : Entry L)) same
    simp only [List.map_map] at labels
    exact ⟨labels, wrote⟩

variable [Host W] [Action W A]

theorem Kind.activate_roll (kind : Kind (Tagged L A)) (context : ContextId) (journal : Journal L W) :
    (kind.activate context journal).1.roll = kind.roll ∧
      (kind.activate context journal).2.entries = journal.entries ++ kind.roll := by
  cases kind with
  | action lifecycle | relay most least => exact ⟨rfl, rfl⟩
  | sequence active | selector active | inert => exact ⟨rfl, (List.append_nil _).symm⟩

variable [Probe W P]

namespace Node

theorem activateAll_roll {children : List (Node (Tagged L A) (Tagged L P))} {context : ContextId}
    (each : ∀ child ∈ children, ∀ journal : Journal L W,
      (child.activate context journal).2.entries = journal.entries ++ child.roll) (journal : Journal L W) :
    (Node.activateAll children context journal).2.entries = journal.entries ++ children.flatMap roll := by
  induction children generalizing journal with
  | nil => exact (List.append_nil _).symm
  | cons first rest ih =>
    simp only [Node.activateAll, ih fun child member => each child (List.mem_cons_of_mem _ member),
      each first List.mem_cons_self, List.flatMap_cons, List.append_assoc]

/-- The first activation calls the whole roll in its order, and leaves a tree with the same roll. -/
theorem activate_roll {node : Node (Tagged L A) (Tagged L P)} (inactive : node.Inactive) (context : ContextId)
    (journal : Journal L W) : (node.activate context journal).1.roll = node.roll ∧
      (node.activate context journal).2.entries = journal.entries ++ node.roll := by
  induction node generalizing journal with
  | mk state children ih =>
    obtain ⟨here, below⟩ := inactive_mk.mp inactive
    have each := fun child member => ih child member (below child member)
    obtain ⟨gateSame, gateWrote⟩ := state.activate_roll context journal
    have childrenSame := map_activateAll (fun child member journal => (each child member journal).1)
      (state.activateGate context journal).2
    have childrenWrote := activateAll_roll (fun child member journal => (each child member journal).2)
      (state.activateGate context journal).2
    obtain ⟨kindSame, kindWrote⟩ := state.kind.activate_roll context
      (Node.activateAll children context (state.activateGate context journal).2).2
    simp only [Node.activate, here, roll_mk, NodeState.activateGate_kind]
    constructor
    · rw [List.flatMap_def, childrenSame, ← List.flatMap_def, kindSame]
      exact congrArg (· ++ children.flatMap roll ++ state.kind.roll) gateSame
    · rw [kindWrote, childrenWrote, gateWrote]
      simp only [List.append_assoc]

end Node

end Activation

/-! The sites of a tree. -/

def Kind.sites (position : Position) : Kind A → List Site
  | .action _ => [.action position]
  | _ => []

theorem Kind.mem_sites {position : Position} {kind : Kind A} {site : Site} (member : site ∈ kind.sites position) :
    site = .action position := by
  cases kind with
  | action lifecycle => exact List.mem_singleton.mp member
  | sequence | selector | inert | relay => cases member

theorem Kind.nodup_sites (position : Position) (kind : Kind A) : (kind.sites position).Nodup := by
  cases kind with
  | action lifecycle => exact List.nodup_cons.mpr ⟨List.not_mem_nil, List.nodup_nil⟩
  | sequence | selector | inert | relay => exact List.nodup_nil

namespace Node

mutual

/-- The sites of a tree: the atoms of a node from left to right, what is below the node, then its action. -/
def sitesAt (position : Position) : Node A P → List Site
  | .mk state children =>
    (List.range state.atoms.length).map (.atom position) ++ sitesFrom position 0 children ++ state.kind.sites position

def sitesFrom (position : Position) : Nat → List (Node A P) → List Site
  | _, [] => []
  | index, node :: rest => node.sitesAt (position ++ [index]) ++ sitesFrom position (index + 1) rest

end

def sites (root : Node A P) : List Site := root.sitesAt []

variable {state : NodeState A P} {children : List (Node A P)} {position : Position}

theorem mem_sitesAt {site : Site} : site ∈ (mk state children).sitesAt position ↔
    (∃ number, number < state.atoms.length ∧ .atom position number = site) ∨ site ∈ sitesFrom position 0 children ∨
      site ∈ state.kind.sites position := by
  simp only [sitesAt, List.mem_append, List.mem_map, List.mem_range, or_assoc]

/-- The sites below a node lie behind its position, those of later children at later indices. -/
theorem sitesFrom_behind
    (each : ∀ child ∈ children, ∀ position, ∀ site ∈ child.sitesAt position, position <+: site.position)
    (start : Nat) : ∀ site ∈ sitesFrom position start children,
      ∃ index, start ≤ index ∧ position ++ [index] <+: site.position := by
  induction children generalizing start with
  | nil => exact List.forall_mem_nil _
  | cons first rest ih =>
    intro site member
    rcases List.mem_append.mp member with member | member
    · exact ⟨start, Nat.le_refl _, each first List.mem_cons_self _ site member⟩
    · obtain ⟨index, beyond, under⟩ := ih (fun child member => each child (List.mem_cons_of_mem _ member)) _ site member
      exact ⟨index, Nat.le_of_succ_le beyond, under⟩

theorem sitesAt_behind (node : Node A P) (position : Position) :
    ∀ site ∈ node.sitesAt position, position <+: site.position := by
  induction node generalizing position with
  | mk state children ih =>
    intro site member
    rcases mem_sitesAt.mp member with ⟨number, _, rfl⟩ | below | acts
    · exact List.prefix_rfl
    · obtain ⟨index, _, under⟩ := sitesFrom_behind ih 0 site below
      exact (List.prefix_append position [index]).trans under
    · rw [Kind.mem_sites acts]
      exact List.prefix_rfl

theorem ne_of_mem_sitesFrom {site : Site} (below : site ∈ sitesFrom position 0 children) :
    site.position ≠ position := by
  intro same
  obtain ⟨index, _, under⟩ := sitesFrom_behind (fun child _ => sitesAt_behind child) 0 site below
  have longer := under.length_le
  rw [same, List.length_append] at longer
  exact absurd longer (Nat.not_succ_le_self _)

theorem index_eq_of_behind {reached : Position} {first second : Nat} (one : position ++ [first] <+: reached)
    (other : position ++ [second] <+: reached) : first = second := by
  obtain ⟨rest, rfl⟩ := one
  obtain ⟨more, same⟩ := other
  simp only [List.append_assoc, List.append_cancel_left_eq, List.cons_append, List.cons.injEq] at same
  exact same.1.symm

theorem sitesFrom_nodup (each : ∀ child ∈ children, ∀ position, (child.sitesAt position).Nodup) (start : Nat) :
    (sitesFrom position start children).Nodup := by
  induction children generalizing start with
  | nil => exact List.nodup_nil
  | cons first rest ih =>
    have distinct := each first List.mem_cons_self (position ++ [start])
    have others := ih (fun child member => each child (List.mem_cons_of_mem _ member)) (start + 1)
    refine List.nodup_append.mpr ⟨distinct, others, ?_⟩
    -- A site below two children would be behind both of their positions, which part at the index.
    rintro site here _ later rfl
    obtain ⟨index, beyond, under⟩ := sitesFrom_behind (fun child _ => sitesAt_behind child) (start + 1) site later
    exact Nat.ne_of_lt beyond (index_eq_of_behind (sitesAt_behind first _ site here) under)

theorem sitesAt_nodup (node : Node A P) (position : Position) : (node.sitesAt position).Nodup := by
  induction node generalizing position with
  | mk state children ih =>
    have atoms : ((List.range state.atoms.length).map (Site.atom position)).Nodup :=
      List.pairwise_map.mpr (List.nodup_range.imp fun distinct same => distinct (Site.atom.inj same).2)
    refine List.nodup_append.mpr ⟨List.nodup_append.mpr ⟨atoms, sitesFrom_nodup ih 0, ?_⟩, state.kind.nodup_sites _, ?_⟩
    · rintro site member _ below rfl
      obtain ⟨number, _, rfl⟩ := List.mem_map.mp member
      exact ne_of_mem_sitesFrom below rfl
    · rintro site member _ acts rfl
      cases Kind.mem_sites acts
      rcases List.mem_append.mp member with member | member
      · obtain ⟨number, _, named⟩ := List.mem_map.mp member
        cases named
      · exact ne_of_mem_sitesFrom member rfl

theorem sites_nodup (root : Node A P) : root.sites.Nodup := sitesAt_nodup root []

end Node

/-! The roll of a marked tree names its sites in their order. -/

theorem Gate.atoms_map {Q : Type} (change : P → Q) (gate : Gate P) :
    (gate.map change).atoms = gate.atoms.map change := by
  induction gate with
  | atom | constant | flag => rfl
  | not operand ih => exact ih
  | and left right ihl ihr | or left right ihl ihr => simp only [map, atoms, ihl, ihr, List.map_append]

theorem Gate.atoms_number (gate : Gate P) (position : Position) (start : Nat) :
    ((gate.map (Tagged.mk position)).number start).atoms.map Tagged.label =
      (List.range' start gate.atoms.length).map (.atom position) := by
  induction gate generalizing start with
  | atom | constant | flag => rfl
  | not operand ih => exact ih start
  | and left right ihl ihr | or left right ihl ihr =>
    simp only [map, number, atoms, List.map_append, ihl, ihr, atoms_map, List.length_map, List.length_append,
      ← List.range'_append_1]

theorem NodeState.roll_number (state : NodeState A P) (position : Position) :
    (state.map (.mk position) (.mk position)).number.roll.filterMap Entry.label? =
      (List.range state.atoms.length).map (.atom position) := by
  obtain ⟨name, kind, gate, cooldown, lastPass, held⟩ := state
  cases gate with
  | none => rfl
  | some gate =>
    have named := gate.atoms_number position 0
    rw [← List.filterMap_eq_map, ← List.range_eq_range'] at named
    simp only [roll, List.filterMap_map]
    exact named

theorem Node.roll_placeAt (node : Node A P) (position : Position) :
    ((node.placeAt position).map NodeState.number).roll.filterMap Entry.label? = node.sitesAt position := by
  induction node generalizing position with
  | mk state children ih =>
    have below (start : Nat) : (((placeFrom position start children).map (map NodeState.number)).flatMap roll).filterMap
        Entry.label? = sitesFrom position start children := by
      induction children generalizing start with
      | nil => rfl
      | cons first rest each =>
        simp only [placeFrom, List.map_cons, List.flatMap_cons, List.filterMap_append, sitesFrom,
          ih first List.mem_cons_self, each fun child member => ih child (List.mem_cons_of_mem _ member)]
    rw [placeAt, map_mk, roll_mk, List.filterMap_append, List.filterMap_append, NodeState.roll_number, below, sitesAt]
    congr 1
    cases kind : state.kind <;>
      simp [NodeState.number, NodeState.map, kind, Kind.map, Kind.roll, Kind.sites, Entry.label?, Lifecycle.map]

theorem Node.roll_marked (root : Node A P) : root.marked.roll.filterMap Entry.label? = root.sites :=
  roll_placeAt root []

end BehaviorTree
