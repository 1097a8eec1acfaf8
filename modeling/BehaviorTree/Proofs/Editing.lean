import BehaviorTree.Proofs.Clearing
import BehaviorTree.Proofs.Coherence
import Mathlib.Data.List.Forall2

/-! Editing a live tree. The host of a started tree may add children to its root, activated or not as long as they
rest, and take children away, at any time between its calls. The tree stays settled: no active position outlives its
child. A child is taken away from a tree that was cleared, and a rejected edit is one report and nothing else. -/

set_option autoImplicit false

namespace BehaviorTree

variable {W A P : Type}

theorem Kind.maxChildren_frame {B : Type} (view : A → B) (kind : Kind A) :
    (kind.frame view).maxChildren = kind.maxChildren := by
  cases kind <;> rfl

namespace Node

/-- A tree of actions, sequences and selectors, activated or not, in which nothing runs and nothing is active. -/
structure Quiet (node : Node A P) : Prop where
  core : node.Everywhere fun other => other.isCore = true
  atRest : node.AtRest

variable {node child : Node A P} {state : NodeState A P} {children : List (Node A P)} {lax : Prop} {context : ContextId}

theorem Quiet.settled (quiet : node.Quiet) : node.Settled True := by
  induction node with
  | mk state children ih =>
    obtain ⟨core, coreBelow⟩ := everywhere_mk.mp quiet.core
    obtain ⟨idle, restBelow⟩ := atRest_mk.mp quiet.atRest
    refine settled_mk.mpr ⟨?_, fun child member => ih child member ⟨coreBelow child member, restBelow child member⟩⟩
    cases held : state.context with
    | none => exact .inr ⟨trivial, core, held, quiet.atRest⟩
    | some context =>
      have inactive : state.kind.activeChild = none := Kind.activeChild_of_idle idle
      have activated : (Node.mk state children).isActivated = true := by rw [isActivated, state_mk, held]; rfl
      refine .inl ⟨core, activated, fun index active => ?_, fun index child found _ => ?_⟩
      · cases inactive.symm.trans active
      · exact .inl (restBelow child (List.mem_of_getElem? found))

theorem Settled.sound (settled : node.Settled lax) (active : node.state.context = some context) : node.Sound := by
  refine (Everywhere.here settled).resolve_right fun dormant => ?_
  cases dormant.2.inactive.symm.trans active

theorem Settled.bounded (settled : node.Settled lax) : node.Everywhere fun other =>
    ∀ index, other.activeChild = some index → index < other.children.length := by
  refine settled.mono fun other known index active => ?_
  rcases known with sound | ⟨_, dormant⟩
  · exact sound.bounded index active
  · have inactive := Kind.activeChild_of_idle (Everywhere.here dormant.atRest)
    cases inactive.symm.trans active

theorem state_context_congr {other : Node A P} (same : other.held = node.held) :
    other.state.context = node.state.context := by
  cases node with
  | mk state children =>
    cases other with
    | mk changed others =>
      rw [held_mk, held_mk] at same
      have bare : changed.bare.context = state.bare.context := congrArg (fun node => node.state.context) same
      exact bare

theorem maxChildren_placed (node : Node A P) : node.placed.maxChildren = node.maxChildren := by
  have same : (node.placed.exchange Tagged.content Tagged.content).maxChildren = node.placed.maxChildren :=
    maxChildren_exchange _
  rw [exchange_placed] at same
  exact same.symm

theorem length_children_placed (node : Node A P) : node.placed.children.length = node.children.length := by
  have same : (node.placed.exchange Tagged.content Tagged.content).children.length = node.placed.children.length :=
    length_children_exchange _
  rw [exchange_placed] at same
  exact same.symm

theorem Sound.composite (sound : (Node.mk state children).Sound) (composite : state.kind.maxChildren ≠ .finite 0) :
    state.kind.maxChildren = .infinite ∧ ∀ others : List (Node A P), (Node.mk state others).isCore = true := by
  have core := sound.core
  cases kind : state.kind with
  | action lifecycle =>
    rw [kind] at composite
    exact absurd rfl composite
  | sequence active | selector active => exact ⟨rfl, fun _ => by simp only [isCore, kind]⟩
  | inert | relay most least => simp [isCore, kind] at core

theorem Settled.gain (settled : node.Settled lax) (active : node.state.context = some context)
    (composite : node.maxChildren ≠ .finite 0) (joins : child.Still lax) : (node.gain child).Settled lax := by
  have sound := settled.sound active
  cases node with
  | mk state children =>
    obtain ⟨_, below⟩ := settled_mk.mp settled
    obtain ⟨_, core⟩ := sound.composite composite
    refine settled_mk.mpr ⟨.inl ⟨core _, sound.activated, ?_, ?_⟩, ?_⟩
    · intro index chosen
      rw [children_mk, List.length_append]
      exact Nat.lt_add_right _ (sound.bounded index chosen)
    · intro index other found inactive
      rw [children_mk, List.getElem?_append] at found
      split at found
      · exact sound.others index other found inactive
      · have last := List.mem_of_getElem? found
        exact .inl (List.mem_singleton.mp last ▸ joins.atRest)
    · exact List.forall_mem_append.mpr ⟨below, List.forall_mem_singleton.mpr joins.settled⟩

theorem Still.below (still : node.Still lax) (member : child ∈ node.children) : child.Still lax := by
  obtain ⟨state, children⟩ := node
  exact (still_mk.mp still).2.2 child member

theorem Still.lose (still : node.Still lax) (active : node.state.context = some context)
    (composite : node.maxChildren ≠ .finite 0) (index : Nat) : (node.lose index).Still lax := by
  have sound := still.settled.sound active
  cases node with
  | mk state children =>
    obtain ⟨_, idle, below⟩ := still_mk.mp still
    obtain ⟨_, core⟩ := sound.composite composite
    exact .of_idle (core _) sound.activated idle fun child member => below child (List.mem_of_mem_eraseIdx member)

variable [Host W] [Action W A]

def ClearsTo (W : Type) [Host W] [Action W A] (node other : Node A P) : Prop :=
  ∃ during : W, other = (node.clear during).1

theorem clearsTo_clearAll (children : List (Node A P)) (world : W) :
    List.Forall₂ (ClearsTo W) children (Node.clearAll children world).1 := by
  induction children generalizing world with
  | nil => exact .nil
  | cons first rest ih => exact .cons ⟨world, rfl⟩ (ih _)

theorem forall₂_set {r : Node A P → Node A P → Prop} {index : Nat} {replacement : Node A P}
    (selected : children[index]? = some child) (here : r child replacement)
    (others : ∀ position other, children[position]? = some other → index ≠ position → r other other) :
    List.Forall₂ r children (children.set index replacement) := by
  induction children generalizing index with
  | nil => cases selected
  | cons first rest ih =>
    cases index with
    | zero =>
      cases selected
      refine .cons here (List.forall₂_same.mpr fun other member => ?_)
      obtain ⟨position, found⟩ := List.mem_iff_getElem?.mp member
      exact others (position + 1) other found (Nat.succ_ne_zero position).symm
    | succ index =>
      have present : rest[index]? = some child := selected
      refine .cons (others 0 first rfl (Nat.succ_ne_zero index)) (ih present fun position other found different => ?_)
      exact others (position + 1) other found fun same => different (Nat.succ.inj same)

theorem Settled.clearsTo (settled : node.Settled lax) (active : node.state.context = some context)
    (composite : node.maxChildren ≠ .finite 0) (world : W) :
    (node.clear world).1.state = node.state.frame id ∧
      List.Forall₂ (ClearsTo W) node.children (node.clear world).1.children := by
  have sound := settled.sound active
  obtain ⟨state, children⟩ := node
  obtain ⟨_, below⟩ := settled_mk.mp settled
  unfold Node.maxChildren at composite
  rw [state_mk] at composite
  -- Clearing does nothing to a child that rests.
  have untouched (child : Node A P) (still : child.Still lax) : ClearsTo W child child :=
    ⟨world, by rw [clear_of_still still]⟩
  have step := clears sound world
  generalize Node.clear (.mk state children) world = result at step ⊢
  cases step with
  | action _ kind _ =>
    rw [kind] at composite
    exact absurd rfl composite
  | sequence kind =>
    constructor
    · rw [state_mk, state_mk, NodeState.frame, kind]
      rfl
    · exact clearsTo_clearAll children world
  | idle kind =>
    obtain ⟨_, _, still⟩ := still_mk.mp (sound.still_of_unchosen below kind)
    constructor
    · rw [state_mk, NodeState.frame, kind, Kind.frame, ← kind]
    · exact List.forall₂_same.mpr fun child member => untouched child (still child member)
  | selector kind selected =>
    constructor
    · rw [state_mk, state_mk, NodeState.frame, kind]
      rfl
    · exact forall₂_set selected ⟨world, rfl⟩ fun position other found different =>
        untouched other (sound.still_of_selector below kind found (mt Option.some.inj different))

theorem removeChild_of_getElem? {removed : Node A P} {index : Nat} (composite : node.maxChildren ≠ .finite 0)
    (world : W) (found : (node.clear world).1.children[index]? = some removed) : node.removeChild index world =
      (.ok (removed, (node.clear world).1.lose index), (node.clear world).2) := by
  unfold removeChild
  simp only [if_neg composite, found]
  rfl

theorem removeChild_of_le {index : Nat} (composite : node.maxChildren ≠ .finite 0) (world : W)
    (outside : node.children.length ≤ index) : node.removeChild index world =
      node.reject (.removeOutOfRange node.name index node.children.length) world := by
  have missing : (node.clear world).1.children[index]? = none := by
    rwa [List.getElem?_eq_none_iff, length_children_clear]
  unfold removeChild
  simp only [if_neg composite, missing]

omit [Action W A] in
theorem addChild_of_leaf (leaf : node.maxChildren = .finite 0) (child : Node A P) (world : W) :
    node.addChild child world = node.reject (.addToLeaf node.name) world := by
  unfold addChild
  rw [leaf, if_pos rfl]
  exact if_neg (by simp [ChildLimit.lt, ChildLimit.compare?, Nat.compare_eq_lt])

theorem removeChild_of_leaf (leaf : node.maxChildren = .finite 0) (index : Nat) (world : W) :
    node.removeChild index world = node.reject (.removeFromLeaf node.name) world := by
  unfold removeChild
  rw [if_pos leaf]

end Node

/-! An edit carries over from one environment to another that it stands for. -/

section Exchange
variable {V B Q : Type} [Host V] [Action V A] [Probe V P] [Host W] [Action W B] [Probe W Q] {world : V → W}
  {action : A → B} {probe : P → Q} (sim : Simulates world action probe)
include sim

theorem Simulates.reject_exchange {α β : Type} (f : α → β) (node : Node A P) (error : EditError) (here : V) :
    (node.exchange action probe).reject error (world here) =
      (((node.reject error here).1 : Except EditError α).map f,
        world (node.reject error here : Except EditError α × V).2) := by
  cases node
  rw [Node.reject, Node.reject, ← sim.report, Node.exchange_mk]
  rfl

theorem Simulates.addChild_exchange (node child : Node A P) (here : V) :
    (node.exchange action probe).addChild (child.exchange action probe) (world here) =
      ((node.addChild child here).1.map (Node.exchange action probe), world (node.addChild child here).2) := by
  unfold Node.addChild
  rw [Node.length_children_exchange, Node.maxChildren_exchange, Node.name_exchange]
  split
  · obtain ⟨state, children⟩ := node
    simp only [Node.exchange_mk, Except.map, Node.state_mk, Node.children_mk, List.map_append, List.map_singleton]
  · split
    · exact sim.reject_exchange _ _ _ _
    · exact sim.reject_exchange _ _ _ _

theorem Simulates.removeChild_exchange (node : Node A P) (index : Nat) (here : V) :
    (node.exchange action probe).removeChild index (world here) =
      ((node.removeChild index here).1.map (Prod.map (Node.exchange action probe) (Node.exchange action probe)),
        world (node.removeChild index here).2) := by
  unfold Node.removeChild
  rw [Node.length_children_exchange, Node.maxChildren_exchange, Node.name_exchange]
  split
  · exact sim.reject_exchange _ _ _ _
  · rw [sim.clear_exchange node here]
    obtain ⟨⟨state, children⟩, after⟩ := node.clear here
    dsimp only
    rw [Node.exchange_mk, Node.children_mk, Node.children_mk, List.getElem?_map]
    cases children[index]? with
    | none => exact sim.reject_exchange _ _ _ _
    | some child =>
      simp only [Option.map_some, Except.map, Prod.map, Node.exchange_mk, Node.state_mk, List.eraseIdx_map]

end Exchange

/-- What a host does to the children of a root. -/
inductive Edit (A P : Type) where
  | add (child : Node A P)
  | remove (index : Nat)

/-- What a host does with a tree that it may edit. -/
inductive Handling (W A P : Type) where
  | call (next : Call W)
  | edit (edit : Edit A P)

def Edit.watched : Edit A P → Edit (Tagged Position A) (Tagged Position P)
  | .add child => .add child.placed
  | .remove index => .remove index

namespace Tree

variable [Host W] [Action W A]

def edit (tree : Tree A P) (world : W) : Edit A P → Except EditError (Option (Node A P)) × Tree A P × W
  | .add child =>
    match tree.root.addChild child world with
    | (.ok root, world) => (.ok none, ⟨root, tree.context⟩, world)
    | (.error error, world) => (.error error, tree, world)
  | .remove index =>
    match tree.root.removeChild index world with
    | (.ok (removed, root), world) => (.ok (some removed), ⟨root, tree.context⟩, world)
    | (.error error, world) => (.error error, tree, world)

def editTrace (tree : Tree A P) (world : W) (edit : Edit A P) : List (Entry Position) :=
  (tree.placed.edit (Journal.of world) edit.watched).2.2.entries

theorem edit_placed [Probe W P] (tree : Tree A P) (world : W) (edit : Edit A P) : tree.edit world edit =
    ((tree.placed.edit (Journal.of world) edit.watched).1.map
        (Option.map (Node.exchange Tagged.content Tagged.content)),
      (tree.placed.edit (Journal.of world) edit.watched).2.1.exchange Tagged.content Tagged.content,
      (tree.placed.edit (Journal.of world) edit.watched).2.2.world) := by
  unfold Tree.edit
  cases edit with
  | add child =>
    have watched := Journal.erases.addChild_exchange tree.root.placed child.placed (Journal.of world)
    rw [Node.exchange_placed, Node.exchange_placed] at watched
    dsimp only [Edit.watched, placed]
    rw [show tree.root.addChild child world = _ from watched]
    rcases tree.root.placed.addChild child.placed (Journal.of world) with ⟨error | root, after⟩
    · simp only [Except.map, exchange, Node.exchange_placed]
    · rfl
  | remove index =>
    have watched := Journal.erases.removeChild_exchange tree.root.placed index (Journal.of world)
    rw [Node.exchange_placed] at watched
    dsimp only [Edit.watched, placed]
    rw [show tree.root.removeChild index world = _ from watched]
    rcases tree.root.placed.removeChild index (Journal.of world) with ⟨error | ⟨removed, root⟩, after⟩
    · simp only [Except.map, exchange, Node.exchange_placed]
    · rfl

variable [Probe W P]

def handle (tree : Tree A P) (world : W) : Handling W A P → Tree A P × W
  | .call next => tree.call world next
  | .edit edit => (tree.edit world edit).2

def tend (tree : Tree A P) (world : W) : List (Handling W A P) → Tree A P × W
  | [] => (tree, world)
  | first :: rest =>
    let (tree, world) := tree.handle world first
    tree.tend world rest

/-- The edit fails for this reason. The tree stays as it is, and nothing is asked but one report to the context. -/
def Rejects (tree : Tree A P) (context : ContextId) (world : W) (edit : Edit A P) (error : EditError) : Prop :=
  tree.edit world edit =
    (.error error, tree, Host.report (some context) tree.root.name (.rejected error) world)

/-- The tree without its child at the index. The tree is cleared: the other children stay in their order, nothing
runs any more, and the action that ran is asked to exit. -/
structure Loses (tree : Tree A P) (world : W) (index : Nat) (removed : Node A P) (after : Tree A P) : Prop where
  children : ∃ cleared, List.Forall₂ (Node.ClearsTo W) tree.root.children cleared ∧
    cleared[index]? = some removed ∧ after.root.children = cleared.eraseIdx index
  state : after.root.state = tree.root.state.frame id
  context : after.context = tree.context
  removedRests : removed.AtRest
  rests : after.root.AtRest
  exits : ∃ running : Option Position, tree.root.runningAt = running.toList ∧
    (tree.editTrace world (.remove index)).filter (fun entry => !entry.isReport) =
      running.toList.map fun position => .action .exit position

/-- A tree whose root is activated in the context, and in which everything below is settled, activated or not. -/
structure Tended (context : ContextId) (tree : Tree A P) : Prop where
  held : tree.root.state.context = some context
  settled : tree.root.Settled True

variable {context : ContextId} {tree : Tree A P} {index : Nat}

section Edits
omit [Probe W P]

theorem edit_add (tended : Tended context tree) (composite : tree.root.maxChildren ≠ .finite 0) (child : Node A P)
    (world : W) : tree.edit world (.add child) = (.ok none, ⟨tree.root.gain child, tree.context⟩, world) := by
  have sound := tended.settled.sound tended.held
  have room : (ChildLimit.finite tree.root.children.length).lt tree.root.maxChildren = true := by
    obtain ⟨⟨state, children⟩, _⟩ := tree
    rw [show (Node.mk state children).maxChildren = .infinite from (sound.composite composite).1]
    rfl
  unfold edit
  simp only [Node.addChild_of_room room]

theorem editTrace_remove (settled : tree.root.Settled True) (composite : tree.root.maxChildren ≠ .finite 0)
    (inside : index < tree.root.children.length) (world : W) :
    (tree.editTrace world (.remove index)).filter (fun entry => !entry.isReport) =
      tree.root.runningAt.map fun position => .action .exit position := by
  obtain ⟨removed, taken⟩ := Node.removeChild_of_lt (tree.root.maxChildren_placed ▸ composite)
    (tree.root.length_children_placed ▸ inside) (Journal.of world)
  have asked := Node.asked_clear_placed settled world
  unfold editTrace edit
  simp only [Edit.watched, placed, taken]
  exact asked

def without (tree : Tree A P) (world : W) (index : Nat) : Tree A P :=
  ⟨(tree.root.clear world).1.lose index, tree.context⟩

theorem Tended.still_without (tended : Tended context tree) (composite : tree.root.maxChildren ≠ .finite 0)
    (index : Nat) (world : W) : (tree.without world index).root.state.context = some context ∧
      (tree.without world index).root.Still True := by
  have held : (tree.root.clear world).1.state.context = some context :=
    (Node.state_context_congr (Node.held_clear tree.root world)).trans tended.held
  obtain ⟨released, _⟩ := tended.settled.clearsTo tended.held composite world
  have other : (tree.root.clear world).1.maxChildren ≠ .finite 0 := by
    rwa [Node.maxChildren, released, NodeState.frame, Kind.maxChildren_frame]
  exact ⟨held, (Node.clear_still tended.settled world).lose held other index⟩

theorem edit_remove (tended : Tended context tree) (composite : tree.root.maxChildren ≠ .finite 0)
    (inside : index < tree.root.children.length) (world : W) : ∃ removed,
      tree.edit world (.remove index) = (.ok (some removed), tree.without world index, (tree.root.clear world).2) ∧
        tree.Loses world index removed (tree.without world index) := by
  obtain ⟨released, cleared⟩ := tended.settled.clearsTo tended.held composite world
  obtain ⟨removed, found⟩ : ∃ removed, (tree.root.clear world).1.children[index]? = some removed := by
    have present : index < (tree.root.clear world).1.children.length := by rwa [Node.length_children_clear]
    exact ⟨_, List.getElem?_eq_getElem present⟩
  have rests := (tended.still_without composite index world).2.atRest
  refine ⟨removed, ?_, ⟨_, cleared, found, rfl⟩, released, rfl, ?_, rests, ?_⟩
  · unfold edit
    simp only [Node.removeChild_of_getElem? composite world found]
    rfl
  · exact ((Node.clear_still tended.settled world).below (List.mem_of_getElem? found)).atRest
  · obtain ⟨running, known⟩ := exists_toList tended.settled.length_runningAt
    exact ⟨running, known, known ▸ editTrace_remove tended.settled composite inside world⟩

theorem rejects_remove (tended : Tended context tree) (composite : tree.root.maxChildren ≠ .finite 0)
    (outside : tree.root.children.length ≤ index) (world : W) :
    tree.Rejects context world (.remove index)
      (.removeOutOfRange tree.root.name index tree.root.children.length) := by
  unfold Rejects edit
  simp only [Node.removeChild_of_le composite world outside, Node.reject, tended.held]

theorem rejects_of_leaf (tended : Tended context tree) (leaf : tree.root.maxChildren = .finite 0) (world : W) :
    (∀ child, tree.Rejects context world (.add child) (.addToLeaf tree.root.name)) ∧
      ∀ index, tree.Rejects context world (.remove index) (.removeFromLeaf tree.root.name) := by
  constructor
  · intro child
    unfold Rejects edit
    simp only [Node.addChild_of_leaf leaf, Node.reject, tended.held]
  · intro index
    unfold Rejects edit
    simp only [Node.removeChild_of_leaf leaf, Node.reject, tended.held]

end Edits

theorem Tended.start {root : Node A P} (built : root.Built) (context : ContextId) (world : W) :
    Tended context (start root context world).1 where
  held := by
    refine (Node.state_context_congr (Node.held_activate root context world)).trans ?_
    obtain ⟨state, children⟩ := root
    have inactive : state.context = none := built.inactive
    rw [Node.adopt_of_inactive inactive]
    rfl
  settled := (Node.settled_false.mpr (start_resting built context world).steady).mono fun _ known =>
    known.imp_right fun dormant => ⟨trivial, dormant.2⟩

theorem Tended.call (tended : Tended context tree) (world : W) (next : Call W) :
    Tended context (tree.call world next).1 where
  held := (Node.state_context_congr (held_call tree world next)).trans tended.held
  settled := call_settled tended.settled world next

omit [Probe W P] in
theorem Tended.edit (tended : Tended context tree) (world : W) {edit : Edit A P}
    (quiet : ∀ child, edit = .add child → child.Quiet) : Tended context (tree.edit world edit).2.1 := by
  by_cases leaf : tree.root.maxChildren = .finite 0
  · obtain ⟨addRejected, removeRejected⟩ := rejects_of_leaf tended leaf world
    cases edit with
    | add child => rwa [addRejected child]
    | remove index => rwa [removeRejected index]
  cases edit with
  | add child =>
    have joins := quiet child rfl
    rw [edit_add tended leaf]
    exact ⟨tended.held, tended.settled.gain tended.held leaf ⟨joins.settled, joins.atRest⟩⟩
  | remove index =>
    rcases Nat.lt_or_ge index tree.root.children.length with inside | outside
    · obtain ⟨removed, accepted, _⟩ := edit_remove tended leaf inside world
      obtain ⟨held, still⟩ := tended.still_without leaf index world
      rw [accepted]
      exact ⟨held, still.settled⟩
    · have rejected := rejects_remove tended leaf outside world
      rwa [rejected]

theorem Tended.tend (tended : Tended context tree) (world : W) {handlings : List (Handling W A P)}
    (quiet : ∀ child, .edit (.add child) ∈ handlings → child.Quiet) :
    Tended context (tree.tend world handlings).1 := by
  induction handlings generalizing tree world with
  | nil => exact tended
  | cons first rest ih =>
    have later := fun child member => quiet child (List.mem_cons_of_mem _ member)
    cases first with
    | call next => exact ih (tended.call world next) _ later
    | edit edit =>
      have now : ∀ child, edit = .add child → child.Quiet := by
        rintro child rfl
        exact quiet child List.mem_cons_self
      exact ih (tended.edit world now) _ later

/-- Editing a started tree is safe at any time. No active position ever reaches the number of children. A composite
root takes every child, at its end, and loses any of its children, as `Loses` says; an action takes and loses none. An
edit that is rejected leaves the tree as it is, and asks for nothing but one report. -/
theorem tend_edit {root : Node A P} (built : root.Built) {context : ContextId} {before world : W}
    {handlings : List (Handling W A P)} (quiet : ∀ child, .edit (.add child) ∈ handlings → child.Quiet)
    {tree : Tree A P}
    (reached : (start root context before).1.tend (start root context before).2 handlings = (tree, world)) :
    (tree.root.Everywhere fun node => ∀ index, node.activeChild = some index → index < node.children.length) ∧
    (tree.root.maxChildren ≠ .finite 0 →
      (∀ child, tree.edit world (.add child) = (.ok none, ⟨tree.root.gain child, tree.context⟩, world)) ∧
      (∀ index, index < tree.root.children.length → ∃ removed after,
        tree.edit world (.remove index) = (.ok (some removed), after, (tree.root.clear world).2) ∧
          tree.Loses world index removed after) ∧
      ∀ index, tree.root.children.length ≤ index → tree.Rejects context world (.remove index)
        (.removeOutOfRange tree.root.name index tree.root.children.length)) ∧
    (tree.root.maxChildren = .finite 0 →
      (∀ child, tree.Rejects context world (.add child) (.addToLeaf tree.root.name)) ∧
      ∀ index, tree.Rejects context world (.remove index) (.removeFromLeaf tree.root.name)) := by
  have tended := (Tended.start built context before).tend (start root context before).2 quiet
  rw [reached] at tended
  constructor
  · exact tended.settled.bounded
  constructor
  · intro composite
    refine ⟨fun child => edit_add tended composite child world, fun index inside => ?_, fun index outside => ?_⟩
    · obtain ⟨removed, accepted, loses⟩ := edit_remove tended composite inside world
      exact ⟨removed, _, accepted, loses⟩
    · exact rejects_remove tended composite outside world
  · intro leaf
    exact rejects_of_leaf tended leaf world

def joining : List (Handling World Script.Performer Script.Sensor) :=
  [.call .step, .edit (.add recruit), .edit (.remove 7)]

def joined : Tree Script.Performer Script.Sensor × World :=
  (start patrol 0 World.post).1.tend (start patrol 0 World.post).2 joining

/-- When the guard is taken away, the patrol exits. There is no fourth child. -/
theorem joined_edit : joined.1.root.runningAt = [[1, 0]] ∧
    (∃ guard after, (joined.1.edit joined.2 (.remove 0)).1 = .ok (some guard) ∧
      joined.1.Loses joined.2 0 guard after ∧
      (joined.1.editTrace joined.2 (.remove 0)).filter (fun entry => !entry.isReport) = [.action .exit [1, 0]]) ∧
    joined.1.Rejects 0 joined.2 (.remove 3) (.removeOutOfRange "watch" 3 3) := by
  have runs : joined.1.root.runningAt = [[1, 0]] := by decide +kernel
  have count : joined.1.root.children.length = 3 := by decide +kernel
  have named : joined.1.root.name = "watch" := by decide +kernel
  have composite : joined.1.root.maxChildren ≠ .finite 0 := by decide +kernel
  have quiet : ∀ child, Handling.edit (.add child) ∈ joining → child.Quiet := by
    intro child member
    obtain rfl : child = recruit := by simpa [joining] using member
    have recruited : recruit.Built := Node.built_action _ _
    exact ⟨recruited.mono fun _ untouched => untouched.core, recruited.atRest⟩
  obtain ⟨_, edits, _⟩ := tend_edit patrol_built quiet
    (show (start patrol 0 World.post).1.tend (start patrol 0 World.post).2 joining = (joined.1, joined.2) from rfl)
  obtain ⟨_, removes, rejects⟩ := edits composite
  obtain ⟨guard, after, accepted, loses⟩ := removes 0 (by rw [count]; decide)
  have rejected := rejects 3 (Nat.le_of_eq count)
  rw [count, named] at rejected
  obtain ⟨running, known, exits⟩ := loses.exits
  refine ⟨runs, ⟨guard, after, by rw [accepted], loses, ?_⟩, rejected⟩
  obtain rfl : running = some [1, 0] := toList_inj (known.symm.trans runs)
  exact exits

end Tree

end BehaviorTree
