import BehaviorTree.Proofs.Operation

/-! Every call keeps a steady tree steady, and a settled one settled. Clearing leaves it at rest; evaluation
starts nothing and leaves a child at rest that it refuses; a tick that ends leaves its node at rest. -/

set_option autoImplicit false

namespace BehaviorTree

theorem Lifecycle.not_running_of_ended {W A : Type} [Host W] [Action W A] {lifecycle : Lifecycle A}
    {name : String} {context : ContextId} {world : W} (ended : (lifecycle.tick name context world).1 = .ended) :
    (lifecycle.tick name context world).2.1.isRunning = false := by
  simp only [Lifecycle.tick] at ended ⊢
  split at ended
  · cases ended
  · rfl

namespace Node

variable {W A P : Type} [Host W] [Action W A] {state : NodeState A P} {children : List (Node A P)} {lax : Prop}

theorem forall_getElem?_set {p : Nat → Node A P → Prop} {index : Nat} {replacement : Node A P}
    (here : p index replacement)
    (others : ∀ position other, children[position]? = some other → index ≠ position → p position other)
    (position : Nat) (child : Node A P) (found : (children.set index replacement)[position]? = some child) :
    p position child := by
  by_cases same : index = position
  · subst same
    obtain ⟨_, found⟩ := List.getElem?_eq_some_iff.mp found
    rw [List.getElem_set_self] at found
    exact found ▸ here
  · rw [List.getElem?_set_ne same] at found
    exact others position child found same

theorem forall_mem_set {p : Node A P → Prop} {index : Nat} {replacement : Node A P} (here : p replacement)
    (others : ∀ position other, children[position]? = some other → index ≠ position → p other) :
    ∀ child ∈ children.set index replacement, p child := by
  intro child member
  obtain ⟨position, found⟩ := List.mem_iff_getElem?.mp member
  exact forall_getElem?_set (p := fun _ child => p child) here others position child found

theorem Settled.of_set (changed : NodeState A P) {index : Nat} {replacement : Node A P}
    (core : (Node.mk changed (children.set index replacement)).isCore = true)
    (activated : changed.context.isSome = true)
    (bounded : ∀ position, changed.kind.activeChild = some position → position < children.length)
    (kept : replacement.Settled lax) (rest : changed.kind.activeChild ≠ some index → replacement.AtRest)
    (others : ∀ position other, children[position]? = some other → index ≠ position → other.Still lax) :
    (Node.mk changed (children.set index replacement)).Settled lax := by
  apply Settled.of_active core activated
  · rwa [List.length_set]
  · refine forall_getElem?_set ⟨kept, rest⟩ fun position other found different => ?_
    have still := others position other found different
    exact ⟨still.settled, fun _ => still.atRest⟩

theorem Still.of_set (changed : NodeState A P) {index : Nat} {replacement : Node A P}
    (core : (Node.mk changed (children.set index replacement)).isCore = true)
    (activated : changed.context.isSome = true) (idle : changed.kind.isRunning = false)
    (kept : replacement.Still lax)
    (others : ∀ position other, children[position]? = some other → index ≠ position → other.Still lax) :
    (Node.mk changed (children.set index replacement)).Still lax :=
  .of_idle core activated idle (forall_mem_set kept others)

theorem Resting.of_set (changed : NodeState A P) {index : Nat} {replacement : Node A P}
    (core : (Node.mk changed (children.set index replacement)).isCore = true)
    (activated : changed.context.isSome = true) (idle : changed.kind.isRunning = false)
    (kept : replacement.Resting)
    (others : ∀ position other, children[position]? = some other → index ≠ position → other.Resting) :
    (Node.mk changed (children.set index replacement)).Resting :=
  .of_idle core activated idle (forall_mem_set kept others)

theorem forall_clearAll {p : Node A P → Prop} {children : List (Node A P)}
    (each : ∀ child ∈ children, ∀ world : W, p (child.clear world).1) (world : W) :
    ∀ child ∈ (Node.clearAll children world).1, p child := by
  induction children generalizing world with
  | nil => exact fun _ member => nomatch member
  | cons first rest ih =>
    simp only [Node.clearAll, List.forall_mem_cons]
    exact ⟨each first List.mem_cons_self world, ih (fun child member => each child (List.mem_cons_of_mem _ member)) _⟩

theorem clearAll_eq_self {children : List (Node A P)}
    (each : ∀ child ∈ children, ∀ world : W, child.clear world = (child, world)) (world : W) :
    Node.clearAll children world = (children, world) := by
  induction children generalizing world with
  | nil => rfl
  | cons first rest ih =>
    simp only [Node.clearAll, each first List.mem_cons_self world,
      ih (fun child member => each child (List.mem_cons_of_mem _ member))]

theorem clear_of_still {node : Node A P} (still : node.Still lax) (world : W) : node.clear world = (node, world) := by
  induction node generalizing world with
  | mk state children ih =>
    obtain ⟨sound | ⟨_, dormant⟩, idle, below⟩ := still_mk.mp still
    · have step := clears sound world
      generalize Node.clear (.mk state children) world = result at step ⊢
      cases step with
      | @action context lifecycle activated kind leaf =>
        have ready : lifecycle.clear state.name context world = (lifecycle, world) := by
          rcases lifecycle with ⟨action, _ | _⟩
          · rfl
          · rw [kind] at idle; cases idle
        rw [ready, ← kind]
      | @sequence active kind =>
        have inactive : active = none := by simpa [kind, Kind.isRunning] using idle
        rw [clearAll_eq_self fun child member => ih child member (below child member),
          ← inactive, ← kind]
      | idle _ => rfl
      | selector kind _ => rw [kind] at idle; cases idle
    · exact clear_of_inactive dormant.inactive world

theorem clear_eq_self {node : Node A P} (resting : node.Resting) (world : W) :
    node.clear world = (node, world) := clear_of_still (still_false.mpr resting) world

theorem clear_still {node : Node A P} (settled : node.Settled lax) (world : W) : (node.clear world).1.Still lax := by
  induction node generalizing world with
  | mk state children ih =>
    obtain ⟨sound | dormant, below⟩ := settled_mk.mp settled
    · have activated : state.context.isSome = true := sound.activated
      have step := clears sound world
      generalize Node.clear (.mk state children) world = result at step ⊢
      cases step with
      | @action context lifecycle _ kind leaf =>
        subst leaf
        have idle : (lifecycle.clear state.name context world).1.isRunning = false := by
          rcases lifecycle with ⟨action, _ | _⟩ <;> rfl
        exact .of_idle rfl activated idle nofun
      | sequence kind =>
        exact .of_idle rfl activated rfl
          (forall_clearAll (fun child member => ih child member (below child member)) world)
      -- A selector clears one child at most: the others are at rest before.
      | idle kind => exact sound.still_of_unchosen below kind
      | @selector index child kind selected =>
        have member := List.mem_of_getElem? selected
        exact .of_set _ rfl activated rfl (ih child member (below child member) world)
          fun position other found different => sound.still_of_selector below kind found (mt Option.some.inj different)
    · rw [clear_of_inactive dormant.2.inactive]
      exact ⟨settled, dormant.2.atRest⟩

theorem clear_resting {node : Node A P} (steady : node.Steady) (world : W) : (node.clear world).1.Resting :=
  still_false.mp (clear_still (settled_false.mpr steady) world)

/-- A tick keeps a tree settled, and one that ends leaves it at rest. -/
theorem tick_settled {node : Node A P} (settled : node.Settled lax) (world : W) :
    (node.tick world).2.1.Settled lax ∧ ((node.tick world).1 = .ended → (node.tick world).2.1.AtRest) := by
  induction node generalizing world with
  | mk state children ih =>
    obtain ⟨sound | dormant, below⟩ := settled_mk.mp settled
    case inr =>
      rw [tick_of_inactive dormant.2.inactive]
      exact ⟨settled, fun _ => dormant.2.atRest⟩
    have activated : state.context.isSome = true := sound.activated
    -- A composite keeps the child that it ticked, or the same child cleared.
    have ticked {index : Nat} {child after : Node A P} {progress : Progress} {later : W}
        (selected : children[index]? = some child) (ticking : child.tick world = (progress, after, later)) :
        after.Settled lax ∧ (after.clear later).1.Still lax := by
      have member := List.mem_of_getElem? selected
      have kept := (ih child member (below child member) world).1
      rw [ticking] at kept
      exact ⟨kept, clear_still kept later⟩
    have step := ticks sound world
    generalize Node.tick (.mk state children) world = result at step ⊢
    cases step with
    | action _ _ leaf =>
      subst leaf
      exact ⟨.of_active rfl activated (fun _ chosen => by cases chosen) (fun _ _ selected => by cases selected),
        fun ended => atRest_mk.mpr ⟨Lifecycle.not_running_of_ended ended, List.forall_mem_nil _⟩⟩
    | @emptySequence _ active _ kind empty =>
      subst empty
      refine ⟨settled, fun _ => atRest_mk.mpr ⟨?_, List.forall_mem_nil _⟩⟩
      cases active with
      | none => rw [kind]; rfl
      | some index => exact absurd (sound.bounded index (by simp [activeChild, kind, Kind.activeChild])) (Nat.not_lt_zero _)
    | @continued active child after later kind selected ticking =>
      refine ⟨.of_set _ rfl activated ?_ (ticked selected ticking).1 (fun other => absurd rfl other)
        (fun index other found different => sound.still_of_sequence below kind found different),
        fun ended => by cases ended⟩
      intro index chosen
      obtain rfl : active.getD 0 = index := Option.some.inj chosen
      exact (List.getElem?_eq_some_iff.mp selected).1
    | @advanced active child after later kind selected ticking further =>
      have cleared := (ticked selected ticking).2
      refine ⟨.of_set _ rfl activated ?_ cleared.settled (fun _ => cleared.atRest)
        (fun index other found different => sound.still_of_sequence below kind found different),
        fun ended => by cases ended⟩
      intro index chosen
      obtain rfl : active.getD 0 + 1 = index := Option.some.inj chosen
      exact further
    | completed kind selected ticking _ =>
      have still := Still.of_set { state with kind := .sequence none } rfl activated rfl (ticked selected ticking).2
        fun index other found different => sound.still_of_sequence below kind found different
      exact ⟨still.settled, fun _ => still.atRest⟩
    | emptySelector _ kind _ | unchosen kind _ =>
      exact ⟨settled, fun _ => (sound.still_of_unchosen below kind).atRest⟩
    | chosen kind selected ticking =>
      refine ⟨.of_set _ (by simp [isCore, kind]) activated sound.bounded (ticked selected ticking).1
        (fun other => absurd (by simp [kind, Kind.activeChild]) other) fun position other found different => ?_,
        fun ended => by cases ended⟩
      exact sound.still_of_selector below kind found (mt Option.some.inj different)
    | released kind selected ticking =>
      have still := Still.of_set { state with kind := .selector none } rfl activated rfl (ticked selected ticking).2
        fun position other found different => sound.still_of_selector below kind found (mt Option.some.inj different)
      exact ⟨still.settled, fun _ => still.atRest⟩

theorem tick_steady {node : Node A P} (steady : node.Steady) (world : W) :
    (node.tick world).2.1.Steady ∧ ((node.tick world).1 = .ended → (node.tick world).2.1.AtRest) := by
  obtain ⟨settled, rest⟩ := tick_settled (settled_false.mpr steady) world
  exact ⟨settled_false.mp settled, rest⟩

variable [Probe W P]

/-- What evaluation keeps of the run state of a node, by its answer. -/
structure Keeps (lax : Prop) (before : Node A P) (answer : Bool) (after : Node A P) : Prop where
  settled : after.Settled lax
  probed : before.Probed → after.Probed
  atRest : before.AtRest → answer = false → after.AtRest

theorem Keeps.steady {before after : Node A P} {answer : Bool} (keeps : Keeps False before answer after) :
    after.Steady := settled_false.mp keeps.settled

theorem Keeps.of_kind {admitted : NodeState A P} {answer : Bool} (sound : (Node.mk state children).Sound)
    (below : ∀ child ∈ children, child.Settled lax) (kind : admitted.kind = state.kind)
    (context : admitted.context = state.context) :
    Keeps lax (Node.mk state children) answer (Node.mk admitted children) := by
  refine ⟨settled_mk.mpr ⟨.inl (sound.congr kind context), below⟩, fun probed => ?_, fun rest _ => ?_⟩
  · exact probed_mk.mpr (kind ▸ probed_mk.mp probed)
  · exact atRest_mk.mpr (kind ▸ atRest_mk.mp rest)

theorem Keeps.of_still {before after : Node A P} {answer : Bool} (still : after.Still lax) :
    Keeps lax before answer after :=
  ⟨still.settled, fun _ => still.atRest.probed, fun _ _ => still.atRest⟩

theorem Keeps.selector {admitted : NodeState A P} {previous winner : Option Nat}
    {scanned : List (Node A P)} {during after : W} (sound : (Node.mk state children).Sound)
    (below : ∀ child ∈ children, child.Settled lax)
    (kind : state.kind = .selector previous) (context : admitted.context = state.context)
    (scan : Scans children during winner scanned after)
    (each : ∀ child ∈ children, ∀ world : W, Keeps lax child (child.evaluate world).1 (child.evaluate world).2.1) :
    Keeps lax (Node.mk state children) winner.isSome
      (Node.mk { admitted with kind := .selector winner } (Node.switchTo winner previous scanned after).1) := by
  have activated : admitted.context.isSome = true := context ▸ sound.activated
  have kept : ∀ asked ∈ scanned, asked.Settled lax :=
    scan.forall_mem below fun child member world => (each child member world).settled
  -- Before the switch, the child that was chosen last may still hold run state.
  have rests : ∀ index asked, scanned[index]? = some asked → winner ≠ some index → previous ≠ some index →
      asked.AtRest := by
    intro index asked selected lost other
    obtain ⟨child, found, known⟩ := scan.get selected
    have idle := sound.atRest_of_selector kind found other
    rcases known with ⟨earlier, later, evaluated⟩ | ⟨rfl, _⟩
    · have keeps := each child (List.mem_of_getElem? found) earlier
      rw [evaluated] at keeps
      exact keeps.atRest idle (by simpa using lost)
    · exact idle
  have switched : ∀ index child, (Node.switchTo winner previous scanned after).1[index]? = some child →
      child.Settled lax ∧ (winner ≠ some index → child.AtRest) := by
    rcases scan.switchTo_eq sound kind with ⟨stays, same⟩ | ⟨last, child, chosen, left, found, same⟩
    · rw [same]
      intro index child selected
      refine ⟨kept child (List.mem_of_getElem? selected), fun lost => rests index child selected lost ?_⟩
      rcases stays with none | stays
      · simp [none]
      · exact stays ▸ lost
    · rw [same]
      have still := clear_still (kept child (List.mem_of_getElem? found)) after
      refine forall_getElem?_set ⟨still.settled, fun _ => still.atRest⟩ fun index other selected different => ?_
      exact ⟨kept other (List.mem_of_getElem? selected), fun lost =>
        rests index other selected lost (by simpa [chosen] using different)⟩
  have bounded : ∀ index, winner = some index → index < (Node.switchTo winner previous scanned after).1.length := by
    intro index chosen
    rw [length_switchTo, scan.length_eq]
    exact scan.bounded chosen
  refine ⟨.of_active rfl activated bounded switched, fun probed => probed_mk.mpr ⟨fun _ => rfl, ?_⟩,
    fun _ lost => atRest_mk.mpr ⟨lost, fun child member => ?_⟩⟩
  · have asked := scan.forall_mem (probed_mk.mp probed).2
      fun child member world => (each child member world).probed ((probed_mk.mp probed).2 child member)
    rcases scan.switchTo_eq sound kind with ⟨_, same⟩ | ⟨last, child, _, _, found, same⟩
    · exact same ▸ asked
    · rw [same]
      exact forall_mem_set (clear_still (kept child (List.mem_of_getElem? found)) after).atRest.probed
        fun _ other selected _ => asked other (List.mem_of_getElem? selected)
  · obtain ⟨index, selected⟩ := List.mem_iff_getElem?.mp member
    exact (switched index child selected).2 (by simp [Option.not_isSome_iff_eq_none.mp (by simpa using lost)])

/-- Evaluation starts nothing, and a node at rest that it refuses stays at rest. -/
theorem evaluate_settled {node : Node A P} (settled : node.Settled lax) (world : W) :
    Keeps lax node (node.evaluate world).1 (node.evaluate world).2.1 := by
  -- The three go together in one induction: a selector is settled only if children that refuse stay at rest,
  -- and an idle sequence only if its first child stays probed.
  induction node generalizing world with
  | mk state children ih =>
    obtain ⟨sound | dormant, below⟩ := settled_mk.mp settled
    case inr =>
      rw [evaluate_of_inactive dormant.2.inactive]
      exact .of_still ⟨settled, dormant.2.atRest⟩
    have each := fun child member => ih child member (below child member)
    have step := evaluates sound world
    generalize Node.evaluate (.mk state children) world = result at step ⊢
    cases step with
    | refused activated admission | emptySequence activated admission _ _
    | emptySelector activated admission _ _ =>
      exact .of_kind sound below (NodeState.pass_kind admission) (NodeState.pass_context admission)
    | @action context admitted during lifecycle activated admission kind leaf =>
      subst leaf
      have holds := sound.admitted admission
      refine ⟨.of_active rfl holds (fun _ chosen => by cases chosen) (fun _ _ selected => by cases selected),
        fun probed => probed_mk.mpr ⟨fun running => ?_, List.forall_mem_nil _⟩,
        fun rest _ => atRest_mk.mpr ⟨?_, List.forall_mem_nil _⟩⟩
      · have busy := (probed_mk.mp probed).1
        rw [kind] at busy
        exact absurd (busy running) Bool.false_ne_true
      · have idle := (atRest_mk.mp rest).1
        rw [kind] at idle
        exact idle
    | @probe context admitted during after answer first asked rest activated admission kind split evaluated =>
      subst split
      have same := (NodeState.pass_kind admission).trans kind
      have kept := each first List.mem_cons_self during
      rw [evaluated] at kept
      obtain ⟨probed, resting⟩ := sound.rest_atRest (by simp [kind, Kind.activeChild])
      refine ⟨settled_mk.mpr ⟨.inl ?_, ?_⟩, fun _ => probed_mk.mpr ⟨by simp [same, Kind.isRunning], ?_⟩,
        fun rest refused => atRest_mk.mpr ⟨by simp [same, Kind.isRunning], ?_⟩⟩
      · -- The node stays idle, so the first child, which was asked, is the exception.
        refine ⟨by simp [isCore, same], sound.admitted admission, ?_, ?_⟩
        · simp [activeChild, same, Kind.activeChild]
        · intro index child selected _
          cases index with
          | zero => cases selected; exact .inr ⟨same, rfl, kept.probed probed⟩
          | succ index => exact .inl (resting child (List.mem_of_getElem? selected))
      · exact List.forall_mem_cons.mpr
          ⟨kept.settled, fun child member => below child (List.mem_cons_of_mem _ member)⟩
      · exact List.forall_mem_cons.mpr ⟨kept.probed probed, fun child member => (resting child member).probed⟩
      · exact List.forall_mem_cons.mpr
          ⟨kept.atRest ((atRest_mk.mp rest).2 first List.mem_cons_self) refused, resting⟩
    | @continued context admitted during after index child asked activated admission kind selected evaluated =>
      have same := (NodeState.pass_kind admission).trans kind
      have kept := each child (List.mem_of_getElem? selected) during
      rw [evaluated] at kept
      refine ⟨.of_set _ (by simp [isCore, same]) (sound.admitted admission) ?_ kept.settled
        (fun other => absurd (by simp [same, Kind.activeChild]) other)
        (fun position other found different => sound.still_of_sequence below kind found different), fun probed => ?_,
        fun _ refused => by cases refused⟩
      · simpa [same, kind, activeChild] using sound.bounded
      · -- A sequence that has started was not merely probed.
        exact absurd ((probed_mk.mp probed).1 (by simp [kind, Kind.isRunning])) (by simp [kind, Kind.isSelector])
    | @abandoned context admitted during after index child asked activated admission kind selected evaluated =>
      have kept := each child (List.mem_of_getElem? selected) during
      rw [evaluated] at kept
      have holds := sound.admitted admission
      exact .of_still (.of_set { admitted with kind := .sequence none } rfl holds rfl
        (clear_still kept.settled after)
        fun position other found different => sound.still_of_sequence below kind found different)
    | selector activated admission kind scan =>
      exact .selector sound below kind (NodeState.pass_context admission) scan each

theorem keeps_evaluate {node : Node A P} (steady : node.Steady) (world : W) :
    Keeps False node (node.evaluate world).1 (node.evaluate world).2.1 := evaluate_settled (settled_false.mpr steady) world

theorem Scans.steady {scanned : List (Node A P)} {world after : W} {winner : Option Nat}
    (scan : Scans children world winner scanned after) (below : ∀ child ∈ children, child.Steady) :
    ∀ asked ∈ scanned, asked.Steady :=
  scan.forall_mem below fun child member world => (keeps_evaluate (below child member) world).steady

end Node

end BehaviorTree
