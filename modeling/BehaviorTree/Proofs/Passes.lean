import Mathlib.Algebra.GroupWithZero.Nat
import BehaviorTree.Proofs.Driving
import BehaviorTree.Proofs.SequenceNesting

/-! The passes of a sequence. A pass begins with the first use, and again when the one before is completed or cut
short. In a pass the children have their turns in order, from the first child on, and each keeps its turn until it
ends, whatever the children do and whatever is asked in between. -/

set_option autoImplicit false

namespace BehaviorTree

variable {W A P : Type}

/-- What a use of a sequence is in the pass it falls into: a tick, with the child whose turn it is and the answers of
that child and of the sequence, or what cuts the pass short. -/
inductive Turn where
  | tick (index : Nat) (answer result : Progress)
  | cut
  deriving Repr, DecidableEq

namespace Turn

def closes : Turn → Bool
  | .tick _ _ result => result == .ended
  | .cut => true

/-- The ticks of a child that answers some of them with running before it ends. -/
def stint (index wait : Nat) (result : Progress) : List Turn :=
  List.replicate wait (.tick index .running .running) ++ [.tick index .ended result]

/-- A stint of each child from a position on. The sequence ends with the last of them. -/
def round : Nat → List Nat → List Turn
  | _, [] => []
  | index, [wait] => stint index wait .ended
  | index, wait :: next :: rest => stint index wait .running ++ round (index + 1) (next :: rest)

theorem stint_succ (index wait : Nat) (result : Progress) :
    stint index (wait + 1) result = .tick index .running .running :: stint index wait result := by
  rw [stint, List.replicate_succ, List.cons_append, stint]

theorem round_succ (index wait : Nat) (rest : List Nat) :
    round index ((wait + 1) :: rest) = .tick index .running .running :: round index (wait :: rest) := by
  cases rest with
  | nil => exact stint_succ index wait .ended
  | cons next rest => simp only [round, stint_succ, List.cons_append]

theorem length_round (index : Nat) (waits : List Nat) :
    (round index waits).length = (waits.map (· + 1)).sum := by
  induction waits generalizing index with
  | nil => rfl
  | cons wait rest ih =>
    cases rest with
    | nil => simp [round, stint]
    | cons next rest =>
      rw [round, List.length_append, ih (index + 1), List.map_cons, List.sum_cons]
      simp [stint]

end Turn

/-- Turns of a sequence with so many children, from the position of the child whose turn it is before them to that
of the child whose turn it is after them. -/
inductive Passes (count : Nat) : Nat → List Turn → Nat → Prop where
  | done {next : Nat} : Passes count next [] next
  | stay {next last : Nat} {rest : List Turn} : Passes count next rest last →
      Passes count next (.tick next .running .running :: rest) last
  | advance {next last : Nat} {rest : List Turn} : next + 1 < count → Passes count (next + 1) rest last →
      Passes count next (.tick next .ended .running :: rest) last
  | complete {next last : Nat} {rest : List Turn} : next + 1 = count → Passes count 0 rest last →
      Passes count next (.tick next .ended .ended :: rest) last
  | cut {next last : Nat} {rest : List Turn} : Passes count 0 rest last → Passes count next (.cut :: rest) last

namespace Passes

variable {count first middle last : Nat} {front rear turns : List Turn} {final : Turn}

theorem append (before : Passes count first front middle) (after : Passes count middle rear last) :
    Passes count first (front ++ rear) last := by
  induction before with
  | done => exact after
  | stay _ ih => exact .stay (ih after)
  | advance more _ ih => exact .advance more (ih after)
  | complete all _ ih => exact .complete all (ih after)
  | cut _ ih => exact .cut (ih after)

theorem split (passes : Passes count first (front ++ rear) last) :
    ∃ middle, Passes count first front middle ∧ Passes count middle rear last := by
  induction front generalizing first with
  | nil => exact ⟨first, .done, passes⟩
  | cons turn front ih =>
    cases passes with
    | stay passes =>
      obtain ⟨middle, before, after⟩ := ih passes
      exact ⟨middle, .stay before, after⟩
    | advance more passes =>
      obtain ⟨middle, before, after⟩ := ih passes
      exact ⟨middle, .advance more before, after⟩
    | complete all passes =>
      obtain ⟨middle, before, after⟩ := ih passes
      exact ⟨middle, .complete all before, after⟩
    | cut passes =>
      obtain ⟨middle, before, after⟩ := ih passes
      exact ⟨middle, .cut before, after⟩

theorem next_of_closes (passes : Passes count first [final] last) (closes : final.closes = true) : last = 0 := by
  cases passes with
  | stay => cases closes
  | advance => cases closes
  | complete _ passes => cases passes; rfl
  | cut passes => cases passes; rfl

theorem next_of_getLast? (passes : Passes count 0 turns last)
    (closes : ∀ turn ∈ turns.getLast?, turn.closes = true) : last = 0 := by
  rcases List.eq_nil_or_concat turns with rfl | ⟨front, final, rfl⟩
  · cases passes; rfl
  · rw [List.concat_eq_append] at passes closes
    obtain ⟨middle, _, after⟩ := passes.split
    exact after.next_of_closes (closes final (by simp))

/-- A pass that is not cut short is a stint of every child that was left when it began. -/
theorem eq_round (passes : Passes count first (turns ++ [final]) last)
    (opened : ∀ turn ∈ turns, turn.closes = false) (closes : final.closes = true) :
    final = .cut ∨ ∃ waits, first + waits.length = count ∧ turns ++ [final] = Turn.round first waits := by
  -- Each turn but the last adds to the stint of the child whose turn it is, or ends it.
  induction turns generalizing first with
  | nil =>
    cases passes with
    | stay => cases closes
    | advance => cases closes
    | complete all => exact .inr ⟨[0], all, rfl⟩
    | cut => exact .inl rfl
  | cons turn turns ih =>
    have rest (next : Nat) (passes : Passes count next (turns ++ [final]) last) :=
      ih passes fun turn member => opened turn (List.mem_cons_of_mem _ member)
    have now := opened turn List.mem_cons_self
    cases passes with
    | stay passes =>
      rcases rest _ passes with cut | ⟨_ | ⟨wait, waits⟩, length, equal⟩
      · exact .inl cut
      · cases List.append_ne_nil_of_right_ne_nil turns (List.cons_ne_nil final []) equal
      · refine .inr ⟨(wait + 1) :: waits, length, ?_⟩
        rw [Turn.round_succ, ← equal, List.cons_append]
    | advance more passes =>
      rcases rest _ passes with cut | ⟨_ | ⟨wait, waits⟩, length, equal⟩
      · exact .inl cut
      · cases List.append_ne_nil_of_right_ne_nil turns (List.cons_ne_nil final []) equal
      · refine .inr ⟨0 :: wait :: waits, ?_, ?_⟩
        · rw [List.length_cons]; omega
        · rw [Turn.round, ← equal]; rfl
    | complete => cases now
    | cut => cases now

end Passes

variable [Host W] [Action W A]

namespace Node

def tickThrough (node : Node A P) (world : W) : Node A P × W :=
  match node.tick world with
  | (.running, ticked, after) => (ticked, after)
  | (.ended, ticked, after) => ticked.clear after

/-- A tick of the node ticks the child at the position, clears it if it ended, and does nothing else to a child or to
the environment. -/
def TicksOnly (node : Node A P) (world : W) (index : Nat) : Prop :=
  ∃ child, node.children[index]? = some child ∧
    (node.tick world).2.1.children = node.children.set index (child.tickThrough world).1 ∧
    (node.tick world).2.2 = (child.tickThrough world).2

variable [Probe W P]

/-- The node is activated, and its cooldown and gate let an evaluation through. -/
def passes (node : Node A P) (world : W) : Bool :=
  node.state.context.any fun context => (node.state.pass context world).1

def turn (node : Node A P) (world : W) : Use W → Option Turn
  | .tick => node.children[node.activeChild.getD 0]?.map fun child =>
      .tick (node.activeChild.getD 0) (child.tick world).1 (node.tick world).1
  | .evaluate =>
    if node.activeChild.isSome ∧ node.passes world ∧ (node.evaluate world).1 = false then some .cut else none
  | .clear => some .cut
  | .activate _ => none
  | .change _ => none

def turns (node : Node A P) (world : W) : List (Use W) → List Turn
  | [] => []
  | first :: rest =>
    let (after, later) := node.use world first
    (node.turn world first).toList ++ after.turns later rest

/-- An activated sequence with so many children, of which the one at the position is next. -/
structure AtTurn (count next : Nat) (node : Node A P) : Prop where
  activated : ∃ context, node.state.context = some context
  kind : ∃ active, node.state.kind = .sequence active ∧ active.getD 0 = next
  length : node.children.length = count
  bound : next < count

namespace AtTurn

variable {count next : Nat} {node : Node A P} {state : NodeState A P} {children : List (Node A P)}

omit [Host W] [Action W A] [Probe W P] in
theorem selected (atTurn : AtTurn count next (.mk state children)) : ∃ context active child,
    state.context = some context ∧ state.kind = .sequence active ∧ active.getD 0 = next ∧
      children[active.getD 0]? = some child := by
  obtain ⟨⟨context, activated⟩, ⟨active, kind, here⟩, length, bound⟩ := atTurn
  have present : active.getD 0 < children.length := by rw [here]; exact lt_of_lt_of_eq bound length.symm
  exact ⟨context, active, _, activated, kind, here, List.getElem?_eq_getElem present⟩

omit [Probe W P] in
theorem ticksOnly (atTurn : AtTurn count next node) (world : W) : node.TicksOnly world next := by
  obtain ⟨state, children⟩ := node
  obtain ⟨context, active, child, activated, kind, rfl, selected⟩ := atTurn.selected
  refine ⟨child, selected, ?_⟩
  rw [tick_sequence kind selected activated, tickThrough]
  rcases child.tick world with ⟨_ | _, ticked, after⟩
  · exact ⟨rfl, rfl⟩
  · dsimp only
    split
    · exact ⟨rfl, rfl⟩
    · exact ⟨rfl, rfl⟩

omit [Host W] [Action W A] [Probe W P] in
theorem pos (atTurn : AtTurn count next node) : (none : Option Nat).getD 0 < count :=
  Nat.zero_lt_of_lt atTurn.bound

omit [Host W] [Action W A] [Probe W P] in
theorem go {others : List (Node A P)} {after : NodeState A P} (atTurn : AtTurn count next (.mk state children))
    (active : Option Nat) (kind : after.kind = .sequence active) (held : after.context = state.context)
    (length : others.length = children.length) (bound : active.getD 0 < count) :
    AtTurn count (active.getD 0) (.mk after others) where
  activated := by
    obtain ⟨context, activated⟩ := atTurn.activated
    exact ⟨context, held.trans activated⟩
  kind := ⟨active, kind, rfl⟩
  length := length.trans atTurn.length
  bound := bound

theorem tick (atTurn : AtTurn count next node) (world : W) : ∃ after,
    Passes count next (node.turn world .tick).toList after ∧ AtTurn count after (node.tick world).2.1 := by
  obtain ⟨state, children⟩ := node
  obtain ⟨context, active, child, activated, kind, rfl, selected⟩ := atTurn.selected
  have bound := atTurn.bound
  have turned : Node.turn (.mk state children) world .tick =
      some (.tick (active.getD 0) (child.tick world).1 (Node.tick (.mk state children) world).1) := by
    simp only [turn, activeChild, Node.state, kind, Kind.activeChild, Node.children, selected, Option.map_some]
  rw [turned, tick_sequence kind selected activated]
  rcases child.tick world with ⟨_ | _, ticked, after⟩
  · exact ⟨_, .stay .done, atTurn.go (some _) rfl rfl List.length_set bound⟩
  · dsimp only
    rw [show children.length = count from atTurn.length]
    split
    · next more => exact ⟨_, .advance more .done, atTurn.go (some _) rfl rfl List.length_set more⟩
    · next all =>
      have last : active.getD 0 + 1 = count := by omega
      exact ⟨_, .complete last .done, atTurn.go none rfl rfl List.length_set atTurn.pos⟩

theorem evaluate (atTurn : AtTurn count next node) (world : W) : ∃ after,
    Passes count next (node.turn world .evaluate).toList after ∧ AtTurn count after (node.evaluate world).2.1 := by
  obtain ⟨state, children⟩ := node
  obtain ⟨context, active, child, activated, kind, rfl, selected⟩ := atTurn.selected
  have bound := atTurn.bound
  have turned : Node.turn (.mk state children) world .evaluate =
      if active.isSome ∧ (state.pass context world).1 ∧ (Node.evaluate (.mk state children) world).1 = false
        then some .cut else none := by
    simp only [turn, passes, activeChild, Node.state, kind, Kind.activeChild, activated, Option.any_some]
  rw [turned, evaluate_sequence kind selected activated]
  rcases admission : state.pass context world with ⟨_ | _, admitted, during⟩
  · have kept := (NodeState.pass_kind admission).trans kind
    refine ⟨_, ?_, atTurn.go active kept (NodeState.pass_context admission) rfl bound⟩
    simpa using .done
  · have kept := (NodeState.pass_kind admission).trans kind
    have held := NodeState.pass_context admission
    rcases asking : child.evaluate during with ⟨_ | _, asked, after⟩
    · cases active with
      -- A sequence that has not started has no pass to cut short.
      | none =>
        simp only [asking]
        exact ⟨_, .done, atTurn.go none kept held List.length_set bound⟩
      | some index =>
        simp only [asking]
        exact ⟨_, .cut .done, atTurn.go none rfl held List.length_set atTurn.pos⟩
    · simp only [asking]
      refine ⟨_, ?_, atTurn.go active kept held List.length_set bound⟩
      simpa using .done

omit [Probe W P] in
theorem clear (atTurn : AtTurn count next node) (world : W) : ∃ after,
    Passes count next [.cut] after ∧ AtTurn count after (node.clear world).1 := by
  obtain ⟨state, children⟩ := node
  obtain ⟨context, active, child, activated, kind, rfl, selected⟩ := atTurn.selected
  have cleared : Node.clear (.mk state children) world =
      (.mk { state with kind := .sequence none } (clearAll children world).1, (clearAll children world).2) := by
    simp only [Node.clear, activated, kind]
  rw [cleared]
  exact ⟨_, .cut .done, atTurn.go none rfl rfl (length_clearAll children world) atTurn.pos⟩

theorem use (atTurn : AtTurn count next node) (world : W) (use : Use W) : ∃ after,
    Passes count next (node.turn world use).toList after ∧ AtTurn count after (node.use world use).1 := by
  cases use with
  | activate context =>
    obtain ⟨held, activated⟩ := atTurn.activated
    refine ⟨next, .done, ?_⟩
    rwa [Node.use, activate_of_active (by rw [isActivated, activated]; rfl)]
  | evaluate => exact atTurn.evaluate world
  | tick => exact atTurn.tick world
  | clear => exact atTurn.clear world
  | change outside => exact ⟨next, .done, atTurn⟩

theorem drive (atTurn : AtTurn count next node) (world : W) (uses : List (Use W)) : ∃ after,
    Passes count next (node.turns world uses) after ∧ AtTurn count after (node.drive world uses).1 := by
  induction uses generalizing next node world with
  | nil => exact ⟨next, .done, atTurn⟩
  | cons first rest ih =>
    obtain ⟨middle, now, kept⟩ := atTurn.use world first
    obtain ⟨after, later, reached⟩ := ih kept (node.use world first).2
    exact ⟨after, now.append later, reached⟩

end AtTurn

/-- A sequence neither skips, nor repeats, nor reorders its children. In every run of an activated sequence each tick
ticks the one child whose turn it is, and clears it if it ended; every pass begins with the first child; a child has
its turn until it ends, then the next one has; and the sequence ends with its last child. So a pass that is not cut
short consists of a stint of every child, and takes the ticks of all of them together. -/
theorem drive_passes {state : NodeState A P} {children : List (Node A P)} {context : ContextId}
    (activated : state.context = some context) (idle : state.kind = .sequence none) (occupied : children ≠ [])
    (before : W) (uses : List (Use W)) :
    (∃ next, Passes children.length 0 ((mk state children).turns before uses) next) ∧
    (∀ node world, (mk state children).drive before uses = (node, world) →
      node.TicksOnly world (node.activeChild.getD 0)) ∧
    ∀ earlier pass final later, (mk state children).turns before uses = earlier ++ pass ++ final :: later →
      (∀ turn ∈ earlier.getLast?, turn.closes = true) → (∀ turn ∈ pass, turn.closes = false) → final.closes = true →
      Passes children.length 0 (pass ++ [final]) 0 ∧
      (final = .cut ∨ ∃ waits, waits.length = children.length ∧ pass ++ [final] = Turn.round 0 waits ∧
        pass.length + 1 = (waits.map (· + 1)).sum) := by
  have start : AtTurn children.length 0 (mk state children) :=
    ⟨⟨context, activated⟩, ⟨none, idle, rfl⟩, rfl, List.length_pos_iff.mpr occupied⟩
  obtain ⟨next, run, reached⟩ := start.drive before uses
  refine ⟨⟨next, run⟩, fun node world arrived => ?_, fun earlier pass final later cut closed opened closes => ?_⟩
  · rw [arrived] at reached
    obtain ⟨active, kind, rfl⟩ := reached.kind
    rw [Node.activeChild, kind]
    exact reached.ticksOnly world
  · rw [cut, List.append_assoc, List.append_cons] at run
    obtain ⟨first, earlierRun, rest⟩ := run.split
    -- What comes before the pass ends with a turn that closes one, so the pass begins with the first child.
    obtain rfl : first = 0 := earlierRun.next_of_getLast? closed
    obtain ⟨second, passRun, _⟩ := rest.split
    obtain ⟨_, _, lastRun⟩ := passRun.split
    obtain rfl : second = 0 := lastRun.next_of_closes closes
    refine ⟨passRun, ?_⟩
    rcases passRun.eq_round opened closes with short | ⟨waits, length, whole⟩
    · exact .inl short
    · refine .inr ⟨waits, (Nat.zero_add _).symm.trans length, whole, ?_⟩
      rw [← Turn.length_round 0, ← whole, List.length_append, List.length_singleton]

end Node

/-! An outing that is called off once, and then made. -/

def outing : NodeState Script.Performer Script.Sensor :=
  { (Node.fresh "outing" (.sequence none)).state with context := some 0 }

def outingSteps : List (Node Script.Performer Script.Sensor) :=
  (Node.activateAll [Node.fresh "out" (.action (.fresh (.planned ⟨"out", [], some 2, [], []⟩ .start))),
    Node.fresh "back" (.action (.fresh (.planned ⟨"back", [], none, [], []⟩ .start)))] 0 World.post).1

def outingUses : List (Use World) := [.evaluate, .tick, .clear, .tick, .evaluate, .tick, .tick]

namespace Node

/-- The second pass is a whole one, of three ticks. -/
theorem outing_passes : (mk outing outingSteps).turns World.post outingUses =
      [.tick 0 .running .running, .cut] ++ [.tick 0 .running .running, .tick 0 .ended .running] ++
        [.tick 1 .ended .ended] ∧
    ∃ waits, waits.length = 2 ∧ (waits.map (· + 1)).sum = 3 ∧
      [.tick 0 .running .running, .tick 0 .ended .running, .tick 1 .ended .ended] = Turn.round 0 waits := by
  have turned : (mk outing outingSteps).turns World.post outingUses =
      [.tick 0 .running .running, .cut] ++ [.tick 0 .running .running, .tick 0 .ended .running] ++
        [.tick 1 .ended .ended] := by decide +kernel
  obtain ⟨_, _, closed⟩ := drive_passes (show outing.context = some 0 from rfl) rfl
    (show outingSteps ≠ [] from List.cons_ne_nil _ _) World.post outingUses
  obtain ⟨_, short | ⟨waits, length, whole, ticks⟩⟩ := closed _ _ _ [] turned (by decide) (by decide) rfl
  · cases short
  · exact ⟨turned, waits, length, ticks.symm, whole⟩

end Node

end BehaviorTree
