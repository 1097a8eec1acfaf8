import Mathlib.Logic.Equiv.List
import BehaviorTree.Proofs.Contexts
import BehaviorTree.Proofs.Scanning

/-! A survey of an evaluation. Every node gets a number of its own in place of its context, and an environment that
answers for the one context writes down by these numbers whose clock is read, whose gate is asked, and which action is
checked, each with the environment in which that happens. The evaluation that is surveyed is the one that is made. -/

set_option autoImplicit false

namespace BehaviorTree

variable {W A P : Type}

/-- What an evaluation can inquire about at a node. -/
inductive Subject where
  | clock
  | gate
  | check
  deriving Repr, DecidableEq

structure Inquiry (W : Type) where
  number : ContextId
  subject : Subject
  world : W

namespace Inquiry

def topic (inquiry : Inquiry W) : ContextId × Subject := (inquiry.number, inquiry.subject)

end Inquiry

/-- An environment that answers for one context, whatever number it is asked by. -/
structure Survey (context : ContextId) (W : Type) where
  world : W
  record : List (Inquiry W)

namespace Survey

variable {context : ContextId}

def noted (survey : Survey context W) (number : ContextId) (subject : Subject) (after : W) : Survey context W :=
  ⟨after, survey.record ++ [⟨number, subject, survey.world⟩]⟩

instance [Host W] : Host (Survey context W) where
  now number survey :=
    let (time, world) := Host.now context survey.world
    (time, survey.noted number .clock world)
  flag _ key survey := Host.flag context key survey.world
  report held node report survey :=
    ⟨Host.report (held.map fun _ => context) node report survey.world, survey.record⟩
  visit visit survey := ⟨Host.visit visit survey.world, survey.record⟩
  fault survey := ⟨Host.fault survey.world, survey.record⟩

instance [Action W A] : Action (Survey context W) A where
  activate action _ survey :=
    let (action, world) := Action.activate action context survey.world
    (action, ⟨world, survey.record⟩)
  check action number survey :=
    let (answer, action, world) := Action.check action context survey.world
    (answer, action, survey.noted number .check world)
  enter action _ survey :=
    let (action, world) := Action.enter action context survey.world
    (action, ⟨world, survey.record⟩)
  execute action _ survey :=
    let (progress, action, world) := Action.execute action context survey.world
    (progress, action, ⟨world, survey.record⟩)
  exit action _ survey :=
    let (action, world) := Action.exit action context survey.world
    (action, ⟨world, survey.record⟩)

/-- A gate is asked as a whole. -/
instance [Host W] [Probe W P] : Probe (Survey context W) (Gate P) where
  activate gate _ survey :=
    let (gate, world) := gate.activate context survey.world
    (gate, ⟨world, survey.record⟩)
  check gate number survey :=
    let (answer, gate, world) := gate.check context survey.world
    (answer, gate, survey.noted number .gate world)

end Survey

/-! Numbers for positions. -/

def Position.number (position : Position) : ContextId := Encodable.encode position

theorem Position.number_inj {first second : Position} : first.number = second.number ↔ first = second :=
  Encodable.encode_inj

def NodeState.numbered (number : ContextId) (state : NodeState A P) : NodeState A (Gate P) :=
  { state with gate := state.gate.map Gate.atom, context := state.context.map fun _ => number }

theorem NodeState.kind_numbered (number : ContextId) (state : NodeState A P) :
    (state.numbered number).kind = state.kind := rfl

theorem NodeState.context_numbered {state : NodeState A P} {context : ContextId} (here : state.context = some context)
    (number : ContextId) : (state.numbered number).context = some number := by
  rw [numbered, here, Option.map_some]

namespace Node

mutual

def numberedAt (position : Position) : Node A P → Node A (Gate P)
  | .mk state children => .mk (state.numbered position.number) (numberedFrom position 0 children)

def numberedFrom (position : Position) : Nat → List (Node A P) → List (Node A (Gate P))
  | _, [] => []
  | index, node :: rest => numberedAt (position ++ [index]) node :: numberedFrom position (index + 1) rest

end

end Node

/-! What a record says. -/

/-- The record of the part of an evaluation that asks the nodes at these paths below a position, each in the
environment that goes with it. Nobody else is inquired about, and nobody twice about the same. -/
structure Records (asked : Position → W → Prop) (position : Position) (record : List (Inquiry W)) : Prop where
  clock_iff : ∀ path during, ⟨(position ++ path).number, .clock, during⟩ ∈ record ↔ asked path during
  known : ∀ inquiry ∈ record, ∃ path during, asked path during ∧ inquiry.number = (position ++ path).number
  once : (record.map Inquiry.topic).Nodup

namespace Records

variable {asked first second : Position → W → Prop} {position : Position} {record front rear : List (Inquiry W)}

theorem congr (records : Records first position record) (same : ∀ path during, first path during ↔ second path during) :
    Records second position record where
  clock_iff path during := (records.clock_iff path during).trans (same path during)
  known inquiry member := by
    obtain ⟨path, during, asks, number⟩ := records.known inquiry member
    exact ⟨path, during, (same path during).mp asks, number⟩
  once := records.once

theorem nil (nobody : ∀ path during, ¬ asked path during) : Records asked position [] where
  clock_iff path during := iff_of_false List.not_mem_nil (nobody path during)
  known := nofun
  once := List.nodup_nil

theorem append (before : Records first position front) (after : Records second position rear)
    (apart : ∀ path during later, first path during → ¬ second path later) :
    Records (fun path during => first path during ∨ second path during) position (front ++ rear) where
  clock_iff path during := by rw [List.mem_append, before.clock_iff, after.clock_iff]
  known inquiry member := by
    rcases List.mem_append.mp member with member | member
    · obtain ⟨path, during, asks, number⟩ := before.known inquiry member
      exact ⟨path, during, .inl asks, number⟩
    · obtain ⟨path, during, asks, number⟩ := after.known inquiry member
      exact ⟨path, during, .inr asks, number⟩
  once := by
    rw [List.map_append]
    refine before.once.append after.once fun topic one other => ?_
    obtain ⟨inquiry, member, rfl⟩ := List.mem_map.mp one
    obtain ⟨another, also, same⟩ := List.mem_map.mp other
    -- Two inquiries about one node would be at one path.
    obtain ⟨path, during, asks, number⟩ := before.known inquiry member
    obtain ⟨rest, later, asksToo, numberToo⟩ := after.known another also
    have numbers : (position ++ path).number = (position ++ rest).number := by
      rw [← number, ← numberToo]
      exact (congrArg Prod.fst same).symm
    obtain rfl := List.append_cancel_left (Position.number_inj.mp numbers)
    exact apart path during later asks asksToo

theorem descend {world : W} (opened : Records (fun path during => path = [] ∧ during = world) position front)
    (lower : Records second position rear) (nonempty : ∀ during, ¬ second [] during) :
    Records (fun path during => path = [] ∧ during = world ∨ second path during) position (front ++ rear) :=
  opened.append lower fun _ _ later asked => asked.1 ▸ nonempty later

theorem below {index : Nat} (records : Records asked (position ++ [index]) record) :
    Records (fun path during => ∃ rest, path = index :: rest ∧ asked rest during) position record where
  clock_iff path during := by
    constructor
    · intro member
      obtain ⟨rest, _, _, number⟩ := records.known _ member
      have same := Position.number_inj.mp number
      rw [List.append_assoc] at same
      obtain rfl := List.append_cancel_left same
      refine ⟨rest, rfl, (records.clock_iff rest during).mp ?_⟩
      rwa [List.append_assoc]
    · rintro ⟨rest, rfl, asks⟩
      have member := (records.clock_iff rest during).mpr asks
      rwa [List.append_assoc] at member
  known inquiry member := by
    obtain ⟨rest, during, asks, number⟩ := records.known inquiry member
    exact ⟨index :: rest, during, ⟨rest, rfl, asks⟩, by rw [number, List.append_assoc]; rfl⟩
  once := records.once

theorem here {world : W} (own : ∀ inquiry ∈ record, inquiry.number = position.number)
    (subjects : (Subject.clock :: record.map Inquiry.subject).Nodup) :
    Records (fun path during => path = [] ∧ during = world) position (⟨position.number, .clock, world⟩ :: record) where
  clock_iff path during := by
    constructor
    · intro member
      rcases List.mem_cons.mp member with same | member
      · obtain ⟨number, rfl⟩ : (position ++ path).number = position.number ∧ during = world := by simpa using same
        exact ⟨List.append_right_eq_self.mp (Position.number_inj.mp number), rfl⟩
      · exact absurd (List.mem_map_of_mem member) (List.nodup_cons.mp subjects).1
    · rintro ⟨rfl, rfl⟩
      rw [List.append_nil]
      exact List.mem_cons_self
  known inquiry member := by
    refine ⟨[], world, ⟨rfl, rfl⟩, ?_⟩
    rw [List.append_nil]
    rcases List.mem_cons.mp member with rfl | member
    · rfl
    · exact own inquiry member
  once := by
    have topics : (⟨position.number, .clock, world⟩ :: record).map Inquiry.topic =
        (Subject.clock :: record.map Inquiry.subject).map (Prod.mk position.number) := by
      rw [List.map_cons, List.map_cons, List.map_map]
      refine congrArg _ (List.map_congr_left fun inquiry member => ?_)
      rw [Inquiry.topic, own inquiry member]
      rfl
    rw [topics]
    exact subjects.map fun _ _ same => (Prod.ext_iff.mp same).2

end Records

namespace Node

theorem length_numberedFrom (position : Position) (start : Nat) (children : List (Node A P)) :
    (numberedFrom position start children).length = children.length := by
  induction children generalizing start with
  | nil => rfl
  | cons first rest ih => simp only [numberedFrom, List.length_cons, ih]

theorem isEmpty_numberedFrom (position : Position) (start : Nat) (children : List (Node A P)) :
    (numberedFrom position start children).isEmpty = children.isEmpty := by
  cases children <;> rfl

end Node

variable [Host W] [Action W A] {context : ContextId} {children : List (Node A P)}

namespace Node

/-! Clearing inquires about nothing. -/

def ClearsNumbered (W : Type) [Host W] [Action W A] (context : ContextId) (node : Node A P) : Prop :=
  ∀ (position : Position) (survey : Survey context W), (node.numberedAt position).clear survey =
    ((node.clear survey.world).1.numberedAt position, ⟨(node.clear survey.world).2, survey.record⟩)

section Each
variable (each : ∀ child ∈ children, child.ClearsNumbered W context)
include each

theorem clearAll_numbered (position : Position) (start : Nat) (survey : Survey context W) :
    Node.clearAll (numberedFrom position start children) survey =
      (numberedFrom position start (Node.clearAll children survey.world).1,
        ⟨(Node.clearAll children survey.world).2, survey.record⟩) := by
  induction children generalizing start survey with
  | nil => rfl
  | cons first rest ih =>
    simp only [numberedFrom, Node.clearAll, each first List.mem_cons_self _ survey,
      ih fun child member => each child (List.mem_cons_of_mem _ member)]

theorem clearAt_numbered (position : Position) (start index : Nat) (survey : Survey context W) :
    Node.clearAt index (numberedFrom position start children) survey =
      (numberedFrom position start (Node.clearAt index children survey.world).1,
        ⟨(Node.clearAt index children survey.world).2, survey.record⟩) := by
  induction children generalizing start index survey with
  | nil => rfl
  | cons first rest ih =>
    cases index with
    | zero => simp only [numberedFrom, Node.clearAt, each first List.mem_cons_self _ survey]
    | succ index =>
      simp only [numberedFrom, Node.clearAt, ih fun child member => each child (List.mem_cons_of_mem _ member)]

end Each

theorem clear_numbered {node : Node A P} (holds : node.Holds context) : node.ClearsNumbered W context := by
  induction node with
  | mk state children ih =>
    intro position survey
    obtain ⟨here, below⟩ := holds_mk.mp holds
    have each := fun child member => ih child member (below child member)
    obtain ⟨name, kind, gate, cooldown, lastPass, held⟩ := state
    obtain rfl : held = some context := here
    unfold numberedAt Node.clear NodeState.numbered
    cases kind with
    | action lifecycle => rcases lifecycle with ⟨action, _ | _⟩ <;> rfl
    | sequence active => simp only [Option.map_some, clearAll_numbered each]
    | selector active =>
      cases active with
      | none => rfl
      | some index => simp only [Option.map_some, clearAt_numbered each]
    | inert => rfl
    | relay most least =>
      simp only [Option.map_some, clearAll_numbered each]
      rfl

theorem switchTo_numbered (holds : ∀ child ∈ children, child.Holds context) (winner previous : Option Nat)
    (position : Position) (survey : Survey context W) :
    Node.switchTo winner previous (numberedFrom position 0 children) survey =
      (numberedFrom position 0 (Node.switchTo winner previous children survey.world).1,
        ⟨(Node.switchTo winner previous children survey.world).2, survey.record⟩) := by
  unfold Node.switchTo
  cases previous with
  | none => rfl
  | some index =>
    by_cases same : winner = some index
    · simp only [same, if_true]
    · simp only [same, if_false]
      exact clearAt_numbered (fun child member => clear_numbered (holds child member)) position 0 index survey

end Node

/-! Neither does ticking. -/

theorem Lifecycle.tick_numbered (lifecycle : Lifecycle A) (name : String) (number : ContextId)
    (survey : Survey context W) : lifecycle.tick name number survey =
      ((lifecycle.tick name context survey.world).1, (lifecycle.tick name context survey.world).2.1,
        ⟨(lifecycle.tick name context survey.world).2.2, survey.record⟩) := by
  have starts : lifecycle.start name number survey =
      ((lifecycle.start name context survey.world).1,
        ⟨(lifecycle.start name context survey.world).2, survey.record⟩) := by
    rcases lifecycle with ⟨action, _ | _⟩ <;> rfl
  simp only [Lifecycle.tick, starts]
  rcases lifecycle.start name context survey.world with ⟨started, during⟩
  have executes : Action.execute started.action number (⟨during, survey.record⟩ : Survey context W) =
      ((Action.execute started.action context during).1, (Action.execute started.action context during).2.1,
        ⟨(Action.execute started.action context during).2.2, survey.record⟩) := rfl
  simp only [executes]
  rcases Action.execute started.action context during with ⟨_ | _, executed, after⟩ <;> rfl

namespace Node

def TicksNumbered (W : Type) [Host W] [Action W A] (context : ContextId) (node : Node A P) : Prop :=
  ∀ (position : Position) (survey : Survey context W), (node.numberedAt position).tick survey =
    ((node.tick survey.world).1, (node.tick survey.world).2.1.numberedAt position,
      ⟨(node.tick survey.world).2.2, survey.record⟩)

theorem tickAt_numbered (each : ∀ child ∈ children, child.TicksNumbered W context) (position : Position)
    (start index : Nat) (survey : Survey context W) :
    Node.tickAt index (numberedFrom position start children) survey =
      ((Node.tickAt index children survey.world).1,
        numberedFrom position start (Node.tickAt index children survey.world).2.1,
        ⟨(Node.tickAt index children survey.world).2.2, survey.record⟩) := by
  induction children generalizing start index survey with
  | nil => rfl
  | cons first rest ih =>
    cases index with
    | zero => simp only [numberedFrom, Node.tickAt, each first List.mem_cons_self _ survey]
    | succ index =>
      simp only [numberedFrom, Node.tickAt, ih fun child member => each child (List.mem_cons_of_mem _ member)]

theorem tick_numbered {node : Node A P} (steady : node.Steady) (holds : node.Holds context) :
    node.TicksNumbered W context := by
  induction node with
  | mk state children ih =>
    intro position survey
    obtain ⟨sound, steadies⟩ := steady_mk.mp steady
    obtain ⟨here, below⟩ := holds_mk.mp holds
    have each := fun child member => ih child member (steadies child member) (below child member)
    -- A child may be cleared in the call in which it was ticked.
    have ticked (index : Nat) : ∀ child ∈ (Node.tickAt index children survey.world).2.1,
        child.ClearsNumbered W context := fun child member =>
      clear_numbered (holds_tickAt below index survey.world child member)
    have core := sound.core
    have activated := NodeState.context_numbered here position.number
    unfold numberedAt Node.tick
    rw [here, activated]
    simp only [NodeState.kind_numbered, isEmpty_numberedFrom]
    cases kind : state.kind with
    | action lifecycle =>
      simp only [Lifecycle.tick_numbered]
      rfl
    | sequence active =>
      by_cases empty : children.isEmpty = true
      · simp only [empty, if_true]
        rfl
      · simp only [empty, Bool.false_eq_true, if_false, tickAt_numbered each]
        have cleared := ticked (active.getD 0)
        generalize Node.tickAt (active.getD 0) children survey.world = result at cleared ⊢
        rcases result with ⟨_ | _, after, later⟩
        · rfl
        · simp only [clearAt_numbered cleared, length_numberedFrom]
          split <;> rfl
    | selector active =>
      cases active with
      | none =>
        simp only
        split <;> rfl
      | some index =>
        have cleared := ticked index
        simp only [tickAt_numbered each]
        generalize Node.tickAt index children survey.world = result at cleared ⊢
        rcases result with ⟨_ | _, after, later⟩
        · rfl
        · simp only [clearAt_numbered cleared]
          rfl
    | inert => rfl
    | relay most least => simp [isCore, kind] at core

end Node

/-! Evaluation inquires about the nodes that it asks. -/

variable [Probe W P]

omit [Action W A] in
theorem NodeState.pass_numbered (state : NodeState A P) (position : Position) (survey : Survey context W) :
    ∃ record, (state.numbered position.number).pass position.number survey =
        ((state.pass context survey.world).1, (state.pass context survey.world).2.1.numbered position.number,
          ⟨(state.pass context survey.world).2.2, survey.record ++ record⟩) ∧
      Records (fun path during => path = [] ∧ during = survey.world) position record ∧
      ∀ later : W, Records (fun path during => path = [] ∧ during = survey.world) position
        (record ++ [⟨position.number, .check, later⟩]) := by
  obtain ⟨name, kind, gate, cooldown, lastPass, held⟩ := state
  unfold numbered pass
  rcases reading : Host.now context survey.world with ⟨time, during⟩
  have reads : Host.now position.number survey = (time, survey.noted position.number .clock during) := by
    simp only [Host.now, reading]
  simp only [reads]
  split
  · cases gate with
    | none => exact ⟨_, rfl, .here (by simp) (by simp), fun later => .here (by simp) (by simp)⟩
    | some gate =>
      refine ⟨[⟨position.number, .clock, survey.world⟩, ⟨position.number, .gate, during⟩], ?_,
        .here (by simp) (by simp), fun later => .here (by simp) (by simp)⟩
      simp only [Option.map_some, passGate, Gate.check, Probe.check, Survey.noted, List.append_assoc]
      rfl
  · exact ⟨_, rfl, .here (by simp) (by simp), fun later => .here (by simp) (by simp)⟩

omit [Host W] [Probe W P] in
theorem Lifecycle.check_numbered (lifecycle : Lifecycle A) (number : ContextId) (survey : Survey context W) :
    lifecycle.check number survey =
      ((lifecycle.check context survey.world).1, (lifecycle.check context survey.world).2.1,
        survey.noted number .check (lifecycle.check context survey.world).2.2) := rfl

namespace Node

/-- The paths down one child of a list, counted from a start, that an evaluation of it asks. -/
def AskedAt (start index : Nat) (children : List (Node A P)) (world : W) (path : Position) (during : W) : Prop :=
  ∃ child rest, path = (start + index) :: rest ∧ children[index]? = some child ∧ child.asks? rest world = some during

/-- The paths that a scan asks: those down the children that it comes to. -/
def AskedFirst (start : Nat) (children : List (Node A P)) (world : W) (path : Position) (during : W) : Prop :=
  ∃ index child before rest, path = (start + index) :: rest ∧ ComesTo children world index child before ∧
    child.asks? rest before = some during

section First
variable {first asked : Node A P} {rest : List (Node A P)} {start : Nat} {world during later : W} {path : Position}

theorem askedFirst_refused (evaluated : first.evaluate world = (false, asked, during)) :
    AskedFirst start (first :: rest) world path later ↔
      (∃ below, path = start :: below ∧ first.asks? below world = some later) ∨
        AskedFirst (start + 1) rest during path later := by
  constructor
  · rintro ⟨_ | index, child, before, below, rfl, come, asks⟩
    · obtain ⟨rfl, rfl⟩ := comesTo_zero.mp come
      exact .inl ⟨below, rfl, asks⟩
    · obtain ⟨_, _, same, come⟩ := comesTo_succ.mp come
      cases evaluated.symm.trans same
      refine .inr ⟨index, child, before, below, ?_, come, asks⟩
      rw [Nat.add_assoc, Nat.add_comm 1]
  · rintro (⟨below, rfl, asks⟩ | ⟨index, child, before, below, rfl, come, asks⟩)
    · exact ⟨0, first, world, below, rfl, comesTo_zero.mpr ⟨rfl, rfl⟩, asks⟩
    · refine ⟨index + 1, child, before, below, ?_, comesTo_succ.mpr ⟨asked, during, evaluated, come⟩, asks⟩
      rw [Nat.add_assoc, Nat.add_comm 1]

theorem askedFirst_agreed (evaluated : first.evaluate world = (true, asked, during)) :
    AskedFirst start (first :: rest) world path later ↔
      ∃ below, path = start :: below ∧ first.asks? below world = some later := by
  constructor
  · rintro ⟨_ | index, child, before, below, rfl, come, asks⟩
    · obtain ⟨rfl, rfl⟩ := comesTo_zero.mp come
      exact ⟨below, rfl, asks⟩
    · obtain ⟨_, _, same, _⟩ := comesTo_succ.mp come
      cases evaluated.symm.trans same
  · rintro ⟨below, rfl, asks⟩
    exact ⟨0, first, world, below, rfl, comesTo_zero.mpr ⟨rfl, rfl⟩, asks⟩

end First

/-- The evaluation is the same with the numbers, and the record says whom it asks. -/
def EvaluatesNumbered (node : Node A P) (position : Position) (survey : Survey context W) : Prop :=
  ∃ record, (node.numberedAt position).evaluate survey =
      ((node.evaluate survey.world).1, (node.evaluate survey.world).2.1.numberedAt position,
        ⟨(node.evaluate survey.world).2.2, survey.record ++ record⟩) ∧
    Records (fun path during => node.asks? path survey.world = some during) position record

section Each
variable (each : ∀ child ∈ children, ∀ (position : Position) (survey : Survey context W),
  child.EvaluatesNumbered position survey)
include each

theorem evaluateAt_numbered (position : Position) (start index : Nat) (survey : Survey context W) : ∃ record,
    Node.evaluateAt index (numberedFrom position start children) survey =
      ((Node.evaluateAt index children survey.world).1,
        numberedFrom position start (Node.evaluateAt index children survey.world).2.1,
        ⟨(Node.evaluateAt index children survey.world).2.2, survey.record ++ record⟩) ∧
    Records (AskedAt start index children survey.world) position record := by
  induction children generalizing start index survey with
  | nil =>
    refine ⟨[], by rw [List.append_nil]; rfl, .nil ?_⟩
    rintro path during ⟨child, rest, _, selected, _⟩
    cases selected
  | cons first rest ih =>
    cases index with
    | zero =>
      obtain ⟨record, asked, records⟩ := each first List.mem_cons_self (position ++ [start]) survey
      refine ⟨record, by simp only [numberedFrom, Node.evaluateAt, asked], records.below.congr fun path during => ?_⟩
      simp [AskedAt]
    | succ index =>
      obtain ⟨record, asked, records⟩ := ih (fun child member => each child (List.mem_cons_of_mem _ member)) (start + 1)
        index survey
      refine ⟨record, by simp only [numberedFrom, Node.evaluateAt, asked], records.congr fun path during => ?_⟩
      simp [AskedAt, Nat.add_assoc, Nat.add_comm 1]

theorem evaluateFirst_numbered (position : Position) (start : Nat) (survey : Survey context W) : ∃ record,
    Node.evaluateFirst (numberedFrom position start children) survey =
      ((Node.evaluateFirst children survey.world).1,
        numberedFrom position start (Node.evaluateFirst children survey.world).2.1,
        ⟨(Node.evaluateFirst children survey.world).2.2, survey.record ++ record⟩) ∧
    Records (AskedFirst start children survey.world) position record := by
  induction children generalizing start survey with
  | nil =>
    refine ⟨[], by rw [List.append_nil]; rfl, .nil ?_⟩
    rintro path during ⟨index, child, before, rest, _, come, _⟩
    cases come.selected
  | cons first rest ih =>
    obtain ⟨front, asked, before⟩ := each first List.mem_cons_self (position ++ [start]) survey
    rcases evaluated : first.evaluate survey.world with ⟨_ | _, after, during⟩ <;> rw [evaluated] at asked
    · -- The first child refuses, and the rest is asked.
      obtain ⟨rear, scanned, later⟩ := ih (fun child member => each child (List.mem_cons_of_mem _ member)) (start + 1)
        ⟨during, survey.record ++ front⟩
      refine ⟨front ++ rear, ?_, (before.below.append later ?_).congr fun path last => ?_⟩
      · simp only [numberedFrom, Node.evaluateFirst, asked, scanned, evaluated, List.append_assoc]
      · rintro path _ last ⟨one, rfl, _⟩ ⟨index, child, between, two, same, _⟩
        simp only [List.cons.injEq] at same
        omega
      · exact (askedFirst_refused evaluated).symm
    · -- The first child agrees, and no other is asked.
      refine ⟨front, ?_, before.below.congr fun path last => (askedFirst_agreed evaluated).symm⟩
      simp only [numberedFrom, Node.evaluateFirst, asked, evaluated]

end Each

theorem not_askedAt_nil {start index : Nat} {world : W} (during : W) :
    ¬ AskedAt start index children world [] during := by
  rintro ⟨_, _, path, _⟩
  cases path

theorem not_askedFirst_nil {start : Nat} {world : W} (during : W) : ¬ AskedFirst start children world [] during := by
  rintro ⟨_, _, _, _, path, _⟩
  cases path

section Asked
variable {state admitted : NodeState A P} {world between : W}

theorem asks?_eq_some_of_leaf (nobody : ∀ index rest, (mk state children).asks? (index :: rest) world = none)
    (path : Position) (during : W) :
    (path = [] ∧ during = world) ↔ (mk state children).asks? path world = some during := by
  cases path with
  | nil => simp [asks?_nil, eq_comm (a := during)]
  | cons index rest => simp [nobody index rest]

theorem asks?_eq_some_of_sequence (activated : state.context = some context)
    (admission : state.pass context world = (true, admitted, between)) {active : Option Nat}
    (kind : state.kind = .sequence active) (path : Position) (during : W) :
    (path = [] ∧ during = world) ∨ AskedAt 0 (active.getD 0) children between path during ↔
      (mk state children).asks? path world = some during := by
  cases path with
  | nil => simp [asks?_nil, AskedAt, eq_comm (a := during)]
  | cons index rest =>
    rw [asks?_sequence activated admission kind]
    by_cases same : active.getD 0 = index
    · simp [AskedAt, same, Option.bind_eq_some_iff]
    · have other : index ≠ active.getD 0 := Ne.symm same
      simp [AskedAt, same, other]

theorem asks?_eq_some_of_selector (activated : state.context = some context)
    (admission : state.pass context world = (true, admitted, between)) {previous : Option Nat}
    (kind : state.kind = .selector previous) (path : Position) (during : W) :
    (path = [] ∧ during = world) ∨ AskedFirst 0 children between path during ↔
      (mk state children).asks? path world = some during := by
  cases path with
  | nil => simp [asks?_nil, AskedFirst, eq_comm (a := during)]
  | cons index rest => simp [asks?_selector_iff activated admission kind, AskedFirst]

end Asked

/-! What a node does that passes. -/

section Passed
variable {state admitted : NodeState A P} {position : Position} {survey : Survey context W} {during : W}
  {front : List (Inquiry W)} (here : state.context = some context)
  (admission : state.pass context survey.world = (true, admitted, during))
  (passed : (state.numbered position.number).pass position.number survey =
    (true, admitted.numbered position.number, ⟨during, survey.record ++ front⟩))
  (opened : Records (fun path during => path = [] ∧ during = survey.world) position front)
  (each : ∀ child ∈ children, ∀ (position : Position) (survey : Survey context W),
    child.EvaluatesNumbered position survey)
include here admission passed opened each

theorem evaluate_numbered_sequence (below : ∀ child ∈ children, child.Holds context) {active : Option Nat}
    (kind : state.kind = .sequence active) : (mk state children).EvaluatesNumbered position survey := by
  have activated := NodeState.context_numbered here position.number
  have kept := NodeState.pass_kind admission
  obtain ⟨rear, asking, later⟩ := evaluateAt_numbered each position 0 (active.getD 0)
    (⟨during, survey.record ++ front⟩ : Survey context W)
  dsimp only at asking later
  -- A sequence asks one child only, so the record goes down that child.
  have records := (opened.descend later not_askedAt_nil).congr (asks?_eq_some_of_sequence here admission kind)
  unfold EvaluatesNumbered numberedAt
  cases active with
  | none =>
    cases children with
    | nil =>
      refine ⟨front, ?_, opened.congr (asks?_eq_some_of_leaf fun index rest => ?_)⟩
      · simp only [numberedFrom, Node.evaluate, activated, passed, here, admission, NodeState.kind_numbered, kept, kind,
          Node.evaluateHead]
        rfl
      · rw [asks?_sequence here admission kind, List.getElem?_nil, Option.bind_none, ite_self]
    | cons first rest =>
      have head : Node.evaluateHead (numberedFrom position 0 (first :: rest))
          (⟨during, survey.record ++ front⟩ : Survey context W) = _ :=
        congrArg (fun result => (some result.1, result.2)) asking
      refine ⟨front ++ rear, ?_, records⟩
      rw [← List.append_assoc]
      simp only [Node.evaluate, activated, passed, here, admission, NodeState.kind_numbered, kept, kind, head]
      rfl
  | some index =>
    have held := holds_evaluateAt below index during
    refine ⟨front ++ rear, ?_, records⟩
    rw [← List.append_assoc]
    rw [Option.getD_some] at asking
    simp only [Node.evaluate, activated, passed, here, admission, NodeState.kind_numbered, kept, kind, asking]
    generalize Node.evaluateAt index children during = result at held ⊢
    rcases result with ⟨_ | _, after, last⟩
    · have clears := clearAt_numbered (fun child member => clear_numbered (held child member)) position 0 index
        (⟨last, survey.record ++ front ++ rear⟩ : Survey context W)
      simp only [clears]
      rfl
    · rfl

theorem evaluate_numbered_selector (below : ∀ child ∈ children, child.Holds context) {previous : Option Nat}
    (kind : state.kind = .selector previous) : (mk state children).EvaluatesNumbered position survey := by
  have activated := NodeState.context_numbered here position.number
  have kept := NodeState.pass_kind admission
  obtain ⟨rear, scanning, later⟩ := evaluateFirst_numbered each position 0
    (⟨during, survey.record ++ front⟩ : Survey context W)
  dsimp only at scanning later
  have records := (opened.descend later not_askedFirst_nil).congr (asks?_eq_some_of_selector here admission kind)
  unfold EvaluatesNumbered numberedAt
  by_cases empty : children.isEmpty = true
  · obtain rfl := List.isEmpty_iff.mp empty
    refine ⟨front, ?_, opened.congr (asks?_eq_some_of_leaf fun index rest => ?_)⟩
    · simp only [numberedFrom, Node.evaluate, activated, passed, here, admission, NodeState.kind_numbered, kept, kind,
        empty, if_true]
      rfl
    · simp [asks?_selector here admission kind, Node.evaluateFirst]
  · have held := holds_evaluateFirst below during
    have switched := switchTo_numbered held (Node.evaluateFirst children during).1 previous position
      (⟨(Node.evaluateFirst children during).2.2, survey.record ++ front ++ rear⟩ : Survey context W)
    refine ⟨front ++ rear, ?_, records⟩
    rw [← List.append_assoc]
    simp only [Node.evaluate, activated, passed, here, admission, NodeState.kind_numbered, kept, kind,
      isEmpty_numberedFrom, empty, Bool.false_eq_true, if_false, scanning, switched]
    rfl

end Passed

theorem evaluate_numbered {node : Node A P} (holds : node.Holds context) (position : Position)
    (survey : Survey context W) : node.EvaluatesNumbered position survey := by
  induction node generalizing position survey with
  | mk state children ih =>
    obtain ⟨here, below⟩ := holds_mk.mp holds
    have each := fun child member => ih child member (below child member)
    obtain ⟨front, passed, opened, checked⟩ := state.pass_numbered position survey
    have activated := NodeState.context_numbered here position.number
    rcases admission : state.pass context survey.world with ⟨_ | _, admitted, during⟩ <;> rw [admission] at passed
    · refine ⟨front, ?_, opened.congr (asks?_eq_some_of_leaf (asks?_refused here admission))⟩
      simp only [numberedAt, Node.evaluate, activated, passed, here, admission]
    have kept := NodeState.pass_kind admission
    cases kind : state.kind with
    | action lifecycle =>
      refine ⟨front ++ [⟨position.number, .check, during⟩], ?_, (checked during).congr ?_⟩
      · rw [← List.append_assoc]
        simp only [numberedAt, Node.evaluate, activated, passed, here, admission, NodeState.kind_numbered, kept, kind,
          Lifecycle.check_numbered]
        rfl
      · exact asks?_eq_some_of_leaf fun index rest => by simp only [asks?, here, admission, kind]
    | sequence active => exact evaluate_numbered_sequence here admission passed opened each below kind
    | selector previous => exact evaluate_numbered_selector here admission passed opened each below kind
    | inert =>
      refine ⟨front, ?_, opened.congr ?_⟩
      · simp only [numberedAt, Node.evaluate, activated, passed, here, admission, NodeState.kind_numbered, kept, kind]
      · exact asks?_eq_some_of_leaf fun index rest => by simp only [asks?, here, admission, kind]
    | relay most least =>
      refine ⟨front, ?_, opened.congr ?_⟩
      · simp only [numberedAt, Node.evaluate, activated, passed, here, admission, NodeState.kind_numbered, kept, kind,
          length_numberedFrom]
        rfl
      · exact asks?_eq_some_of_leaf fun index rest => by simp only [asks?, here, admission, kind]

end Node

end BehaviorTree
