import BehaviorTree.Proofs.Ledger
import Mathlib.Data.List.Forall2

/-! A composite in a composite, and the flat composite that has the children of the inner one in its
place. The flat composite acts on one child as long as the inner one acts on it in the other. Where
evaluating, ticking and clearing lead from such a pair to such a pair, all runs of the two agree. -/

set_option autoImplicit false

namespace BehaviorTree

variable {A P V W : Type}

/-- A composite with a composite among its children. -/
structure Nesting (A P : Type) where
  outer : NodeState A P
  inner : NodeState A P
  before : List (Node A P)
  within : List (Node A P)
  after : List (Node A P)

namespace Nesting

variable (nesting : Nesting A P)

def children : List (Node A P) := nesting.before ++ .mk nesting.inner nesting.within :: nesting.after

def nested : Node A P := .mk nesting.outer nesting.children

def flatChildren : List (Node A P) := nesting.before ++ (nesting.within ++ nesting.after)

/-- Where a child of the outer composite stands among all; it is not the inner composite. -/
def flatIndex (index : Nat) : Nat :=
  if index < nesting.before.length then index else index - 1 + nesting.within.length

/-- The active child among all, by the active children of both composites. -/
def flatActive (active inside : Option Nat) : Option Nat :=
  active.bind fun index =>
    if index = nesting.before.length then inside.map (nesting.before.length + ·) else some (nesting.flatIndex index)

/-- A sequence that has moved on to an idle one is about to start the first child of that. -/
def flatKind : Kind A :=
  match nesting.outer.kind with
  | .sequence active => .sequence (nesting.flatActive active (some (nesting.inner.kind.activeChild.getD 0)))
  | .selector active => .selector (nesting.flatActive active nesting.inner.kind.activeChild)
  | kind => kind

def flatState : NodeState A P := { nesting.outer with kind := nesting.flatKind }

def flat : Node A P := .mk nesting.flatState nesting.flatChildren

/-- Where a node of the outer composite's tree is in that of the flat one. The inner composite is nowhere. -/
def flatPosition : Position → Position
  | [] => []
  | index :: rest =>
    if index = nesting.before.length then
      match rest with
      | [] => []
      | inside :: below => (nesting.before.length + inside) :: below
    else nesting.flatIndex index :: rest

/-- The same number of children in the same places. -/
structure SameForm (one other : Nesting A P) : Prop where
  before : one.before.length = other.before.length
  within : one.within.length = other.within.length
  after : one.after.length = other.after.length

namespace SameForm

variable {one other third : Nesting A P}

theorem refl : SameForm one one := ⟨rfl, rfl, rfl⟩

theorem trans (first : one.SameForm other) (second : other.SameForm third) : one.SameForm third :=
  ⟨first.before.trans second.before, first.within.trans second.within, first.after.trans second.after⟩

theorem flatIndex (same : one.SameForm other) : one.flatIndex = other.flatIndex := by
  funext index
  rw [Nesting.flatIndex, Nesting.flatIndex, same.before, same.within]

theorem flatActive (same : one.SameForm other) : one.flatActive = other.flatActive := by
  funext active inside
  rw [Nesting.flatActive, Nesting.flatActive, same.before, same.flatIndex]

theorem flatPosition (same : one.SameForm other) : one.flatPosition = other.flatPosition := by
  funext position
  rw [Nesting.flatPosition.eq_def, Nesting.flatPosition.eq_def, same.before, same.flatIndex]

theorem occupied (same : one.SameForm other) (some : other.within ≠ []) : one.within ≠ [] :=
  List.ne_nil_of_length_pos (same.within ▸ List.length_pos_iff.mpr some)

end SameForm

/-! Another child in the place of one. -/

section Places

variable {nesting} {index : Nat} {child : Node A P} {active inside : Option Nat}

def replace (nesting : Nesting A P) (index : Nat) (child : Node A P) : Nesting A P :=
  if index < nesting.before.length then { nesting with before := nesting.before.set index child }
  else { nesting with after := nesting.after.set (index - (nesting.before.length + 1)) child }

theorem replace_inner : (nesting.replace index child).inner = nesting.inner := by
  rw [replace]
  split <;> rfl

theorem replace_within : (nesting.replace index child).within = nesting.within := by
  rw [replace]
  split <;> rfl

theorem sameForm_replace : (nesting.replace index child).SameForm nesting := by
  rw [replace]
  split <;> exact ⟨by simp, rfl, by simp⟩

theorem children_replace (outside : index ≠ nesting.before.length) :
    (nesting.replace index child).children = nesting.children.set index child := by
  rw [replace]
  split
  · next early => rw [children, children, List.set_append_left _ _ early]
  · next late =>
    have rest : index - nesting.before.length = index - (nesting.before.length + 1) + 1 := by omega
    rw [children, children, List.set_append_right _ _ (by omega), rest, List.set_cons_succ]

theorem flatChildren_replace (outside : index ≠ nesting.before.length) :
    (nesting.replace index child).flatChildren = nesting.flatChildren.set (nesting.flatIndex index) child := by
  rw [replace, flatIndex]
  split
  · next early => rw [flatChildren, flatChildren, List.set_append_left _ _ early]
  · next late =>
    have rest : index - 1 + nesting.within.length - nesting.before.length - nesting.within.length =
        index - (nesting.before.length + 1) := by omega
    rw [flatChildren, flatChildren, List.set_append_right _ _ (by omega), List.set_append_right _ _ (by omega), rest]

theorem getElem?_flatIndex (outside : index ≠ nesting.before.length) :
    nesting.flatChildren[nesting.flatIndex index]? = nesting.children[index]? := by
  rw [flatChildren, flatIndex, children]
  split
  · next early => rw [List.getElem?_append_left early, List.getElem?_append_left early]
  · next late =>
    have rest : index - nesting.before.length = index - (nesting.before.length + 1) + 1 := by omega
    rw [List.getElem?_append_right (by omega), List.getElem?_append_right (by omega),
      List.getElem?_append_right (by omega), rest, List.getElem?_cons_succ]
    congr 1
    omega

theorem getElem?_inner : nesting.children[nesting.before.length]? = some (.mk nesting.inner nesting.within) := by
  rw [children, List.getElem?_append_right (Nat.le_refl _), Nat.sub_self]
  rfl

theorem children_set_inner (inner : NodeState A P) (within : List (Node A P)) :
    nesting.children.set nesting.before.length (.mk inner within) = { nesting with inner, within }.children := by
  rw [children, List.set_append_right _ _ (Nat.le_refl _), Nat.sub_self]
  rfl

theorem steady_inner (steady : nesting.nested.Steady) : (Node.mk nesting.inner nesting.within).Steady :=
  (Node.steady_mk.mp steady).2 _ (List.mem_of_getElem? getElem?_inner)

theorem getElem?_within (bound : index < nesting.within.length) :
    nesting.flatChildren[nesting.before.length + index]? = nesting.within[index]? := by
  rw [flatChildren, List.getElem?_append_right (Nat.le_add_right _ _), Nat.add_sub_cancel_left,
    List.getElem?_append_left bound]

theorem flatChildren_set_within (bound : index < nesting.within.length) :
    { nesting with within := nesting.within.set index child }.flatChildren =
      nesting.flatChildren.set (nesting.before.length + index) child := by
  rw [flatChildren, flatChildren, List.set_append_right _ _ (Nat.le_add_right _ _), Nat.add_sub_cancel_left,
    List.set_append_left _ _ bound]

theorem sameForm_within {inner : NodeState A P} :
    SameForm { nesting with inner, within := nesting.within.set index child } nesting := ⟨rfl, List.length_set, rfl⟩

theorem length_children : nesting.children.length = nesting.before.length + (nesting.after.length + 1) := by
  rw [children, List.length_append, List.length_cons]

theorem length_flatChildren :
    nesting.flatChildren.length = nesting.before.length + (nesting.within.length + nesting.after.length) := by
  rw [flatChildren, List.length_append, List.length_append]

theorem flatActive_here : nesting.flatActive (some nesting.before.length) inside =
    inside.map (nesting.before.length + ·) := by simp [flatActive]

theorem flatActive_outside (outside : active ≠ some nesting.before.length) :
    nesting.flatActive active inside = active.map nesting.flatIndex := by
  cases active with
  | none => rfl
  | some index =>
    have other : index ≠ nesting.before.length := fun same => outside (congrArg some same)
    simp [flatActive, other]

end Places

/-! Labels. Both trees are labelled by the positions in the flat one. -/

def placed : Nesting (Tagged Position A) (Tagged Position P) where
  outer := nesting.outer.map (.mk []) (.mk [])
  inner := nesting.inner.map (.mk []) (.mk [])
  before := Node.placeFrom [] 0 nesting.before
  within := Node.placeFrom [] nesting.before.length nesting.within
  after := Node.placeFrom [] (nesting.before.length + nesting.within.length) nesting.after

end Nesting

theorem NodeState.relabel_mk {L M : Type} (state : NodeState A P) (name : L → M) (label : L) :
    (state.map (.mk label) (.mk label)).map (Tagged.relabel name) (Tagged.relabel name) =
      state.map (.mk (name label)) (.mk (name label)) := NodeState.map_map state

namespace Node

theorem length_placeFrom (position : Position) (start : Nat) (children : List (Node A P)) :
    (placeFrom position start children).length = children.length := by
  induction children generalizing start with
  | nil => rfl
  | cons first rest ih => rw [placeFrom, List.length_cons, List.length_cons, ih]

theorem placeFrom_ne_nil {position : Position} {start : Nat} {children : List (Node A P)} (occupied : children ≠ []) :
    placeFrom position start children ≠ [] :=
  List.ne_nil_of_length_pos ((length_placeFrom position start children).symm ▸ List.length_pos_iff.mpr occupied)

theorem placeFrom_append (position : Position) (start : Nat) (front rear : List (Node A P)) :
    placeFrom position start (front ++ rear) =
      placeFrom position start front ++ placeFrom position (start + front.length) rear := by
  induction front generalizing start with
  | nil => rfl
  | cons first rest ih =>
    rw [List.cons_append, placeFrom, placeFrom, ih, List.cons_append, List.length_cons, Nat.add_right_comm,
      Nat.add_assoc]

theorem relabel_children {name : Position → Position} {position moved : Position} {start other : Nat}
    {children : List (Node A P)}
    (each : ∀ (index : Nat) (child : Node A P), children[index]? = some child →
      (child.placeAt (position ++ [start + index])).exchange (Tagged.relabel name) (Tagged.relabel name) =
        child.placeAt (moved ++ [other + index])) :
    (placeFrom position start children).map (exchange (Tagged.relabel name) (Tagged.relabel name)) =
      placeFrom moved other children := by
  refine List.ext_getElem? fun index => ?_
  rw [List.getElem?_map, placeFrom_getElem?, placeFrom_getElem?, Option.map_map]
  cases found : children[index]? with
  | none => rfl
  | some child => exact congrArg some (each index child found)

theorem relabel_placeAt {name : Position → Position} (node : Node A P) {position moved : Position}
    (renamed : ∀ below, name (position ++ below) = moved ++ below) :
    (node.placeAt position).exchange (Tagged.relabel name) (Tagged.relabel name) = node.placeAt moved := by
  -- The induction is on the tree, for all places at once: each child is in a place of its own.
  induction node generalizing position moved with
  | mk state children ih =>
    have here : name position = moved := by simpa using renamed []
    have kept := state.relabel_mk name position
    rw [here] at kept
    have below : (placeFrom position 0 children).map (exchange (Tagged.relabel name) (Tagged.relabel name)) =
        placeFrom moved 0 children := relabel_children fun index child found => by
      refine ih child (List.mem_of_getElem? found) fun below => ?_
      rw [List.append_assoc, List.append_assoc, renamed]
    rw [placeAt, placeAt, exchange_mk, kept, below]

theorem relabel_placeFrom (name : Position → Position) (position moved : Position) (start other : Nat)
    (children : List (Node A P))
    (renamed : ∀ index below, index < children.length →
      name (position ++ (start + index) :: below) = moved ++ (other + index) :: below) :
    (placeFrom position start children).map (exchange (Tagged.relabel name) (Tagged.relabel name)) =
      placeFrom moved other children := relabel_children fun index child found => by
  refine child.relabel_placeAt fun below => ?_
  rw [List.append_assoc, List.append_assoc]
  exact renamed index below (List.getElem?_eq_some_iff.mp found).1

end Node

namespace Nesting

variable (nesting : Nesting A P)

theorem nested_placed : nesting.nested.placed.exchange (Tagged.relabel nesting.flatPosition)
    (Tagged.relabel nesting.flatPosition) = nesting.placed.nested := by
  have middle := nesting.inner.relabel_mk nesting.flatPosition [nesting.before.length]
  rw [show nesting.flatPosition [nesting.before.length] = [] by simp [flatPosition]] at middle
  have early := Node.relabel_placeFrom nesting.flatPosition [] [] 0 0 nesting.before fun index below bound => by
      simp [flatPosition, flatIndex, Nat.ne_of_lt bound, bound]
  have inside := Node.relabel_placeFrom nesting.flatPosition [nesting.before.length] [] 0 nesting.before.length
    nesting.within fun index below bound => by simp [flatPosition]
  -- The children after the inner composite make room for those in it.
  have late := Node.relabel_placeFrom nesting.flatPosition [] [] (nesting.before.length + 1)
    (nesting.before.length + nesting.within.length) nesting.after fun index below bound => by
      have passed : ¬ nesting.before.length + 1 + index < nesting.before.length := by omega
      have other : ¬ nesting.before.length + 1 + index = nesting.before.length := by omega
      simp only [List.nil_append, flatPosition, flatIndex, passed, other, if_false]
      congr 1
      omega
  simp only [Node.placed, nested, children, Node.placeAt, Node.placeFrom_append, Node.placeFrom, Node.exchange_mk,
    List.map_append, List.map_cons, Nat.zero_add, List.nil_append]
  rw [NodeState.relabel_mk, early, middle, inside, late]
  rfl

theorem flatKind_placed : nesting.placed.flatKind = nesting.flatKind.map (Tagged.mk []) := by
  have form : nesting.placed.flatActive = nesting.flatActive := by
    funext active inside
    simp only [flatActive, flatIndex, placed, Node.length_placeFrom]
  have held : nesting.placed.inner.kind.activeChild = nesting.inner.kind.activeChild := Kind.activeChild_map _
  simp only [flatKind, form, held]
  simp only [placed, NodeState.map]
  cases nesting.outer.kind <;> rfl

theorem flat_placed : nesting.flat.placed = nesting.placed.flat := by
  have kind := nesting.flatKind_placed
  simp only [Node.placed, flat, Node.placeAt, flatState, kind, flatChildren, Node.placeFrom_append, Nat.zero_add]
  rfl

end Nesting

section Activation

variable [Host W] [Action W A] [Probe W P]

theorem Node.activateAll_append (front rear : List (Node A P)) (context : ContextId) (world : W) :
    Node.activateAll (front ++ rear) context world =
      ((Node.activateAll front context world).1 ++
          (Node.activateAll rear context (Node.activateAll front context world).2).1,
        (Node.activateAll rear context (Node.activateAll front context world).2).2) := by
  induction front generalizing world with
  | nil => rfl
  | cons first rest ih => simp only [List.cons_append, Node.activateAll, ih]

theorem Node.activate_idle {state : NodeState A P} {children : List (Node A P)} (inactive : state.context = none)
    (idle : state.kind = .sequence none ∨ state.kind = .selector none) (context : ContextId) (world : W) :
    Node.activate (.mk state children) context world =
      (.mk { (state.activateGate context world).1 with context := some context }
          (Node.activateAll children context (state.activateGate context world).2).1,
        (Node.activateAll children context (state.activateGate context world).2).2) := by
  -- An idle composite has nothing to activate but its gate and its children.
  have kept := state.activateGate_kind context world
  rcases gated : state.activateGate context world with ⟨⟨name, kind, gate, cooldown, lastPass, held⟩, during⟩
  rw [gated] at kept
  rcases idle with idle | idle <;> obtain rfl := kept.trans idle <;>
    simp only [Node.activate, inactive, gated, Kind.activate]

namespace Nesting

structure Idle (nesting : Nesting A P) : Prop where
  kind : nesting.outer.kind = .sequence none ∨ nesting.outer.kind = .selector none
  same : nesting.inner.kind = nesting.outer.kind
  ungated : nesting.inner.gate = none

theorem flatKind_idle {nesting : Nesting A P}
    (kind : nesting.outer.kind = .sequence none ∨ nesting.outer.kind = .selector none) :
    nesting.flatKind = nesting.outer.kind := by
  rcases kind with kind | kind <;> simp [flatKind, kind, flatActive]

theorem start_agree {nesting : Nesting A P} (idle : nesting.Idle) (built : nesting.nested.Built)
    (context : ContextId) (world : W) : ∃ (started : Nesting A P) (after : W), started.SameForm nesting ∧
      (∃ gate context, started.outer = { nesting.outer with gate, context }) ∧
      (∃ context, started.inner = { nesting.inner with context }) ∧
      Tree.start nesting.nested context world = (⟨started.nested, context⟩, after) ∧
      Tree.start (.mk nesting.outer nesting.flatChildren) context world = (⟨started.flat, context⟩, after) := by
  -- Both trees are activated in the same order: an inner composite without a gate asks for nothing.
  obtain ⟨top, below⟩ := Node.built_mk.mp built
  have outside : nesting.outer.context = none := by simpa [Node.isActivated] using top.inactive
  have dormant : nesting.inner.context = none := by
    have untouched := (Node.built_mk.mp (below (.mk nesting.inner nesting.within) (by simp [children]))).1
    simpa [Node.isActivated] using untouched.inactive
  have gateless (during : W) : nesting.inner.activateGate context during = (nesting.inner, during) := by
    simp only [NodeState.activateGate, idle.ungated]
  have kept := nesting.outer.activateGate_kind context world
  -- The activation of a gate changes nothing but the gate.
  have same : ∃ gate, (nesting.outer.activateGate context world).1 = { nesting.outer with gate } := by
    simp only [NodeState.activateGate]
    split
    · exact ⟨nesting.outer.gate, rfl⟩
    · exact ⟨_, rfl⟩
  rcases gated : nesting.outer.activateGate context world with ⟨outer, during⟩
  rw [gated] at kept same
  rcases first : Node.activateAll nesting.before context during with ⟨before, second⟩
  rcases inside : Node.activateAll nesting.within context second with ⟨within, third⟩
  rcases last : Node.activateAll nesting.after context third with ⟨after, final⟩
  let started : Nesting A P :=
    ⟨{ outer with context := some context }, { nesting.inner with context := some context }, before, within, after⟩
  have kind : started.flatKind = outer.kind := flatKind_idle (kept ▸ idle.kind)
  have lengths := fun (children : List (Node A P)) (world : W) => Node.length_activateAll children context world
  refine ⟨started, final, ⟨?_, ?_, ?_⟩, ?_, ⟨some context, rfl⟩, ?_, ?_⟩
  · rw [← lengths nesting.before during, first]
  · rw [← lengths nesting.within second, inside]
  · rw [← lengths nesting.after third, last]
  · obtain ⟨gate, rfl⟩ := same
    exact ⟨gate, some context, rfl⟩
  · simp only [Tree.start, nested, Node.activate_idle outside idle.kind, gated, children, Node.activateAll_append,
      first, Node.activateAll, Node.activate_idle dormant (idle.same ▸ idle.kind), gateless, inside, last]
    rfl
  · simp only [Tree.start, Node.activate_idle outside idle.kind, gated, flatChildren, Node.activateAll_append, first,
      inside, last, flat, flatState, kind]
    rfl

end Nesting

end Activation

namespace Nesting

/-- Two calls agree if they give one answer, leave one environment, and lead to both trees of a nesting
again. -/
def Agree {R : Type} (sort : Nesting A P → Prop) (nesting : Nesting A P) (one other : R × Node A P × W) : Prop :=
  ∃ (answer : R) (next : Nesting A P) (world : W), sort next ∧ next.SameForm nesting ∧
    one = (answer, next.nested, world) ∧ other = (answer, next.flat, world)

namespace Agree

variable {R : Type} {sort : Nesting A P → Prop} {nesting : Nesting A P} {answer : R} {outer inner : NodeState A P}
  {kind : Kind A} {index : Nat} {child : Node A P} {world : W}

theorem of_after {after : Nesting A P} (form : after.SameForm nesting) (sorted : sort { after with outer })
    (flat : { after with outer }.flatKind = kind) :
    Agree sort nesting (answer, .mk outer after.children, world)
      (answer, .mk { outer with kind } after.flatChildren, world) :=
  ⟨answer, { after with outer }, world, sorted, ⟨form.before, form.within, form.after⟩, rfl, by rw [← flat]; rfl⟩

theorem of_outside (outside : index ≠ nesting.before.length) (sorted : sort { nesting.replace index child with outer })
    (flat : { nesting.replace index child with outer }.flatKind = kind) :
    Agree sort nesting (answer, .mk outer (nesting.children.set index child), world)
      (answer, .mk { outer with kind } (nesting.flatChildren.set (nesting.flatIndex index) child), world) := by
  rw [← children_replace outside, ← flatChildren_replace outside]
  exact of_after sameForm_replace sorted flat

/-- One child of the inner composite is exchanged. -/
theorem of_inside (bound : index < nesting.within.length)
    (sorted : sort { nesting with outer, inner, within := nesting.within.set index child })
    (flat : { nesting with outer, inner, within := nesting.within.set index child }.flatKind = kind) :
    Agree sort nesting
      (answer,
        .mk outer (nesting.children.set nesting.before.length (.mk inner (nesting.within.set index child))), world)
      (answer, .mk { outer with kind } (nesting.flatChildren.set (nesting.before.length + index) child), world) := by
  rw [children_set_inner, ← flatChildren_set_within bound]
  exact of_after sameForm_within sorted flat

end Agree

end Nesting

section Runs

variable [Host W] [Action W A] [Probe W P]

namespace Nesting

/-- Both trees of a nesting may stand for each other in an environment. -/
structure Interchangeable (W : Type) [Host W] [Action W A] [Probe W P] (sort : Nesting A P → Prop) : Prop where
  evaluate : ∀ nesting, sort nesting → nesting.nested.Steady → ∀ world : W,
    Agree sort nesting (nesting.nested.evaluate world) (nesting.flat.evaluate world)
  tick : ∀ nesting, sort nesting → nesting.nested.Steady → ∀ world : W,
    Agree sort nesting (nesting.nested.tick world) (nesting.flat.tick world)
  clear : ∀ nesting, sort nesting → nesting.nested.Steady → ∀ world : W,
    Agree sort nesting ((), nesting.nested.clear world) ((), nesting.flat.clear world)

def nestedIn (nesting : Nesting A P) (context : ContextId) : Tree A P := ⟨nesting.nested, context⟩

def flatIn (nesting : Nesting A P) (context : ContextId) : Tree A P := ⟨nesting.flat, context⟩

variable {sort : Nesting A P → Prop} {nesting : Nesting A P}

theorem Interchangeable.call_agree (same : Interchangeable W sort) (known : sort nesting)
    (steady : nesting.nested.Steady) (context : ContextId) (world : W) (next : Call W) :
    ∃ (after : Nesting A P) (later : W), sort after ∧ after.SameForm nesting ∧
      (nesting.nestedIn context).call world next = (after.nestedIn context, later) ∧
      (nesting.flatIn context).call world next = (after.flatIn context, later) ∧
      (nesting.nestedIn context).answer world next = (nesting.flatIn context).answer world next := by
  cases next with
  | evaluate =>
    obtain ⟨answer, after, later, sorted, form, one, other⟩ := same.evaluate nesting known steady world
    refine ⟨after, later, sorted, form, ?_, ?_, ?_⟩ <;> simp only [Tree.call, Tree.answer, nestedIn, flatIn, one, other]
  | tick =>
    obtain ⟨progress, after, later, sorted, form, one, other⟩ := same.tick nesting known steady world
    refine ⟨after, later, sorted, form, ?_, ?_, ?_⟩ <;> simp only [Tree.call, Tree.answer, nestedIn, flatIn, one, other]
  | clear =>
    obtain ⟨_, after, later, sorted, form, one, other⟩ := same.clear nesting known steady world
    obtain ⟨_, one⟩ := Prod.mk.inj one
    obtain ⟨_, other⟩ := Prod.mk.inj other
    refine ⟨after, later, sorted, form, ?_, ?_, rfl⟩ <;> simp only [Tree.call, Tree.clear, nestedIn, flatIn, one, other]
  | step =>
    -- A step evaluates, and ticks or clears by the answer, which is the same.
    obtain ⟨answer, during, middle, sorted, form, one, other⟩ := same.evaluate nesting known steady world
    have still : during.nested.Steady := by
      have kept := (Node.keeps_evaluate steady world).steady
      rwa [one] at kept
    cases answer with
    | false =>
      obtain ⟨_, after, later, sorted, close, cleared, released⟩ := same.clear during sorted still middle
      obtain ⟨_, cleared⟩ := Prod.mk.inj cleared
      obtain ⟨_, released⟩ := Prod.mk.inj released
      refine ⟨after, later, sorted, close.trans form, ?_, ?_, ?_⟩ <;>
        simp only [Tree.call, Tree.answer, Tree.step, nestedIn, flatIn, one, other, cleared, released]
    | true =>
      obtain ⟨progress, after, later, sorted, close, ticked, run⟩ := same.tick during sorted still middle
      refine ⟨after, later, sorted, close.trans form, ?_, ?_, ?_⟩ <;>
        simp only [Tree.call, Tree.answer, Tree.step, nestedIn, flatIn, one, other, ticked, run]
  | change outside => exact ⟨nesting, outside world, known, .refl, rfl, rfl, rfl⟩

end Nesting

end Runs

section Views

variable [Host V] [Action V A] [Probe V P] [Host W] [Action W A] [Probe W P] {view : W → V}
  {sort : Nesting A P → Prop} {labelled : Nesting (Tagged Position A) (Tagged Position P) → Prop}
  {keep : Entry Position → Bool}

namespace Nesting

theorem trace_agree (sim : Simulates view (id : A → A) (id : P → P))
    (kept : Interchangeable (Ledger Position V keep) labelled) {nesting : Nesting A P} (label : labelled nesting.placed)
    (steady : nesting.nested.Steady) (context : ContextId) {one other : W} (alike : view one = view other)
    {next : Call W} {seen : Call V} (same : Call.Alike view next seen) :
    (((nesting.nestedIn context).trace one next).map (Entry.relabel nesting.flatPosition)).filter keep =
      ((nesting.flatIn context).trace other next).filter keep := by
  have still : nesting.placed.nested.Steady := by
    rw [← nested_placed, Node.steady_exchange, Node.steady_placed]
    exact steady
  obtain ⟨_, _, _, _, nestedCall, flatCall, _⟩ :=
    kept.call_agree label still context (.of keep (view one)) (seen.noted keep)
  have nestedTrace := Tree.trace_kept sim nesting.flatPosition keep (nesting.nestedIn context) one same
  have flatTrace := Tree.trace_kept sim id keep (nesting.flatIn context) other same
  have nestedForm : (nesting.nestedIn context).placed.exchange (Tagged.relabel nesting.flatPosition)
      (Tagged.relabel nesting.flatPosition) = nesting.placed.nestedIn context :=
    congrArg (Tree.mk · context) nesting.nested_placed
  have flatForm : (nesting.flatIn context).placed.exchange (Tagged.relabel id) (Tagged.relabel id) =
      nesting.placed.flatIn context :=
    congrArg (Tree.mk · context) ((Node.exchange_id _).trans nesting.flat_placed)
  rw [nestedForm, nestedCall] at nestedTrace
  rw [flatForm, ← alike, flatCall, Entry.map_relabel_id] at flatTrace
  exact nestedTrace.symm.trans flatTrace

/-- In two environments that look alike, both trees give the same answers to any calls that the host
makes alike, ask the same of what is kept, position by position, and are left in corresponding states. -/
theorem run_agree (sim : Simulates view (id : A → A) (id : P → P)) (plain : Interchangeable V sort)
    (kept : Interchangeable (Ledger Position V keep) labelled)
    (label : ∀ nesting, sort nesting → labelled nesting.placed)
    {nesting : Nesting A P} (known : sort nesting) (steady : nesting.nested.Steady) (context : ContextId)
    {one other : W} (alike : view one = view other) {calls : List (Call W)} {seen : List (Call V)}
    (made : List.Forall₂ (Call.Alike view) calls seen) :
    (nesting.nestedIn context).answers one calls = (nesting.flatIn context).answers other calls ∧
      (((nesting.nestedIn context).history one calls).map (Entry.relabel nesting.flatPosition)).filter keep =
        ((nesting.flatIn context).history other calls).filter keep ∧
      ∃ after : Nesting A P, after.SameForm nesting ∧
        ((nesting.nestedIn context).run one calls).1 = after.nestedIn context ∧
        ((nesting.flatIn context).run other calls).1 = after.flatIn context ∧
        view ((nesting.nestedIn context).run one calls).2 = view ((nesting.flatIn context).run other calls).2 := by
  induction made generalizing nesting one other with
  | nil => exact ⟨rfl, rfl, nesting, .refl, rfl, rfl, alike⟩
  | @cons next here calls seen same _ ih =>
    obtain ⟨after, later, sorted, form, nestedCall, flatCall, answered⟩ :=
      plain.call_agree known steady context (view one) here
    -- What both trees do in the view, they do in their own environments.
    have nestedHere := sim.call_eq (nesting.nestedIn context) one same
    have flatHere := sim.call_eq (nesting.flatIn context) other same
    rw [sim.answer_eq _ one same, alike, sim.answer_eq _ other same] at answered
    rw [nestedCall] at nestedHere
    rw [← alike, flatCall] at flatHere
    obtain ⟨nestedTree, nestedWorld⟩ := Prod.mk.inj nestedHere
    obtain ⟨flatTree, flatWorld⟩ := Prod.mk.inj flatHere
    have still : after.nested.Steady := by
      have kept := @Tree.call_steady _ _ _ _ _ _ (nesting.nestedIn context) steady one next
      rwa [← nestedTree] at kept
    obtain ⟨answers, history, final, formed, nestedRun, flatRun, close⟩ :=
      ih sorted still (nestedWorld.symm.trans flatWorld)
    have traces := trace_agree sim kept (label nesting known) steady context alike same
    refine ⟨?_, ?_, final, formed.trans form, ?_⟩
    · rw [Tree.answers, Tree.answers, answered, ← nestedTree, ← flatTree, answers]
    · rw [form.flatPosition] at history
      rw [Tree.history, Tree.history, List.map_append, List.filter_append, List.filter_append, traces, ← nestedTree,
        ← flatTree, history]
    · rw [nestedTree] at nestedRun close
      rw [flatTree] at flatRun close
      exact ⟨nestedRun, flatRun, close⟩

theorem play_agree (sim : Simulates view (id : A → A) (id : P → P)) (plain : Interchangeable V sort)
    (kept : Interchangeable (Ledger Position V keep) labelled)
    (label : ∀ nesting, sort nesting → labelled nesting.placed)
    {nesting : Nesting A P} (idle : nesting.Idle) (built : nesting.nested.Built)
    (known : ∀ started : Nesting A P, started.SameForm nesting →
      (∃ gate context, started.outer = { nesting.outer with gate, context }) →
      (∃ context, started.inner = { nesting.inner with context }) → sort started)
    (context : ContextId) (world : W) {calls : List (Call W)} {seen : List (Call V)}
    (made : List.Forall₂ (Call.Alike view) calls seen) :
    Tree.playAnswers nesting.nested context world calls =
        Tree.playAnswers (.mk nesting.outer nesting.flatChildren) context world calls ∧
      ((Tree.playHistory nesting.nested context world calls).map (Entry.relabel nesting.flatPosition)).filter keep =
        (Tree.playHistory (.mk nesting.outer nesting.flatChildren) context world calls).filter keep ∧
      ∃ (after : Nesting A P) (one other : W), after.SameForm nesting ∧ view one = view other ∧
        Tree.play nesting.nested context world calls = (after.nestedIn context, one) ∧
        Tree.play (.mk nesting.outer nesting.flatChildren) context world calls = (after.flatIn context, other) := by
  obtain ⟨started, begun, form, outer, inner, nestedStart, flatStart⟩ := start_agree idle built context world
  have steady : started.nested.Steady := by
    have resting := Tree.start_resting built context world
    rw [nestedStart] at resting
    exact resting.steady
  obtain ⟨answers, history, after, formed, nestedRun, flatRun, close⟩ :=
    run_agree sim plain kept label (known started form outer inner) steady context (rfl : view begun = view begun) made
  rw [form.flatPosition] at history
  simp only [Tree.playAnswers, Tree.playHistory, Tree.play, nestedStart, flatStart]
  exact ⟨answers, history, after, _, _, formed.trans form, close, Prod.ext nestedRun rfl, Prod.ext flatRun rfl⟩

end Nesting

end Views

end BehaviorTree
