import BehaviorTree.Proofs.Simulation

/-! Where a tree runs. In a steady tree at most one action is running, and the active children of the
composites above lead to it. The route is where the next tick leads. A running action lies on it. -/

set_option autoImplicit false

namespace BehaviorTree

variable {A B C P Q : Type}

def Kind.running? : Kind A → Option A
  | .action ⟨held, .running⟩ => some held
  | _ => none

theorem Kind.running?_eq_some {kind : Kind A} {action : A} :
    kind.running? = some action ↔ kind = .action ⟨action, .running⟩ := by
  constructor
  · intro running
    rcases kind with ⟨held, _ | _⟩ | _ | _ | _ | _ <;> cases running
    rfl
  · rintro rfl
    rfl

/-- An action at a position, as some view shows it. -/
abbrev Spot (B : Type) := Position × B

def Spot.below (index : Nat) (spot : Spot B) : Spot B := (index :: spot.1, spot.2)

@[simp] theorem Spot.below_fst (index : Nat) (spot : Spot B) : (spot.below index).1 = index :: spot.1 := rfl

@[simp] theorem Spot.below_snd (index : Nat) (spot : Spot B) : (spot.below index).2 = spot.2 := rfl

namespace Node

mutual

def running (view : A → B) : Node A P → List (Spot B)
  | .mk state children =>
    (state.kind.running?.map fun action => ([], view action)).toList ++ runningFrom view 0 children

def runningFrom (view : A → B) : Nat → List (Node A P) → List (Spot B)
  | _, [] => []
  | index, node :: rest => (node.running view).map (Spot.below index) ++ runningFrom view (index + 1) rest

end

mutual

/-- The action that a tick of the node would execute. A sequence that has not started leads to its
first child, a selector without a choice nowhere. -/
def route? (view : A → B) : Node A P → Option (Spot B)
  | .mk state children =>
    match state.kind with
    | .action lifecycle => some ([], view lifecycle.action)
    | .sequence active => (routeAt? view (active.getD 0) children).map (Spot.below (active.getD 0))
    | .selector (some index) => (routeAt? view index children).map (Spot.below index)
    | .selector none | .inert | .relay _ _ => none

def routeAt? (view : A → B) : Nat → List (Node A P) → Option (Spot B)
  | _, [] => none
  | 0, node :: _ => node.route? view
  | index + 1, _ :: rest => routeAt? view index rest

end

variable {view : A → B} {state : NodeState A P} {children : List (Node A P)} {node : Node A P} {lax : Prop}

theorem runningFrom_eq_nil (each : ∀ child ∈ children, child.running view = []) (start : Nat) :
    runningFrom view start children = [] := by
  induction children generalizing start with
  | nil => rfl
  | cons first rest ih =>
    rw [runningFrom, each first List.mem_cons_self, ih fun child member => each child (List.mem_cons_of_mem _ member)]
    rfl

theorem running_eq_nil (here : state.kind.running? = none) (each : ∀ child ∈ children, child.running view = []) :
    (mk state children).running view = [] := by
  rw [running, here, runningFrom_eq_nil each]
  rfl

theorem running_congr {other : NodeState A P} (same : other.kind = state.kind) :
    (mk other children).running view = (mk state children).running view := by
  rw [running, running, same]

theorem running_of_action {lifecycle : Lifecycle A} (kind : state.kind = .action lifecycle) :
    (mk state []).running view = if lifecycle.isRunning then [([], view lifecycle.action)] else [] := by
  rcases lifecycle with ⟨action, _ | _⟩ <;> simp [running, runningFrom, kind, Kind.running?, Lifecycle.isRunning]

theorem route?_of_action {lifecycle : Lifecycle A} (kind : state.kind = .action lifecycle) :
    (mk state children).route? view = some ([], view lifecycle.action) := by
  rw [route?, kind]

theorem runningFrom_eq_of_active {index : Nat} {child : Node A P} (selected : children[index]? = some child)
    (others : ∀ position other, children[position]? = some other → index ≠ position → other.running view = [])
    (start : Nat) : runningFrom view start children = (child.running view).map (Spot.below (start + index)) := by
  induction children generalizing index start with
  | nil => cases selected
  | cons first rest ih =>
    cases index with
    | zero =>
      cases selected
      have idle : ∀ other ∈ rest, other.running view = [] := by
        intro other member
        obtain ⟨position, found⟩ := List.mem_iff_getElem?.mp member
        exact others (position + 1) other found (Nat.succ_ne_zero position).symm
      rw [runningFrom, runningFrom_eq_nil idle, List.append_nil, Nat.add_zero]
    | succ index =>
      have below : rest[index]? = some child := selected
      rw [runningFrom, others 0 first rfl (Nat.succ_ne_zero index), List.map_nil, List.nil_append,
        ih below (fun position other found different => others (position + 1) other found (by omega)) (start + 1),
        Nat.add_right_comm, Nat.add_assoc]

theorem routeAt?_eq {index : Nat} {child : Node A P} (selected : children[index]? = some child) :
    routeAt? view index children = child.route? view := by
  induction children generalizing index with
  | nil => cases selected
  | cons first rest ih =>
    cases index with
    | zero => cases selected; rfl
    | succ index =>
      have below : rest[index]? = some child := selected
      rw [routeAt?, ih below]

theorem running_of_probed (view : A → B) (probed : node.Probed) : node.running view = [] := by
  induction node with
  | mk state children ih =>
    obtain ⟨idle, below⟩ := probed_mk.mp probed
    have here : state.kind.running? = none := by
      cases known : state.kind.running? with
      | none => rfl
      | some action =>
        rw [Kind.running?_eq_some.mp known] at idle
        exact absurd (idle rfl) nofun
    exact running_eq_nil here fun child member => ih child member (below child member)

theorem running_of_atRest (view : A → B) (rest : node.AtRest) : node.running view = [] :=
  running_of_probed view rest.probed

theorem Sound.running_of_sequence (sound : (Node.mk state children).Sound) {active : Option Nat}
    (kind : state.kind = .sequence active) {child : Node A P} (selected : children[active.getD 0]? = some child) :
    (Node.mk state children).running view = (child.running view).map (Spot.below (active.getD 0)) := by
  have here : state.kind.running? = none := by rw [kind]; rfl
  rw [running, here, runningFrom_eq_of_active selected fun position other found different =>
    running_of_atRest view (sound.atRest_of_sequence kind found different), Nat.zero_add]
  rfl

theorem Sound.running_of_selector (sound : (Node.mk state children).Sound) {index : Nat}
    (kind : state.kind = .selector (some index)) {child : Node A P} (selected : children[index]? = some child) :
    (Node.mk state children).running view = (child.running view).map (Spot.below index) := by
  have here : state.kind.running? = none := by rw [kind]; rfl
  rw [running, here, runningFrom_eq_of_active selected fun position other found different =>
    running_of_atRest view (sound.atRest_of_selector kind found (mt Option.some.inj different)), Nat.zero_add]
  rfl

theorem route?_of_sequence {active : Option Nat} (kind : state.kind = .sequence active) {child : Node A P}
    (selected : children[active.getD 0]? = some child) :
    (mk state children).route? view = (child.route? view).map (Spot.below (active.getD 0)) := by
  rw [route?, kind, ← routeAt?_eq selected]

theorem route?_of_selector {index : Nat} (kind : state.kind = .selector (some index)) {child : Node A P}
    (selected : children[index]? = some child) :
    (mk state children).route? view = (child.route? view).map (Spot.below index) := by
  rw [route?, kind, ← routeAt?_eq selected]

theorem mem_runningFrom {start : Nat} {spot : Spot B} (member : spot ∈ runningFrom view start children) :
    ∃ (index : Nat) (child : Node A P) (inner : Spot B), children[index]? = some child ∧
      inner ∈ child.running view ∧ spot = inner.below (start + index) := by
  induction children generalizing start with
  | nil => cases member
  | cons first rest ih =>
    rw [runningFrom] at member
    rcases List.mem_append.mp member with member | member
    · obtain ⟨inner, found, rfl⟩ := List.mem_map.mp member
      exact ⟨0, first, inner, rfl, found, rfl⟩
    · obtain ⟨index, child, inner, selected, found, rfl⟩ := ih member
      exact ⟨index + 1, child, inner, selected, found, by rw [Nat.add_right_comm, Nat.add_assoc]⟩

theorem mem_runningFrom_of {index : Nat} {child : Node A P} (selected : children[index]? = some child)
    {spot : Spot B} (member : spot ∈ child.running view) (start : Nat) :
    spot.below (start + index) ∈ runningFrom view start children := by
  induction children generalizing index start with
  | nil => cases selected
  | cons first rest ih =>
    rw [runningFrom]
    cases index with
    | zero => cases selected; exact List.mem_append_left _ (List.mem_map_of_mem member)
    | succ index =>
      have below : rest[index]? = some child := selected
      have found := ih below (start + 1)
      rw [Nat.add_right_comm, Nat.add_assoc] at found
      exact List.mem_append_right _ found

theorem mem_running {spot : Spot B} : spot ∈ node.running view ↔
    ∃ found action, node.at? spot.1 = some found ∧ found.state.kind = .action ⟨action, .running⟩ ∧
      view action = spot.2 := by
  induction node generalizing spot with
  | mk state children ih =>
    obtain ⟨position, shown⟩ := spot
    rw [running]
    constructor
    · intro member
      rcases List.mem_append.mp member with here | member
      · obtain ⟨action, known, same⟩ : ∃ action, state.kind.running? = some action ∧
            (([], view action) : Spot B) = (position, shown) := by simpa using here
        cases same
        exact ⟨mk state children, action, rfl, Kind.running?_eq_some.mp known, rfl⟩
      · obtain ⟨index, child, inner, selected, found, same⟩ := mem_runningFrom member
        rw [Nat.zero_add] at same
        cases same
        obtain ⟨other, action, reached, known⟩ := (ih child (List.mem_of_getElem? selected)).mp found
        exact ⟨other, action, at?_cons_eq_some.mpr ⟨child, selected, reached⟩, known⟩
    · rintro ⟨found, action, reached, kind, rfl⟩
      cases position with
      | nil =>
        cases reached
        exact List.mem_append_left _ (by simpa using ⟨action, Kind.running?_eq_some.mpr kind, rfl⟩)
      | cons index rest =>
        obtain ⟨child, selected, below⟩ := at?_cons_eq_some.mp reached
        have member : (rest, view action) ∈ child.running view :=
          (ih child (List.mem_of_getElem? selected)).mpr ⟨found, action, below, kind, rfl⟩
        have lifted := mem_runningFrom_of selected member 0
        rw [Nat.zero_add] at lifted
        exact List.mem_append_right _ lifted

theorem routeAt?_eq_some {index : Nat} {spot : Spot B} (leads : routeAt? view index children = some spot) :
    ∃ child, children[index]? = some child ∧ child.route? view = some spot := by
  induction children generalizing index with
  | nil => cases leads
  | cons first rest ih =>
    cases index with
    | zero => exact ⟨first, rfl, leads⟩
    | succ index => exact ih leads

theorem at?_of_route? {spot : Spot B} (leads : node.route? view = some spot) :
    ∃ found lifecycle, node.at? spot.1 = some found ∧ found.state.kind = .action lifecycle ∧
      view lifecycle.action = spot.2 := by
  induction node generalizing spot with
  | mk state children ih =>
    have descend {index : Nat} (inside : (routeAt? view index children).map (Spot.below index) = some spot) :
        ∃ found lifecycle, (mk state children).at? spot.1 = some found ∧ found.state.kind = .action lifecycle ∧
          view lifecycle.action = spot.2 := by
      obtain ⟨inner, within, rfl⟩ := Option.map_eq_some_iff.mp inside
      obtain ⟨child, selected, onward⟩ := routeAt?_eq_some within
      obtain ⟨found, lifecycle, reached, known⟩ := ih child (List.mem_of_getElem? selected) onward
      exact ⟨found, lifecycle, at?_cons_eq_some.mpr ⟨child, selected, reached⟩, known⟩
    rw [route?] at leads
    cases kind : state.kind with
    | action lifecycle =>
      rw [kind] at leads
      cases leads
      exact ⟨mk state children, lifecycle, rfl, kind, rfl⟩
    | sequence active =>
      rw [kind] at leads
      exact descend leads
    | selector active =>
      rw [kind] at leads
      cases active with
      | none => cases leads
      | some index => exact descend leads
    | inert | relay most least =>
      rw [kind] at leads
      cases leads

theorem Settled.running_eq (settled : node.Settled lax) (view : A → B) :
    node.running view = [] ∨ ∃ spot, node.route? view = some spot ∧ node.running view = [spot] := by
  induction node with
  | mk state children ih =>
    obtain ⟨sound | dormant, below⟩ := settled_mk.mp settled
    case inr => exact .inl (running_of_atRest view dormant.2.atRest)
    cases kind : state.kind with
    | action lifecycle =>
      have core := sound.core
      simp only [isCore, kind, List.isEmpty_iff] at core
      rcases lifecycle with ⟨action, _ | _⟩
      · exact .inl (by simp [running, kind, Kind.running?, core, runningFrom])
      · exact .inr ⟨([], view action), by simp [route?, kind], by simp [running, kind, Kind.running?, core, runningFrom]⟩
    | sequence active =>
      cases selected : children[active.getD 0]? with
      | none =>
        -- The active child of a sequence exists, so there are no children at all.
        have empty : children = [] := by
          cases active with
          | none => simpa using selected
          | some index =>
            have bound := sound.bounded index (by simp [activeChild, kind, Kind.activeChild])
            exact absurd (List.getElem?_eq_none_iff.mp selected) (Nat.not_le.mpr bound)
        exact .inl (by simp [running, kind, Kind.running?, empty, runningFrom])
      | some child =>
        rw [sound.running_of_sequence kind selected, route?_of_sequence kind selected]
        have member := List.mem_of_getElem? selected
        rcases ih child member (below child member) with none | ⟨spot, leads, only⟩
        · exact .inl (by rw [none, List.map_nil])
        · exact .inr ⟨spot.below (active.getD 0), by rw [leads, Option.map_some], by rw [only, List.map_singleton]⟩
    | selector active =>
      cases active with
      | none => exact .inl (running_of_atRest view (sound.still_of_unchosen below kind).atRest)
      | some index =>
        have bound : index < children.length := sound.bounded index (by simp [activeChild, kind, Kind.activeChild])
        have selected := List.getElem?_eq_getElem bound
        rw [sound.running_of_selector kind selected, route?_of_selector kind selected]
        have member := List.mem_of_getElem? selected
        rcases ih _ member (below _ member) with none | ⟨spot, leads, only⟩
        · exact .inl (by rw [none, List.map_nil])
        · exact .inr ⟨spot.below index, by rw [leads, Option.map_some], by rw [only, List.map_singleton]⟩
    | inert | relay most least =>
      have core := sound.core
      simp [isCore, kind] at core

theorem Settled.length_running (settled : node.Settled lax) (view : A → B) : (node.running view).length ≤ 1 := by
  rcases settled.running_eq view with none | ⟨spot, _, only⟩
  · rw [none]
    exact Nat.zero_le 1
  · rw [only]
    exact Nat.le_refl 1

/-- The position is reached by way of active children alone. -/
def Active : Node A P → Position → Prop
  | _, [] => True
  | node, index :: rest =>
    node.activeChild = some index ∧ ∃ child, node.children[index]? = some child ∧ child.Active rest

theorem Steady.active_of_running (steady : node.Steady) {spot : Spot B} (member : spot ∈ node.running view) :
    node.Active spot.1 := by
  obtain ⟨position, shown⟩ := spot
  induction position generalizing node with
  | nil => trivial
  | cons index rest ih =>
    obtain ⟨found, action, reached, kind, shows⟩ := mem_running.mp member
    obtain ⟨child, selected, reached⟩ := at?_cons_eq_some.mp reached
    have inside : (rest, shown) ∈ child.running view := mem_running.mpr ⟨found, action, reached, kind, shows⟩
    cases node with
    | mk state children =>
      obtain ⟨sound, below⟩ := steady_mk.mp steady
      refine ⟨?_, child, selected, ih (below child (List.mem_of_getElem? selected)) inside⟩
      by_cases active : (mk state children).activeChild = some index
      · exact active
      · -- A child that is not active runs no action, be it at rest or only probed.
        have idle : child.Probed := by
          rcases sound.others index child selected active with rest | ⟨_, _, probed⟩
          · exact rest.probed
          · exact probed
        rw [running_of_probed view idle] at inside
        cases inside

/-! Positions do not depend on what the actions are. -/

section Exchange
variable {action : A → B} {probe : P → Q} {view : B → C}

theorem running_exchange (node : Node A P) :
    (node.exchange action probe).running view = node.running (view ∘ action) := by
  induction node with
  | mk state children ih =>
    have here : ((state.map action probe).kind.running?.map fun held => (([], view held) : Spot C)) =
        state.kind.running?.map fun held => ([], (view ∘ action) held) := by
      obtain ⟨name, kind, gate, cooldown, lastPass, held⟩ := state
      rcases kind with ⟨leaf, _ | _⟩ | _ | _ | _ | _ <;> rfl
    have inside : ∀ start, runningFrom view start (children.map (exchange action probe)) =
        runningFrom (view ∘ action) start children := by
      clear here
      induction children with
      | nil => exact fun _ => rfl
      | cons first rest below =>
        intro start
        rw [List.map_cons, runningFrom, runningFrom, ih first List.mem_cons_self,
          below fun child member => ih child (List.mem_cons_of_mem _ member)]
    rw [exchange_mk, running, running, here, inside]

theorem route?_exchange (node : Node A P) :
    (node.exchange action probe).route? view = node.route? (view ∘ action) := by
  induction node with
  | mk state children ih =>
    have inside : ∀ index, routeAt? view index (children.map (exchange action probe)) =
        routeAt? (view ∘ action) index children := by
      induction children with
      | nil => exact fun _ => rfl
      | cons first rest below =>
        intro index
        cases index with
        | zero => exact ih first List.mem_cons_self
        | succ index => exact below (fun child member => ih child (List.mem_cons_of_mem _ member)) index
    obtain ⟨name, kind, gate, cooldown, lastPass, held⟩ := state
    rw [exchange_mk]
    rcases kind with lifecycle | active | (_ | index) | _ | _ <;>
      simp [route?, NodeState.map, Kind.map, Lifecycle.map, inside]

end Exchange

def runningAt (node : Node A P) : List Position := (node.running id).map Prod.fst

theorem map_fst_running (view : A → B) (node : Node A P) : (node.running view).map Prod.fst = node.runningAt := by
  rw [runningAt]
  induction node with
  | mk state children ih =>
    have inside : ∀ start, (runningFrom view start children).map Prod.fst =
        (runningFrom id start children).map Prod.fst := by
      induction children with
      | nil => exact fun _ => rfl
      | cons first rest below =>
        intro start
        have lifted := congrArg (List.map (List.cons start)) (ih first List.mem_cons_self)
        rw [List.map_map, List.map_map] at lifted
        rw [runningFrom, runningFrom, List.map_append, List.map_append, List.map_map, List.map_map,
          below (fun child member => ih child (List.mem_cons_of_mem _ member)) (start + 1)]
        exact congrArg (· ++ _) lifted
    rw [running, running, List.map_append, List.map_append, inside 0]
    cases state.kind.running? <;> rfl

def routeTo? (node : Node A P) : Option Position := (node.route? id).map Prod.fst

theorem map_fst_route? (view : A → B) (node : Node A P) : (node.route? view).map Prod.fst = node.routeTo? := by
  rw [routeTo?]
  induction node with
  | mk state children ih =>
    have inside : ∀ index, (routeAt? view index children).map Prod.fst = (routeAt? id index children).map Prod.fst := by
      induction children with
      | nil => exact fun _ => rfl
      | cons first rest below =>
        intro index
        cases index with
        | zero => exact ih first List.mem_cons_self
        | succ index => exact below (fun child member => ih child (List.mem_cons_of_mem _ member)) index
    have descend (index : Nat) : ((routeAt? view index children).map (Spot.below index)).map Prod.fst =
        ((routeAt? id index children).map (Spot.below index)).map Prod.fst := by
      have lifted := congrArg (Option.map (List.cons index)) (inside index)
      rw [Option.map_map, Option.map_map] at lifted
      rw [Option.map_map, Option.map_map]
      exact lifted
    rw [route?, route?]
    rcases state.kind with lifecycle | active | (_ | index) | _ | _
    · rfl
    · exact descend _
    · rfl
    · exact descend _
    · rfl
    · rfl

theorem routeTo?_of_action {lifecycle : Lifecycle A} (kind : state.kind = .action lifecycle) :
    (mk state children).routeTo? = some [] := by
  rw [routeTo?, route?_of_action kind, Option.map_some]

theorem routeTo?_of_sequence {active : Option Nat} (kind : state.kind = .sequence active) {child : Node A P}
    (selected : children[active.getD 0]? = some child) :
    (mk state children).routeTo? = child.routeTo?.map (List.cons (active.getD 0)) := by
  rw [routeTo?, route?_of_sequence kind selected, Option.map_map, routeTo?, Option.map_map]
  rfl

theorem routeTo?_of_selector {index : Nat} (kind : state.kind = .selector (some index)) {child : Node A P}
    (selected : children[index]? = some child) :
    (mk state children).routeTo? = child.routeTo?.map (List.cons index) := by
  rw [routeTo?, route?_of_selector kind selected, Option.map_map, routeTo?, Option.map_map]
  rfl

theorem routeTo?_exchange {action : A → B} {probe : P → Q} (node : Node A P) :
    (node.exchange action probe).routeTo? = node.routeTo? := by
  rw [routeTo?, route?_exchange, map_fst_route?]

theorem runningAt_of_atRest (rest : node.AtRest) : node.runningAt = [] := by
  rw [runningAt, running_of_atRest id rest, List.map_nil]

theorem Settled.length_runningAt (settled : node.Settled lax) : node.runningAt.length ≤ 1 := by
  rw [runningAt, List.length_map]
  exact settled.length_running id

theorem Steady.length_runningAt (steady : node.Steady) : node.runningAt.length ≤ 1 :=
  (settled_false.mpr steady).length_runningAt

theorem runningAt_exchange {action : A → B} {probe : P → Q} (node : Node A P) :
    (node.exchange action probe).runningAt = node.runningAt := by
  rw [runningAt, running_exchange, map_fst_running]

end Node

end BehaviorTree
