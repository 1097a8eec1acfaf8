import BehaviorTree.Proofs.Journal

/-! What calls ask of actions. Clearing exits the running action. Evaluation may exit it too, and then
the route it leaves does not lead there. A tick executes the action on the route, which it enters first
if it was not running, and exits if it ends. No call of a steady tree is at fault. -/

set_option autoImplicit false

namespace BehaviorTree

variable {L W A P : Type}

def exits (spots : List (Spot L)) : List (Entry L) := spots.map fun spot => .action .exit spot.2

@[simp] theorem exits_nil : exits ([] : List (Spot L)) = [] := rfl

@[simp] theorem exits_append (first second : List (Spot L)) : exits (first ++ second) = exits first ++ exits second :=
  List.map_append

@[simp] theorem exits_below (index : Nat) (spots : List (Spot L)) :
    exits (spots.map (Spot.below index)) = exits spots := by
  rw [exits, List.map_map]
  rfl

theorem filter_exits (spots : List (Spot L)) : (exits spots).filter Entry.isLifecycle = exits spots :=
  List.filter_eq_self.mpr fun _ member => by
    obtain ⟨_, _, rfl⟩ := List.mem_map.mp member
    rfl

/-- What a tick asks, by the action on the route, and what runs before and after it. -/
inductive Executes : Option (Spot L) → List (Spot L) → List (Entry L) → List (Spot L) → Prop where
  | nothing : Executes none [] [] []
  | started (spot : Spot L) :
      Executes (some spot) [] [.action .enter spot.2, .action .execute spot.2] [spot]
  | startedAndEnded (spot : Spot L) :
      Executes (some spot) [] [.action .enter spot.2, .action .execute spot.2, .action .exit spot.2] []
  | continued (spot : Spot L) : Executes (some spot) [spot] [.action .execute spot.2] [spot]
  | ended (spot : Spot L) :
      Executes (some spot) [spot] [.action .execute spot.2, .action .exit spot.2] []

theorem Executes.below {route : Option (Spot L)} {before after : List (Spot L)} {hooks : List (Entry L)}
    (executes : Executes route before hooks after) (index : Nat) :
    Executes (route.map (Spot.below index)) (before.map (Spot.below index)) hooks
      (after.map (Spot.below index)) := by
  cases executes with
  | nothing => exact .nothing
  | started spot => exact .started (spot.below index)
  | startedAndEnded spot => exact .startedAndEnded (spot.below index)
  | continued spot => exact .continued (spot.below index)
  | ended spot => exact .ended (spot.below index)

variable [Host W] [Action W A]

namespace Journal

variable (journal : Journal L W)

@[simp] theorem asked_report (context : Option ContextId) (node : String) (report : Report) :
    (Host.report context node report journal).asked = journal.asked := by
  simp [Host.report, asked_wrote, Entry.isReport]

@[simp] theorem lifecycle_report (context : Option ContextId) (node : String) (report : Report) :
    (Host.report context node report journal).lifecycle = journal.lifecycle := by
  simp [Host.report, lifecycle_wrote, Entry.isLifecycle]

omit [Host W] in
theorem lifecycle_of_asked {journal after : Journal L W} {spots : List (Spot L)}
    (known : after.asked = journal.asked ++ exits spots) : after.lifecycle = journal.lifecycle ++ exits spots := by
  rw [lifecycle_eq, known, List.filter_append, filter_exits, ← lifecycle_eq]

end Journal

theorem Lifecycle.asked_finish (lifecycle : Lifecycle (Tagged L A)) (name : String) (context : ContextId)
    (journal : Journal L W) : (lifecycle.finish name context journal).2.asked =
      journal.asked ++ [.action .exit lifecycle.action.label] := by
  simp [finish, Action.exit, Journal.asked_wrote, Entry.isReport]

theorem Lifecycle.asked_start (lifecycle : Lifecycle (Tagged L A)) (name : String) (context : ContextId)
    (journal : Journal L W) : (lifecycle.start name context journal).2.asked =
      journal.asked ++ if lifecycle.isRunning then [] else [.action .enter lifecycle.action.label] := by
  rcases lifecycle with ⟨action, _ | _⟩
  · simp [start, Action.enter, Journal.asked_wrote, Entry.isReport, isRunning]
  · simp [start, isRunning]

theorem Lifecycle.tick_executes (lifecycle : Lifecycle (Tagged L A)) (name : String) (context : ContextId)
    (journal : Journal L W) : ∃ hooks, (lifecycle.tick name context journal).2.2.asked = journal.asked ++ hooks ∧
      Executes (some ([], lifecycle.action.label)) (if lifecycle.isRunning then [([], lifecycle.action.label)] else [])
        hooks (if (lifecycle.tick name context journal).2.1.isRunning then [([], lifecycle.action.label)] else []) := by
  have enters := lifecycle.asked_start name context journal
  have runs : (lifecycle.start name context journal).1.isRunning = true ∧
      (lifecycle.start name context journal).1.action.label = lifecycle.action.label := by
    rcases lifecycle with ⟨leaf, _ | _⟩ <;> exact ⟨rfl, rfl⟩
  rcases started : lifecycle.start name context journal with ⟨⟨leaf, status⟩, during⟩
  rw [started] at enters runs
  obtain ⟨rfl, same⟩ : status = .running ∧ leaf.label = lifecycle.action.label := by simpa [isRunning] using runs
  have executes : (Action.execute leaf context during).2.2.asked = during.asked ++ [.action .execute leaf.label] := by
    simp [Action.execute, Journal.asked_wrote, Entry.isReport]
  have kept : (Action.execute leaf context during).2.1.label = leaf.label := rfl
  rcases ran : Action.execute leaf context during with ⟨_ | _, executed, after⟩ <;>
    rw [ran] at executes kept <;> simp only [tick, started, ran]
  · refine ⟨_, by rw [executes, enters, List.append_assoc, same], ?_⟩
    cases lifecycle.isRunning with
    | false => exact .started _
    | true => exact .continued _
  · rw [asked_finish]
    refine ⟨_, by rw [executes, enters, List.append_assoc, List.append_assoc, kept, same], ?_⟩
    cases lifecycle.isRunning with
    | false => exact .startedAndEnded _
    | true => exact .ended _

namespace Node

theorem asked_clearAll {children : List (Node (Tagged L A) (Tagged L P))}
    (each : ∀ child ∈ children, ∀ journal : Journal L W,
      (child.clear journal).2.asked = journal.asked ++ exits (child.running Tagged.label))
    (start : Nat) (journal : Journal L W) : (Node.clearAll children journal).2.asked =
      journal.asked ++ exits (runningFrom Tagged.label start children) := by
  induction children generalizing start journal with
  | nil => simp [Node.clearAll, runningFrom]
  | cons first rest ih =>
    simp only [Node.clearAll, ih (fun child member => each child (List.mem_cons_of_mem _ member)) (start + 1),
      each first List.mem_cons_self, runningFrom, exits_append, exits_below, List.append_assoc]

theorem asked_clear {lax : Prop} {node : Node (Tagged L A) (Tagged L P)} (settled : node.Settled lax)
    (journal : Journal L W) :
    (node.clear journal).2.asked = journal.asked ++ exits (node.running Tagged.label) := by
  induction node generalizing journal with
  | mk state children ih =>
    obtain ⟨sound | dormant, below⟩ := settled_mk.mp settled
    -- In a dormant tree nothing runs, and clearing does not reach it.
    case inr =>
      rw [clear_of_inactive dormant.2.inactive, running_of_atRest Tagged.label dormant.2.atRest, exits_nil,
        List.append_nil]
    have step := clears sound journal
    generalize Node.clear (.mk state children) journal = result at step ⊢
    cases step with
    | @action context lifecycle _ kind leaf =>
      subst leaf
      rcases lifecycle with ⟨action, _ | _⟩
      · simp [running, runningFrom, kind, Kind.running?, Lifecycle.clear]
      · simp [running, runningFrom, kind, Kind.running?, Lifecycle.clear, Lifecycle.asked_finish, exits]
    | sequence kind =>
      rw [asked_clearAll (fun child member => ih child member (below child member)) 0]
      simp [running, kind, Kind.running?]
    | idle kind =>
      rw [running_of_atRest Tagged.label (sound.still_of_unchosen below kind).atRest, exits_nil, List.append_nil]
    | selector kind selected =>
      have member := List.mem_of_getElem? selected
      rw [ih _ member (below _ member), sound.running_of_selector kind selected, exits_below]

theorem clear_asked {node : Node (Tagged L A) (Tagged L P)} (steady : node.Steady) (journal : Journal L W) :
    (node.clear journal).2.asked = journal.asked ++ exits (node.running Tagged.label) :=
  asked_clear (settled_false.mpr steady) journal

theorem tick_executes {node : Node (Tagged L A) (Tagged L P)} (steady : node.Steady) (journal : Journal L W) :
    ∃ hooks, (node.tick journal).2.2.asked = journal.asked ++ hooks ∧
      Executes (node.route? Tagged.label) (node.running Tagged.label) hooks
        ((node.tick journal).2.1.running Tagged.label) := by
  induction node generalizing journal with
  | mk state children ih =>
    obtain ⟨sound, below⟩ := steady_mk.mp steady
    have kept := (tick_steady steady journal).1
    -- What the child does is what the node does; a child that ends is at rest, and clearing it does nothing.
    have ticked {index : Nat} {child after : Node (Tagged L A) (Tagged L P)} {progress : Progress}
        {later : Journal L W} (selected : children[index]? = some child)
        (ticking : child.tick journal = (progress, after, later)) :
        (∃ hooks, later.asked = journal.asked ++ hooks ∧ Executes (child.route? Tagged.label)
          (child.running Tagged.label) hooks (after.running Tagged.label)) ∧
        (progress = .ended → after.running Tagged.label = [] ∧ after.clear later = (after, later)) := by
      have member := List.mem_of_getElem? selected
      have executes := ih child member (below child member) journal
      have still := tick_steady (below child member) journal
      rw [ticking] at executes still
      refine ⟨executes, fun ended => ?_⟩
      have rest := still.2 ended
      exact ⟨running_of_atRest Tagged.label rest, clear_eq_self ⟨still.1, rest⟩ later⟩
    have step := ticks sound journal
    generalize Node.tick (.mk state children) journal = result at step kept ⊢
    cases step with
    | @action context lifecycle _ kind leaf =>
      subst leaf
      rw [running_of_action kind, running_of_action rfl, route?_of_action kind,
        show Tagged.label (lifecycle.tick state.name context journal).2.1.action = lifecycle.action.label from
          Lifecycle.view_tick Journal.hidden _ _ _ _]
      exact lifecycle.tick_executes state.name context journal
    | @emptySequence context active _ kind empty =>
      subst empty
      refine ⟨[], by simp, ?_⟩
      simp [running, runningFrom, route?, routeAt?, kind, Kind.running?, Executes.nothing]
    | @continued active child after later kind selected ticking =>
      obtain ⟨⟨hooks, asked, executes⟩, _⟩ := ticked selected ticking
      have present : (children.set (active.getD 0) after)[active.getD 0]? = some after :=
        getElem?_set_of_selected selected
      refine ⟨hooks, asked, ?_⟩
      rw [sound.running_of_sequence kind selected, route?_of_sequence kind selected,
        Sound.running_of_sequence kept.here rfl present]
      exact executes.below _
    | @advanced active child after later kind selected ticking _
    | @completed active child after later kind selected ticking _ =>
      obtain ⟨⟨hooks, asked, executes⟩, ends⟩ := ticked selected ticking
      obtain ⟨idle, still⟩ := ends rfl
      rw [still] at kept ⊢
      refine ⟨hooks, asked, ?_⟩
      rw [sound.running_of_sequence kind selected, route?_of_sequence kind selected,
        running_eq_nil rfl (forall_mem_set idle fun position other found different =>
          running_of_atRest Tagged.label (sound.atRest_of_sequence kind found different))]
      rw [idle] at executes
      exact executes.below _
    | emptySelector _ kind _ | unchosen kind _ =>
      refine ⟨[], by simp, ?_⟩
      rw [running_of_atRest Tagged.label (steady.resting_of_unchosen kind).atRest]
      simp [route?, kind, Executes.nothing]
    | @chosen index child after later kind selected ticking =>
      obtain ⟨⟨hooks, asked, executes⟩, _⟩ := ticked selected ticking
      have present : (children.set index after)[index]? = some after :=
        getElem?_set_of_selected selected
      refine ⟨hooks, asked, ?_⟩
      rw [sound.running_of_selector kind selected, route?_of_selector kind selected,
        Sound.running_of_selector kept.here kind present]
      exact executes.below _
    | @released index child after later kind selected ticking =>
      obtain ⟨⟨hooks, asked, executes⟩, ends⟩ := ticked selected ticking
      obtain ⟨idle, still⟩ := ends rfl
      rw [still] at kept ⊢
      refine ⟨hooks, asked, ?_⟩
      rw [sound.running_of_selector kind selected, route?_of_selector kind selected,
        running_eq_nil rfl (forall_mem_set idle fun position other found different =>
          running_of_atRest Tagged.label (sound.atRest_of_selector kind found (mt Option.some.inj different)))]
      rw [idle] at executes
      exact executes.below _

end Node

variable [Probe W P]

omit [Action W A] in
theorem Gate.lifecycle_check (gate : Gate (Tagged L P)) (context : ContextId) (journal : Journal L W) :
    (gate.check context journal).2.2.lifecycle = journal.lifecycle := by
  induction gate generalizing journal with
  | atom question => simp [check, Probe.check, Journal.lifecycle_wrote, Entry.isLifecycle]
  | constant | flag => rfl
  | not operand ih => exact ih journal
  | and left right ihl ihr | or left right ihl ihr =>
    have first := ihl journal
    rcases answered : left.check context journal with ⟨_ | _, asked, during⟩ <;> rw [answered] at first <;>
      simp only [check, answered, ihr, first]

omit [Action W A] in
theorem NodeState.lifecycle_pass {state admitted : NodeState (Tagged L A) (Tagged L P)} {context : ContextId}
    {journal during : Journal L W} {answer : Bool}
    (admission : state.pass context journal = (answer, admitted, during)) : during.lifecycle = journal.lifecycle := by
  have reads : (Host.now context journal).2.lifecycle = journal.lifecycle := by
    simp [Host.now, Journal.lifecycle_wrote, Entry.isLifecycle]
  simp only [pass] at admission
  split at admission
  · simp only [passGate] at admission
    split at admission
    · cases admission; exact reads
    · cases admission; exact (Gate.lifecycle_check _ _ _).trans reads
  · cases admission; exact reads

/-- What an evaluation gives up. The running action exits or runs on, and the route of a node that may
run now does not lead to an action that exited. -/
structure Yields (before : List (Spot L)) (answer : Bool) (route : Option (Spot L))
    (exited after : List (Spot L)) : Prop where
  running : before = exited ++ after
  leads : answer = true → ∃ spot, route = some spot ∧ ∀ other ∈ exited, other.1 ≠ spot.1

theorem Yields.below {before exited after : List (Spot L)} {answer : Bool} {route : Option (Spot L)}
    (yields : Yields before answer route exited after) (index : Nat) :
    Yields (before.map (Spot.below index)) answer (route.map (Spot.below index))
      (exited.map (Spot.below index)) (after.map (Spot.below index)) := by
  refine ⟨by rw [yields.running, List.map_append], fun eligible => ?_⟩
  obtain ⟨spot, rfl, different⟩ := yields.leads eligible
  refine ⟨spot.below index, rfl, fun other member => ?_⟩
  obtain ⟨inner, found, rfl⟩ := List.mem_map.mp member
  exact fun same => different inner found (List.cons.inj same).2

namespace Node

/-- In an evaluation of the node exits exactly what it gives up. -/
def Yielding (W : Type) [Host W] [Action W A] [Probe W P] (node : Node (Tagged L A) (Tagged L P)) : Prop :=
  ∀ journal : Journal L W, ∃ exited, (node.evaluate journal).2.2.lifecycle = journal.lifecycle ++ exits exited ∧
    Yields (node.running Tagged.label) (node.evaluate journal).1 ((node.evaluate journal).2.1.route? Tagged.label)
      exited ((node.evaluate journal).2.1.running Tagged.label)

theorem Scans.yields {children scanned : List (Node (Tagged L A) (Tagged L P))} {journal after : Journal L W}
    {winner : Option Nat} (scan : Scans children journal winner scanned after)
    (each : ∀ child ∈ children, child.Yielding W)
    (start : Nat) (single : (runningFrom Tagged.label start children).length ≤ 1) :
    ∃ exited, after.lifecycle = journal.lifecycle ++ exits exited ∧
      runningFrom Tagged.label start children = exited ++ runningFrom Tagged.label start scanned ∧
      ∀ index, winner = some index → ∃ asked spot, scanned[index]? = some asked ∧
        asked.route? Tagged.label = some spot ∧ ∀ other ∈ exited, other.1 ≠ (start + index) :: spot.1 := by
  -- On the scan; positions are counted from the child with which the rest of it begins.
  induction scan generalizing start with
  | exhausted => exact ⟨[], by simp, rfl, nofun⟩
  | @agreed first asked rest journal after evaluated =>
    obtain ⟨exited, written, yields⟩ := each first List.mem_cons_self journal
    rw [evaluated] at written yields
    have lower := yields.below start
    refine ⟨exited.map (Spot.below start), by rw [exits_below, written], ?_, ?_⟩
    · rw [runningFrom, runningFrom, lower.running, List.append_assoc]
    · intro index chosen
      obtain rfl : 0 = index := Option.some.inj chosen
      obtain ⟨spot, leads, different⟩ := yields.leads rfl
      refine ⟨asked, spot, rfl, leads, fun other member same => ?_⟩
      obtain ⟨inner, found, rfl⟩ := List.mem_map.mp member
      exact different inner found (List.cons.inj same).2
  | @refused first asked rest others winner journal during after evaluated _ ih =>
    obtain ⟨exited, written, yields⟩ := each first List.mem_cons_self journal
    rw [evaluated] at written yields
    rw [runningFrom, (yields.below start).running] at single
    simp only [List.length_append] at single
    obtain ⟨further, continued, split, leads⟩ :=
      ih (fun child member => each child (List.mem_cons_of_mem _ member)) (start + 1) (by omega)
    refine ⟨exited.map (Spot.below start) ++ further, ?_, ?_, ?_⟩
    · rw [continued, written, exits_append, exits_below, List.append_assoc]
    · -- One action runs at most: what the first child kept and what later children gave up do not both exist.
      have either : (asked.running Tagged.label).map (Spot.below start) = [] ∨ further = [] := by
        rw [split, List.length_append] at single
        rcases further with _ | ⟨_, _⟩
        · exact .inr rfl
        · exact .inl (List.length_eq_zero_iff.mp (by simp only [List.length_cons] at single; omega))
      rw [runningFrom, runningFrom, (yields.below start).running, split]
      rcases either with none | none <;> simp [none]
    · intro index chosen
      obtain ⟨position, won, rfl⟩ := Option.map_eq_some_iff.mp chosen
      obtain ⟨winning, spot, selected, route, different⟩ := leads position won
      refine ⟨winning, spot, selected, route, fun other member same => ?_⟩
      rcases List.mem_append.mp member with member | member
      · obtain ⟨inner, _, rfl⟩ := List.mem_map.mp member
        have heads := (List.cons.inj same).1
        omega
      · exact different other member (by rw [same, Nat.add_right_comm, Nat.add_assoc])

/-- A selector gives up what exits in the children that it asks, and what the child still runs that it leaves. -/
theorem Scans.yields_switchTo {state : NodeState (Tagged L A) (Tagged L P)}
    {children scanned : List (Node (Tagged L A) (Tagged L P))} {during after : Journal L W}
    {previous winner : Option Nat} (scan : Scans children during winner scanned after)
    (steady : (mk state children).Steady) (kind : state.kind = .selector previous)
    (each : ∀ child ∈ children, child.Yielding W) (admitted : NodeState (Tagged L A) (Tagged L P)) :
    ∃ exited, (Node.switchTo winner previous scanned after).2.lifecycle = during.lifecycle ++ exits exited ∧
      Yields ((mk state children).running Tagged.label) winner.isSome
        ((mk { admitted with kind := .selector winner } (Node.switchTo winner previous scanned after).1).route?
          Tagged.label) exited
        ((mk { admitted with kind := .selector winner } (Node.switchTo winner previous scanned after).1).running
          Tagged.label) := by
  obtain ⟨sound, below⟩ := steady_mk.mp steady
  have composite : state.kind.running? = none := by rw [kind]; rfl
  have all : (mk state children).running Tagged.label = runningFrom Tagged.label 0 children := by
    rw [running, composite]; rfl
  have single := (settled_false.mpr steady).length_running Tagged.label
  rw [all] at single
  -- The scan gives up what exited in the children it asked, the switch what the last choice still runs.
  obtain ⟨exited, written, split, leads⟩ := scan.yields each 0 single
  rcases scan.switchTo_eq sound kind with ⟨_, same⟩ | ⟨last, child, chosen, left, found, same⟩
  · rw [same]
    refine ⟨exited, written, all.trans split, fun eligible => ?_⟩
    obtain ⟨index, rfl⟩ := Option.isSome_iff_exists.mp eligible
    obtain ⟨asked, spot, selected, route, different⟩ := leads index rfl
    refine ⟨spot.below index, by rw [route?_of_selector rfl selected, route, Option.map_some], ?_⟩
    simpa using different
  · subst chosen
    rw [same]
    have steadyChild := scan.steady below child (List.mem_of_getElem? found)
    have cleared := running_of_atRest Tagged.label (clear_resting steadyChild after).atRest
    -- Only the child that was chosen last can run, before it is asked and after.
    have others : ∀ position other, scanned[position]? = some other → last ≠ position →
        other.running Tagged.label = [] := by
      intro position other selected different
      obtain ⟨before, there, asked⟩ := scan.get selected
      have idle := running_of_atRest Tagged.label
        (sound.atRest_of_selector kind there (mt Option.some.inj different))
      rcases asked with ⟨earlier, later, evaluated⟩ | ⟨rfl, _⟩
      · obtain ⟨_, _, yields⟩ := each before (List.mem_of_getElem? there) earlier
        rw [evaluated, idle] at yields
        exact (List.append_eq_nil_iff.mp yields.running.symm).2
      · exact idle
    refine ⟨exited ++ (child.running Tagged.label).map (Spot.below last), ?_, ?_, fun eligible => ?_⟩
    · rw [exits_append, exits_below, ← List.append_assoc, ← written]
      exact Journal.lifecycle_of_asked (clear_asked steadyChild after)
    · rw [all, split, runningFrom_eq_of_active found others, Nat.zero_add,
        running_eq_nil rfl (forall_mem_set cleared others), List.append_nil]
    · obtain ⟨index, rfl⟩ := Option.isSome_iff_exists.mp eligible
      have moved : last ≠ index := fun same => left (congrArg some same.symm)
      obtain ⟨asked, spot, selected, route, different⟩ := leads index rfl
      rw [← List.getElem?_set_ne moved] at selected
      refine ⟨spot.below index, by rw [route?_of_selector rfl selected, route, Option.map_some], ?_⟩
      intro other member
      rcases List.mem_append.mp member with member | member
      · simpa using different other member
      · obtain ⟨inner, _, rfl⟩ := List.mem_map.mp member
        exact fun same => moved (List.cons.inj same).1

theorem evaluate_yields {node : Node (Tagged L A) (Tagged L P)} (steady : node.Steady) (journal : Journal L W) :
    ∃ exited, (node.evaluate journal).2.2.lifecycle = journal.lifecycle ++ exits exited ∧
      Yields (node.running Tagged.label) (node.evaluate journal).1
        ((node.evaluate journal).2.1.route? Tagged.label) exited
        ((node.evaluate journal).2.1.running Tagged.label) := by
  induction node generalizing journal with
  | mk state children ih =>
    obtain ⟨sound, below⟩ := steady_mk.mp steady
    have each := fun child member => ih child member (below child member)
    have kept := (keeps_evaluate steady journal).steady
    have step := evaluates sound journal
    -- One case for each way in which an evaluation can end.
    generalize Node.evaluate (.mk state children) journal = result at step kept ⊢
    cases step with
    | refused _ admission =>
      refine ⟨[], by rw [NodeState.lifecycle_pass admission, exits_nil, List.append_nil], ?_,
        fun eligible => by cases eligible⟩
      rw [running_congr (NodeState.pass_kind admission), List.nil_append]
    | emptySequence _ admission _ _ | emptySelector _ admission _ _ =>
      refine ⟨[], by simp [NodeState.lifecycle_pass admission], ?_, fun eligible => by cases eligible⟩
      rw [running_congr (NodeState.pass_kind admission), List.nil_append]
    | @action context admitted during lifecycle _ admission kind leaf =>
      subst leaf
      have checked : (lifecycle.check context during).2.2.lifecycle = during.lifecycle := by
        simp [Lifecycle.check, Action.check, Journal.lifecycle_wrote, Entry.isLifecycle]
      refine ⟨[], by rw [checked, NodeState.lifecycle_pass admission, exits_nil, List.append_nil], ?_, fun _ => ?_⟩
      · rw [running_of_action kind, running_of_action rfl, List.nil_append]
        rfl
      · exact ⟨_, route?_of_action rfl, List.forall_mem_nil _⟩
    | @probe context admitted during after answer first asked rest _ admission kind split evaluated =>
      subst split
      have same := (NodeState.pass_kind admission).trans kind
      obtain ⟨exited, written, yields⟩ := each first List.mem_cons_self during
      rw [evaluated] at written yields
      refine ⟨exited.map (Spot.below 0), ?_, ?_⟩
      · rw [written, NodeState.lifecycle_pass admission, exits_below]
      · rw [sound.running_of_sequence kind rfl, Sound.running_of_sequence kept.here same rfl,
          route?_of_sequence same rfl]
        exact yields.below 0
    | @continued context admitted during after index child asked _ admission kind selected evaluated =>
      have same := (NodeState.pass_kind admission).trans kind
      obtain ⟨exited, written, yields⟩ := each child (List.mem_of_getElem? selected) during
      rw [evaluated] at written yields
      have present : (children.set index asked)[index]? = some asked :=
        getElem?_set_of_selected selected
      refine ⟨exited.map (Spot.below index), ?_, ?_⟩
      · rw [written, NodeState.lifecycle_pass admission, exits_below]
      · rw [sound.running_of_sequence kind selected, Sound.running_of_sequence kept.here same present,
          route?_of_sequence same present]
        exact yields.below index
    | @abandoned context admitted during after index child asked _ admission kind selected evaluated =>
      have member := List.mem_of_getElem? selected
      obtain ⟨exited, written, yields⟩ := each child member during
      have steadyAsked := (keeps_evaluate (below child member) during).steady
      rw [evaluated] at written yields steadyAsked
      refine ⟨(child.running Tagged.label).map (Spot.below index), ?_, ?_, fun eligible => by cases eligible⟩
      · -- Of what ran in the child, some exited when it was asked, and the rest when it was cleared.
        rw [exits_below, yields.running, exits_append, ← List.append_assoc, ← NodeState.lifecycle_pass admission,
          ← written]
        exact Journal.lifecycle_of_asked (clear_asked steadyAsked after)
      · have cleared := running_of_atRest Tagged.label (clear_resting steadyAsked after).atRest
        have others : ∀ position other, children[position]? = some other → index ≠ position →
            other.running Tagged.label = [] := fun position other found different =>
          running_of_atRest Tagged.label (sound.atRest_of_sequence kind found different)
        rw [sound.running_of_sequence kind selected, running_eq_nil rfl (forall_mem_set cleared others),
          List.append_nil]
        rfl
    | @selector context admitted during after previous winner scanned _ admission kind scan =>
      obtain ⟨exited, written, yields⟩ := scan.yields_switchTo steady kind each admitted
      exact ⟨exited, by rw [written, NodeState.lifecycle_pass admission], yields⟩

end Node

end BehaviorTree
