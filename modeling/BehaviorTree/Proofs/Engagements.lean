import BehaviorTree.Proofs.Ledger

/-! The engagements of an action. Whatever is asked of an action, in whatever order, it is engaged from an enter to
the next exit, with one execution at least and no other hook in between, and its status says whether it is engaged.
Minutes are an environment that writes down what an action does together with the answers that it gives. -/

set_option autoImplicit false

namespace BehaviorTree

variable {W A : Type}

/-- The node that an action is called from. -/
structure Scope where
  name : String
  context : ContextId

/-- What is asked of an action. In between the host may change the environment. -/
inductive Demand (W : Type) where
  | check (scope : Scope)
  | tick (scope : Scope)
  | clear (scope : Scope)
  | change (outside : W → W)

/-- What an action does, with its answer, and what it lets the sink know. -/
inductive Deed where
  | check (answer : Bool)
  | enter
  | execute (progress : Progress)
  | exit
  | report (context : Option ContextId) (node : String) (report : Report)
  /-- Anything else that an environment can be asked for. -/
  | other
  deriving Repr, DecidableEq

def Deed.isHook : Deed → Bool
  | .enter | .execute _ | .exit => true
  | _ => false

def Scope.tells (scope : Scope) (report : Report) : Deed := .report (some scope.context) scope.name report

structure Minutes (W : Type) where
  world : W
  deeds : List Deed

namespace Minutes

def noted (minutes : Minutes W) (deed : Deed) (world : W) : Minutes W := ⟨world, minutes.deeds ++ [deed]⟩

instance [Host W] : Host (Minutes W) where
  now context minutes :=
    let (time, world) := Host.now context minutes.world
    (time, minutes.noted .other world)
  flag context key minutes := Host.flag context key minutes.world
  report context node report minutes :=
    minutes.noted (.report context node report) (Host.report context node report minutes.world)
  visit visit minutes := minutes.noted .other (Host.visit visit minutes.world)
  fault minutes := minutes.noted .other (Host.fault minutes.world)

instance [Action W A] : Action (Minutes W) A where
  activate action context minutes :=
    let (action, world) := Action.activate action context minutes.world
    (action, minutes.noted .other world)
  check action context minutes :=
    let (answer, action, world) := Action.check action context minutes.world
    (answer, action, minutes.noted (.check answer) world)
  enter action context minutes :=
    let (action, world) := Action.enter action context minutes.world
    (action, minutes.noted .enter world)
  execute action context minutes :=
    let (progress, action, world) := Action.execute action context minutes.world
    (progress, action, minutes.noted (.execute progress) world)
  exit action context minutes :=
    let (action, world) := Action.exit action context minutes.world
    (action, minutes.noted .exit world)

end Minutes

def Demand.minuted : Demand W → Demand (Minutes W)
  | .check scope => .check scope
  | .tick scope => .tick scope
  | .clear scope => .clear scope
  | .change outside => .change fun minutes => ⟨outside minutes.world, minutes.deeds⟩

/-- What a call of an action consists of, by the status before it, its answer and the status after it. -/
inductive Conduct : ActionStatus → Demand W → List Deed → Answer → ActionStatus → Prop where
  | checked (status : ActionStatus) (scope : Scope) (answer : Bool) :
      Conduct status (.check scope) [.check answer] (.eligible answer) status
  | entered (scope : Scope) :
      Conduct .ready (.tick scope) [scope.tells .entered, .enter, .execute .running] (.progressed .running) .running
  | enteredAndEnded (scope : Scope) :
      Conduct .ready (.tick scope) [scope.tells .entered, .enter, .execute .ended, .exit, scope.tells .exited]
        (.progressed .ended) .ready
  | continued (scope : Scope) :
      Conduct .running (.tick scope) [.execute .running] (.progressed .running) .running
  | ended (scope : Scope) :
      Conduct .running (.tick scope) [.execute .ended, .exit, scope.tells .exited] (.progressed .ended) .ready
  | cleared (scope : Scope) : Conduct .running (.clear scope) [.exit, scope.tells .exited] .nothing .ready
  | leftAlone (scope : Scope) : Conduct .ready (.clear scope) [] .nothing .ready
  | changed (status : ActionStatus) (outside : W → W) : Conduct status (.change outside) [] .nothing status

theorem Conduct.of_entered {scope : Scope} {deeds : List Deed} {answer : Answer} {after : ActionStatus}
    (conduct : Conduct .running (.tick scope : Demand W) deeds answer after) :
    Conduct .ready (.tick scope : Demand W) ([scope.tells .entered, .enter] ++ deeds) answer after := by
  cases conduct with
  | continued => exact .entered scope
  | ended => exact .enteredAndEnded scope

inductive Conducts : ActionStatus → List (Demand W) → List Deed → List Answer → ActionStatus → Prop where
  | none (status : ActionStatus) : Conducts status [] [] [] status
  | call {before between after : ActionStatus} {demand : Demand W} {demands : List (Demand W)}
      {deeds more : List Deed} {answer : Answer} {answers : List Answer}
      (first : Conduct before demand deeds answer between) (rest : Conducts between demands more answers after) :
      Conducts before (demand :: demands) (deeds ++ more) (answer :: answers) after

/-- Every enter is reported right before it, every exit right after it, and nothing else is. -/
inductive Reported : List Deed → Prop where
  | nothing : Reported []
  | checked (answer : Bool) {rest : List Deed} (reported : Reported rest) : Reported (.check answer :: rest)
  | entered (scope : Scope) {rest : List Deed} (reported : Reported rest) :
      Reported (scope.tells .entered :: .enter :: rest)
  | executed (progress : Progress) {rest : List Deed} (reported : Reported rest) :
      Reported (.execute progress :: rest)
  | exited (scope : Scope) {rest : List Deed} (reported : Reported rest) :
      Reported (.exit :: scope.tells .exited :: rest)

theorem Conduct.reported_append {before after : ActionStatus} {demand : Demand W} {deeds rest : List Deed}
    {answer : Answer} (conduct : Conduct before demand deeds answer after) (reported : Reported rest) :
    Reported (deeds ++ rest) := by
  cases conduct with
  | checked _ _ answer => exact .checked answer reported
  | entered scope => exact .entered scope (.executed _ reported)
  | enteredAndEnded scope => exact .entered scope (.executed _ (.exited scope reported))
  | continued => exact .executed _ reported
  | ended scope => exact .executed _ (.exited scope reported)
  | cleared scope => exact .exited scope reported
  | leftAlone | changed => exact reported

theorem Conducts.reported {before after : ActionStatus} {demands : List (Demand W)} {deeds : List Deed}
    {answers : List Answer} (conducts : Conducts before demands deeds answers after) : Reported deeds := by
  induction conducts with
  | none => exact .nothing
  | call first _ ih => exact first.reported_append ih

/-- An engagement that is over. It ended in the tick of its last execution, or it was cleared; the number is that
of the executions before the last one. -/
inductive Engagement where
  | ended (before : Nat)
  | cleared (before : Nat)
  deriving Repr, DecidableEq

namespace Engagement

def executions (count : Nat) : List Deed := List.replicate count (.execute .running)

/-- The hooks of an engagement that is not over. -/
def opened (before : Nat) : List Deed := .enter :: executions (before + 1)

def hooks : Engagement → List Deed
  | .ended before => .enter :: executions before ++ [.execute .ended, .exit]
  | .cleared before => opened before ++ [.exit]

theorem opened_append (before : Nat) : opened before ++ [.execute .running] = opened (before + 1) := by
  rw [opened, List.cons_append, executions, ← List.replicate_succ', opened, executions]

end Engagement

/-- The hooks are those of engagements that are over and, if the action is running, of one that is not. -/
def Engaged (hooks : List Deed) (status : ActionStatus) : Prop :=
  ∃ (closed : List Engagement) (current : Option Nat),
    hooks = closed.flatMap Engagement.hooks ++ current.elim [] Engagement.opened ∧
      (status = .running ↔ current.isSome = true)

namespace Engaged

variable {hooks : List Deed}

theorem idle (closed : List Engagement) (same : hooks = closed.flatMap Engagement.hooks) : Engaged hooks .ready :=
  ⟨closed, none, by rw [same, Option.elim_none, List.append_nil], by simp⟩

theorem busy (closed : List Engagement) (before : Nat)
    (same : hooks = closed.flatMap Engagement.hooks ++ Engagement.opened before) : Engaged hooks .running :=
  ⟨closed, some before, same, by simp⟩

theorem of_ready (engaged : Engaged hooks .ready) :
    ∃ closed : List Engagement, hooks = closed.flatMap Engagement.hooks := by
  obtain ⟨closed, current, same, status⟩ := engaged
  cases current with
  | none => exact ⟨closed, by rw [same, Option.elim_none, List.append_nil]⟩
  | some before => cases status.mpr rfl

theorem of_running (engaged : Engaged hooks .running) : ∃ (closed : List Engagement) (before : Nat),
    hooks = closed.flatMap Engagement.hooks ++ Engagement.opened before := by
  obtain ⟨closed, current, same, status⟩ := engaged
  cases current with
  | none => cases status.mp rfl
  | some before => exact ⟨closed, before, same⟩

theorem idle_append {closed : List Engagement} (same : hooks = closed.flatMap Engagement.hooks) (last : Engagement) :
    Engaged (hooks ++ last.hooks) .ready :=
  idle (closed ++ [last]) (by rw [same, List.flatMap_append, List.flatMap_singleton])

theorem append {before after : ActionStatus} {demand : Demand W} {deeds : List Deed} {answer : Answer}
    (engaged : Engaged hooks before) (conduct : Conduct before demand deeds answer after) :
    Engaged (hooks ++ deeds.filter Deed.isHook) after := by
  cases conduct with
  | checked | leftAlone | changed => rwa [show List.filter Deed.isHook _ = [] from rfl, List.append_nil]
  | entered scope =>
    obtain ⟨closed, same⟩ := engaged.of_ready
    exact busy closed 0 (by rw [same]; rfl)
  | enteredAndEnded scope =>
    obtain ⟨closed, same⟩ := engaged.of_ready
    exact idle_append same (.ended 0)
  | continued scope =>
    obtain ⟨closed, count, same⟩ := engaged.of_running
    refine busy closed (count + 1) ?_
    rw [same, List.append_assoc, ← Engagement.opened_append]
    rfl
  | ended scope =>
    obtain ⟨closed, count, rfl⟩ := engaged.of_running
    rw [List.append_assoc]
    exact idle_append rfl (.ended (count + 1))
  | cleared scope =>
    obtain ⟨closed, count, rfl⟩ := engaged.of_running
    rw [List.append_assoc]
    exact idle_append rfl (.cleared count)

end Engaged

theorem Conducts.engaged {hooks deeds : List Deed} {before after : ActionStatus} {demands : List (Demand W)}
    {answers : List Answer} (conducts : Conducts before demands deeds answers after) (engaged : Engaged hooks before) :
    Engaged (hooks ++ deeds.filter Deed.isHook) after := by
  induction conducts generalizing hooks with
  | none => rwa [List.filter_nil, List.append_nil]
  | call first _ ih =>
    rw [List.filter_append, ← List.append_assoc]
    exact ih (engaged.append first)

variable [Host W] [Action W A]

namespace Lifecycle

def comply (lifecycle : Lifecycle A) (world : W) : Demand W → Answer × Lifecycle A × W
  | .check scope =>
    let (answer, lifecycle, world) := lifecycle.check scope.context world
    (.eligible answer, lifecycle, world)
  | .tick scope =>
    let (progress, lifecycle, world) := lifecycle.tick scope.name scope.context world
    (.progressed progress, lifecycle, world)
  | .clear scope =>
    let (lifecycle, world) := lifecycle.clear scope.name scope.context world
    (.nothing, lifecycle, world)
  | .change outside => (.nothing, lifecycle, outside world)

def drive (lifecycle : Lifecycle A) (world : W) : List (Demand W) → List Answer × Lifecycle A × W
  | [] => ([], lifecycle, world)
  | first :: rest =>
    let (answer, lifecycle, world) := lifecycle.comply world first
    let (answers, lifecycle, world) := lifecycle.drive world rest
    (answer :: answers, lifecycle, world)

def Adds (lifecycle : Lifecycle A) (world : W) (demand : Demand W) (deeds : List Deed) : Prop :=
  ∀ before : List Deed, lifecycle.comply (⟨world, before⟩ : Minutes W) demand.minuted =
    ((lifecycle.comply world demand).1, (lifecycle.comply world demand).2.1,
      ⟨(lifecycle.comply world demand).2.2, before ++ deeds⟩)

section Tick
variable {action after : A} {scope : Scope} {world later : W}

theorem comply_tick_of_ready {entered : A}
    (enters : Action.enter action scope.context (Host.report (some scope.context) scope.name .entered world) =
      (entered, later)) :
    (⟨action, .ready⟩ : Lifecycle A).comply world (.tick scope) =
      (⟨entered, .running⟩ : Lifecycle A).comply later (.tick scope) := by
  simp only [comply, tick, start, enters]

theorem comply_tick_of_goes_on (goesOn : Action.execute action scope.context world = (.running, after, later)) :
    (⟨action, .running⟩ : Lifecycle A).comply world (.tick scope) =
      (.progressed .running, ⟨after, .running⟩, later) := by
  simp only [comply, tick, start, goesOn]

theorem comply_tick_of_ends (ends : Action.execute action scope.context world = (.ended, after, later)) :
    (⟨action, .running⟩ : Lifecycle A).comply world (.tick scope) =
      (.progressed .ended, finish ⟨after, .running⟩ scope.name scope.context later) := by
  simp only [comply, tick, start, ends]

theorem tick_of_running_adds (action : A) (scope : Scope) (world : W) : ∃ deeds,
    Conduct .running (.tick scope : Demand W) deeds
        ((⟨action, .running⟩ : Lifecycle A).comply world (.tick scope)).1
        ((⟨action, .running⟩ : Lifecycle A).comply world (.tick scope)).2.1.status ∧
      (⟨action, .running⟩ : Lifecycle A).Adds world (.tick scope) deeds := by
  rcases executes : Action.execute action scope.context world with ⟨progress, after, later⟩
  have written (before : List Deed) : Action.execute action scope.context (⟨world, before⟩ : Minutes W) =
      (progress, after, ⟨later, before ++ [.execute progress]⟩) := by
    simp only [Action.execute, executes, Minutes.noted]
  cases progress with
  | running =>
    rw [comply_tick_of_goes_on executes]
    refine ⟨_, .continued scope, fun before => ?_⟩
    rw [comply_tick_of_goes_on executes]
    exact comply_tick_of_goes_on (written before)
  | ended =>
    rw [comply_tick_of_ends executes]
    refine ⟨_, .ended scope, fun before => ?_⟩
    rw [comply_tick_of_ends executes]
    refine (comply_tick_of_ends (written before)).trans ?_
    simp [finish, Action.exit, Host.report, Minutes.noted, Scope.tells]

end Tick

theorem comply_adds (lifecycle : Lifecycle A) (world : W) (demand : Demand W) : ∃ deeds,
    Conduct lifecycle.status demand deeds (lifecycle.comply world demand).1
        (lifecycle.comply world demand).2.1.status ∧
      lifecycle.Adds world demand deeds := by
  obtain ⟨action, status⟩ := lifecycle
  cases demand with
  | check scope => exact ⟨_, .checked status scope _, fun before => rfl⟩
  | tick scope =>
    cases status with
    | ready =>
      rcases enters : Action.enter action scope.context
        (Host.report (some scope.context) scope.name .entered world) with ⟨entered, later⟩
      -- Once it is entered, the action does what one that runs does.
      obtain ⟨deeds, conduct, adds⟩ := tick_of_running_adds entered scope later
      rw [comply_tick_of_ready enters]
      refine ⟨_, conduct.of_entered, fun before => ?_⟩
      have written : Action.enter action scope.context
          (Host.report (some scope.context) scope.name .entered (⟨world, before⟩ : Minutes W)) =
            (entered, ⟨later, before ++ [scope.tells .entered, .enter]⟩) := by
        simp [Action.enter, Host.report, enters, Minutes.noted, Scope.tells]
      rw [comply_tick_of_ready enters, ← List.append_assoc]
      exact (comply_tick_of_ready written).trans (adds _)
    | running => exact tick_of_running_adds action scope world
  | clear scope =>
    cases status with
    | ready => exact ⟨_, .leftAlone scope, fun before => by rw [List.append_nil]; rfl⟩
    | running =>
      refine ⟨_, .cleared scope, fun before => ?_⟩
      simp [comply, clear, finish, Demand.minuted, Action.exit, Host.report, Minutes.noted, Scope.tells]
  | change outside => exact ⟨_, .changed status outside, fun before => by rw [List.append_nil]; rfl⟩

theorem drive_conducts (demands : List (Demand W)) (lifecycle : Lifecycle A) (world : W) : ∃ deeds,
    Conducts lifecycle.status demands deeds (lifecycle.drive world demands).1
        (lifecycle.drive world demands).2.1.status ∧
      ∀ before : List Deed, lifecycle.drive (⟨world, before⟩ : Minutes W) (demands.map Demand.minuted) =
        ((lifecycle.drive world demands).1, (lifecycle.drive world demands).2.1,
          ⟨(lifecycle.drive world demands).2.2, before ++ deeds⟩) := by
  induction demands generalizing lifecycle world with
  | nil => exact ⟨[], .none _, fun before => by rw [List.append_nil]; rfl⟩
  | cons first rest ih =>
    obtain ⟨deeds, conduct, adds⟩ := lifecycle.comply_adds world first
    obtain ⟨more, conducts, rests⟩ := ih (lifecycle.comply world first).2.1 (lifecycle.comply world first).2.2
    refine ⟨deeds ++ more, .call conduct conducts, fun before => ?_⟩
    simp only [List.map_cons, drive, adds before, rests, List.append_assoc]

/-- Whatever is asked of an action, its hooks are those of engagements that are over, each ended by its last
execution or cleared, and of one that is not while the action runs. Each call does exactly what its demand, the
status before it and its execution say, and nothing is reported but every enter, before it, and every exit, after
it. -/
theorem drive_engagements (action : A) (before : W) (demands : List (Demand W)) :
    let (answers, lifecycle, minutes) :=
      (fresh action).drive (⟨before, []⟩ : Minutes W) (demands.map Demand.minuted)
    (fresh action).drive before demands = (answers, lifecycle, minutes.world) ∧
      Conducts .ready demands minutes.deeds answers lifecycle.status ∧
      Reported minutes.deeds ∧
      ∃ (closed : List Engagement) (current : Option Nat),
        minutes.deeds.filter Deed.isHook =
          closed.flatMap Engagement.hooks ++ current.elim [] Engagement.opened ∧
        (lifecycle.status = .running ↔ current.isSome = true) := by
  obtain ⟨deeds, conducts, written⟩ := drive_conducts demands (fresh action) before
  rw [written, List.nil_append]
  exact ⟨rfl, conducts, conducts.reported, conducts.engaged (.idle [] rfl)⟩

end Lifecycle

end BehaviorTree
