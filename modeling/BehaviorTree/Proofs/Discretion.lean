import BehaviorTree.Proofs.Ledger

/-! Discreet environments. In these the exit of an action and a question, that is a reading of a clock, a
flag, a check or a probe, do not disturb each other. Nor then do the clearing of a tree and the evaluation
of another one that is at rest, of which either may come first. -/

set_option autoImplicit false

namespace BehaviorTree

variable {A P R S T V W : Type}

/-- Two requests that do not disturb each other. Each finds what it would have found without the other, and
in either order they leave the same environment. -/
structure Apart (act : W → R × W) (ask : W → S × W) : Prop where
  acted : ∀ world, (act (ask world).2).1 = (act world).1
  asked : ∀ world, (ask (act world).2).1 = (ask world).1
  ends : ∀ world, (ask (act world).2).2 = (act (ask world).2).2

def grouped (result : R × S × W) : (R × S) × W := ((result.1, result.2.1), result.2.2)

namespace Apart

variable {act : W → R × W} {ask : W → S × W}

theorem symm (apart : Apart act ask) : Apart ask act :=
  ⟨apart.asked, apart.acted, fun world => (apart.ends world).symm⟩

theorem of_const (act : W → R × W) (value : S) : Apart act fun world => (value, world) :=
  ⟨fun _ => rfl, fun _ => rfl, fun _ => rfl⟩

theorem andThen (first : Apart act ask) (next : S → W → T × W) (rest : ∀ world, Apart act (next (ask world).1)) :
    Apart act fun world => next (ask world).1 (ask world).2 where
  acted world := ((rest world).acted _).trans (first.acted world)
  asked world := by rw [first.asked, first.ends, (rest world).asked]
  ends world := by rw [first.asked, first.ends, (rest world).ends]

theorem map (apart : Apart act ask) (change : S → T) : Apart act fun world => (change (ask world).1, (ask world).2) :=
  ⟨apart.acted, fun world => congrArg change (apart.asked world), apart.ends⟩

theorem branch {ask : W → (Bool × S) × W} (first : Apart act ask) (yes no : S → W → T × W)
    (agreed : ∀ rest, Apart act (yes rest)) (refused : ∀ rest, Apart act (no rest)) :
    Apart act fun world =>
      if (ask world).1.1 then yes (ask world).1.2 (ask world).2 else no (ask world).1.2 (ask world).2 := by
  refine first.andThen (fun (answer, rest) world => if answer then yes rest world else no rest world) fun world => ?_
  rcases (ask world).1 with ⟨_ | _, rest⟩
  · exact refused rest
  · exact agreed rest

theorem congr {same : W → S × W} (apart : Apart act ask) (equal : ∀ world, same world = ask world) : Apart act same :=
  funext equal ▸ apart

end Apart

/-- Nothing that evaluation asks is disturbed by the request, nor disturbs it. -/
structure Unnoticed (A P : Type) [Host W] [Action W A] [Probe W P] (act : W → R × W) : Prop where
  now : ∀ context, Apart act (Host.now context)
  flag : ∀ context key, Apart act fun world => (Host.flag context key world, world)
  check : ∀ (leaf : A) context, Apart act fun world => grouped (Action.check leaf context world)
  probe : ∀ (question : P) context, Apart act fun world => grouped (Probe.check question context world)

/-- No exit of an action is noticed. Reports and readings of a clock change nothing. -/
structure Discreet (W A P : Type) [Host W] [Action W A] [Probe W P] : Prop where
  reading : ∀ (context : ContextId) (world : W), (Host.now context world).2 = world
  report : ∀ context node report (world : W), Host.report context node report world = world
  exit : ∀ (leaf : A) (context : ContextId), Unnoticed A P (Action.exit leaf context : W → A × W)

section Clearing

variable [Host W] [Action W A] {question : W → S × W}

theorem Lifecycle.clear_apart
    (reported : ∀ context node report (world : W), Host.report context node report world = world)
    (exits : ∀ (leaf : A) (context : ContextId), Apart (Action.exit leaf context : W → A × W) question)
    (lifecycle : Lifecycle A) (name : String) (context : ContextId) :
    Apart question (lifecycle.clear name context) := by
  rcases lifecycle with ⟨leaf, _ | _⟩
  · exact .of_const question _
  · refine ((exits leaf context).symm.map fun leaf => (⟨leaf, .ready⟩ : Lifecycle A)).congr fun world => ?_
    simp only [Lifecycle.clear, Lifecycle.finish, reported]

theorem Node.clearAll_apart {children : List (Node A P)} (each : ∀ child ∈ children, Apart question child.clear) :
    Apart question (Node.clearAll children) := by
  induction children with
  | nil => exact .of_const question []
  | cons first rest ih =>
    refine (each first List.mem_cons_self).andThen
      (fun cleared world => (cleared :: (Node.clearAll rest world).1, (Node.clearAll rest world).2)) fun world => ?_
    exact (ih fun child member => each child (List.mem_cons_of_mem _ member)).map fun others => _ :: others

theorem Node.clear_apart (reported : ∀ context node report (world : W), Host.report context node report world = world)
    (exits : ∀ (leaf : A) (context : ContextId), Apart (Action.exit leaf context : W → A × W) question)
    {node : Node A P} (steady : node.Steady) : Apart question node.clear := by
  induction node with
  | mk state children ih =>
    obtain ⟨sound, below⟩ := steady_mk.mp steady
    have each := fun child member => ih child member (below child member)
    obtain ⟨name, kind, gate, cooldown, lastPass, held⟩ := state
    obtain ⟨context, rfl⟩ := sound.context_eq
    have core := sound.core
    cases kind with
    | action lifecycle =>
      exact (lifecycle.clear_apart reported exits name context).map fun lifecycle =>
        Node.mk { name, kind := .action lifecycle, gate, cooldown, lastPass, context := some context } children
    | sequence active =>
      exact (clearAll_apart each).map fun children =>
        Node.mk { name, kind := .sequence none, gate, cooldown, lastPass, context := some context } children
    | selector active =>
      -- A selector clears its active child alone, and a steady one has that child.
      cases active with
      | none => exact .of_const question _
      | some index =>
        have bound : index < children.length := sound.bounded index rfl
        have selected := List.getElem?_eq_getElem bound
        refine ((each children[index] (List.getElem_mem bound)).map fun child => Node.mk
          { name, kind := .selector none, gate, cooldown, lastPass, context := some context }
          (children.set index child)).congr fun world => ?_
        simp only [Node.clear, clearAt_eq selected]
    | inert | relay most least => cases core

end Clearing

variable [Host W] [Action W A] [Probe W P]

theorem Discreet.clear (discreet : Discreet W A P) {node : Node A P} (steady : node.Steady) :
    Unnoticed A P (node.clear : W → Node A P × W) where
  now context := (Node.clear_apart discreet.report (fun leaf held => (discreet.exit leaf held).now context) steady).symm
  flag context key :=
    (Node.clear_apart discreet.report (fun leaf held => (discreet.exit leaf held).flag context key) steady).symm
  check asked context :=
    (Node.clear_apart discreet.report (fun leaf held => (discreet.exit leaf held).check asked context) steady).symm
  probe asked context :=
    (Node.clear_apart discreet.report (fun leaf held => (discreet.exit leaf held).probe asked context) steady).symm

namespace Unnoticed

variable {act : W → R × W} (unnoticed : Unnoticed A P act)
include unnoticed

theorem gate_check (gate : Gate P) (context : ContextId) :
    Apart act fun world => grouped (gate.check context world) := by
  induction gate with
  | atom question => exact (unnoticed.probe question context).map fun (answer, question) => (answer, Gate.atom question)
  | constant answer => exact .of_const act (answer, Gate.constant answer)
  | flag key => exact (unnoticed.flag context key).map fun answer => (answer, Gate.flag key)
  | not operand ih => exact ih.map fun (answer, operand) => (!answer, Gate.not operand)
  | and left right ihl ihr =>
    refine (ihl.branch _ _ (fun left => ihr.map fun (answer, right) => (answer, left.and right))
      fun left => .of_const act (false, left.and right)).congr fun world => ?_
    simp only [Gate.check]
    rcases left.check context world with ⟨_ | _, asked, during⟩ <;> rfl
  | or left right ihl ihr =>
    refine (ihl.branch _ _ (fun left => .of_const act (true, left.or right))
      fun left => ihr.map fun (answer, right) => (answer, left.or right)).congr fun world => ?_
    simp only [Gate.check]
    rcases left.check context world with ⟨_ | _, asked, during⟩ <;> rfl

theorem pass (state : NodeState A P) (context : ContextId) :
    Apart act fun world => grouped (state.pass context world) := by
  have asks (now : Float) :
      Apart act fun world => grouped ({ state with lastPass := some now }.passGate context world) := by
    cases gate : state.gate with
    | none =>
      refine (Apart.of_const act (true, { state with lastPass := some now })).congr fun world => ?_
      simp only [NodeState.passGate, gate, grouped]
    | some held =>
      refine ((unnoticed.gate_check held context).map fun asked =>
        (asked.1, { state with lastPass := some now, gate := some asked.2 })).congr fun world => ?_
      simp only [NodeState.passGate, grouped]
  refine ((unnoticed.now context).andThen (fun now world =>
    if Cooldown.ready state.cooldown state.lastPass now then
      grouped ({ state with lastPass := some now }.passGate context world)
    else ((false, state), world)) fun world => ?_).congr fun world => ?_
  · split
    · exact asks _
    · exact .of_const act _
  · simp only [NodeState.pass]
    split <;> rfl

omit unnoticed in
theorem evaluateFirst {children : List (Node A P)}
    (each : ∀ child ∈ children, Apart act fun world => grouped (child.evaluate world)) :
    Apart act fun world => grouped (Node.evaluateFirst children world) := by
  induction children with
  | nil => exact .of_const act (none, [])
  | cons first rest ih =>
    have others := ih fun child member => each child (List.mem_cons_of_mem _ member)
    refine ((each first List.mem_cons_self).branch _ _ (fun asked => .of_const act (some 0, asked :: rest))
      fun asked => others.map fun (winner, others) => (winner.map (· + 1), asked :: others)).congr fun world => ?_
    simp only [Node.evaluateFirst]
    rcases first.evaluate world with ⟨_ | _, asked, during⟩ <;> rfl

theorem admission {state : NodeState A P} {children : List (Node A P)} {context : ContextId}
    (activated : state.context = some context) (follow : NodeState A P → W → (Bool × Node A P) × W)
    (each : ∀ admitted, Apart act (follow admitted))
    (admits : ∀ world admitted during, state.pass context world = (true, admitted, during) →
      grouped ((Node.mk state children).evaluate world) = follow admitted during) :
    Apart act fun world => grouped ((Node.mk state children).evaluate world) := by
  refine ((unnoticed.pass state context).branch follow _ each fun admitted =>
    .of_const act (false, .mk admitted children)).congr fun world => ?_
  rcases passing : state.pass context world with ⟨_ | _, admitted, during⟩
  · simp only [Node.evaluate, activated, passing, grouped, Bool.false_eq_true, if_false]
  · exact admits world admitted during passing

/-- A tree at rest has nothing to clear when it is evaluated. It only asks. -/
theorem evaluate (reported : ∀ context node report (world : W), Host.report context node report world = world)
    {node : Node A P} (resting : node.Resting) : Apart act fun world => grouped (node.evaluate world) := by
  induction node with
  | mk state children ih =>
    obtain ⟨sound, idle, below⟩ := Node.resting_mk.mp resting
    obtain ⟨context, activated⟩ := sound.context_eq
    have each := fun child member => ih child member (below child member)
    have core := sound.core
    -- No composite at rest has an active child, so that no kind clears anything.
    cases kind : state.kind with
    | action lifecycle =>
      refine unnoticed.admission activated _ (fun admitted =>
        (unnoticed.check lifecycle.action context).map fun asked =>
          (asked.1, Node.mk { admitted with kind := .action ⟨asked.2, lifecycle.status⟩ } children))
        fun world admitted during passing => ?_
      simp only [Node.evaluate, activated, passing, NodeState.pass_kind passing, kind]
      rfl
    | sequence active =>
      obtain rfl : active = none := by simpa [kind, Kind.isRunning] using idle
      cases children with
      | nil =>
        refine unnoticed.admission activated _ (fun admitted => .of_const act (false, Node.mk admitted []))
          fun world admitted during passing => ?_
        simp only [Node.evaluate, activated, passing, NodeState.pass_kind passing, kind, Node.evaluateHead, grouped,
          reported]
      | cons first rest =>
        refine unnoticed.admission activated _ (fun admitted =>
          (each first List.mem_cons_self).map fun asked => (asked.1, Node.mk admitted (asked.2 :: rest)))
          fun world admitted during passing => ?_
        simp only [Node.evaluate, activated, passing, NodeState.pass_kind passing, kind, Node.evaluateHead, grouped]
    | selector active =>
      obtain rfl : active = none := by simpa [kind, Kind.isRunning] using idle
      cases children with
      | nil =>
        refine unnoticed.admission activated _ (fun admitted => .of_const act (false, Node.mk admitted []))
          fun world admitted during passing => ?_
        simp only [Node.evaluate, activated, passing, NodeState.pass_kind passing, kind, List.isEmpty_nil, grouped,
          reported, if_true]
      | cons first rest =>
        refine unnoticed.admission activated _ (fun admitted => (evaluateFirst each).map fun asked =>
          (asked.1.isSome, Node.mk { admitted with kind := .selector asked.1 } asked.2))
          fun world admitted during passing => ?_
        simp only [Node.evaluate, activated, passing, NodeState.pass_kind passing, kind, List.isEmpty_cons, grouped,
          Bool.false_eq_true, if_false, Node.switchTo]
    | inert | relay most least => simp [Node.isCore, kind] at core

end Unnoticed

/-! A ledger of lifecycles in a discreet environment is discreet: it writes down no question. -/

section Lifecycles

variable {L : Type}

theorem Ledger.apart {R' S' : Type} {keep : Entry L → Bool} {act : V → R × V} {ask : V → S × V}
    (apart : Apart act ask) (entry : Entry L) (left : R → R') (right : S → S') :
    Apart (fun ledger : Ledger L V keep => (left (act ledger.world).1, ledger.wrote entry (act ledger.world).2))
      fun ledger => (right (ask ledger.world).1, ⟨(ask ledger.world).2, ledger.entries⟩) where
  acted ledger := congrArg left (apart.acted ledger.world)
  asked ledger := congrArg right (apart.asked ledger.world)
  ends ledger := by simp only [wrote, apart.ends]

variable [Host V] [Action V A] [Probe V P]

theorem Unnoticed.ledger {leaf : A} {context : ContextId}
    (unnoticed : Unnoticed A P (Action.exit leaf context : V → A × V)) (label : L) :
    Unnoticed (Tagged L A) (Tagged L P) fun ledger : Ledger L V Entry.isLifecycle =>
      Action.exit (Tagged.mk label leaf) context ledger where
  now other := (Ledger.apart (unnoticed.now other) (.action .exit label) (Tagged.mk label) id).congr fun ledger =>
    Prod.ext rfl (ledger.wrote_eq (rfl : Entry.isLifecycle (.clock other) = false) _)
  flag other key := Ledger.apart (unnoticed.flag other key) (.action .exit label) (Tagged.mk label) id
  check asked other := (Ledger.apart (unnoticed.check asked.content other) (.action .exit label) (Tagged.mk label)
    fun (answer, content) => (answer, Tagged.mk asked.label content)).congr fun ledger =>
      Prod.ext rfl (ledger.wrote_eq (rfl : Entry.isLifecycle (.action .check asked.label) = false) _)
  probe asked other := (Ledger.apart (unnoticed.probe asked.content other) (.action .exit label) (Tagged.mk label)
    fun (answer, content) => (answer, Tagged.mk asked.label content)).congr fun ledger =>
      Prod.ext rfl (ledger.wrote_eq (rfl : Entry.isLifecycle (.probe .check asked.label) = false) _)

theorem Discreet.ledger (discreet : Discreet V A P) :
    Discreet (Ledger L V Entry.isLifecycle) (Tagged L A) (Tagged L P) where
  reading context ledger := ledger.now_eq rfl (discreet.reading context ledger.world)
  report context node report ledger := by
    have unkept : Entry.isLifecycle (.report context node report : Entry L) = false := rfl
    simp only [Host.report, ledger.wrote_eq unkept, discreet.report context node report ledger.world]
  exit tagged context := (discreet.exit tagged.content context).ledger tagged.label

end Lifecycles

end BehaviorTree
