import BehaviorTree.Proofs.Journal

/-! Trees that never complain. A node complains of a call that it cannot act on: a tick before its activation,
any call of a composite without children, an edit that is rejected. A started tree in which every node has
the children that its kind asks for has no cause to, whatever it is called for. -/

set_option autoImplicit false

namespace BehaviorTree

variable {L W A P : Type}

def Entry.isComplaint : Entry L → Bool
  | .report _ _ (.misuse _) | .report _ _ (.rejected _) => true
  | _ => false

namespace Journal

def complaints (journal : Journal L W) : List (Entry L) := journal.entries.filter Entry.isComplaint

theorem complaints_wrote (journal : Journal L W) {entry : Entry L} (quiet : entry.isComplaint = false) (world : W) :
    (journal.wrote entry world).complaints = journal.complaints := by
  simp [complaints, wrote, List.filter_append, quiet]

end Journal

section Lifecycle

variable [Host W] [Action W A] (lifecycle : Lifecycle (Tagged L A)) (name : String) (context : ContextId)
  (journal : Journal L W)

theorem Lifecycle.complaints_finish : (lifecycle.finish name context journal).2.complaints = journal.complaints :=
  (Journal.complaints_wrote _ rfl _).trans (Journal.complaints_wrote _ rfl _)

theorem Lifecycle.complaints_clear : (lifecycle.clear name context journal).2.complaints = journal.complaints := by
  rcases lifecycle with ⟨action, _ | _⟩
  · rfl
  · exact complaints_finish _ name context journal

theorem Lifecycle.complaints_tick : (lifecycle.tick name context journal).2.2.complaints = journal.complaints := by
  have started : (lifecycle.start name context journal).2.complaints = journal.complaints := by
    rcases lifecycle with ⟨action, _ | _⟩
    · exact (Journal.complaints_wrote _ rfl _).trans (Journal.complaints_wrote _ rfl _)
    · rfl
  have executed : (Action.execute (lifecycle.start name context journal).1.action context
      (lifecycle.start name context journal).2).2.2.complaints = (lifecycle.start name context journal).2.complaints :=
    Journal.complaints_wrote _ rfl _
  simp only [tick]
  split
  · next ran => exact (ran ▸ executed).trans started
  · next ran => exact (complaints_finish _ name context _).trans ((ran ▸ executed).trans started)

end Lifecycle

namespace Node

variable {state : NodeState A P} {children : List (Node A P)} {node : Node A P}

/-- Every node has the children that its kind asks for. -/
def Furnished (node : Node A P) : Prop := node.Everywhere fun other => other.minChildren ≤ other.children.length

theorem furnished_mk : (mk state children).Furnished ↔
    state.kind.minChildren ≤ children.length ∧ ∀ child ∈ children, child.Furnished := everywhere_mk

theorem furnished_map {B Q : Type} {change : NodeState A P → NodeState B Q}
    (same : ∀ state, (change state).kind.minChildren = state.kind.minChildren) :
    (node.map change).Furnished ↔ node.Furnished := by
  refine everywhere_map.trans (forall₂_congr fun other _ => ?_)
  cases other
  simp [minChildren, same]

theorem furnished_exchange {B Q : Type} {action : A → B} {probe : P → Q} :
    (node.exchange action probe).Furnished ↔ node.Furnished := furnished_map fun state => by
  cases kind : state.kind <;> simp [NodeState.map, Kind.map, Kind.minChildren, Lifecycle.minChildren, kind]

theorem furnished_placed : node.placed.Furnished ↔ node.Furnished := by
  have same : (node.placed.exchange Tagged.content Tagged.content).Furnished ↔ node.placed.Furnished :=
    furnished_exchange
  rw [exchange_placed] at same
  exact same.symm

theorem furnished_shape {B : Type} {view : A → B} : (node.shape view).Furnished ↔ node.Furnished := by
  have framed : (node.frame view).Furnished ↔ node.Furnished := furnished_map fun state => by
    cases kind : state.kind <;> simp [NodeState.frame, Kind.frame, Kind.minChildren, Lifecycle.minChildren, kind]
  have ungated : (node.shape view).Furnished ↔ (node.frame view).Furnished := furnished_map fun _ => rfl
  exact ungated.trans framed

variable [Host W] [Action W A]

theorem complaints_clearAll {children : List (Node (Tagged L A) (Tagged L P))}
    (each : ∀ child ∈ children, ∀ journal : Journal L W, (child.clear journal).2.complaints = journal.complaints)
    (journal : Journal L W) : (Node.clearAll children journal).2.complaints = journal.complaints := by
  induction children generalizing journal with
  | nil => rfl
  | cons first rest ih =>
    simp only [Node.clearAll, ih fun child member => each child (List.mem_cons_of_mem _ member),
      each first List.mem_cons_self]

theorem clear_complaints {node : Node (Tagged L A) (Tagged L P)} (steady : node.Steady) (journal : Journal L W) :
    (node.clear journal).2.complaints = journal.complaints := by
  induction node generalizing journal with
  | mk state children ih =>
    obtain ⟨sound, below⟩ := steady_mk.mp steady
    have each := fun child member => ih child member (below child member)
    have step := clears sound journal
    generalize Node.clear (.mk state children) journal = result at step ⊢
    cases step with
    | action _ _ _ => exact Lifecycle.complaints_clear _ _ _ journal
    | sequence _ => exact complaints_clearAll each journal
    | idle _ => rfl
    | selector _ selected => exact each _ (List.mem_of_getElem? selected) journal

theorem tick_complaints {node : Node (Tagged L A) (Tagged L P)} (steady : node.Steady) (furnished : node.Furnished)
    (journal : Journal L W) : (node.tick journal).2.2.complaints = journal.complaints := by
  induction node generalizing journal with
  | mk state children ih =>
    obtain ⟨sound, below⟩ := steady_mk.mp steady
    obtain ⟨enough, served⟩ := furnished_mk.mp furnished
    have ticked {index : Nat} {child after : Node (Tagged L A) (Tagged L P)} {progress : Progress}
        {later : Journal L W} (selected : children[index]? = some child)
        (ticking : child.tick journal = (progress, after, later)) :
        later.complaints = journal.complaints ∧ (after.clear later).2.complaints = journal.complaints := by
      have member := List.mem_of_getElem? selected
      have quiet := ih child member (below child member) (served child member) journal
      have kept := (tick_steady (below child member) journal).1
      rw [ticking] at quiet kept
      exact ⟨quiet, (clear_complaints kept later).trans quiet⟩
    have step := ticks sound journal
    generalize Node.tick (.mk state children) journal = result at step ⊢
    cases step with
    | action _ _ _ => exact Lifecycle.complaints_tick _ _ _ journal
    | emptySequence _ kind empty | emptySelector _ kind empty =>
      rw [kind, empty] at enough
      cases enough
    | continued _ selected ticking | chosen _ selected ticking => exact (ticked selected ticking).1
    | advanced _ selected ticking _ | completed _ selected ticking _ | released _ selected ticking =>
      exact (ticked selected ticking).2
    | unchosen _ _ => rfl

end Node

variable [Host W] [Probe W P]

theorem Gate.complaints_check (gate : Gate (Tagged L P)) (context : ContextId) (journal : Journal L W) :
    (gate.check context journal).2.2.complaints = journal.complaints := by
  induction gate generalizing journal with
  | atom question => exact Journal.complaints_wrote _ rfl _
  | constant | flag => rfl
  | not operand ih => exact ih journal
  | and left right ihl ihr | or left right ihl ihr =>
    have first := ihl journal
    rcases answered : left.check context journal with ⟨_ | _, asked, during⟩ <;> rw [answered] at first <;>
      simp only [check, answered, ihr, first]

theorem NodeState.complaints_pass {state admitted : NodeState (Tagged L A) (Tagged L P)} {context : ContextId}
    {journal during : Journal L W} {answer : Bool}
    (admission : state.pass context journal = (answer, admitted, during)) : during.complaints = journal.complaints := by
  have reads : (Host.now context journal).2.complaints = journal.complaints := Journal.complaints_wrote _ rfl _
  simp only [pass] at admission
  split at admission
  · simp only [passGate] at admission
    split at admission
    · cases admission; exact reads
    · cases admission; exact (Gate.complaints_check _ _ _).trans reads
  · cases admission; exact reads

namespace Node

variable [Action W A]

theorem Scans.complaints {children scanned : List (Node (Tagged L A) (Tagged L P))} {journal after : Journal L W}
    {winner : Option Nat} (scan : Scans children journal winner scanned after)
    (each : ∀ child ∈ children, ∀ journal : Journal L W,
      (child.evaluate journal).2.2.complaints = journal.complaints) : after.complaints = journal.complaints := by
  induction scan with
  | exhausted => rfl
  | @agreed first asked rest journal after evaluated =>
    have quiet := each first List.mem_cons_self journal
    rwa [evaluated] at quiet
  | @refused first asked rest others winner journal during after evaluated _ ih =>
    have quiet := each first List.mem_cons_self journal
    rw [evaluated] at quiet
    exact (ih fun child member => each child (List.mem_cons_of_mem _ member)).trans quiet

theorem evaluate_complaints {node : Node (Tagged L A) (Tagged L P)} (steady : node.Steady) (furnished : node.Furnished)
    (journal : Journal L W) : (node.evaluate journal).2.2.complaints = journal.complaints := by
  induction node generalizing journal with
  | mk state children ih =>
    obtain ⟨sound, below⟩ := steady_mk.mp steady
    obtain ⟨enough, served⟩ := furnished_mk.mp furnished
    have each := fun child member => ih child member (below child member) (served child member)
    -- Neither asking a child nor clearing it afterwards complains.
    have asks {child asked : Node (Tagged L A) (Tagged L P)} {answer : Bool} {during after : Journal L W}
        (member : child ∈ children) (evaluated : child.evaluate during = (answer, asked, after)) :
        after.complaints = during.complaints ∧ (asked.clear after).2.complaints = during.complaints := by
      have quiet := each child member during
      have kept := (keeps_evaluate (below child member) during).steady
      rw [evaluated] at quiet kept
      exact ⟨quiet, (clear_complaints kept after).trans quiet⟩
    have step := evaluates sound journal
    generalize Node.evaluate (.mk state children) journal = result at step ⊢
    cases step with
    | refused _ admission => exact NodeState.complaints_pass admission
    | action _ admission _ _ =>
      exact (Journal.complaints_wrote _ rfl _).trans (NodeState.complaints_pass admission)
    -- The kind asks for a child.
    | emptySequence _ _ kind empty | emptySelector _ _ kind empty =>
      rw [kind, empty] at enough
      cases enough
    | probe _ admission _ split evaluated =>
      exact (asks (split ▸ List.mem_cons_self) evaluated).1.trans (NodeState.complaints_pass admission)
    | continued _ admission _ selected evaluated =>
      exact (asks (List.mem_of_getElem? selected) evaluated).1.trans (NodeState.complaints_pass admission)
    | abandoned _ admission _ selected evaluated =>
      exact (asks (List.mem_of_getElem? selected) evaluated).2.trans (NodeState.complaints_pass admission)
    | @selector context admitted during after previous winner scanned _ admission kind scan =>
      have scanned_quiet := (scan.complaints each).trans (NodeState.complaints_pass admission)
      rcases scan.switchTo_eq sound kind with ⟨_, same⟩ | ⟨index, child, _, _, selected, same⟩
      · rw [same]
        exact scanned_quiet
      · have still := scan.steady below child (List.mem_of_getElem? selected)
        rw [same]
        exact (clear_complaints still after).trans scanned_quiet

end Node

namespace Tree

variable [Action W A]

theorem call_complaints {tree : Tree (Tagged Position A) (Tagged Position P)} (steady : tree.root.Steady)
    (furnished : tree.root.Furnished) (journal : Journal Position W) (next : Call W) :
    (tree.call journal next.watched).2.complaints = journal.complaints := by
  cases next with
  | evaluate => exact Node.evaluate_complaints steady furnished journal
  | tick => exact Node.tick_complaints steady furnished journal
  | clear => exact Node.clear_complaints steady journal
  | step =>
    have asked := Node.evaluate_complaints steady furnished journal
    have kept := (Node.keeps_evaluate steady journal).steady
    have shaped := Node.evaluate_shape Journal.hidden steady journal
    have step := tree.steps journal
    rw [Call.watched, call]
    generalize tree.step journal = result at step ⊢
    cases step with
    | refused evaluated =>
      rw [evaluated] at asked kept
      exact (Node.clear_complaints kept _).trans asked
    | agreed evaluated =>
      rw [evaluated] at asked kept shaped
      have still := Node.furnished_shape.mp (shaped ▸ Node.furnished_shape.mpr furnished)
      exact (Node.tick_complaints kept still _).trans asked
  | change outside => rfl

variable {tree : Tree A P}

theorem trace_not_complaint (steady : tree.root.Steady) (furnished : tree.root.Furnished) (world : W) (next : Call W) :
    ∀ entry ∈ tree.trace world next, entry.isComplaint = false := by
  have none : (tree.trace world next).filter Entry.isComplaint = [] :=
    call_complaints (Node.steady_placed.mpr steady) (Node.furnished_placed.mpr furnished) (Journal.of world) next
  simpa using List.filter_eq_nil_iff.mp none

theorem history_not_complaint (steady : tree.root.Steady) (furnished : tree.root.Furnished) (world : W)
    (calls : List (Call W)) : ∀ entry ∈ tree.history world calls, entry.isComplaint = false := by
  induction calls generalizing tree world with
  | nil => exact fun _ member => nomatch member
  | cons next rest ih =>
    intro entry member
    rcases List.mem_append.mp member with now | later
    · exact trace_not_complaint steady furnished world next entry now
    · have shaped := call_shape (Hidden.of_const ()) steady world next
      have still := Node.furnished_shape.mp (shaped ▸ Node.furnished_shape.mpr furnished)
      exact ih (call_steady steady world next) still _ entry later

end Tree

end BehaviorTree
