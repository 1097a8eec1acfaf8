import BehaviorTree.Proofs.Journal

/-! Driving a root by hand. A root that no tree holds can be called before it is activated, and activated more
than once. Up to its first activation nothing that is called changes it; from then on it is as steady as a tree
that was started. -/

set_option autoImplicit false

namespace BehaviorTree

variable {L W A P : Type}

/-- What a host does with a root: it activates it, makes a call, or changes the environment in between. -/
inductive Use (W : Type) where
  | activate (context : ContextId)
  | evaluate
  | tick
  | clear
  | change (outside : W → W)

def Use.noted : Use W → Use (Journal L W)
  | .activate context => .activate context
  | .evaluate => .evaluate
  | .tick => .tick
  | .clear => .clear
  | .change outside => .change fun journal => ⟨outside journal.world, journal.entries⟩

def Use.watched : Use W → Use (Journal Position W)
  | .activate context => .activate context
  | .evaluate => .evaluate
  | .tick => .tick
  | .clear => .clear
  | .change outside => .change fun journal => ⟨outside journal.world, journal.entries⟩

variable [Host W] [Action W A]

namespace Node

variable [Probe W P]

theorem activate_of_active {node : Node A P} (active : node.isActivated = true) (context : ContextId) (world : W) :
    node.activate context world = (node, world) := by
  obtain ⟨state, children⟩ := node
  obtain ⟨held, known⟩ := Option.isSome_iff_exists.mp active
  unfold Node.activate
  rw [show state.context = some held from known]

def use (node : Node A P) (world : W) : Use W → Node A P × W
  | .activate context => node.activate context world
  | .evaluate => (node.evaluate world).2
  | .tick => (node.tick world).2
  | .clear => node.clear world
  | .change outside => (node, outside world)

def drive (node : Node A P) (world : W) : List (Use W) → Node A P × W
  | [] => (node, world)
  | first :: rest =>
    let (node, world) := node.use world first
    node.drive world rest

def trace (node : Node A P) (world : W) (next : Use W) : List (Entry Position) :=
  (node.placed.use (Journal.of world) next.watched).2.entries

/-- A root is as it was built, or it is activated and steady. -/
inductive Driven (node : Node A P) : Prop where
  | built : node.Built → Driven node
  | steady : node.Steady → Driven node

omit [Host W] [Action W A] [Probe W P] in
theorem Built.inactive {node : Node A P} (built : node.Built) : node.state.context = none := by
  have here := (Everywhere.here built).inactive
  simpa [isActivated] using here

omit [Host W] [Action W A] [Probe W P] in
theorem Built.atRest {node : Node A P} (built : node.Built) : node.AtRest :=
  built.mono fun _ untouched => untouched.idle

theorem Driven.use {node : Node A P} (driven : node.Driven) (world : W) (next : Use W) :
    (node.use world next).1.Driven := by
  cases driven with
  | built built =>
    have inactive := built.inactive
    cases next with
    | activate context => exact .steady (activate_resting built context world).steady
    | evaluate => exact .built (by rw [Node.use, evaluate_of_inactive inactive]; exact built)
    | tick => exact .built (by rw [Node.use, tick_of_inactive inactive]; exact built)
    | clear => exact .built (by rw [Node.use, clear_of_inactive inactive]; exact built)
    | change outside => exact .built built
  | steady steady =>
    apply Driven.steady
    cases next with
    | activate context => rwa [Node.use, activate_of_active steady.here.activated]
    | evaluate => exact (keeps_evaluate steady world).steady
    | tick => exact (tick_steady steady world).1
    | clear => exact (clear_resting steady world).steady
    | change outside => exact steady

theorem Driven.drive {node : Node A P} (driven : node.Driven) (world : W) (uses : List (Use W)) :
    (node.drive world uses).1.Driven := by
  induction uses generalizing node world with
  | nil => exact driven
  | cons first rest ih => exact ih (driven.use world first) _

theorem Built.driven {root node : Node A P} (built : root.Built) {before world : W} {uses : List (Use W)}
    (reached : root.drive before uses = (node, world)) : node.Driven := by
  have driven := (Driven.built built).drive before uses
  rwa [reached] at driven

theorem use_exchange (node : Node (Tagged L A) (Tagged L P)) (journal : Journal L W) (next : Use W) :
    (node.exchange Tagged.content Tagged.content).use journal.world next =
      ((node.use journal next.noted).1.exchange Tagged.content Tagged.content,
        (node.use journal next.noted).2.world) := by
  cases next with
  | activate context => simp only [use, Journal.erases.activate_exchange, Use.noted]
  | evaluate => simp only [use, Journal.erases.evaluate_exchange, Use.noted]
  | tick => simp only [use, Journal.erases.tick_exchange, Use.noted]
  | clear => simp only [use, Journal.erases.clear_exchange, Use.noted]
  | change outside => rfl

theorem use_placed (node : Node A P) (world : W) (next : Use W) : node.use world next =
    ((node.placed.use (Journal.of world) next.watched).1.exchange Tagged.content Tagged.content,
      (node.placed.use (Journal.of world) next.watched).2.world) := by
  have same : next.watched = next.noted := by cases next <;> rfl
  have made := node.placed.use_exchange (Journal.of world) next
  rw [exchange_placed, ← same] at made
  exact made

end Node

end BehaviorTree
