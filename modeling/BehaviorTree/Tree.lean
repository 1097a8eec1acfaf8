import BehaviorTree.Node.Activation
import BehaviorTree.Node.Evaluation
import BehaviorTree.Node.Ticking

/-! A root together with the context it was started in, driven one step at a time. -/

set_option autoImplicit false

namespace BehaviorTree

structure Tree (A P : Type) where
  root : Node A P
  context : ContextId

namespace Tree

variable {W A P : Type} [Host W] [Action W A] [Probe W P]

/-- Starting activates the root. A root that was activated before keeps its own context. -/
def start (root : Node A P) (context : ContextId) (world : W) : Tree A P × W :=
  let (root, world) := root.activate context world
  (⟨root, context⟩, world)

def clear (tree : Tree A P) (world : W) : Tree A P × W :=
  let (root, world) := tree.root.clear world
  (⟨root, tree.context⟩, world)

/-- Ticks an eligible root; a root that is not eligible is cleared, so that nothing stays half run. -/
def step (tree : Tree A P) (world : W) : Option Progress × Tree A P × W :=
  match tree.root.evaluate world with
  | (true, root, world) =>
    let (progress, root, world) := root.tick world
    (some progress, ⟨root, tree.context⟩, world)
  | (false, root, world) =>
    let (root, world) := root.clear world
    (none, ⟨root, tree.context⟩, world)

end Tree

end BehaviorTree
