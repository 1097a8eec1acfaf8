import BehaviorTree.Node

/-! Node kinds and gates by the names that definitions use. A constructor runs in the environment
and may leave its mark there; a gate's constructor may refuse its argument. A later registration of
a name replaces an earlier one. -/

set_option autoImplicit false

namespace BehaviorTree

structure Registry (W A P : Type) where
  kinds : List (String × (W → Kind A × W))
  gates : List (String × (Option String → W → Option (Gate P) × W))

namespace Registry

variable {W A P : Type}

def registerKind (registry : Registry W A P) (name : String) (construct : W → Kind A × W) :
    Registry W A P :=
  { registry with kinds := (name, construct) :: registry.kinds }

def registerGate (registry : Registry W A P) (name : String)
    (construct : Option String → W → Option (Gate P) × W) : Registry W A P :=
  { registry with gates := (name, construct) :: registry.gates }

def kind? (registry : Registry W A P) (name : String) : Option (W → Kind A × W) :=
  registry.kinds.lookup name

def gate? (registry : Registry W A P) (name : String) :
    Option (Option String → W → Option (Gate P) × W) :=
  registry.gates.lookup name

/-- The two composites, the two constants, and the flag that an argument names. -/
def standard : Registry W A P where
  kinds := [
    ("Sequence", fun world => (.sequence none, world)),
    ("PrioritySelector", fun world => (.selector none, world))]
  gates := [
    ("True", fun _ world => (some (.constant true), world)),
    ("False", fun _ world => (some (.constant false), world)),
    ("IsTrue", fun argument world => (argument.map Gate.flag, world))]

end Registry

end BehaviorTree
