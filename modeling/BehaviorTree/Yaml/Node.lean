import BehaviorTree.Yaml.Token

/-! Nodes as they are written, with anchors and aliases by name. -/

set_option autoImplicit false

namespace BehaviorTree.Yaml

inductive Node where
  | scalar (anchor : Option String) (tag : Option Tag) (scalar : Scalar)
  | sequence (anchor : Option String) (items : List Node)
  | mapping (anchor : Option String) (entries : List (Node × Node))
  | alias (name : String)
  deriving Repr

/-- What stands for a node that is left out. -/
def Node.omitted : Node := .scalar none none ⟨.plain, "~"⟩

end BehaviorTree.Yaml
