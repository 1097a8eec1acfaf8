import BehaviorTree.Yaml.Scalar
import BehaviorTree.Yaml.Tag

/-! Tokens. Indentation is made explicit: block collections begin and end with tokens of their own,
and every key has a token before it. The end of a text is the end of its list of tokens. -/

set_option autoImplicit false

namespace BehaviorTree.Yaml

inductive Token where
  | directive
  | documentStart
  | documentEnd
  | blockSequenceStart
  | blockMappingStart
  | blockEnd
  | flowSequenceStart
  | flowSequenceEnd
  | flowMappingStart
  | flowMappingEnd
  | blockEntry
  | flowEntry
  | key
  | value
  | alias (name : String)
  | anchor (name : String)
  | tag (tag : Tag)
  | scalar (scalar : Scalar)
  deriving Repr, DecidableEq

end BehaviorTree.Yaml
