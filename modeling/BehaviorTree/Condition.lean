/-! Conditions: boolean combinations of named probes, as written after `when:` or in a document. -/

set_option autoImplicit false

namespace BehaviorTree

/-- An atom names a registered probe and may give it one text argument. -/
inductive Condition where
  | atom (name : String) (argument : Option String)
  | not (operand : Condition)
  | and (left right : Condition)
  | or (left right : Condition)
  deriving Repr, DecidableEq

end BehaviorTree
