import BehaviorTree.Text.Quoted

/-! What a tree reports about itself. A report changes nothing: a rejected edit leaves the node as
it was, and a misused node answers as if it had nothing to do. -/

set_option autoImplicit false

namespace BehaviorTree

inductive Misuse where
  | tickedBeforeActivation
  | emptySequence
  | emptySelector
  deriving Repr, DecidableEq

def Misuse.message : Misuse → String
  | .tickedBeforeActivation => "ticked before activation"
  | .emptySequence => "sequence has no children"
  | .emptySelector => "priority selector has no children"

inductive EditError where
  | addToLeaf (node : String)
  | addToFull (node : String)
  | removeFromLeaf (node : String)
  | removeOutOfRange (node : String) (index count : Nat)
  deriving Repr, DecidableEq

def EditError.message : EditError → String
  | .addToLeaf node => "cannot add a child to action " ++ Text.quoted node
  | .addToFull node => "attempted to add too many nodes to " ++ Text.quoted node
  | .removeFromLeaf node => "cannot remove a child from action " ++ Text.quoted node
  | .removeOutOfRange node index count =>
    "child index " ++ toString index ++ " out of range for " ++ Text.quoted node ++ " with " ++
      toString count ++ " children"

inductive Report where
  | entered
  | exited
  | misuse (cause : Misuse)
  | rejected (error : EditError)
  deriving Repr, DecidableEq

end BehaviorTree
