import BehaviorTree.Symbol

/-! A blackboard: values stored under symbols, found again by the symbol's address. -/

set_option autoImplicit false

namespace BehaviorTree

structure Blackboard (V : Type) where
  entries : List (Symbol × V)
  deriving Repr

namespace Blackboard

variable {V : Type}

def empty : Blackboard V := ⟨[]⟩

def get? (board : Blackboard V) (key : Symbol) : Option V :=
  (board.entries.find? fun entry => entry.1.same key).map (·.2)

def remove (board : Blackboard V) (key : Symbol) : Blackboard V :=
  ⟨board.entries.filter fun entry => !entry.1.same key⟩

def set (board : Blackboard V) (key : Symbol) (value : V) : Blackboard V :=
  ⟨(key, value) :: (board.remove key).entries⟩

def keys (board : Blackboard V) : List Symbol := board.entries.map (·.1)

end Blackboard

end BehaviorTree
