/-! Interned names. A symbol is an address together with the text stored there, and symbols are
compared by address alone. A table gives every new text the next address that it is allotted. -/

set_option autoImplicit false

namespace BehaviorTree

structure Symbol where
  address : Nat
  text : String
  deriving Repr, DecidableEq

namespace Symbol

def same (left right : Symbol) : Bool := left.address == right.address

def compare (left right : Symbol) : Ordering := Ord.compare left.address right.address

def hashed (symbol : Symbol) : Nat := symbol.address

end Symbol

/-- The texts interned so far, and the address that is allotted to the text at each position. -/
structure SymbolTable where
  texts : List String
  place : Nat → Nat

instance : Repr SymbolTable := ⟨fun table => reprPrec table.texts⟩

namespace SymbolTable

def empty : SymbolTable := ⟨[], id⟩

def size (table : SymbolTable) : Nat := table.texts.length

def intern (table : SymbolTable) (text : String) : Symbol × SymbolTable :=
  match table.texts.idxOf? text with
  | some position => (⟨table.place position, text⟩, table)
  | none => (⟨table.place table.texts.length, text⟩, { table with texts := table.texts ++ [text] })

def internAll (table : SymbolTable) : List String → List Symbol × SymbolTable
  | [] => ([], table)
  | text :: rest =>
    let (symbol, table) := table.intern text
    let (symbols, table) := table.internAll rest
    (symbol :: symbols, table)

end SymbolTable

end BehaviorTree
