import BehaviorTree.Text.Unprintable

/-! Texts in double quotes and records in braces, for display. Quotes and backslashes are escaped, a few
control characters have short escapes, and every other unprintable character is given by its code point. -/

set_option autoImplicit false

namespace BehaviorTree.Text

def escape (c : Char) : List Char :=
  if c = '"' then ['\\', '"']
  else if c = '\\' then ['\\', '\\']
  else if c = '\x00' then ['\\', '0']
  else if c = '\t' then ['\\', 't']
  else if c = '\r' then ['\\', 'r']
  else if c = '\n' then ['\\', 'n']
  else if isUnprintable c then ['\\', 'u', '{'] ++ Nat.toDigits 16 c.toNat ++ ['}']
  else [c]

def quoted (text : String) : String := String.ofList ('"' :: text.toList.flatMap escape ++ ['"'])

def record (type : String) (fields : List (String × String)) : String :=
  let shown := fields.map fun (name, value) => name ++ ": " ++ value
  type ++ String.ofList [' ', '{', ' '] ++ ", ".intercalate shown ++ String.ofList [' ', '}']

end BehaviorTree.Text
