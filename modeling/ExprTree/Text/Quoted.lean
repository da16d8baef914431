import ExprTree.Text.Hexadecimal
import ExprTree.Text.Invisible

/-!
# Quoted names

A name is shown among other data between quotation marks. The mark itself and the backslash are
escaped, some controls have a letter, and characters without a picture are given by their number.
-/

namespace ExprTree.Text

/-- A character as it stands between quotation marks. -/
def escaped (c : Char) : String :=
  if c = '\x00' then "\\0"
  else if c = '\t' then "\\t"
  else if c = '\r' then "\\r"
  else if c = '\n' then "\\n"
  else if c = '"' then "\\\""
  else if c = '\\' then "\\\\"
  else if isInvisible c then "\\u\x7b" ++ hexadecimal c.toNat ++ "\x7d"
  else String.singleton c

/-- The characters of a list between quotation marks. -/
def escapedList : List Char → String
  | [] => ""
  | c :: rest => escaped c ++ escapedList rest

/-- The name between quotation marks. -/
def quoted (name : String) : String := "\"" ++ escapedList name.toList ++ "\""

end ExprTree.Text
