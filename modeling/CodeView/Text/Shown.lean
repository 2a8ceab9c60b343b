import CodeView.Text.Escape
import CodeView.Text.Faceless

/-!
# Messages between quotes

A message is shown between quotes such that every character of it can be told: escapes as in a
string literal, and the number of a character that has no shape of its own.
-/

namespace CodeView.Text

/-- The number of a character, in hexadecimal between braces. -/
def numbered (c : Char) : List Char :=
  '\\' :: 'u' :: '\x7b' :: Nat.toDigits 16 c.toNat ++ ['\x7d']

/-- How a character of a message is shown. -/
def shownChar (c : Char) : List Char :=
  if c.toNat = 0 then ['\\', '0']
  else if escapeChar c = [c] ∧ isFaceless c then numbered c
  else escapeChar c

/-- A message between quotes. -/
def shown (message : String) : String :=
  "\"" ++ String.ofList (message.toList.flatMap shownChar) ++ "\""

end CodeView.Text
