import MessagePlan.Text.Extending
import MessagePlan.Text.Printable

/-!
# Quoted Text

Texts in double quotes, so that a reader of an error message sees exactly which characters
they hold. A quote and a backslash get a backslash, the common controls have short escapes,
and whatever shows nothing, or would be drawn over its neighbour, is written by its code
point. A single quote stands as it is.

## Main definitions

* `escapedChar`: One character as it stands between the quotes.
* `quoted`: A text in quotes.
* `quotedList`: A list of texts in quotes.
-/

namespace MessagePlan.Text

/-- A character written by its code point. -/
def codePoint (c : Char) : List Char :=
  ['\\', 'u', '\x7b'] ++ Nat.toDigits 16 c.toNat ++ ['\x7d']

/-- One character as it stands between the quotes. -/
def escapedChar (c : Char) : List Char :=
  if c = '\x00' then ['\\', '0']
  else if c = '\t' then ['\\', 't']
  else if c = '\r' then ['\\', 'r']
  else if c = '\n' then ['\\', 'n']
  else if c = '\\' ∨ c = '"' then ['\\', c]
  else if isExtending c || !isPrintable c then codePoint c
  else [c]

/-- A text in double quotes. -/
def quoted (s : String) : String := "\"" ++ String.ofList (s.toList.flatMap escapedChar) ++ "\""

/-- A list of texts, each in double quotes. -/
def quotedList (ss : List String) : String := "[" ++ ", ".intercalate (ss.map quoted) ++ "]"

end MessagePlan.Text
