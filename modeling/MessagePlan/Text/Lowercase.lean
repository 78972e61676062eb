import MessagePlan.Text.CaseIgnorable
import MessagePlan.Text.CaseRuns
import MessagePlan.Text.Cased

/-!
# Lower Case

The lower case of a text, by the full mapping of the Unicode standard. Each letter has a
lower case of its own, with two exceptions: the capital I with a dot becomes two
characters, and the capital sigma has one form at the end of a word and another elsewhere.

## Main definitions

* `endsWord`: Whether a place in a text is the end of a word.
* `lowerLetter`: The lower case of a letter between others.
* `lowercase`: The lower case of a text.
-/

namespace MessagePlan.Text

/-- Whether the first character that case does not look past is cased. -/
def startsCased (cs : List Char) : Bool :=
  match cs.dropWhile isCaseIgnorable with
  | [] => false
  | c :: _ => isCased c

/-- Whether a letter with `before` in front of it, nearest first, and `after` behind it is
    the last one of a word. -/
def endsWord (before after : List Char) : Bool := startsCased before && !startsCased after

/-- The lower case of `c` with `before` in front of it, nearest first, and `after` behind
    it. -/
def lowerLetter (before : List Char) (c : Char) (after : List Char) : List Char :=
  if c = '\u03a3' then
    if endsWord before after then ['\u03c2'] else ['\u03c3']
  else if c = '\u0130' then ['i', '\u0307']
  else [toLowerLetter c]

/-- The lower case of a text with `before` in front of it, nearest first. -/
def lowerFrom (before : List Char) : List Char → List Char
  | [] => []
  | c :: after => lowerLetter before c after ++ lowerFrom (c :: before) after

/-- The lower case of a text. -/
def lowercase (s : String) : String := String.ofList (lowerFrom [] s.toList)

end MessagePlan.Text
