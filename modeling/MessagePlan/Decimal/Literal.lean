import MessagePlan.Decimal.Double

/-!
# Reading Decimals

The double that a decimal literal stands for. The digits are gathered into a significand as
long as it fits into 64 bits, and the digits after that are dropped. The significand is
rounded to a double and then multiplied or divided by a power of ten, which rounds once
more: the reading is fast and may miss the nearest double by one unit in the last place.
A literal beyond the largest double is refused, and one below the least reads as zero.

## Main definitions

* `Literal`: A decimal literal taken apart into its digits and its exponent.
* `Literal.ofText?`: Taking a literal apart.
* `Literal.toFloat?`: The double that a literal stands for.
* `wholeNumber?`: The number that a literal without sign, point and exponent stands for.
-/

namespace MessagePlan.Decimal

/-- A decimal literal: a sign, the digits before and after the point, and an exponent. -/
structure Literal where
  negative : Bool
  whole : List Nat
  fraction : List Nat
  exponent : Int

/-- The value of a digit. -/
def digit (c : Char) : Nat := c.toNat - '0'.toNat

/-- The digits at the front of a text, and what follows them. -/
def splitDigits (cs : List Char) : List Nat × List Char :=
  ((cs.takeWhile Char.isDigit).map digit, cs.dropWhile Char.isDigit)

/-- The number that a row of digits stands for. -/
def ofDigits (ds : List Nat) : Nat := ds.foldl (fun n d => n * 10 + d) 0

/-- The exponent part of a literal, or `none` if the text is not an exponent part. -/
def exponentPart : List Char → Option Int
  | [] => some 0
  | e :: cs =>
    if e = 'e' ∨ e = 'E' then
      let (negative, cs) := match cs with
        | '-' :: rest => (true, rest)
        | '+' :: rest => (false, rest)
        | _ => (false, cs)
      match splitDigits cs with
      | (d :: ds, []) =>
        let n := ofDigits (d :: ds)
        some (if negative then -(n : Int) else n)
      | _ => none
    else none

/-- A literal taken apart. -/
def Literal.ofText? (text : String) : Option Literal :=
  let (negative, cs) := match text.toList with
    | '-' :: rest => (true, rest)
    | cs => (false, cs)
  match splitDigits cs with
  | ([], _) => none
  | (whole, '.' :: rest) =>
    match splitDigits rest with
    | ([], _) => none
    | (fraction, rest) => (exponentPart rest).map fun e => ⟨negative, whole, fraction, e⟩
  | (whole, rest) => (exponentPart rest).map fun e => ⟨negative, whole, [], e⟩

/-- A significand grown by as many digits as fit into 64 bits, and how many were left. -/
def gather (significand : Nat) : List Nat → Nat × Nat
  | [] => (significand, 0)
  | d :: ds =>
    let grown := significand * 10 + d
    if UInt64.size ≤ grown then (significand, (d :: ds).length) else gather grown ds

/-- The double nearest to a power of ten. -/
def powerOfTen (k : Nat) : Float := Float.ofScientific 1 false k

/-- A double divided by a power of ten, by at most `10 ^ 308` at a time. -/
def divided (x : Float) (k : Nat) : Float :=
  if k ≤ 308 then x / powerOfTen k
  else if x == 0 then x
  else divided (x / powerOfTen 308) (k - 308)
termination_by k

/-- A significand times a power of ten, or `none` where that exceeds the doubles. -/
def scale? (significand : Nat) (exponent : Int) : Option Float :=
  let x := (UInt64.ofNat significand).toFloat
  match exponent with
  | .ofNat k =>
    if k ≤ 308 then
      let y := x * powerOfTen k
      if y.isInf then none else some y
    else if x == 0 then some x else none
  | .negSucc k => some (divided x (k + 1))

/-- The double that a literal stands for, or `none` where it exceeds the doubles. -/
def Literal.toFloat? (l : Literal) : Option Float :=
  let (significand, dropped) := gather 0 l.whole
  let (significand, left) := gather significand l.fraction
  let taken := l.fraction.length - left
  let magnitude := scale? significand (l.exponent + dropped - taken)
  if l.negative then magnitude.map (- ·) else magnitude

/-- The double that the text of a literal stands for. -/
def float? (text : String) : Option Float := (Literal.ofText? text).bind Literal.toFloat?

/-- The number that a text of digits alone stands for, without zeros in front. -/
def wholeNumber? (text : String) : Option Nat :=
  match text.toList with
  | [] => none
  | ['0'] => some 0
  | '0' :: _ => none
  | cs => if cs.all Char.isDigit then some (ofDigits (cs.map digit)) else none

end MessagePlan.Decimal
