/-!
# Doubles Taken Apart

A finite double is a sign and a whole number times a power of two. Every text of a double
that this library writes is computed from those three in exact arithmetic, so that no
rounding happens on the way but the one that the text asks for.

## Main definitions

* `twoTo`, `tenTo`: Powers of two and of ten.
* `Double`: A double as a sign, a significand and a power of two, or as one of the values
  that are no number.
* `Double.ofFloat`: Reading the fields of a double.
* `roundHalfEven`: The whole number nearest to a quotient.
-/

namespace MessagePlan.Decimal

/-- The `k`-th power of two. -/
def twoTo (k : Nat) : Nat := Nat.pow 2 k

/-- The `k`-th power of ten. -/
def tenTo (k : Nat) : Nat := Nat.pow 10 k

/-- A double taken apart: `finite s m q` is `m * 2 ^ q`, negated if `s`. -/
inductive Double where
  | nan
  | infinite (negative : Bool)
  | finite (negative : Bool) (significand : Nat) (power : Int)
deriving DecidableEq, Repr

/-- The fields of a double.  The least power of two is that of the subnormal numbers, which
    are the only ones whose significand has fewer than 53 bits. -/
def Double.ofFloat (x : Float) : Double :=
  let bits : Nat := x.toBits.toNat
  let negative := bits / twoTo 63 == 1
  let exponent : Nat := bits / twoTo 52 % twoTo 11
  let fraction : Nat := bits % twoTo 52
  if exponent = 2047 then
    if fraction = 0 then .infinite negative else .nan
  else if exponent = 0 then .finite negative fraction (-1074)
  else .finite negative (twoTo 52 + fraction) ((exponent : Int) - 1075)

/-- The whole number nearest to `n / d`, and of two equally near ones the even one. -/
def roundHalfEven (n d : Nat) : Nat :=
  let q := n / d
  let r := n % d
  if 2 * r < d then q else if d < 2 * r then q + 1 else if q % 2 = 0 then q else q + 1

end MessagePlan.Decimal
