import MessagePlan.Decimal.Double

/-!
# Shortest Decimals

The decimal with the fewest digits that lies closer to a double than to any other double.
The reals that round to `m * 2 ^ q` form an interval, whose ends belong to it when `m` is
even. For one digit, two digits and so on, the two decimals of that many digits on either
side of the value are tried, and the first number of digits with a decimal in the interval
is taken; of two such decimals the nearer one, and the even one of two equally near.

Values are compared as whole numbers: with `s = q - 2`, the double is `4 * m` units of
`2 ^ s`, and a decimal `c * 10 ^ k` is brought to the same denominator by `unit` and
`grain`.

## Main definitions

* `Rounding`: The interval of the reals that round to a double.
* `magnitude`: The place of the leading digit of a positive double.
* `shortest`: The digits of the shortest decimal and the power of ten they count.
-/

namespace MessagePlan.Decimal

/-- The reals that round to a double, in quarters of the unit in its last place. -/
structure Rounding where
  low : Nat
  value : Nat
  high : Nat
  closed : Bool

/-- The interval around `m * 2 ^ q`.  Just above a power of two the doubles below lie twice
    as close as those above, except among the subnormal numbers. -/
def Rounding.around (m : Nat) (q : Int) : Rounding :=
  { low := if m = twoTo 52 ∧ q ≠ -1074 then 4 * m - 1 else 4 * m - 2
    value := 4 * m
    high := 4 * m + 2
    closed := m % 2 == 0 }

/-- The factor of a number of units `2 ^ s` over the common denominator with `10 ^ k`. -/
def unit (s k : Int) : Nat := twoTo s.toNat * tenTo (-k).toNat

/-- The factor of a number of steps `10 ^ k` over the common denominator with `2 ^ s`. -/
def grain (s k : Int) : Nat := tenTo k.toNat * twoTo (-s).toNat

/-- The least `p` with `m * 2 ^ q < 10 ^ p`, for a positive `m`: how many digits stand
    before the point, negative where zeros follow the point. -/
def magnitude (m : Nat) (q : Int) : Int :=
  ((Nat.toDigits 10 (m * unit q (-340) / grain q (-340))).length : Int) - 340

/-- A decimal of `10 ^ k` steps that rounds to the double, if one of the two around the
    value does. -/
def onGrid (r : Rounding) (s k : Int) : Option Nat :=
  let u := unit s k
  let g := grain s k
  let inside (c : Nat) : Bool :=
    if r.closed then decide (r.low * u ≤ c * g ∧ c * g ≤ r.high * u)
    else decide (r.low * u < c * g ∧ c * g < r.high * u)
  let c := r.value * u / g
  match inside c && c != 0, inside (c + 1) with
  | true, true =>
    let below := r.value * u - c * g
    let above := (c + 1) * g - r.value * u
    some (if below < above then c else if above < below then c + 1
      else if c % 2 = 0 then c else c + 1)
  | true, false => some c
  | false, true => some (c + 1)
  | false, false => none

/-- A decimal without zeros at its end: `fuel` bounds their number. -/
def stripped : Nat → Nat → Int → Nat × Int
  | 0, c, k => (c, k)
  | fuel + 1, c, k => if c % 10 = 0 then stripped fuel (c / 10) (k + 1) else (c, k)

/-- The shortest decimal of `m * 2 ^ q`, for a positive `m`, as digits and the power of ten
    they count.  With seventeen digits there is always one; the value cut off there stands
    for it where the function is asked of something that is no double. -/
def shortest (m : Nat) (q : Int) : Nat × Int :=
  let r := Rounding.around m q
  let s := q - 2
  let p := magnitude m q
  let found := (List.range 17).findSome? fun (n : Nat) =>
    let k : Int := p - ((n : Int) + 1)
    (onGrid r s k).map fun c => (c, k)
  match found with
  | some (c, k) => stripped 17 c k
  | none => (r.value * unit s (p - 17) / grain s (p - 17), p - 17)

end MessagePlan.Decimal
