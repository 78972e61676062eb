import MessagePlan.Decimal.Double

/-!
# Decimals of Fixed Places

The text of a double with a given number of digits after the point. The exact value of the
double is rounded once, a half going to the even neighbour, so that `0.0625` has the text
`0.062` and `0.1875` the text `0.188`. A negative value keeps its sign even where all the
digits that are left are zeros.

## Main definitions

* `scaled`: A double times a power of ten, as a whole number.
* `places`: The text of a double with a fixed number of places.
-/

namespace MessagePlan.Decimal

/-- The magnitude `m * 2 ^ q` times `10 ^ k`, rounded to a whole number. -/
def scaled (k m : Nat) (q : Int) : Nat :=
  match q with
  | .ofNat e => m * twoTo e * tenTo k
  | .negSucc e => roundHalfEven (m * tenTo k) (twoTo (e + 1))

/-- The digits of `n`, with zeros in front of them up to a width of `k`. -/
def padded (k n : Nat) : String :=
  let digits := Nat.toDigits 10 n
  String.ofList (List.replicate (k - digits.length) '0' ++ digits)

/-- The text of `x` with `k` digits after the point, for a positive `k`. -/
def places (k : Nat) (x : Float) : String :=
  match Double.ofFloat x with
  | .nan => "NaN"
  | .infinite negative => if negative then "-inf" else "inf"
  | .finite negative m q =>
    let n := scaled k m q
    (if negative then "-" else "") ++ Nat.repr (n / tenTo k) ++ "." ++ padded k (n % tenTo k)

end MessagePlan.Decimal
