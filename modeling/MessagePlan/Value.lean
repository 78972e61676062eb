import MessagePlan.Decimal.Places

/-!
# Values and Messages

What travels along the edges of a factor graph. Scheduling and dispatch only ever ask
whether a message is there and which family it belongs to; the numbers are carried along.

## Main definitions

* `Value`: A number or a series of numbers.
* `Family`: The families of messages that rules tell apart.
* `Message`: A family with its parameters.
* `Value.text`: How a value is shown in a listing.
-/

namespace MessagePlan

/-- A literal: one number, or a series of numbers. -/
inductive Value where
  | scalar (x : Float)
  | series (xs : List Float)
deriving DecidableEq, Inhabited

namespace Value

/-- The value of some numbers; one number alone is a scalar. -/
def ofList : List Float → Value
  | [x] => .scalar x
  | xs => .series xs

/-- The numbers of a value. -/
def toList : Value → List Float
  | .scalar x => [x]
  | .series xs => xs

/-- How many numbers a value has. -/
def length (v : Value) : Nat := v.toList.length

/-- Whether a value has no numbers. -/
def isEmpty (v : Value) : Bool := v.toList.isEmpty

/-- A scalar is shown with three places, a series of one number likewise in brackets, and
    any other series by its length. -/
def text : Value → String
  | .scalar x => Decimal.places 3 x
  | .series [x] => "[" ++ Decimal.places 3 x ++ "]"
  | .series xs => "[len=" ++ Nat.repr xs.length ++ "]"

end Value

/-- The families of messages that rules tell apart. -/
inductive Family where
  | pointMass
  | gaussian
  | gamma
  | wishart
  | bernoulli
  | beta
  | categorical
  | dirichlet
deriving DecidableEq, Hashable, Inhabited, Repr

/-- The name of a family, in listings and in documents. -/
def Family.name : Family → String
  | .pointMass => "PointMass"
  | .gaussian => "Gaussian"
  | .gamma => "Gamma"
  | .wishart => "Wishart"
  | .bernoulli => "Bernoulli"
  | .beta => "Beta"
  | .categorical => "Categorical"
  | .dirichlet => "Dirichlet"

/-- All the families. -/
def Family.all : List Family :=
  [.pointMass, .gaussian, .gamma, .wishart, .bernoulli, .beta, .categorical, .dirichlet]

/-- The family of a name. -/
def Family.ofName? (name : String) : Option Family := Family.all.find? (·.name == name)

/-- A message: its family, and its parameters. -/
structure Message where
  family : Family
  params : Value
deriving DecidableEq, Inhabited

end MessagePlan
