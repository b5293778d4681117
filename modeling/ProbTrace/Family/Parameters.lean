import ProbTrace.Family.Basic

/-!
# Family — Parameters: which parameters a family accepts

Each function reads the parameters of one family: first their number, then what the family itself
demands, then the conditions under which the distribution exists.
-/

namespace ProbTrace.Family

/-- What is said of parameters under which the distribution does not exist. -/
def badParameters : String := "Bad distribution parameters"

/-- Accepts when `ok` holds. -/
def accept {α : Type} (f : Family) (ok : Bool) (a : α) : Except Error α :=
  if ok then .ok a else f.invalid badParameters

/-- The error of the wrong number of parameters. -/
def wrongCount {α : Type} (f : Family) (expected : Nat) (params : List Float) :
    Except Error α :=
  f.invalid ("expected " ++ Decimal.natText expected ++ " parameters, got " ++
    Decimal.natText params.length)

/-- A single parameter. -/
def one (f : Family) : List Float → Except Error Float
  | [x]    => .ok x
  | params => f.wrongCount 1 params

/-- Two parameters. -/
def two (f : Family) : List Float → Except Error (Float × Float)
  | [x, y] => .ok (x, y)
  | params => f.wrongCount 2 params

/-- Whether `p` is a probability. -/
def isProbability (p : Float) : Bool := !p.isNaN && !(p < 0.0) && !(p > 1.0)

/-- The probability of a flip. -/
def flipParams (params : List Float) : Except Error Float := do
  let p ← one .flip params
  accept .flip (isProbability p) p

/-- The masses of a categorical choice: at least one, none negative, not all zero. -/
def categoricalParams (params : List Float) : Except Error (List Float) :=
  if params.isEmpty then invalid .categorical "no outcomes"
  else
    let bad := params.any fun m => m < 0.0 || m.isNaN
    accept .categorical (!bad && params.foldl (· + ·) 0.0 != 0.0) params

/-- Whether `x` is a natural number. -/
def isCount (x : Float) : Bool := !(x < 0.0) && x - x.floor == 0.0

/-- The number of trials of a binomial choice.  A number over the largest word counts as that. -/
def trials (params : List Float) : Except Error (Float × UInt64) := do
  let (p, n) ← two .binomial params
  if isCount n then return (p, n.toUInt64)
  else invalid .binomial ("trial count " ++ Decimal.plain n ++ " is not a count")

/-- The probability and the number of trials of a binomial choice. -/
def binomialParams (params : List Float) : Except Error (Float × UInt64) := do
  let (p, n) ← trials params
  accept .binomial (isProbability p) (p, n)

/-- The mean of a Poisson choice. -/
def poissonParams (params : List Float) : Except Error Float := do
  let mean ← one .poisson params
  accept .poisson (!mean.isNaN && !(mean <= 0.0)) mean

/-- The bounds of a uniform choice. -/
def uniformParams (params : List Float) : Except Error (Float × Float) := do
  let (lo, hi) ← two .uniform params
  accept .uniform (!lo.isNaN && !hi.isNaN && !(lo > hi)) (lo, hi)

/-- Whether a normal distribution of this mean and deviation exists. -/
def isNormal (mean deviation : Float) : Bool :=
  !mean.isNaN && !deviation.isNaN && !(deviation <= 0.0)

/-- The mean and the deviation of a Gaussian choice. -/
def gaussianParams (params : List Float) : Except Error (Float × Float) := do
  let (mean, deviation) ← two .gaussian params
  accept .gaussian (isNormal mean deviation) (mean, deviation)

/-- The Gaussian parameters with the mean at `center`. -/
def gaussianAround (center : Float) (params : List Float) : Except Error (Float × Float) := do
  let (_, deviation) ← two .gaussian params
  accept .gaussian (isNormal center deviation) (center, deviation)

/-- Whether two numbers are positive and not both infinite. -/
def arePositive (x y : Float) : Bool :=
  !x.isNaN && !y.isNaN && !(x.isInf && y.isInf) && !(x <= 0.0) && !(y <= 0.0)

/-- The shape of a gamma choice and its rate, one over the scale. -/
def gammaParams (params : List Float) : Except Error (Float × Float) := do
  let (shape, scale) ← two .gamma params
  if scale <= 0.0 then invalid .gamma "scale must be positive"
  let rate := 1.0 / scale
  accept .gamma (arePositive shape rate) (shape, rate)

/-- The two shapes of a beta choice. -/
def betaParams (params : List Float) : Except Error (Float × Float) := do
  let (a, b) ← two .beta params
  accept .beta (arePositive a b) (a, b)

end ProbTrace.Family
