import ProbTrace.Family.Parameters
import ProbTrace.Special.Closeness
import ProbTrace.Special.Gamma

/-!
# Family — Density: how likely a value is

Logarithms of densities and masses.  A value of the wrong kind is refused before the parameters
are looked at.
-/

namespace ProbTrace.Family

open Special

/-- The mass of `k` successes in `n` trials. -/
def lnBinomial (p : Float) (n k : UInt64) : Float :=
  if n < k then negInfinity
  else if closeToZero p then (if k == 0 then 0.0 else negInfinity)
  else if close p 1.0 then (if k == n then 0.0 else negInfinity)
  else
    let ways := lnFactorial n - lnFactorial k - lnFactorial (n - k)
    ways + k.toFloat * p.log + (n - k).toFloat * (1.0 - p).log

/-- The share of mass number `i`; past the last one there is none. -/
def lnCategorical (masses : List Float) (i : UInt64) : Float :=
  match masses[i.toNat]? with
  | some m => (m / masses.foldl (· + ·) 0.0).log
  | none   => negInfinity

/-- The mass of the count `k`. -/
def lnPoisson (mean : Float) (k : UInt64) : Float :=
  -mean + k.toFloat * mean.log - lnFactorial k

/-- The density between two bounds. -/
def lnUniform (lo hi x : Float) : Float :=
  if x < lo || x > hi then negInfinity else -(hi - lo).log

/-- Half the logarithm of twice pi. -/
def lnSqrtTwoPi : Float := 0.91893853320467274178032973640561763986139747363778

/-- The density of the bell curve. -/
def lnGaussian (mean deviation x : Float) : Float :=
  let d := (x - mean) / deviation
  let bell := -0.5 * d * d
  bell - lnSqrtTwoPi - deviation.log

/-- The density of the gamma distribution. -/
def lnGammaDensity (shape rate x : Float) : Float :=
  if x < 0.0 then negInfinity
  else if close shape 1.0 then rate.log - rate * x
  else if x.isInf then negInfinity
  else shape * rate.log + (shape - 1.0) * x.log - rate * x - lnGamma shape

/-- The density of the beta distribution. -/
def lnBeta (a b x : Float) : Float :=
  if !(0.0 <= x && x <= 1.0) then negInfinity
  else if a.isInf then (if close x 1.0 then infinity else negInfinity)
  else if b.isInf then (if closeToZero x then infinity else negInfinity)
  else if close a 1.0 && close b 1.0 then 0.0
  else
    let whole := lnGamma (a + b) - lnGamma a - lnGamma b
    let low :=
      if close a 1.0 && closeToZero x then 0.0
      else if closeToZero x then negInfinity
      else (a - 1.0) * x.log
    let high :=
      if close b 1.0 && close x 1.0 then 0.0
      else if close x 1.0 then negInfinity
      else (b - 1.0) * (1.0 - x).log
    whole + low + high

/-- The logarithm of the density or mass of a value. -/
def logDensity (f : Family) (v : Value) (params : List Float) : Except Error Float := do
  match f with
  | .flip =>
    let b ← boolOf .flip v
    let p ← flipParams params
    return lnBinomial p 1 (if b then 1 else 0)
  | .categorical =>
    let i ← intOf .categorical v
    let masses ← categoricalParams params
    return lnCategorical masses i
  | .binomial =>
    let k ← intOf .binomial v
    let (p, n) ← binomialParams params
    return lnBinomial p n k
  | .poisson =>
    let k ← intOf .poisson v
    let mean ← poissonParams params
    return lnPoisson mean k
  | .uniform =>
    let x ← floatOf .uniform v
    let (lo, hi) ← uniformParams params
    return lnUniform lo hi x
  | .gaussian =>
    let x ← floatOf .gaussian v
    let (mean, deviation) ← gaussianParams params
    return lnGaussian mean deviation x
  | .gamma =>
    let x ← floatOf .gamma v
    let (shape, rate) ← gammaParams params
    return lnGammaDensity shape rate x
  | .beta =>
    let x ← floatOf .beta v
    let (a, b) ← betaParams params
    return lnBeta a b x

end ProbTrace.Family
