import ProbTrace.Family.Parameters
import ProbTrace.Random.Count
import ProbTrace.Random.Interval
import ProbTrace.Random.Positive

/-!
# Family — Sampling: fresh draws

Parameters are checked before the first word is drawn, so a refused draw leaves the generator as
it was.
-/

namespace ProbTrace.Family

/-- A draw from the family. -/
def sample (f : Family) (params : List Float) : Draw Value := do
  match f with
  | .flip =>
    let p ← Draw.lift (flipParams params)
    return .bool (← Draw.bernoulli p)
  | .categorical =>
    let masses ← Draw.lift (categoricalParams params)
    return .int (← Draw.index masses).toUInt64
  | .binomial =>
    let (p, n) ← Draw.lift (binomialParams params)
    return .int (← Draw.binomial p n)
  | .poisson =>
    let mean ← Draw.lift (poissonParams params)
    return .int (← Draw.poisson mean)
  | .uniform =>
    let (lo, hi) ← Draw.lift (uniformParams params)
    return .float (← Draw.uniform lo hi)
  | .gaussian =>
    let (mean, deviation) ← Draw.lift (gaussianParams params)
    return .float (← Draw.gaussian mean deviation)
  | .gamma =>
    let (shape, rate) ← Draw.lift (gammaParams params)
    return .float (← Draw.gamma shape rate)
  | .beta =>
    let (a, b) ← Draw.lift (betaParams params)
    return .float (← Draw.beta a b)

/-- `n` draws, one after the other. -/
def samples (f : Family) (params : List Float) : Nat → Draw (List Value)
  | 0     => return []
  | n + 1 => do
    let v ← f.sample params
    return v :: (← samples f params n)

end ProbTrace.Family
