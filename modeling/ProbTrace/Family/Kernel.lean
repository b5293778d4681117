import ProbTrace.Family.Density
import ProbTrace.Family.Sampling

/-!
# Family — Kernel: proposals from a current value

A flip proposes the other outcome, a Gaussian a random walk of its own deviation; every other
family draws afresh.  `logKernel` scores the step from one value to another.
-/

namespace ProbTrace.Family

/-- Proposes a value to take the place of `current`. -/
def propose (f : Family) (current : Value) (params : List Float) : Draw Value := do
  match f with
  | .flip =>
    let b ← Draw.lift (boolOf .flip current)
    return .bool (!b)
  | .gaussian =>
    let x ← Draw.lift (floatOf .gaussian current)
    let (center, deviation) ← Draw.lift (gaussianAround x params)
    return .float (← Draw.gaussian center deviation)
  | _ => f.sample params

/-- The logarithm of the density with which `target` is proposed from `current`. -/
def logKernel (f : Family) (current target : Value) (params : List Float) :
    Except Error Float := do
  match f with
  | .flip =>
    let a ← boolOf .flip current
    let b ← boolOf .flip target
    return if a != b then 0.0 else Special.negInfinity
  | .gaussian =>
    let x ← floatOf .gaussian current
    let y ← floatOf .gaussian target
    let (center, deviation) ← gaussianAround x params
    return lnGaussian center deviation y
  | _ => f.logDensity target params

/-- One step of a chain of proposals: the value proposed, and the scores there and back. -/
structure Step where
  value   : Value
  forward : Float
  reverse : Float

/-- A chain of `n` proposals, each from the value before it. -/
def chain (f : Family) (params : List Float) : Nat → Value → Draw (List Step)
  | 0,     _       => return []
  | n + 1, current => do
    let target ← f.propose current params
    let forward ← Draw.lift (f.logKernel current target params)
    let reverse ← Draw.lift (f.logKernel target current params)
    return ⟨target, forward, reverse⟩ :: (← chain f params n target)

end ProbTrace.Family
