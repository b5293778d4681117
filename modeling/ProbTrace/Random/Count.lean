import ProbTrace.Random.Draw
import ProbTrace.Special.Gamma

/-!
# Count — draws of truth values, indices and counts

A Bernoulli draw compares a word with the probability on the scale of all words.  An index is drawn
from running sums of masses.  A binomial count is a number of trials; a Poisson count multiplies
uniform draws for small means and rejects from a logistic curve for means of thirty and more.
-/

namespace ProbTrace.Draw

/-- True with probability `p`.  A probability of one needs no word. -/
def bernoulli (p : Float) : Draw Bool := do
  if p == 1.0 then return true
  let w ← word
  return w < (p * 18446744073709551616.0).toUInt64

/-- The running sums of the masses, after `acc`. -/
def runningSums (acc : Float) : List Float → List Float
  | []      => []
  | m :: ms => (acc + m) :: runningSums (acc + m) ms

/-- The sum of the masses. -/
def total (masses : List Float) : Float := masses.foldl (· + ·) 0.0

/-- The first index whose running sum reaches a uniform share of the total. -/
def index (masses : List Float) : Draw Nat := do
  let u ← unit
  let share := u * total masses
  match (runningSums 0.0 masses).findIdx? (fun s => s >= share) with
  | some i => return i
  | none   => stop (.defect .massNotReached)

/-- The number of successes in `n` trials, added to `acc`. -/
def trials (p : Float) : Nat → UInt64 → Draw UInt64
  | 0,     acc => return acc
  | n + 1, acc => do
    let u ← unit
    trials p n (if u < p then acc + 1 else acc)

/-- The number of successes in `n` trials of probability `p`. -/
def binomial (p : Float) (n : UInt64) : Draw UInt64 := trials p n.toNat 0

/-- A Poisson count by products of uniform draws. -/
def poissonSmall (mean : Float) : Draw UInt64 := do
  let limit := (-mean).exp
  let first ← unit
  repeatFrom (fun (count, product) => do
    if product >= limit then
      let u ← unit
      return .inl (count + 1, product * u)
    else return .inr count) roundLimit (0, first)

/-- A Poisson count by rejection from a logistic curve. -/
def poissonLarge (mean : Float) : Draw UInt64 :=
  let c := 0.767 - 3.36 / mean
  let beta := Special.pi / (3.0 * mean).sqrt
  let alpha := beta * mean
  let k := c.log - mean - beta.log
  repeatUntil do
    let u ← unit
    let x := (alpha - ((1.0 - u) / u).log) / beta
    let n := (x + 0.5).floor
    if n < 0.0 then return none
    let v ← unit
    let y := alpha - beta * x
    let t := 1.0 + y.exp
    let left := y + (v / (t * t)).log
    let right := k + n * mean.log - Special.lnFactorial n.toUInt64
    return if left <= right then some n.toUInt64 else none

/-- A draw from the Poisson distribution. -/
def poisson (mean : Float) : Draw UInt64 :=
  if mean < 30.0 then poissonSmall mean else poissonLarge mean

end ProbTrace.Draw
