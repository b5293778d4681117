import ProbTrace.Random.Normal

/-!
# Positive — draws from the gamma and beta distributions

A gamma draw squeezes the cube of a shifted normal draw; a shape below one is raised by one and
corrected by a power.  A beta draw is the share of one gamma draw in the sum of two.
-/

namespace ProbTrace.Draw

/-- A normal draw `x` for which `1 + c * x` is above zero, with that number. -/
def shiftedNormal (c : Float) : Draw (Float × Float) :=
  repeatUntil do
    let x ← gaussian 0.0 1.0
    let v := 1.0 + c * x
    return if v > 0.0 then some (x, v) else none

/-- The factor of a gamma draw of shape `d + 1 / 3`. -/
def gammaFactor (d : Float) : Draw Float :=
  let c := 1.0 / (9.0 * d).sqrt
  repeatUntil do
    let (x, v) ← shiftedNormal c
    let v := v * (v * v)
    let x := x * x
    let u ← unit
    let accepted :=
      u < 1.0 - 0.0331 * x * x || u.log < 0.5 * x + d * (1.0 - v + v.log)
    return if accepted then some v else none

/-- A draw from the gamma distribution of the given shape and rate. -/
def gamma (shape rate : Float) : Draw Float := do
  let (a, correction) ←
    if shape < 1.0 then do
      let u ← unit
      pure (shape + 1.0, Float.pow u (1.0 / shape))
    else pure (shape, 1.0)
  let d := a - 1.0 / 3.0
  let v ← gammaFactor d
  return correction * d * v / rate

/-- A draw from the beta distribution. -/
def beta (a b : Float) : Draw Float := do
  let x ← gamma a 1.0
  let y ← gamma b 1.0
  return x / (x + y)

end ProbTrace.Draw
