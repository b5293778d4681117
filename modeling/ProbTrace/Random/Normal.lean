import ProbTrace.Random.Draw
import ProbTrace.Random.Ziggurat

/-!
# Normal — draws from the bell curve

One word picks a layer of the ziggurat and a place in it.  A place inside the part of the layer
that lies wholly under the curve is taken at once, one in the corner by a second draw, and the
lowest layer falls back on the tail.
-/

namespace ProbTrace.Draw

/-- The distance of a tail draw beyond the start of the tail, as a number no larger than zero. -/
def normalTail : Draw Float :=
  repeatUntil do
    let p ← unitOpen
    let q ← unitOpen
    let a := p.log / Ziggurat.tailStart
    let b := q.log
    return if -2.0 * b < a * a then none else some a

/-- A draw from the standard normal distribution. -/
def normal : Draw Float :=
  repeatUntil do
    let w ← word
    let i := (w &&& 255).toNat
    let u := 2.0 * ((w >>> 11).toFloat / 9007199254740992.0) - 1.0
    let x := u * Ziggurat.edge i
    if x.abs < Ziggurat.edge (i + 1) then
      return some x
    else if i == 0 then
      let a ← normalTail
      return some (if u < 0.0 then a - Ziggurat.tailStart else Ziggurat.tailStart - a)
    else
      let v ← unit
      let y := Ziggurat.height (i + 1) + (Ziggurat.height i - Ziggurat.height (i + 1)) * v
      return if y < ((-x) * x / 2.0).exp then some x else none

/-- A draw from the normal distribution of the given mean and deviation. -/
def gaussian (mean deviation : Float) : Draw Float := do
  let z ← normal
  return mean + deviation * z

end ProbTrace.Draw
