import ProbTrace.Random.Draw

/-!
# Interval — uniform draws between two bounds

The range is stretched so that the largest uniform word lands on the upper bound; should rounding
push it past the bound, the stretch is lowered one representable step at a time.
-/

namespace ProbTrace.Draw

/-- The largest double below one that a word gives. -/
def largestUnit : Float := 1.0 - 1.0 / 4503599627370496.0

/-- The next double towards zero. -/
def stepDown (x : Float) : Float := Float.ofBits (x.toBits - 1)

/-- Lowers `scale` until the largest word stays within `hi`. -/
def fitScale (lo hi : Float) : Nat → Float → Option Float
  | 0,     _     => none
  | n + 1, scale =>
    if scale * largestUnit + lo > hi then fitScale lo hi n (stepDown scale) else some scale

/-- A draw from `lo` to `hi`, both included. -/
def uniform (lo hi : Float) : Draw Float := do
  let scale := (hi - lo) / largestUnit
  if !(lo.isFinite && hi.isFinite && scale.isFinite) then stop (.defect .rangeNotFinite)
  match fitScale lo hi roundLimit scale with
  | none => stop .unfinished
  | some scale =>
    let w ← word
    return (oneToTwo w - 1.0) * scale + lo

end ProbTrace.Draw
