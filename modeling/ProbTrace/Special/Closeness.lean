/-!
# Special — Closeness: doubles that count as equal

Densities treat some parameter values apart: a probability of one, a shape of one, a variate at
the end of its range.  There a double counts as equal to another when it is within one machine
epsilon of it or within four representable steps.
-/

namespace ProbTrace.Special

/-- The distance from one to the next double. -/
def epsilon : Float := 1.0 / 4503599627370496.0

/-- Minus infinity, the logarithm of nothing. -/
def negInfinity : Float := -1.0 / 0.0

/-- Plus infinity. -/
def infinity : Float := 1.0 / 0.0

/-- The number of representable steps between two doubles of the same sign. -/
def steps (x y : Float) : Nat :=
  max x.toBits y.toBits - min x.toBits y.toBits |>.toNat

/-- The sign bit. -/
def signBit (x : Float) : Bool := x.toBits >>> 63 == 1

/-- Within one epsilon, or within four steps on the same side of zero. -/
def close (x y : Float) : Bool :=
  x == y
    || (x.isFinite && y.isFinite && (x - y).abs <= epsilon)
    || (!x.isNaN && !y.isNaN && signBit x == signBit y && steps x y <= 4)

/-- Within one epsilon of zero. -/
def closeToZero (x : Float) : Bool := x.abs <= epsilon

end ProbTrace.Special
