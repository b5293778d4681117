/-!
# Special — Gamma: logarithms of the gamma function and of factorials

The logarithm of the gamma function is the Lanczos sum with eleven terms, by reflection below one
half.  Factorials up to that of 170 are products of doubles; above, the gamma function takes over.
-/

namespace ProbTrace.Special

/-- The ratio of a circle to its diameter. -/
def pi : Float := 3.14159265358979323846264338327950288

/-- The base of the natural logarithm. -/
def euler : Float := 2.71828182845904523536028747135266250

/-- The shift of the Lanczos sum. -/
def lanczosShift : Float := 10.900511

/-- The constant term of the Lanczos sum. -/
def lanczosHead : Float := 2.48574089138753565546e-5

/-- The numerators of the Lanczos sum. -/
def lanczosTerms : List Float :=
  [1.05142378581721974210, -3.45687097222016235469, 4.51227709466894823700,
   -2.98285225323576655721, 1.05639711577126713077, -1.95428773191645869583e-1,
   1.70970543404441224307e-2, -5.71926117404305781283e-4, 4.63399473359905636708e-6,
   -2.71994908488607703910e-9]

/-- The logarithm of pi. -/
def lnPi : Float := 1.1447298858494001741434273513530587116472948129153

/-- The logarithm of twice the square root of `e / pi`. -/
def lnTwoSqrtEOverPi : Float := 0.6207822376352452223455184457816472122518527279025978

/-- The Lanczos sum, each numerator over the denominator of its place. -/
def lanczosSum (denominator : Float → Float) : Float :=
  (lanczosTerms.foldl (fun (acc : Float × Float) d =>
    (acc.1 + d / denominator acc.2, acc.2 + 1.0)) (lanczosHead, 1.0)).1

/-- The logarithm of the gamma function. -/
def lnGamma (x : Float) : Float :=
  if x < 0.5 then
    let s := lanczosSum fun i => i - x
    lnPi - (pi * x).sin.log - s.log - lnTwoSqrtEOverPi
      - (0.5 - x) * ((0.5 - x + lanczosShift) / euler).log
  else
    let s := lanczosSum fun i => x + i - 1.0
    s.log + lnTwoSqrtEOverPi + (x - 0.5) * ((x - 0.5 + lanczosShift) / euler).log

/-- The factorial as a product of doubles. -/
def factorial : Nat → Float
  | 0     => 1.0
  | n + 1 => factorial n * (n + 1).toFloat

/-- The factorials of 0 to 170, the largest that is finite. -/
def factorials : Array Float := Array.ofFn fun i : Fin 171 => factorial i.val

/-- The logarithm of a factorial. -/
def lnFactorial (n : UInt64) : Float :=
  match factorials[n.toNat]? with
  | some f => f.log
  | none   => lnGamma (n.toFloat + 1.0)

end ProbTrace.Special
