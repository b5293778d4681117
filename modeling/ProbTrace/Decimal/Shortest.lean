import ProbTrace.Decimal.Binary

/-!
# Decimal — Shortest: the fewest digits that read back

A decimal reads back as a double when it lies in the interval of the numbers that round to it.
`shortest` looks for such a decimal on coarser grids first: with one digit, then with two, and so
on.  On each grid only the two neighbours of the double can be in the interval; of two the nearer
is taken, and of two equally near ones the larger.
-/

namespace ProbTrace.Decimal

/-- The decimal `digits · 10 ^ exponent`. -/
structure Scaled where
  digits   : Nat
  exponent : Int
deriving DecidableEq

/-- The numbers that round to a double: from `low` to `high`, the ends included when `closed`. -/
structure Interval where
  low    : Quotient
  high   : Quotient
  closed : Bool

/-- The numbers that round to `significand · 2 ^ exponent`.  They reach half a unit up, and half a
unit down, or a quarter where the doubles below lie twice as close.  A tie goes to the even
significand, so that one takes the ends. -/
def Interval.around (significand : Nat) (exponent : Int) : Interval where
  low    := .scaled (4 * significand - if significand == leadingBit then 1 else 2) 2 (exponent - 2)
  high   := .scaled (4 * significand + 2) 2 (exponent - 2)
  closed := significand % 2 == 0

/-- Whether the number lies in the interval. -/
def Interval.contains (i : Interval) (q : Quotient) : Bool :=
  if i.closed then i.low.le q && q.le i.high else i.low.lt q && q.lt i.high

/-- The neighbour of `value` on the grid of the multiples of `10 ^ e` that lies in the interval. -/
def onGrid? (i : Interval) (value : Quotient) (e : Int) : Option Scaled :=
  let scaled := value.shift10 (-e)
  let below := scaled.floor
  let above := below + 1
  let nearAbove := scaled.den ≤ 2 * (scaled.num - below * scaled.den)
  match i.contains (.scaled below 10 e), i.contains (.scaled above 10 e) with
  | true,  true  => some ⟨if nearAbove then above else below, e⟩
  | true,  false => some ⟨below, e⟩
  | false, true  => some ⟨above, e⟩
  | false, false => none

/-- Tries the grids from `10 ^ e` on, each ten times finer than the one before. -/
def searchGrids (i : Interval) (value : Quotient) : Nat → Int → Scaled
  | 0,     e => ⟨(value.shift10 (-e)).roundHalfEven, e⟩
  | n + 1, e => (onGrid? i value e).getD (searchGrids i value n (e - 1))

/-- Moves trailing zeros of the digits into the exponent, at most `n` of them. -/
def Scaled.trim : Nat → Scaled → Scaled
  | 0,     s => s
  | n + 1, s =>
    if s.digits != 0 && s.digits % 10 == 0 then trim n ⟨s.digits / 10, s.exponent + 1⟩ else s

/-- The shortest decimal that reads back as `significand · 2 ^ exponent`.  Seventeen digits always
do. -/
def shortest (significand : Nat) (exponent : Int) : Scaled :=
  if significand == 0 then ⟨0, 0⟩
  else
    let value := Quotient.scaled significand 2 exponent
    (searchGrids (.around significand exponent) value 17 value.leadingExponent).trim 18

end ProbTrace.Decimal
