/-!
# Decimal — Binary: what a double stands for

A double is not a number, infinite, or a sign with `significand · 2 ^ exponent`.  Everything that
writes a double in decimal starts from this reading and goes on in exact arithmetic on natural
numbers: `Quotient` is a non-negative number as one natural number over another.
-/

namespace ProbTrace.Decimal

/-- What a double stands for. -/
inductive Reading where
  | nan
  | infinite (negative : Bool)
  | finite (negative : Bool) (significand : Nat) (exponent : Int)
deriving DecidableEq

/-- The leading bit of a significand, which the bit pattern leaves out: `2 ^ 52`. -/
def leadingBit : Nat := Nat.pow 2 52

/-- Reads the sign, the exponent field and the fraction field of the bit pattern. -/
def read (x : Float) : Reading :=
  let bits := x.toBits
  let negative : Bool := bits >>> 63 == 1
  let field : Nat := ((bits >>> 52) &&& 0x7FF).toNat
  let fraction : Nat := (bits &&& 0xFFFFFFFFFFFFF).toNat
  if field == 2047 then
    if fraction == 0 then .infinite negative else .nan
  else if field == 0 then .finite negative fraction (-1074)
  else .finite negative (leadingBit + fraction) ((field : Int) - 1075)

/-- The non-negative number `num / den`. -/
structure Quotient where
  num : Nat
  den : Nat
deriving DecidableEq

namespace Quotient

/-- `n · base ^ e`. -/
def scaled (n base : Nat) (e : Int) : Quotient :=
  ⟨n * base.pow e.toNat, base.pow (-e).toNat⟩

/-- `q · 10 ^ e`. -/
def shift10 (q : Quotient) (e : Int) : Quotient :=
  ⟨q.num * Nat.pow 10 e.toNat, q.den * Nat.pow 10 (-e).toNat⟩

/-- The largest natural number that is no larger. -/
def floor (q : Quotient) : Nat := q.num / q.den

/-- The nearest natural number; of two equally near ones the even one. -/
def roundHalfEven (q : Quotient) : Nat :=
  let n := q.num / q.den
  let twice := 2 * (q.num % q.den)
  if twice < q.den then n
  else if q.den < twice then n + 1
  else n + n % 2

/-- `p ≤ q`. -/
def le (p q : Quotient) : Bool := p.num * q.den ≤ q.num * p.den

/-- `p < q`. -/
def lt (p q : Quotient) : Bool := p.num * q.den < q.num * p.den

/-- The number of decimal digits of `n`. -/
def digitCount (n : Nat) : Nat := (Nat.repr n).length

/-- The exponent of the leading decimal digit: `10 ^ e ≤ q < 10 ^ (e + 1)` for `q` above zero. -/
def leadingExponent (q : Quotient) : Int :=
  let d : Int := (digitCount q.num : Int) - digitCount q.den
  if le (scaled 1 10 d) q then d else d - 1

end Quotient

end ProbTrace.Decimal
