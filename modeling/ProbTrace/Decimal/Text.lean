import ProbTrace.Decimal.Shortest

/-!
# Decimal — Text: the written forms of doubles

Four forms.  `plain` has the fewest digits that read back and no exponent; `fixed` has a given
number of decimal places; `scientific` has one digit, a given number of places and an exponent;
`literal` is like `plain` but always shows a fraction, and an exponent for very large and very
small magnitudes.  `fixed` and `scientific` round the exact value, a tie to the even digit.
-/

namespace ProbTrace.Decimal

/-- `n` as decimal digits. -/
def natText (n : Nat) : String := Nat.repr n

/-- `k` zeros. -/
def zeros (k : Nat) : String := "".pushn '0' k

/-- `10 ^ k`. -/
def tenTo (k : Nat) : Nat := Nat.pow 10 k

/-- `n` as decimal digits, filled up with zeros on the left to `width` digits. -/
def padded (width n : Nat) : String :=
  let text := natText n
  zeros (width - text.length) ++ text

/-- `e` as decimal digits after its sign, if it is negative. -/
def intText (e : Int) : String :=
  if e < 0 then "-" ++ natText e.natAbs else natText e.natAbs

/-- A text under a sign. -/
def signed (negative : Bool) (text : String) : String :=
  if negative then "-" ++ text else text

/-- `digits · 10 ^ (-places)` with that many decimal places; without a point if there are none. -/
def withPlaces (digits places : Nat) : String :=
  if places == 0 then natText digits
  else natText (digits / tenTo places) ++ "." ++ padded places (digits % tenTo places)

/-- A decimal without exponent; at least `places` decimal places are shown. -/
def Scaled.positional (s : Scaled) (places : Nat) : String :=
  let shown := max (-s.exponent).toNat places
  withPlaces (s.digits * tenTo (s.exponent + shown).toNat) shown

/-- A decimal as one digit, a fraction if there are more digits, and an exponent. -/
def Scaled.exponential (s : Scaled) : String :=
  let places := (natText s.digits).length - 1
  withPlaces s.digits places ++ "e" ++ intText (s.exponent + places)

/-- The texts of a value that is not finite. -/
structure Names where
  nan      : String
  infinity : String

/-- The names that messages and listings use. -/
def messageNames : Names := ⟨"NaN", "inf"⟩

/-- Writes a double: `write` is given the absolute value of a finite one. -/
def spell (names : Names) (write : Nat → Int → String) (x : Float) : String :=
  match read x with
  | .nan                => names.nan
  | .infinite negative  => signed negative names.infinity
  | .finite negative significand exponent => signed negative (write significand exponent)

/-- The fewest digits that read back, without exponent. -/
def plain : Float → String :=
  spell messageNames fun significand exponent => (shortest significand exponent).positional 0

/-- The exact value rounded to `places` decimal places. -/
def fixed (places : Nat) : Float → String :=
  spell messageNames fun significand exponent =>
    let value := Quotient.scaled significand 2 exponent
    withPlaces (value.shift10 places).roundHalfEven places

/-- Magnitudes from `10 ^ low` up to, but not including, `10 ^ high` are written without
exponent. -/
structure PositionalRange where
  low  : Int
  high : Int

/-- The range of literals. -/
def literalRange : PositionalRange := ⟨-4, 16⟩

/-- The fewest digits that read back, with a fraction inside the range and an exponent outside. -/
def literal : Float → String :=
  spell messageNames fun significand exponent =>
    let s := shortest significand exponent
    let leading := s.exponent + ((natText s.digits).length - 1 : Nat)
    if significand == 0 || (literalRange.low ≤ leading && leading < literalRange.high) then
      s.positional 1
    else s.exponential

/-- One digit, `places` decimal places and an exponent.  Rounding up to the next power of ten
moves the exponent. -/
def scientificDigits (places : Nat) (value : Quotient) : String :=
  let e := value.leadingExponent
  let n := (value.shift10 (places - e)).roundHalfEven
  if n < tenTo (places + 1) then withPlaces n places ++ "e" ++ intText e
  else withPlaces (tenTo places) places ++ "e" ++ intText (e + 1)

/-- The names that reports use. -/
def reportNames : Names := ⟨"nan", "inf"⟩

/-- The exact value rounded to `places` decimal places after the leading digit; zero, of either
sign, is a bare `0`. -/
def scientific (places : Nat) (x : Float) : String :=
  if x == 0 then "0"
  else spell reportNames (fun significand exponent =>
    scientificDigits places (.scaled significand 2 exponent)) x

/-- Reports show twelve significant digits. -/
def report : Float → String := scientific 11

end ProbTrace.Decimal
