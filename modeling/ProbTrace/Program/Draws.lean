import ProbTrace.Program

/-!
# Program — Draws: choices by the name of their family

Each draw is a choice that no other choice depends on for its existence, and reads the value as
the kind that the family has.  A choice whose value steers the program is made with
`Computation.structural` instead.
-/

namespace ProbTrace.Computation

/-- A truth value, true with probability `p`. -/
def flip (p : Float) : Computation Bool := do
  ofExcept (Family.boolOf .flip (← sample .flip [p]))

/-- A double between two bounds. -/
def uniform (lo hi : Float) : Computation Float := do
  ofExcept (Family.floatOf .uniform (← sample .uniform [lo, hi]))

/-- A double around a mean. -/
def gaussian (mean deviation : Float) : Computation Float := do
  ofExcept (Family.floatOf .gaussian (← sample .gaussian [mean, deviation]))

/-- A positive double of the given shape and scale. -/
def gamma (shape scale : Float) : Computation Float := do
  ofExcept (Family.floatOf .gamma (← sample .gamma [shape, scale]))

/-- A double between zero and one of the given shapes. -/
def beta (a b : Float) : Computation Float := do
  ofExcept (Family.floatOf .beta (← sample .beta [a, b]))

/-- The number of successes in `n` trials. -/
def binomial (p : Float) (n : UInt64) : Computation UInt64 := do
  ofExcept (Family.intOf .binomial (← sample .binomial [p, n.toFloat]))

/-- A count of the given mean. -/
def poisson (mean : Float) : Computation UInt64 := do
  ofExcept (Family.intOf .poisson (← sample .poisson [mean]))

/-- An index, with chances proportional to the masses. -/
def categorical (masses : List Float) : Computation UInt64 := do
  ofExcept (Family.intOf .categorical (← sample .categorical masses))

/-- One of the items, with chances proportional to the masses. -/
def pick {α : Type} (items : List α) (masses : List Float) : Computation α := do
  if items.length != masses.length then
    throw (.invalidParams Family.categorical.name "items and probabilities differ in length")
  let i ← categorical masses
  match items[i.toNat]? with
  | some item => return item
  | none      => throw (.failure "categorical draw fell outside its items")

end ProbTrace.Computation
