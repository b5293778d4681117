import ProbTrace.Error
import ProbTrace.Random.Generator

/-!
# Draw — computations that consume random words

A draw reads words from a generator and may stop with a fault.  `unit` and `unitOpen` turn a word
into a double between zero and one; `repeatUntil` is the loop of every rejection method, with a
bound on its rounds far above what a draw takes.
-/

namespace ProbTrace

/-- A computation that consumes random words. -/
abbrev Draw := StateT Generator (Except Fault)

namespace Draw

/-- The next random word. -/
def word : Draw UInt64 := fun g => .ok g.next

/-- No result, and the reason. -/
def stop {α : Type} (fault : Fault) : Draw α := fun _ => .error fault

/-- An answer that needs no words. -/
def lift {α : Type} (answer : Except Error α) : Draw α := fun g =>
  match answer with
  | .ok a    => .ok (a, g)
  | .error e => .error (.error e)

/-- A word's upper 53 bits as a multiple of `2 ^ (-53)`: at least zero, below one. -/
def unit : Draw Float := do
  let w ← word
  return (w >>> 11).toFloat / 9007199254740992.0

/-- The double in `[1, 2)` whose fraction field is a word's upper 52 bits. -/
def oneToTwo (w : UInt64) : Float := Float.ofBits ((0x3FF0000000000000 : UInt64) ||| (w >>> 12))

/-- A double strictly between zero and one. -/
def unitOpen : Draw Float := do
  let w ← word
  return oneToTwo w - (1.0 - 1.0 / 9007199254740992.0)

/-- The rounds that a rejection loop is given. -/
def roundLimit : Nat := 100000000

/-- Carries a state from round to round until a round has the result. -/
def repeatFrom {σ α : Type} (round : σ → Draw (σ ⊕ α)) : Nat → σ → Draw α
  | 0,     _ => stop .unfinished
  | n + 1, s => do
    match ← round s with
    | .inl s => repeatFrom round n s
    | .inr a => return a

/-- Repeats a round until it accepts. -/
def repeatUntil {α : Type} (round : Draw (Option α)) : Draw α :=
  repeatFrom (fun (_ : Unit) => do
    match ← round with
    | none   => return .inl ()
    | some a => return .inr a) roundLimit ()

end Draw

end ProbTrace
