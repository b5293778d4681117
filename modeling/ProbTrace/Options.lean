import ProbTrace.Random.Generator

/-!
# Options — budgets and the source of randomness of a trace

`Limits` are the budgets that a trace carries into every pass.  `Options` add the generator that it
starts from; without a seed the caller supplies one.
-/

namespace ProbTrace

/-- Budgets of passes and searches. -/
structure Limits where
  /-- Call sites that may be open at once while enumerating. -/
  maxDepth    : Nat := 256
  /-- Choices that one enumerating pass may make. -/
  maxChoices  : Nat := 10000
  /-- Passes that a search may spend; without a number it never gives up. -/
  maxAttempts : Option Nat := none
deriving DecidableEq, Inhabited

/-- How a trace is set up. -/
structure Options where
  generator : Option Generator := none
  limits    : Limits := {}

namespace Options

/-- No seed, and the usual budgets. -/
def unseeded : Options := {}

/-- A seed, and the usual budgets. -/
def seeded (seed : UInt64) : Options := { generator := some (.ofSeed seed) }

/-- A seed, if there is one, and a number of attempts, if there is one. -/
def of (seed : Option UInt64) (attempts : Option Nat) : Options where
  generator := seed.map .ofSeed
  limits    := { maxAttempts := attempts }

/-- The same with at most `n` attempts. -/
def withAttempts (o : Options) (n : Nat) : Options :=
  { o with limits := { o.limits with maxAttempts := some n } }

/-- The same with budgets of call sites and choices. -/
def withBudget (o : Options) (depth choices : Nat) : Options :=
  { o with limits := { o.limits with maxDepth := depth, maxChoices := choices } }

/-- The generator to start from: the seeded one, or the one supplied. -/
def start (o : Options) (supplied : Generator) : Generator := o.generator.getD supplied

end Options

end ProbTrace
