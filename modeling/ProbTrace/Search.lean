import ProbTrace.Search.Enumeration
import ProbTrace.Search.Hybrid
import ProbTrace.Search.Rejection

/-!
# Search — the strategies

A strategy is one of the three searches.  `Trace.search` runs one on a trace, and `Session.create`
makes a trace and brings it into a world that satisfies its conditions.
-/

namespace ProbTrace

/-- A way to bring a trace into a world that satisfies its conditions. -/
inductive Strategy where
  | rejection
  | enumeration
  | hybrid
deriving DecidableEq, Inhabited

/-- Runs a search, for at most `fuel` rounds. -/
def Trace.search (t : Trace) (strategy : Strategy) (fuel : Nat) (s : Session) :
    SearchStep SearchEnd :=
  match strategy with
  | .rejection   => Search.rejection fuel t s
  | .enumeration => Search.enumeration fuel t s
  | .hybrid      => Search.hybrid fuel t s

/-- Makes a trace and searches a world that satisfies its conditions. -/
def Session.create (s : Session) (program : Program) (strategy : Strategy) (limits : Limits)
    (generator : Generator) (fuel : Nat) : Except Fault Trace × Session :=
  let (t, s) := s.newTrace program limits generator
  match t.search strategy fuel s with
  | (.error fault, _, s)          => (.error fault, s)
  | (.ok (.satisfied _), t, s)    => (.ok t, s)
  | (.ok (.exhausted worlds), _, s) => (.error (.error (.enumerationExhausted worlds)), s)

end ProbTrace
