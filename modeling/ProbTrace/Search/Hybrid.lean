import ProbTrace.Search.Basic
import ProbTrace.Search.Odometer

/-!
# Search — Hybrid: fresh passes between runs of enumeration

Steps are counted from one.  A step whose number the period divides is a fresh pass, after which
the period grows by ten; every other step enumerates.  An enumerating step that goes over a budget
is followed by a fresh pass.
-/

namespace ProbTrace.Search

/-- One enumerating pass: the next assignment, or from nothing when all have been tried. -/
def enumerationStep (t : Trace) (s : Session) : SearchStep Unit :=
  guarded true (fun t s =>
    match t.advance with
    | (.error fault, t) => (.error fault, t, s)
    | (.ok true, t)     => pass t s
    | (.ok false, t)    => pass t.reset s) t s

/-- An enumerating pass; should it go over a budget, a fresh one. -/
def containedStep (t : Trace) (s : Session) : SearchStep Unit :=
  match enumerationStep t s with
  | (.error (.error (.divergent depth choices)), t, s) =>
    freshPass t (s.report (.enumerationDiverged (.divergent depth choices)))
  | outcome => outcome

/-- How much the period grows after each fresh pass. -/
def periodGrowth : Nat := 10

/-- Which steps of the search are fresh passes.  The counts have no bound here.  A search that keeps
them in signed words of 32 bits follows the same schedule for as many rounds as they can count
(`Scheduled.next_lt`), and what comes after that is left out. -/
structure Schedule where
  step   : Nat := 1
  period : Nat := 1
deriving DecidableEq

namespace Schedule

/-- Whether the step is a fresh pass. -/
def isRestart (c : Schedule) : Bool := c.step % c.period == 0

/-- The schedule after the step. -/
def next (c : Schedule) : Schedule where
  step   := c.step + 1
  period := if c.isRestart then c.period + periodGrowth else c.period

end Schedule

/-- The step that the schedule demands. -/
def hybridStep (c : Schedule) (t : Trace) (s : Session) : SearchStep Unit :=
  if c.isRestart then freshPass t s else containedStep t s

/-- The hybrid search after so many passes. -/
def hybridFrom : Nat → Nat → Schedule → Trace → Session → SearchStep SearchEnd
  | 0,        _,      _, t, s => (.error .unfinished, t, s)
  | fuel + 1, passes, c, t, s =>
    if t.satisfied then (.ok (.satisfied passes), t, s.report (.hybridDone passes))
    else
      match checkAttempts t passes with
      | .error fault => (.error fault, t, s)
      | .ok ()       =>
        match hybridStep c t s with
        | (.error fault, t, s) => (.error fault, t, s)
        | (.ok (), t, s)       => hybridFrom fuel (passes + 1) c.next t s

/-- Fresh passes between runs of enumeration, until one is satisfied. -/
def hybrid (fuel : Nat) (t : Trace) (s : Session) : SearchStep SearchEnd :=
  match checkAttempts t 0 with
  | .error fault => (.error fault, t, s)
  | .ok ()       =>
    match freshPass t s with
    | (.error fault, t, s) => (.error fault, t, s)
    | (.ok (), t, s)       => hybridFrom fuel 1 {} t s

end ProbTrace.Search
