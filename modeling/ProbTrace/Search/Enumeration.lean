import ProbTrace.Search.Basic
import ProbTrace.Search.Odometer

/-!
# Search — Enumeration: every assignment in turn

After each pass that is not satisfied the odometer of the free choices advances.  When it has come
round, the search ends, unless some free choice has no finite domain: then it starts again from
nothing, with fresh draws for those choices.
-/

namespace ProbTrace.Search

/-- How an enumeration goes on after a pass in vain. -/
inductive Onward where
  /-- With the next assignment. -/
  | advanced
  /-- From nothing. -/
  | restarted
  /-- Not at all. -/
  | ended

/-- The trace for the next pass, and how it was made. -/
def onward (worlds : Nat) (t : Trace) (s : Session) : SearchStep Onward :=
  match t.advance with
  | (.error fault, t) => (.error fault, t, s)
  | (.ok true, t)     => (.ok .advanced, t, s)
  | (.ok false, t)    =>
    if t.hasLoose then (.ok .restarted, t.reset, s.report (.odometerWrapped worlds))
    else (.ok .ended, t, s)

/-- Enumeration after so many passes, over so many worlds. -/
def enumerationFrom : Nat → Nat → Nat → Trace → Session → SearchStep SearchEnd
  | 0,        _,      _,      t, s => (.error .unfinished, t, s)
  | fuel + 1, passes, worlds, t, s =>
    if t.satisfied then
      (.ok (.satisfied passes), t, s.report (.enumerationDone worlds passes))
    else
      match checkAttempts t passes with
      | .error fault => (.error fault, t, s)
      | .ok ()       =>
        match onward worlds t s with
        | (.error fault, t, s) => (.error fault, t, s)
        | (.ok .ended, t, s)   =>
          (.ok (.exhausted worlds), t, s.report (.enumerationExhausted worlds passes))
        | (.ok way, t, s)      =>
          let worlds := match way with
            | .advanced => worlds + 1
            | _         => worlds
          match pass t s with
          | (.error fault, t, s) => (.error fault, t, s)
          | (.ok (), t, s)       => enumerationFrom fuel (passes + 1) worlds t s

/-- The first pass of an enumeration, and all that follow. -/
def enumerationAll (fuel : Nat) (t : Trace) (s : Session) : SearchStep SearchEnd :=
  match checkAttempts t 0 with
  | .error fault => (.error fault, t, s)
  | .ok ()       =>
    match pass t s with
    | (.error fault, t, s) => (.error fault, t, s)
    | (.ok (), t, s)       => enumerationFrom fuel 1 1 t s

/-- Every assignment in turn, until one is satisfied. -/
def enumeration (fuel : Nat) (t : Trace) (s : Session) : SearchStep SearchEnd :=
  guarded true (enumerationAll fuel) t s

end ProbTrace.Search
