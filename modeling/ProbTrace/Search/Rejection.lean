import ProbTrace.Search.Basic

/-!
# Search — Rejection: fresh passes until one is satisfied

Without a bound on the attempts the search may go on for ever; `fuel` bounds the passes that it is
given.
-/

namespace ProbTrace.Search

/-- Rejection after so many passes. -/
def rejectionFrom : Nat → Nat → Trace → Session → SearchStep SearchEnd
  | 0,        _,      t, s => (.error .unfinished, t, s)
  | fuel + 1, passes, t, s =>
    match checkAttempts t passes with
    | .error fault => (.error fault, t, s)
    | .ok ()       =>
      match freshPass t s with
      | (.error fault, t, s) => (.error fault, t, s)
      | (.ok (), t, s)       =>
        if t.satisfied then
          (.ok (.satisfied (passes + 1)), t, s.report (.rejectionDone (passes + 1)))
        else rejectionFrom fuel (passes + 1) t s

/-- Fresh passes until one is satisfied. -/
def rejection (fuel : Nat) (t : Trace) (s : Session) : SearchStep SearchEnd :=
  rejectionFrom fuel 0 t s

end ProbTrace.Search
