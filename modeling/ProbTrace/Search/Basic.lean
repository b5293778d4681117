import ProbTrace.Trace.Pass

/-!
# Search — bringing a trace into a world that satisfies its conditions

A search runs passes until one is satisfied.  `Passes` is what a search carries from pass to pass;
`guarded` runs a step of it with the enumeration flag set one way, and restores the flag however
the step ends.
-/

namespace ProbTrace

/-- How a search ends when it does not fail. -/
inductive SearchEnd where
  /-- The last pass satisfied the conditions; so many passes were run. -/
  | satisfied (passes : Nat)
  /-- Every assignment was tried in vain; there were so many worlds. -/
  | exhausted (worlds : Nat)
deriving DecidableEq

/-- A step of a search: an answer, and the trace and the session after it. -/
abbrev SearchStep (α : Type) := Except Fault α × Trace × Session

namespace Search

/-- The error of a search that has used up its passes. -/
def checkAttempts (t : Trace) (passes : Nat) : Except Fault Unit :=
  match t.limits.maxAttempts with
  | some most => if most ≤ passes then .error (.error (.attemptsExhausted passes)) else .ok ()
  | none      => .ok ()

/-- Runs a step with the enumeration flag set, and restores the flag. -/
def guarded {α : Type} (on : Bool) (step : Trace → Session → SearchStep α) (t : Trace)
    (s : Session) : SearchStep α :=
  let (guard, s) := s.setEnumerating on
  let (answer, t, s) := step t s
  (answer, t, s.release guard)

/-- One pass over the trace as it stands, with choices found by address. -/
def pass (t : Trace) (s : Session) : SearchStep Unit :=
  match t.update false s with
  | (.ok _, t, s)        => (.ok (), t, s)
  | (.error fault, t, s) => (.error fault, t, s)

/-- One pass from nothing, drawing every choice. -/
def freshPass (t : Trace) (s : Session) : SearchStep Unit :=
  guarded false (fun t s => pass t.reset s) t s

end Search

end ProbTrace
