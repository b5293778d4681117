import ProbTrace.Address
import ProbTrace.Decimal.Text

/-!
# Error — why a choice, a pass or a search does not succeed

An `Error` is an answer: a program that makes a choice may receive one and go on.  A `Defect` is
not; it ends whatever is running, and no program can catch it.  `Fault` is either of them, or the
end of the rounds that a loop was given.
-/

namespace ProbTrace

/-- Why an operation fails. -/
inductive Error where
  /-- A pass was asked for while another is running. -/
  | reentrant
  /-- No variable is stored at the address. -/
  | unknownAddress (address : Address)
  /-- The variable at the address is observed, and only free ones can be changed. -/
  | observed (address : Address)
  /-- An enumerating pass went over one of its budgets. -/
  | divergent (depth choices : Nat)
  /-- Every assignment was tried. -/
  | enumerationExhausted (worlds : Nat)
  /-- The search used up its passes. -/
  | attemptsExhausted (passes : Nat)
  /-- The family does not accept the parameters. -/
  | invalidParams (family detail : String)
  /-- The family has no value of this kind. -/
  | typeMismatch (family expected got : String)
  /-- Any other failure, with its message. -/
  | failure (message : String)
deriving DecidableEq, Inhabited

/-- The message of an error. -/
def Error.message : Error → String
  | .reentrant => "a trace is already being populated on this thread"
  | .unknownAddress a => "no variable at address " ++ a.text
  | .observed a => "variable at address " ++ a.text ++ " is observed and cannot be proposed to"
  | .divergent depth choices =>
    "enumeration diverged (call depth " ++ Decimal.natText depth ++ ", " ++
      Decimal.natText choices ++ " random choices in one pass)"
  | .enumerationExhausted worlds =>
    "enumerated " ++ Decimal.natText worlds ++ " worlds without satisfying the conditions"
  | .attemptsExhausted passes =>
    "gave up initializing after " ++ Decimal.natText passes ++ " passes"
  | .invalidParams family detail => family ++ ": invalid parameters: " ++ detail
  | .typeMismatch family expected got =>
    family ++ ": expected a " ++ expected ++ " value, got " ++ got
  | .failure message => message

/-- A broken assumption, which ends whatever is running. -/
inductive Defect where
  /-- A call site was left whose name the current path does not end with. -/
  | siteMismatch (path id : String)
  /-- The successor of the largest word. -/
  | wordOverflow
  /-- A uniform draw between bounds that are not finite, or too far apart. -/
  | rangeNotFinite
  /-- A draw among masses that reaches none of them. -/
  | massNotReached
deriving DecidableEq

/-- Why an operation has no result. -/
inductive Fault where
  | error (e : Error)
  | defect (d : Defect)
  /-- A loop used up the rounds it was given. -/
  | unfinished
deriving DecidableEq

instance : Inhabited Fault := ⟨.unfinished⟩

/-- An error is a fault. -/
def Fault.lift {α : Type} : Except Error α → Except Fault α
  | .ok a    => .ok a
  | .error e => .error (.error e)

instance : MonadLift (Except Error) (Except Fault) := ⟨Fault.lift⟩

end ProbTrace
