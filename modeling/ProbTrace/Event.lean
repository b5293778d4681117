import ProbTrace.Record

/-!
# Event — what passes, proposals and searches report

Each event has a level, a message, and named fields; fields are listed by name in ascending order.
-/

namespace ProbTrace

/-- Something worth reporting. -/
inductive Event where
  /-- A choice was made for the first time. -/
  | created (record : Record)
  /-- The previous pass made another choice at this position. -/
  | stale (position : Nat)
  /-- The record at the address cannot serve the request. -/
  | discarded (record : Record) (request : Request)
  | passComplete (size : Nat) (joint added removed : Float) (satisfied : Bool)
  | passAborted (error : Error)
  | proposed (address : Address) (current target : Value)
  | rejectionDone (passes : Nat)
  | odometerWrapped (worlds : Nat)
  | enumerationExhausted (worlds passes : Nat)
  | enumerationDone (worlds passes : Nat)
  | enumerationDiverged (error : Error)
  | hybridDone (passes : Nat)

namespace Event

/-- A named field of an event. -/
def field (name text : String) : String := " " ++ name ++ "=" ++ text

/-- A field that is a number. -/
def count (name : String) (n : Nat) : String := field name (Decimal.natText n)

/-- An event on one line. -/
def text : Event → String
  | .created r =>
    "TRACE new " ++ r.address.text ++ " ~ " ++ r.family.name ++ " = " ++ r.value.text ++
      " (lp " ++ Decimal.plain r.logDensity ++ ")"
  | .stale position => "TRACE stale positional record" ++ count "position" position
  | .discarded r q =>
    "TRACE discarding " ++ r.address.text ++ " (" ++ r.family.name ++ " -> " ++ q.family.name ++
      ", structural " ++ Listing.truth r.structural ++ " -> " ++ Listing.truth q.structural ++ ")"
  | .passComplete size joint added removed satisfied =>
    "DEBUG pass complete" ++ field "added" (Decimal.report added) ++
      field "lp" (Decimal.report joint) ++ field "removed" (Decimal.report removed) ++
      field "satisfied" (Listing.truth satisfied) ++ count "variables" size
  | .passAborted e => "DEBUG pass aborted: " ++ e.message
  | .proposed address current target =>
    "DEBUG propose " ++ address.text ++ ": " ++ current.text ++ " -> " ++ target.text
  | .rejectionDone passes => "INFO rejection initialized" ++ count "passes" passes
  | .odometerWrapped worlds => "DEBUG odometer wrapped, restarting" ++ count "worlds" worlds
  | .enumerationExhausted worlds passes =>
    "INFO enumeration exhausted" ++ count "passes" passes ++ count "worlds" worlds
  | .enumerationDone worlds passes =>
    "INFO enumeration initialized" ++ count "passes" passes ++ count "worlds" worlds
  | .enumerationDiverged e => "WARN " ++ e.message ++ "; falling back to rejection"
  | .hybridDone passes => "INFO hybrid initialized" ++ count "passes" passes

end Event

end ProbTrace
