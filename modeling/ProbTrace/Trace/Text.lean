import ProbTrace.Trace.Basic

/-!
# Trace — Text: a trace on paper

`text` lists the records under a line with the joint log-probability; `summary` is one line without
the records.  Both show the id of the trace as the number they are given.
-/

namespace ProbTrace.Trace

/-- A trace and its records, one line each. -/
def text (t : Trace) (id : Nat) : String :=
  let verdict := if t.satisfied then "satisfied" else "unsatisfied"
  let head := "trace " ++ Decimal.natText id ++ " (lp " ++ Listing.number true t.joint ++ ", " ++
    verdict ++ ")\n"
  t.records.foldl (fun lines r => lines ++ "  " ++ r.text ++ "\n") head

/-- The value of the last completed pass, under the name of its kind. -/
def returnedText : Option Value → String
  | none   => "None"
  | some v => "Some(" ++ v.described ++ ")"

/-- A trace on one line. -/
def summary (t : Trace) (id : Nat) : String :=
  let parts :=
    ["id: TraceId(" ++ Decimal.natText id ++ ")",
     "variables: " ++ Decimal.natText t.size,
     "log_prob: " ++ Decimal.literal t.joint,
     "conditions_satisfied: " ++ Listing.truth t.satisfied,
     "return_value: " ++ returnedText t.returned]
  "Trace \x7b " ++ ", ".intercalate parts ++ " \x7d"

end ProbTrace.Trace
