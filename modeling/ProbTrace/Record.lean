import ProbTrace.Family.Density

/-!
# Record — one random choice as a trace keeps it

A record holds the address of a choice, its family and parameters, its value and the logarithm of
its density.  A record is reused for a choice of the same family and the same structural class
(`fits`); then the parameters and the observation of the new pass are taken over, and the value is
rescored if anything changed (`refreshed`).
-/

namespace ProbTrace

/-- A choice as a program asks for it. -/
structure Request where
  family     : Family
  params     : List Float
  /-- Whether the value decides which other choices exist. -/
  structural : Bool := false
  /-- The value that the choice is observed to take. -/
  observed   : Option Value := none
deriving DecidableEq, Inhabited

/-- One random choice of a trace. -/
structure Record where
  address     : Address
  family      : Family
  params      : List Float
  value       : Value
  logDensity  : Float
  structural  : Bool
  conditioned : Bool
  /-- Whether the running or the last pass made this choice. -/
  active      : Bool := true
deriving DecidableEq

namespace Record

/-- The record of a newly made choice. -/
def ofRequest (address : Address) (q : Request) (value : Value) (logDensity : Float) : Record where
  address     := address
  family      := q.family
  params      := q.params
  value       := value
  logDensity  := logDensity
  structural  := q.structural
  conditioned := q.observed.isSome

/-- Whether the record can serve a choice of this family and structural class. -/
def fits (r : Record) (family : Family) (structural : Bool) : Bool :=
  r.family.same family && r.structural == structural

/-- Whether two lists of parameters are equal, number by number. -/
def sameParams : List Float → List Float → Bool
  | [],      []      => true
  | x :: xs, y :: ys => x == y && sameParams xs ys
  | _,       _       => false

/-- The record with a value and its density, under its own parameters. -/
def rescored (r : Record) (value : Value) : Except Error Record := do
  let lp ← r.family.logDensity value r.params
  return { r with value, logDensity := lp }

/-- The value the record takes for a request: the observed one, if it differs. -/
def valueFor (r : Record) (q : Request) : Value × Bool :=
  match q.observed with
  | some v => if v.same r.value then (r.value, false) else (v, true)
  | none   => (r.value, false)

/-- The parameters the record takes for a request: the new ones, if they differ. -/
def paramsFor (r : Record) (q : Request) : List Float × Bool :=
  if sameParams r.params q.params then (r.params, false) else (q.params, true)

/-- The record as a request finds it in a later pass.  When the new parameters or the observed
value cannot be scored they stay, beside the old density. -/
def refreshed (r : Record) (q : Request) : Except Error Unit × Record :=
  let (params, paramsChanged) := r.paramsFor q
  let (value, valueChanged) := r.valueFor q
  let r := { r with params, value, conditioned := q.observed.isSome }
  if paramsChanged || valueChanged then
    match r.family.logDensity r.value r.params with
    | .ok lp   => (.ok (), { r with logDensity := lp })
    | .error e => (.error e, r)
  else (.ok (), r)

/-- What is said about the class of a record. -/
def marks (r : Record) : String :=
  match r.structural, r.conditioned with
  | true,  true  => " [structural, observed]"
  | true,  false => " [structural]"
  | false, true  => " [observed]"
  | false, false => ""

/-- A record on one line. -/
def text (r : Record) : String :=
  r.address.text ++ " ~ " ++ r.family.name ++ Listing.numbers r.params true ++ r.marks ++
    " = " ++ r.value.text ++ " (lp " ++ Listing.number false r.logDensity ++ ")"

end Record

end ProbTrace
