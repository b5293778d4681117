import ProbTrace.Value
import ProbTrace.Error

/-!
# Family — the distributions that choices are drawn from

Eight families.  A family is known by its name; records are only reused within one family.  Three
of them range over a finite domain that can be walked from its first element (`Domain`).  Families
that a program brings with it are left out.
-/

namespace ProbTrace

/-- A family of distributions. -/
inductive Family where
  | flip | categorical | binomial | poisson | uniform | gaussian | gamma | beta
deriving DecidableEq, Inhabited

/-- The families whose values can be counted through. -/
inductive Domain where
  | flip | categorical | binomial
deriving DecidableEq

/-- What the values of a family are like. -/
inductive Support where
  | continuous
  | discrete
  | enumerable (domain : Domain)
deriving DecidableEq

namespace Family

/-- The name a family is known by. -/
def name : Family → String
  | .flip        => "flip"
  | .categorical => "categorical"
  | .binomial    => "binomial"
  | .poisson     => "poisson"
  | .uniform     => "uniform"
  | .gaussian    => "gaussian"
  | .gamma       => "gamma"
  | .beta        => "beta"

/-- Every family. -/
def all : List Family :=
  [.flip, .categorical, .binomial, .poisson, .uniform, .gaussian, .gamma, .beta]

/-- The family of a name. -/
def ofName? (name : String) : Option Family := all.find? fun f => f.name == name

/-- Whether two families are the same. -/
def same (f g : Family) : Bool := f.name == g.name

/-- What the values of the family are like. -/
def support : Family → Support
  | .flip        => .enumerable .flip
  | .categorical => .enumerable .categorical
  | .binomial    => .enumerable .binomial
  | .poisson     => .discrete
  | .uniform | .gaussian | .gamma | .beta => .continuous

/-- Whether the family has a domain that can be walked. -/
def isEnumerable (f : Family) : Bool :=
  match f.support with
  | .enumerable _ => true
  | _             => false

/-- The error of parameters that the family does not accept. -/
def invalid {α : Type} (f : Family) (detail : String) : Except Error α :=
  .error (.invalidParams f.name detail)

/-- The error of a value of the wrong kind. -/
def mismatch {α : Type} (f : Family) (expected : String) (got : Value) : Except Error α :=
  .error (.typeMismatch f.name expected got.text)

/-- The value as a double, as a value of the family. -/
def floatOf (f : Family) (v : Value) : Except Error Float :=
  match v.asFloat with
  | some x => .ok x
  | none   => f.mismatch "float" v

/-- The value as a word, as a value of the family. -/
def intOf (f : Family) (v : Value) : Except Error UInt64 :=
  match v.asInt with
  | some n => .ok n
  | none   => f.mismatch "integer" v

/-- The value as a truth value, as a value of the family. -/
def boolOf (f : Family) (v : Value) : Except Error Bool :=
  match v.asBool with
  | some b => .ok b
  | none   => f.mismatch "boolean" v

end Family

end ProbTrace
