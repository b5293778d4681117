import ProbTrace.Family.Parameters

/-!
# Family — Domain: walking through the values of a finite family

`next` gives the element after a value, the first element when there is no value, and nothing after
the last one.  `elements` is the whole walk.  A domain is `false, true` for flips, the indices of
the masses for categorical choices, and the counts up to the number of trials for binomial ones.
-/

namespace ProbTrace.Domain

/-- The family whose domain it is. -/
def family : Domain → Family
  | .flip        => .flip
  | .categorical => .categorical
  | .binomial    => .binomial

/-- The number after a value; the largest word has none. -/
def successor (f : Family) : Option Value → Except Fault UInt64
  | none   => return 0
  | some v => do
    let n ← f.intOf v
    if n.toNat + 1 < UInt64.size then return n + 1 else .error (.defect .wordOverflow)

/-- The element after a value, or the first one. -/
def next (d : Domain) (v : Option Value) (params : List Float) : Except Fault (Option Value) := do
  match d with
  | .flip =>
    match v with
    | none   => return some (.bool false)
    | some v =>
      let b ← Family.boolOf .flip v
      return if b then none else some (.bool true)
  | .categorical =>
    let n ← successor .categorical v
    return if n.toNat < params.length then some (.int n) else none
  | .binomial =>
    let (_, trials) ← Family.trials params
    let n ← successor .binomial v
    return if n <= trials then some (.int n) else none

/-- The first element. -/
def first (d : Domain) (params : List Float) : Except Fault Value := do
  match ← d.next none params with
  | some v => return v
  | none   => .error (.error (.failure "enumerable domain is empty"))

/-- The elements after a value, in at most `n` steps. -/
def walk (d : Domain) (params : List Float) : Nat → Option Value → Except Fault (List Value)
  | 0,     _ => .error .unfinished
  | n + 1, v => do
    match ← d.next v params with
    | none   => return []
    | some w => return w :: (← walk d params n (some w))

/-- The number of elements. -/
def size (d : Domain) (params : List Float) : Except Fault Nat := do
  match d with
  | .flip        => return 2
  | .categorical => return params.length
  | .binomial    =>
    let (_, trials) ← Family.trials params
    return trials.toNat + 1

/-- Every element, in the order of the walk. -/
def elements (d : Domain) (params : List Float) : Except Fault (List Value) := do
  d.walk params ((← d.size params) + 1) none

end ProbTrace.Domain
