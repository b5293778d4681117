import ProbTrace.Listing

/-!
# Value — what a random choice, or a whole program, can be

Truth values, words, doubles, and lists of values.  `Value.same` compares as the program does: kinds
never mix, and doubles are compared as numbers, so a NaN differs from itself and the two zeros are
the same.  The views `asBool`, `asInt` and `asFloat` read a value as one kind; only words widen,
to doubles.
-/

namespace ProbTrace

/-- The value of a choice or of a program. -/
inductive Value where
  | bool (b : Bool)
  | int (n : UInt64)
  | float (x : Float)
  | vec (items : List Value)
deriving Inhabited

namespace Value

mutual

/-- Equality of values as the program sees it. -/
def same : Value → Value → Bool
  | .bool a,  .bool b  => a == b
  | .int a,   .int b   => a == b
  | .float a, .float b => a == b
  | .vec as,  .vec bs  => sameAll as bs
  | _,        _        => false

/-- Equality of lists of values, item by item. -/
def sameAll : List Value → List Value → Bool
  | [],      []      => true
  | a :: as, b :: bs => same a b && sameAll as bs
  | _,       _       => false

end

mutual

/-- Whether two values are identical; unlike under `same`, a NaN is identical to itself. -/
def decEq : (v w : Value) → Decidable (v = w)
  | .bool a,  .bool b  => if h : a = b then isTrue (h ▸ rfl) else isFalse (h ∘ bool.inj)
  | .int a,   .int b   => if h : a = b then isTrue (h ▸ rfl) else isFalse (h ∘ int.inj)
  | .float a, .float b => if h : a = b then isTrue (h ▸ rfl) else isFalse (h ∘ float.inj)
  | .vec as,  .vec bs  =>
    match decEqAll as bs with
    | isTrue h  => isTrue (h ▸ rfl)
    | isFalse h => isFalse (h ∘ vec.inj)
  | .bool _,  .int _ | .bool _,  .float _ | .bool _,  .vec _
  | .int _,   .bool _ | .int _,   .float _ | .int _,   .vec _
  | .float _, .bool _ | .float _, .int _   | .float _, .vec _
  | .vec _,   .bool _ | .vec _,   .int _   | .vec _,   .float _ => isFalse nofun

/-- Whether two lists of values are identical. -/
def decEqAll : (vs ws : List Value) → Decidable (vs = ws)
  | [],      []      => isTrue rfl
  | v :: vs, w :: ws =>
    match decEq v w, decEqAll vs ws with
    | isTrue h,  isTrue hs => isTrue (h ▸ hs ▸ rfl)
    | isFalse h, _         => isFalse fun e => h (List.cons.inj e).1
    | _,         isFalse h => isFalse fun e => h (List.cons.inj e).2
  | [],      _ :: _  => isFalse nofun
  | _ :: _,  []      => isFalse nofun

end

instance : DecidableEq Value := decEq

/-- The truth value, if it is one. -/
def asBool : Value → Option Bool
  | .bool b => some b
  | _       => none

/-- The word, if it is one. -/
def asInt : Value → Option UInt64
  | .int n => some n
  | _      => none

/-- The double; a word is the nearest double. -/
def asFloat : Value → Option Float
  | .float x => some x
  | .int n   => some n.toFloat
  | _        => none

/-- The items of a list. -/
def asVec : Value → Option (List Value)
  | .vec items => some items
  | _          => none

mutual

/-- The text of a value: doubles with the fewest digits that read back, lists in brackets. -/
def text : Value → String
  | .bool b    => Listing.truth b
  | .int n     => Decimal.natText n.toNat
  | .float x   => Decimal.plain x
  | .vec items => Listing.bracketed (texts items)

/-- The texts of the items. -/
def texts : List Value → List String
  | []      => []
  | v :: vs => text v :: texts vs

end

mutual

/-- A value under the name of its kind. -/
def described : Value → String
  | .bool b    => "Bool(" ++ Listing.truth b ++ ")"
  | .int n     => "Int(" ++ Decimal.natText n.toNat ++ ")"
  | .float x   => "Float(" ++ Decimal.literal x ++ ")"
  | .vec items => "Vec(" ++ Listing.bracketed (describedAll items) ++ ")"

/-- The items under the names of their kinds. -/
def describedAll : List Value → List String
  | []      => []
  | v :: vs => described v :: describedAll vs

end

end Value

end ProbTrace
