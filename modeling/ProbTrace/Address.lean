import Std.Data.TreeMap

/-!
# Address — the names of random choices

A random choice is named by the path of the call sites that enclose it, a colon, and the number
of choices made earlier at that path in the same pass.  `Address.isAt` asks whether an address is
the one of a given path and count, and reads the count from the text instead of writing a second
text.  Addresses are ordered by the code points of their text, which is also the order of its
UTF-8 bytes.
-/

namespace ProbTrace

/-- The name of a random choice. -/
structure Address where
  text : String
deriving DecidableEq, Inhabited

namespace Address

/-- The address of choice number `count` at `path`. -/
def atSite (path : String) (count : Nat) : Address :=
  ⟨path ++ ":" ++ toString count⟩

/-- Counts are words: they lie below this bound. -/
def countBound : Nat := UInt64.size

/-- The value of a decimal digit. -/
def digitValue (c : Char) : Nat := c.toNat - '0'.toNat

/-- The number written by a list of decimal digits. -/
def digitsValue (digits : List Char) : Nat :=
  digits.foldl (fun n c => 10 * n + digitValue c) 0

/-- At least one decimal digit, nothing else, and a value below the bound. -/
def readDigits? (digits : List Char) : Option Nat :=
  if digits.isEmpty || !digits.all Char.isDigit then none
  else if digitsValue digits < countBound then some (digitsValue digits)
  else none

/-- A count may be written with one leading plus sign and with leading zeros. -/
def readCount? : List Char → Option Nat
  | '+' :: digits => readDigits? digits
  | digits        => readDigits? digits

/-- Whether the address is that of choice number `count` at `path`. -/
def isAt (a : Address) (path : String) (count : Nat) : Bool :=
  match path.toList.isPrefixOf? a.text.toList with
  | some (':' :: written) => readCount? written == some count
  | _                     => false

instance : Ord Address where
  compare a b := compare a.text b.text

instance : Std.TransOrd Address where
  eq_swap {a b} := Std.OrientedOrd.eq_swap (a := a.text) (b := b.text)
  isLE_trans {a b c} := Std.TransOrd.isLE_trans (a := a.text) (b := b.text) (c := c.text)

instance : Std.LawfulEqOrd Address where
  eq_of_compare {a b} h := by
    cases a; cases b
    exact congrArg mk (Std.LawfulEqOrd.eq_of_compare h)
  compare_self {a} := Std.ReflOrd.compare_self (a := a.text)

/-- `a` comes no later than `b` by code points. -/
def le (a b : Address) : Bool := (compare a b).isLE

/-- The addresses in ascending order, equal ones kept as they stand. -/
def sort (addresses : List Address) : List Address := addresses.mergeSort le

end Address

end ProbTrace
