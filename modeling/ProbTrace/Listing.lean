import ProbTrace.Address
import ProbTrace.Decimal.Text

/-!
# Listing — texts of lists, numbers and addresses

Lists stand between square brackets with commas.  A number is written either in full or with two
decimal places.
-/

namespace ProbTrace.Listing

/-- Texts between square brackets, with commas between them. -/
def bracketed (texts : List String) : String := "[" ++ ", ".intercalate texts ++ "]"

/-- A number, in full or with two decimal places. -/
def number (full : Bool) (x : Float) : String :=
  if full then Decimal.plain x else Decimal.fixed 2 x

/-- A list of numbers. -/
def numbers (xs : List Float) (full : Bool) : String := bracketed (xs.map (number full))

/-- A list of addresses. -/
def addresses (as : List Address) : String := bracketed (as.map Address.text)

/-- A truth value as a word. -/
def truth (b : Bool) : String := if b then "true" else "false"

end ProbTrace.Listing
