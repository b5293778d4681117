import ProbTrace.Address

/-!
# CallSites — where in a program a choice is made

A pass keeps the paths of the call sites that are open and, for every path, the number of choices
made there.  The two together name each choice (`claim`).  Entering a site appends its name to the
path; leaving asks that the path ends with the name, so that an unbalanced program is noticed.
-/

namespace ProbTrace

/-- A claimed place for a choice: the enclosing path and the number of earlier choices there. -/
structure Site where
  path  : String
  count : Nat
deriving DecidableEq

/-- The address that a site stands for. -/
def Site.address (s : Site) : Address := .atSite s.path s.count

/-- The open call sites and the choices counted so far. -/
structure CallSites where
  /-- Paths of the open call sites, the innermost first. -/
  paths    : List String := []
  /-- Choices made so far, by path. -/
  counters : Std.TreeMap String Nat := {}

namespace CallSites

/-- Nothing entered and nothing counted. -/
def empty : CallSites := {}

/-- The path of the innermost open call site; outside all of them it is empty. -/
def path (c : CallSites) : String := c.paths.head?.getD ""

/-- The number of call sites that are open. -/
def depth (c : CallSites) : Nat := c.paths.length

/-- Opens the call site `id`. -/
def enter (c : CallSites) (id : String) : CallSites :=
  { c with paths := (c.path ++ ":" ++ id) :: c.paths }

/-- Closes the innermost call site, if the path ends with `id`.  Outside all call sites there is
nothing to close. -/
def leave? (c : CallSites) (id : String) : Option CallSites :=
  if id.toList.isSuffixOf c.path.toList then some { c with paths := c.paths.tail } else none

/-- The number of choices made so far at `path`. -/
def counted (c : CallSites) (path : String) : Nat := c.counters.getD path 0

/-- Claims the next site at the current path. -/
def claim (c : CallSites) : Site × CallSites :=
  let site : Site := ⟨c.path, c.counted c.path⟩
  (site, { c with counters := c.counters.insert site.path (site.count + 1) })

/-- Closes every call site and forgets the counts. -/
def reset (_ : CallSites) : CallSites := empty

/-! ### What each operation does to the path, the depth and the counts -/

theorem depth_enter (c : CallSites) (id : String) : (c.enter id).depth = c.depth + 1 := rfl

theorem path_enter (c : CallSites) (id : String) : (c.enter id).path = c.path ++ ":" ++ id := rfl

theorem counted_enter (c : CallSites) (id path : String) :
    (c.enter id).counted path = c.counted path := rfl

/-- Leaving the call site entered last undoes the entering. -/
theorem leave?_enter (c : CallSites) (id : String) : (c.enter id).leave? id = some c := by
  have h : id.toList.isSuffixOf (c.enter id).path.toList = true := by
    rw [List.isSuffixOf_iff_suffix, path_enter, String.toList_append]
    exact List.suffix_append _ _
  unfold leave?
  rw [if_pos h]
  rfl

theorem path_claim (c : CallSites) : c.claim.2.path = c.path := rfl

theorem depth_claim (c : CallSites) : c.claim.2.depth = c.depth := rfl

/-- Claiming counts one choice at the current path. -/
theorem counted_claim (c : CallSites) (path : String) :
    c.claim.2.counted path = c.counted path + if c.path = path then 1 else 0 := by
  by_cases h : c.path = path <;>
    simp [claim, counted, Std.TreeMap.getD_insert, h]

end CallSites

end ProbTrace
