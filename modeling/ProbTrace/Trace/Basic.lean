import ProbTrace.Arena
import ProbTrace.Options
import ProbTrace.Program
import ProbTrace.Session

/-!
# Trace — every random choice of one run of a program

A trace holds a program, its budgets and its generator, the records of the choices that the last
pass made, and the order in which it made them.  It keeps the joint log-probability and, apart
from it, that of the choices the last pass created and of those it removed.
-/

namespace ProbTrace

/-- The choices of one run of a program. -/
structure Trace where
  id        : Nat
  program   : Program
  limits    : Limits
  generator : Generator
  arena     : Arena := {}
  /-- Slots in the order in which the last pass visited them. -/
  order     : Array Nat := #[]
  /-- The number of choices made so far in the running pass. -/
  cursor    : Nat := 0
  /-- The joint log-probability. -/
  joint     : Float := 0.0
  /-- The log-probability of the choices that the last pass created. -/
  added     : Float := 0.0
  /-- The log-probability of the choices that the last pass removed. -/
  dropped   : Float := 0.0
  /-- The choices that the last pass removed. -/
  removed   : Array Record := #[]
  /-- Whether every condition of the last pass held. -/
  satisfied : Bool := false
  /-- The value of the last pass that was completed. -/
  returned  : Option Value := none

namespace Trace

/-- A trace that has never run its program. -/
def unstarted (id : Nat) (program : Program) (limits : Limits) (generator : Generator) : Trace :=
  { id, program, limits, generator }

/-- The same records under an id of their own. -/
def copyAs (t : Trace) (id : Nat) : Trace := { t with id }

/-- Forgets every choice. -/
def reset (t : Trace) : Trace :=
  { t with arena := {}, order := #[], removed := #[], cursor := 0 }

/-- The number of choices. -/
def size (t : Trace) : Nat := t.arena.size

/-- Whether there are no choices. -/
def isEmpty (t : Trace) : Bool := t.size == 0

/-- The record at an address. -/
def record? (t : Trace) (address : Address) : Option Record := t.arena.lookup? address

/-- The value at an address. -/
def value? (t : Trace) (address : Address) : Option Value := (t.record? address).map (·.value)

/-- The records in the order in which the last pass visited them. -/
def records (t : Trace) : List Record := t.order.toList.filterMap t.arena.record?

/-- The addresses in the order in which the last pass visited them. -/
def addresses (t : Trace) : List Address := t.records.map (·.address)

/-- Whether a record is free to change, and of one of the demanded classes. -/
def isFree (structural plain : Bool) (r : Record) : Bool :=
  !r.conditioned && ((structural && r.structural) || (plain && !r.structural))

/-- The slots of the free choices of the demanded classes, in the order of their visits. -/
def freeSlots (t : Trace) (structural plain : Bool) : List Nat :=
  t.order.toList.filter fun i => (t.arena.record? i).any (isFree structural plain)

/-- The addresses of the free choices of the demanded classes, in the order of their visits. -/
def freeAddresses (t : Trace) (structural plain : Bool) : List Address :=
  (t.freeSlots structural plain).filterMap fun i => (t.arena.record? i).map (·.address)

/-- The error of a slot that should hold a record and is empty. -/
def dangling (slot : Nat) : Error := .failure ("dangling variable #" ++ Decimal.natText slot)

/-- Overwrites the value at an address and rescores it.  The joint log-probability follows in the
next pass. -/
def setValue (t : Trace) (address : Address) (value : Value) : Except Error Trace := do
  match t.arena.slotOf? address with
  | none   => throw (.unknownAddress address)
  | some i =>
    match t.arena.record? i with
    | none   => throw (dangling i)
    | some r =>
      let r ← r.rescored value
      return { t with arena := t.arena.put i r }

/-- Adds a weight to the joint log-probability. -/
def addFactor (t : Trace) (weight : Float) : Trace := { t with joint := t.joint + weight }

/-- Demands that something holds. -/
def demand (t : Trace) (holds : Bool) : Trace := { t with satisfied := t.satisfied && holds }

/-- The records of this trace whose address the other one does not have. -/
def onlyIn (t other : Trace) : List Record :=
  t.records.filter fun r => !other.arena.contains r.address

/-- The addresses of this trace that the other one does not have. -/
def addressesOnlyIn (t other : Trace) : List Address := (t.onlyIn other).map (·.address)

/-- The log-probability of the choices at those addresses. -/
def logProbabilityOnlyIn (t other : Trace) : Float :=
  (t.onlyIn other).foldl (fun sum r => sum + r.logDensity) 0.0

end Trace

/-- Makes a trace that has never run its program, under the next id. -/
def Session.newTrace (s : Session) (program : Program) (limits : Limits) (generator : Generator) :
    Trace × Session :=
  let (id, s) := s.freshId
  (.unstarted id program limits generator, s)

/-- Copies a trace under the next id. -/
def Session.copyTrace (s : Session) (t : Trace) : Trace × Session :=
  let (id, s) := s.freshId
  (t.copyAs id, s)

end ProbTrace
