import ProbTrace.Trace.Pass

/-!
# Search — Odometer: the next assignment of the free choices

The free choices with a finite domain are the wheels of an odometer, the one visited last turning
fastest.  A wheel past its last value starts again at its first and carries into the one before it.
Choices without a finite domain are passed over.
-/

namespace ProbTrace

namespace Record

/-- Turns a wheel: the next value of the domain, or the first one and a carry. -/
def turn (r : Record) (d : Domain) : Except Fault (Record × Bool) := do
  match ← d.next (some r.value) r.params with
  | some v => return (← r.rescored v, false)
  | none   => return (← r.rescored (← d.first r.params), true)

/-- Whether the record is free and has no finite domain. -/
def isLoose (r : Record) : Bool := !r.conditioned && !r.family.isEnumerable

end Record

namespace Trace

/-- Turns the wheels in these slots, until one does not carry.  The answer is whether there was
one. -/
def advanceSlots (t : Trace) : List Nat → Except Fault Bool × Trace
  | []      => (.ok false, t)
  | i :: is =>
    match t.arena.record? i with
    | none   => (.error (.error (dangling i)), t)
    | some r =>
      match r.family.support with
      | .enumerable d =>
        match r.turn d with
        | .error fault    => (.error fault, t)
        | .ok (r, false) => (.ok true, { t with arena := t.arena.put i r })
        | .ok (r, true)  => advanceSlots { t with arena := t.arena.put i r } is
      | _ => advanceSlots t is

/-- Moves the free choices to the next assignment.  The answer is false once every one has started
again. -/
def advance (t : Trace) : Except Fault Bool × Trace :=
  t.advanceSlots (t.freeSlots true true).reverse

/-- Whether some free choice has no finite domain. -/
def hasLoose (t : Trace) : Bool := t.records.any Record.isLoose

end Trace

end ProbTrace
