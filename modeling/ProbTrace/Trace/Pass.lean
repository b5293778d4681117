import ProbTrace.Trace.Choice

/-!
# Trace — Pass: running a program against a trace

`Program.run` plays a program against a pass, request by request.  `Trace.passWith` is everything
around it: the trace is marked as being populated, the accumulators start from zero, and every
record counts as not reached.  When the program completes, the records that it did not reach are
pruned; when it fails, every record is kept but those whose address a new one took over, and the
joint log-probability is summed afresh from them.
-/

namespace ProbTrace

namespace Trace

/-- The trace at the start of a pass.  With `fixed` structure the previous order is kept. -/
def start (t : Trace) (fixed : Bool) : Trace :=
  { t with
    arena := t.arena.deactivate
    order := if fixed then t.order else #[]
    cursor := 0
    joint := 0.0
    added := 0.0
    dropped := 0.0
    removed := #[]
    satisfied := true }

/-- Takes the record `r` out of slot `i`. -/
def drop (t : Trace) (i : Nat) (r : Record) : Trace :=
  { t with
    arena := t.arena.remove i r
    dropped := t.dropped + r.logDensity
    removed := t.removed.push r }

/-- Drops the record in slot `i` if the pass did not reach it. -/
def pruneSlot (t : Trace) (i : Nat) : Trace :=
  match t.arena.record? i with
  | some r => if r.active then t else t.drop i r
  | none   => t

/-- Drops every record that the pass did not reach. -/
def prune (t : Trace) : Trace :=
  (List.range t.arena.slots.size).foldl pruneSlot t.forgetRest

/-- Keeps the record in slot `i` of a pass that failed, unless another one took its address
over. -/
def salvageSlot (t : Trace) (i : Nat) : Trace :=
  match t.arena.record? i with
  | none   => t
  | some r =>
    if t.arena.owns i r then
      { t with
        arena := t.arena.put i { r with active := true }
        joint := t.joint + r.logDensity
        order := t.order.push i }
    else t.drop i r

/-- The trace after a pass that failed: what it held and what the pass created, in the order of
the slots, unsatisfied. -/
def abandon (t : Trace) : Trace :=
  let t := { t with satisfied := false, order := #[], joint := 0.0 }
  let t := (List.range t.arena.slots.size).foldl salvageSlot t
  { t with cursor := t.order.size }

/-- The trace after a pass that was completed. -/
def complete (t : Trace) (v : Value) : Trace := { t with returned := some v }.prune

/-- The event of a completed pass. -/
def completion (t : Trace) : Event :=
  .passComplete t.size t.joint t.added t.dropped t.satisfied

/-- What becomes of the trace and the session when the program has ended. -/
def conclude : Except Fault Value × Pass → Except Fault Value × Trace × Session
  | (.ok v, ⟨t, _, s⟩) =>
    let t := t.complete v
    (.ok v, t, s.report t.completion)
  | (.error (.error e), ⟨t, _, s⟩) =>
    (.error (.error e), t.abandon, s.report (.passAborted e))
  | (.error fault, ⟨t, _, s⟩) => (.error fault, t, s)

/-- One pass, in which `run` plays the program.  While another pass is running it is refused, and
nothing changes. -/
def passWith (run : Pass → Except Fault Value × Pass) (t : Trace) (fixed : Bool) (s : Session) :
    Except Fault Value × Trace × Session :=
  match s.activate t.id with
  | .error e          => (.error (.error e), t, s)
  | .ok (guard, s) =>
    let (answer, t, s) := conclude (run ⟨t.start fixed, .empty, s⟩)
    (answer, t, s.release guard)

end Trace

/-- The generator seed of traces that a program makes. -/
def nestedSeed : UInt64 := 0

namespace Program

/-- Plays a program against a running pass.  Requests that fail answer with the error; a defect
ends the run. -/
def run : Program → Pass → Except Fault Value × Pass
  | .done v, p => (.ok v, p)
  | .fail e, p => (.error (.error e), p)
  | .choose q next, p =>
    match p.choose q with
    | (.ok v, p)             => run (next (.ok v)) p
    | (.error (.error e), p) => run (next (.error e)) p
    | (.error fault, p)      => (.error fault, p)
  | .enter id next, p =>
    match p.enter id with
    | (answer, p) => run (next answer) p
  | .leave id next, ⟨t, sites, s⟩ =>
    match sites.leave? id with
    | some sites => run (next ()) ⟨t, sites, s⟩
    | none       => (.error (.defect (.siteMismatch sites.path id)), ⟨t, sites, s⟩)
  | .factor w next, ⟨t, sites, s⟩ => run (next ()) ⟨t.addFactor w, sites, s⟩
  | .condition b next, ⟨t, sites, s⟩ => run (next ()) ⟨t.demand b, sites, s⟩
  | .isActive next, p => run (next true) p
  | .depth next, p => run (next p.sites.depth) p
  | .isEnumerating next, p => run (next p.session.enumerating) p
  | .read cell next, p => run (next (p.session.readCell cell)) p
  | .write cell v next, ⟨t, sites, s⟩ => run (next ()) ⟨t, sites, s.writeCell cell v⟩
  | .nested fixed inner next, ⟨t, sites, s⟩ =>
    let (u, s) := s.newTrace inner {} (.ofSeed nestedSeed)
    match Trace.passWith (run inner) u fixed s with
    | (.ok v, _, s)             => run (next (.ok v)) ⟨t, sites, s⟩
    | (.error (.error e), _, s) => run (next (.error e)) ⟨t, sites, s⟩
    | (.error fault, _, s)      => (.error fault, ⟨t, sites, s⟩)

end Program

namespace Trace

/-- Runs the program once against the trace. -/
def update (t : Trace) (fixed : Bool) (s : Session) : Except Fault Value × Trace × Session :=
  t.passWith t.program.run fixed s

end Trace

end ProbTrace
