import ProbTrace.Event

/-!
# Session — what all traces of a process share

A session knows which trace is being populated, whether new choices start at the front of their
domain, the next trace id, the cells that programs read and write, and the events reported so far.
The first two are only set through guards: setting one gives back a guard, and releasing the guard
restores what was set before.  Passes do not nest: while a trace is being populated no other can
be.
-/

namespace ProbTrace

/-- The shared state of a process. -/
structure Session where
  /-- The trace that is being populated. -/
  active      : Option Nat := none
  /-- Whether new choices start at the front of their domain. -/
  enumerating : Bool := false
  /-- The id of the next trace. -/
  nextId      : Nat := 0
  /-- Values that outlive a pass. -/
  cells       : Std.TreeMap String Value := {}
  /-- Whether events are kept. -/
  recording   : Bool := false
  /-- The events kept so far. -/
  events      : Array Event := #[]

/-- What a setting was before it was changed. -/
inductive Guard where
  | active (previous : Option Nat)
  | enumerating (previous : Bool)
deriving DecidableEq

namespace Session

/-- Takes the next trace id. -/
def freshId (s : Session) : Nat × Session := (s.nextId, { s with nextId := s.nextId + 1 })

/-- Marks a trace as being populated, unless one is already. -/
def activate (s : Session) (id : Nat) : Except Error (Guard × Session) :=
  match s.active with
  | some _ => .error .reentrant
  | none   => .ok (.active none, { s with active := some id })

/-- Sets whether new choices start at the front of their domain. -/
def setEnumerating (s : Session) (on : Bool) : Guard × Session :=
  (.enumerating s.enumerating, { s with enumerating := on })

/-- Restores what was set before. -/
def release (s : Session) : Guard → Session
  | .active previous      => { s with active := previous }
  | .enumerating previous => { s with enumerating := previous }

/-- Keeps an event, if events are kept. -/
def report (s : Session) (e : Event) : Session :=
  if s.recording then { s with events := s.events.push e } else s

/-- Switches keeping events on or off, and forgets the ones so far. -/
def record (s : Session) (on : Bool) : Session := { s with recording := on, events := #[] }

/-- The value of a cell. -/
def readCell (s : Session) (name : String) : Option Value := s.cells[name]?

/-- Sets a cell. -/
def writeCell (s : Session) (name : String) (v : Value) : Session :=
  { s with cells := s.cells.insert name v }

/-! ### Releasing a guard restores the setting -/

theorem release_setEnumerating (s : Session) (on : Bool) :
    (s.setEnumerating on).2.release (s.setEnumerating on).1 = s := rfl

theorem release_activate {s s' : Session} {id : Nat} {guard : Guard}
    (h : s.activate id = .ok (guard, s')) : s'.release guard = s := by
  rcases s with ⟨_ | other, enumerating, nextId, cells, recording, events⟩
  · cases h
    rfl
  · cases h

theorem activate_eq_error_iff (s : Session) (id : Nat) (e : Error) :
    s.activate id = .error e ↔ s.active.isSome ∧ e = .reentrant := by
  rcases s with ⟨_ | other, enumerating, nextId, cells, recording, events⟩ <;>
    simp [activate, eq_comm]

end Session

end ProbTrace
