import ProbTrace.CallSites
import ProbTrace.Family.Domain
import ProbTrace.Family.Sampling
import ProbTrace.Trace.Basic

/-!
# Trace — Choice: the next random choice of a running pass

A request is served by the record that the previous pass visited at the same position, if it has
the right address, family and class (`atPosition`); else by the record stored at its address, if it
has the right family and class (`atAddress`); else by a new record.  Once a position turns out
stale, the rest of the old order is forgotten, and the choices after it are found by address.
-/

namespace ProbTrace

/-- What a look for a stored record finds. -/
inductive Found where
  /-- The record in this slot serves the request. -/
  | reuse (slot : Nat)
  /-- There is a record, and it does not serve the request. -/
  | unfit (record : Record)
  /-- There is none. -/
  | nothing

namespace Trace

/-- Looks at the position of the previous order that the pass has come to. -/
def atPosition (t : Trace) (q : Request) (site : Site) : Found :=
  match t.order[t.cursor]? with
  | none   => .nothing
  | some i =>
    match t.arena.record? i with
    | none   => .nothing
    | some r =>
      if r.fits q.family q.structural && r.address.isAt site.path site.count then .reuse i
      else .unfit r

/-- Looks at the record stored at an address. -/
def atAddress (t : Trace) (q : Request) (address : Address) : Found :=
  match t.arena.slotOf? address with
  | none   => .nothing
  | some i =>
    match t.arena.record? i with
    | none   => .nothing
    | some r => if r.fits q.family q.structural then .reuse i else .unfit r

/-- Whether the previous order still lists something at the position of the pass. -/
def isListed (t : Trace) : Bool := t.cursor < t.order.size

/-- Forgets the previous order from the position of the pass on. -/
def forgetRest (t : Trace) : Trace := { t with order := t.order.take t.cursor }

/-- Brings the record in a slot up to date with a request. -/
def refresh (t : Trace) (i : Nat) (q : Request) : Except Error Unit × Trace :=
  match t.arena.record? i with
  | none   => (.error (dangling i), t)
  | some r =>
    let (answer, r) := r.refreshed q
    (answer, { t with arena := t.arena.put i r })

/-- The value of a new choice, and the generator after it: the observed value; or the first one of
the domain, while enumerating and if there is a domain; or a draw. -/
def newValue (q : Request) (enumerating : Bool) (g : Generator) :
    Except Fault (Value × Generator) :=
  match q.observed with
  | some v => .ok (v, g)
  | none   =>
    match q.family.support with
    | .enumerable d =>
      if enumerating then (d.first q.params).map fun v => (v, g) else q.family.sample q.params g
    | _ => q.family.sample q.params g

/-- Creates a record for a request, and tells its slot. -/
def create (t : Trace) (address : Address) (q : Request) (enumerating : Bool) :
    Except Fault (Nat × Record) × Trace :=
  match newValue q enumerating t.generator with
  | .error fault        => (.error fault, t)
  | .ok (v, generator) =>
    match q.family.logDensity v q.params with
    | .error e => (.error (.error e), { t with generator })
    | .ok lp   =>
      let r := Record.ofRequest address q v lp
      let (i, arena) := t.arena.insert r
      (.ok (i, r), { t with generator, arena, added := t.added + lp })

/-- Lists a slot at the end of the order. -/
def enlist (t : Trace) (i : Nat) : Trace := { t with order := t.order.push i }

/-- Counts the choice in a slot as made, and gives its value. -/
def arrive (t : Trace) (i : Nat) : Except Error Value × Trace :=
  let t := { t with cursor := t.cursor + 1 }
  match t.arena.record? i with
  | none   => (.error (dangling i), t)
  | some r =>
    (.ok r.value, { t with
      arena := t.arena.put i { r with active := true }
      joint := t.joint + r.logDensity })

end Trace

/-- A pass that is running: the trace it populates, where the program is, and the session. -/
structure Pass where
  trace   : Trace
  sites   : CallSites
  session : Session

namespace Pass

/-- Reports an event. -/
def report (p : Pass) (e : Event) : Pass := { p with session := p.session.report e }

/-- Counts a choice as made, unless making it failed. -/
def settle (slot : Nat) : Except Error Unit × Trace → CallSites → Session →
    Except Fault Value × Pass
  | (.error e, t), sites, s => (.error (.error e), ⟨t, sites, s⟩)
  | (.ok (), t),   sites, s =>
    let (answer, t) := t.arrive slot
    (Fault.lift answer, ⟨t, sites, s⟩)

/-- Makes a new choice at an address. -/
def chooseNew (address : Address) (q : Request) (t : Trace) (sites : CallSites) (s : Session) :
    Except Fault Value × Pass :=
  match t.create address q s.enumerating with
  | (.error fault, t)  => (.error fault, ⟨t, sites, s⟩)
  | (.ok (i, r), t)    => settle i (.ok (), t.enlist i) sites (s.report (.created r))

/-- Makes the choice stored at an address, or a new one. -/
def chooseByAddress (address : Address) (q : Request) (t : Trace) (sites : CallSites)
    (s : Session) : Except Fault Value × Pass :=
  match t.atAddress q address with
  | .nothing => chooseNew address q t sites s
  | .unfit r => chooseNew address q t sites (s.report (.discarded r q))
  | .reuse i =>
    match t.refresh i q with
    | (.error e, t) => (.error (.error e), ⟨t, sites, s⟩)
    | (.ok (), t)   => settle i (.ok (), t.enlist i) sites s

/-- Makes the choice that the previous pass made at this position, or the one stored at its
address, or a new one. -/
def chooseAt (site : Site) (q : Request) (t : Trace) (sites : CallSites) (s : Session) :
    Except Fault Value × Pass :=
  match t.atPosition q site with
  | .reuse i => settle i (t.refresh i q) sites s
  | _        =>
    if t.isListed then
      chooseByAddress site.address q t.forgetRest sites (s.report (.stale t.cursor))
    else chooseByAddress site.address q t sites s

/-- Makes a choice.  An enumerating pass that has made as many choices as its budget allows refuses
before anything is claimed. -/
def choose (q : Request) : Pass → Except Fault Value × Pass
  | ⟨t, sites, s⟩ =>
    if s.enumerating && t.limits.maxChoices ≤ t.cursor then
      (.error (.error (.divergent sites.depth t.cursor)), ⟨t, sites, s⟩)
    else
      let (site, sites) := sites.claim
      chooseAt site q t sites s

/-- Enters a call site.  An enumerating pass refuses one more than its budget allows. -/
def enter (id : String) : Pass → Except Error Unit × Pass
  | ⟨t, sites, s⟩ =>
    if s.enumerating && t.limits.maxDepth ≤ sites.depth then
      (.error (.divergent sites.depth t.cursor), ⟨t, sites, s⟩)
    else (.ok (), ⟨t, sites.enter id, s⟩)

end Pass

end ProbTrace
