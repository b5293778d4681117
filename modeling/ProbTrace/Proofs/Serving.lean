import ProbTrace.Proofs.Refreshing
import ProbTrace.Proofs.Slots
import ProbTrace.Trace.Pass

/-!
# Proofs — Serving: a choice found by its address alone

`Trace.serve` is what making a choice comes to when the previous order is not looked at: the record
stored at the address is brought up to date and visited, or a new one is stored and visited.
Beside the answer it gives the whole trace after the choice, so that what a choice keeps is proved
by looking at the five outcomes that `Serves` lists.

`chooseByAddress_eq` says that a running pass which looks for a choice by its address does just
this, and otherwise only reports events.  Events are never read back: `Session.quiet` is a session
without them.
-/

namespace ProbTrace

/-! ### Sessions without events -/

namespace Session

/-- The session with no events kept, and none to come. -/
def quiet (s : Session) : Session := s.record false

@[simp] theorem quiet_report (s : Session) (e : Event) : (s.report e).quiet = s.quiet := by
  rw [report]
  split <;> rfl

theorem enumerating_eq_of_quiet_eq {s s' : Session} (h : s'.quiet = s.quiet) :
    s'.enumerating = s.enumerating := by
  show s'.quiet.enumerating = s.quiet.enumerating
  rw [h]

end Session

/-! ### One choice -/

namespace Trace

/-- The slots that the running pass has visited. -/
def visited (t : Trace) : List Nat := t.order.toList.take t.cursor

/-- The stored record that serves a request at an address, and its slot. -/
def serving? (t : Trace) (x : Address) (q : Request) : Option (Nat × Record) :=
  match t.atAddress q x with
  | .reuse i => (t.arena.record? i).map fun r => (i, r)
  | _        => none

/-- The trace once the record `r` of slot `i` has been visited. -/
def visit (t : Trace) (i : Nat) (r : Record) : Trace :=
  { t with
    arena := t.arena.put i { r with active := true }
    order := t.order.push i
    cursor := t.cursor + 1
    joint := t.joint + r.logDensity }

/-- The trace once the new record `r` has been stored and visited. -/
def visitNew (t : Trace) (generator : Generator) (r : Record) : Trace :=
  { t with
    generator
    arena := (t.arena.insert r).2
    order := t.order.push (t.arena.insert r).1
    cursor := t.cursor + 1
    joint := t.joint + r.logDensity
    added := t.added + r.logDensity }

/-- Serves a request by a new record. -/
def serveNew (t : Trace) (x : Address) (q : Request) (enumerating : Bool) :
    Except Fault Value × Trace :=
  match newValue q enumerating t.generator with
  | .error fault       => (.error fault, t)
  | .ok (v, generator) =>
    match q.family.logDensity v q.params with
    | .error e => (.error (.error e), { t with generator })
    | .ok lp   => (.ok v, t.visitNew generator (.ofRequest x q v lp))

/-- Serves a request by the record stored at the address, or by a new one. -/
def serve (t : Trace) (x : Address) (q : Request) (enumerating : Bool) :
    Except Fault Value × Trace :=
  match t.serving? x q with
  | none        => t.serveNew x q enumerating
  | some (i, r) =>
    match r.refreshed q with
    | (.error e, r) => (.error (.error e), { t with arena := t.arena.put i r })
    | (.ok (), r)   => (.ok r.value, t.visit i r)

/-- The ways in which serving a request can end. -/
inductive Serves (t : Trace) (x : Address) (q : Request) (enumerating : Bool) :
    Except Fault Value × Trace → Prop where
  /-- There is no value for a new record. -/
  | undrawn {fault : Fault} (h : newValue q enumerating t.generator = .error fault) :
      Serves t x q enumerating (.error fault, t)
  /-- The value for a new record has no density. -/
  | unscored {v : Value} {generator : Generator} {e : Error}
      (h : q.family.logDensity v q.params = .error e) :
      Serves t x q enumerating (.error (.error e), { t with generator })
  | created {v : Value} {generator : Generator} {lp : Float}
      (h : q.family.logDensity v q.params = .ok lp) :
      Serves t x q enumerating (.ok v, t.visitNew generator (.ofRequest x q v lp))
  /-- The stored record cannot be rescored. -/
  | refused {i : Nat} {r s : Record} {e : Error} (hr : t.serving? x q = some (i, r))
      (h : r.refreshed q = (.error e, s)) :
      Serves t x q enumerating (.error (.error e), { t with arena := t.arena.put i s })
  | reused {i : Nat} {r s : Record} (hr : t.serving? x q = some (i, r))
      (h : r.refreshed q = (.ok (), s)) :
      Serves t x q enumerating (.ok s.value, t.visit i s)

theorem serves (t : Trace) (x : Address) (q : Request) (enumerating : Bool) :
    Serves t x q enumerating (t.serve x q enumerating) := by
  rw [serve]
  cases hr : t.serving? x q with
  | none =>
      simp only [serveNew]
      split
      · rename_i fault h
        exact .undrawn h
      · split
        · rename_i e h
          exact .unscored h
        · rename_i lp h
          exact .created h
  | some w =>
      obtain ⟨i, r⟩ := w
      simp only
      split
      · rename_i e s h
        exact .refused hr h
      · rename_i s h
        exact .reused hr h

variable {t : Trace} {x : Address} {q : Request} {i : Nat} {r : Record}

theorem atAddress_eq_reuse_iff : t.atAddress q x = .reuse i ↔
    t.arena.Owned i x ∧ ∃ r, t.arena.record? i = some r ∧ r.fits q.family q.structural = true := by
  rw [atAddress, Arena.Owned]
  split
  · rename_i h
    simp [h]
  · rename_i j h
    rw [h, Option.some_inj]
    split
    · rename_i hr
      constructor
      · intro hf
        cases hf
      · rintro ⟨rfl, r, hr', -⟩
        rw [hr] at hr'
        cases hr'
    · rename_i r hr
      split
      · rename_i hf
        constructor
        · intro h
          cases h
          exact ⟨rfl, r, hr, hf⟩
        · rintro ⟨rfl, -⟩
          rfl
      · rename_i hf
        constructor
        · intro h
          cases h
        · rintro ⟨rfl, r', hr', hf'⟩
          rw [hr] at hr'
          cases hr'
          exact absurd hf' hf

/-- A record serves a request when it lies in the slot of the address and fits. -/
theorem serving?_eq_some_iff : t.serving? x q = some (i, r) ↔
    t.arena.Owned i x ∧ t.arena.record? i = some r ∧ r.fits q.family q.structural = true := by
  rw [serving?]
  constructor
  · intro h
    split at h
    · rename_i j hj
      obtain ⟨s, hs, he⟩ := Option.map_eq_some_iff.mp h
      cases he
      obtain ⟨ho, r', hr', hf⟩ := atAddress_eq_reuse_iff.mp hj
      rw [hs] at hr'
      cases hr'
      exact ⟨ho, hs, hf⟩
    · cases h
  · rintro ⟨ho, hr, hf⟩
    rw [atAddress_eq_reuse_iff.mpr ⟨ho, r, hr, hf⟩]
    simp [hr]

end Trace

/-! ### A pass that looks by address serves the choice -/

namespace Arena

theorem put_put (a : Arena) (i : Nat) (r r' : Record) : (a.put i r).put i r' = a.put i r' := by
  simp [put]

theorem put_insert_self (a : Arena) (r : Record) :
    (a.insert r).2.put (a.insert r).1 r = (a.insert r).2 := by
  rcases a with ⟨slots, _ | ⟨i, free⟩, index⟩
  · simp only [insert, put, Arena.mk.injEq, and_true]
    apply Array.ext
    · simp
    · intro j hj hj'
      rw [Array.getElem_setIfInBounds (by simpa using hj)]
      split
      · rename_i h
        subst h
        simp
      · rfl
  · simp [insert, put]

end Arena

namespace Pass

variable {t : Trace} {x : Address} {q : Request} {i : Nat} {r : Record}

/-- Counting a choice whose record has just been brought up to date visits it. -/
theorem settle_ok (hi : t.arena.Occupied i) (sites : CallSites) (s : Session) :
    settle i (.ok (), { t with arena := t.arena.put i r }) sites s =
      (.ok r.value, ⟨{ t.visit i r with order := t.order }, sites, s⟩) := by
  have hr : (t.arena.put i r).record? i = some r := Arena.record?_put_self hi
  simp only [settle, Trace.arrive, hr, Arena.put_put]
  rfl

theorem chooseNew_eq (ha : t.arena.Sound) (sites : CallSites) (s : Session) :
    ∃ s' : Session, s'.quiet = s.quiet ∧
      chooseNew x q t sites s =
        ((t.serveNew x q s.enumerating).1, ⟨(t.serveNew x q s.enumerating).2, sites, s'⟩) := by
  rw [chooseNew, Trace.create, Trace.serveNew]
  cases Trace.newValue q s.enumerating t.generator with
  | error fault => exact ⟨s, rfl, rfl⟩
  | ok w =>
      obtain ⟨v, g⟩ := w
      cases hd : q.family.logDensity v q.params with
      | error e => exact ⟨s, rfl, by simp [hd]⟩
      | ok lp =>
          refine ⟨s.report (.created (.ofRequest x q v lp)), Session.quiet_report _ _, ?_⟩
          have hr := ha.record?_insert_self (.ofRequest x q v lp)
          -- a new record is marked when it is stored, and marked again when it is counted
          have hp := Arena.put_insert_self t.arena (.ofRequest x q v lp)
          simp only [hd, settle, Trace.arrive, Trace.enlist, hr]
          exact congrArg (fun a => (Except.ok v, Pass.mk
            { t.visitNew g (.ofRequest x q v lp) with arena := a } sites _)) hp

/-- **Looking for a choice by its address serves it**, and beside that only reports events. -/
theorem chooseByAddress_eq (ha : t.arena.Sound) (sites : CallSites) (s : Session) :
    ∃ s' : Session, s'.quiet = s.quiet ∧
      chooseByAddress x q t sites s =
        ((t.serve x q s.enumerating).1, ⟨(t.serve x q s.enumerating).2, sites, s'⟩) := by
  rw [chooseByAddress, Trace.serve]
  cases h : t.atAddress q x with
  | nothing =>
      have hn : t.serving? x q = none := by simp [Trace.serving?, h]
      simp only [hn]
      exact chooseNew_eq ha sites s
  | unfit r =>
      have hn : t.serving? x q = none := by simp [Trace.serving?, h]
      obtain ⟨s', hs', he⟩ := chooseNew_eq (x := x) (q := q) ha sites (s.report (.discarded r q))
      -- the event on the way does not show in what is enumerated
      have hq := Session.quiet_report s (.discarded r q)
      refine ⟨s', hs'.trans hq, ?_⟩
      simp only [hn]
      rw [he, Session.enumerating_eq_of_quiet_eq hq]
  | reuse i =>
      obtain ⟨ho, r, hr, hf⟩ := Trace.atAddress_eq_reuse_iff.mp h
      have hs : t.serving? x q = some (i, r) := Trace.serving?_eq_some_iff.mpr ⟨ho, hr, hf⟩
      refine ⟨s, rfl, ?_⟩
      simp only [hs, Trace.refresh, hr]
      rcases r.refreshed q with ⟨_ | _, r'⟩
      · rfl
      · exact settle_ok (t := t.enlist i) ⟨r, hr⟩ sites s

end Pass

end ProbTrace
