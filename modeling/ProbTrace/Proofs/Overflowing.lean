import ProbTrace.Proofs.Rerunning
import ProbTrace.Proofs.Scoping
import ProbTrace.Proofs.Winding

/-!
# Proofs — Overflowing: the value that no word comes after

The walk through a domain of words adds one to a value before it looks at the bound.  So there is
one value at which it breaks off, the largest word, whatever the bound is; and categorical and
binomial choices can be scored at that value, as at any other word.  From every other value that can
be scored the walk goes to the element at the next position, or to none at the end of the domain and
beyond it (`Domain.next_eq`).

* `Trace.Overruns` says on which slots the odometer overflows: some wheel holds the largest word,
  and the wheels that turn before it carry (`Trace.advanceSlots_overflows_iff`).
* No pass overflows (`Program.inWords_run`).  A pass asks for the first element of a domain only,
  when it enumerates, and that comes after no value.
* A search fails as its passes and its odometer do (`Search.Confines.raises_search`).  So it
  overflows where its odometer does, and rejection, which has none, does not.

`Reachable.overflows_iff` puts the three together.
-/

namespace ProbTrace

/-- The largest word. -/
def Value.largest : Value := .int (.ofNat (UInt64.size - 1))

theorem Value.position_largest : Value.largest.position = UInt64.size - 1 :=
  UInt64.toNat_ofNat_of_lt' (by decide)

theorem Value.int_eq_largest_iff (m : UInt64) :
    Value.int m = Value.largest ↔ ¬ m.toNat + 1 < UInt64.size := by
  have hlt := m.toNat_lt_size
  constructor
  · intro h
    have hm : m.toNat = UInt64.size - 1 := (congrArg Value.position h).trans position_largest
    omega
  · intro h
    refine congrArg Value.int (UInt64.toNat_inj.mp ?_)
    have hsize : (UInt64.ofNat (UInt64.size - 1)).toNat = UInt64.size - 1 := position_largest
    omega

/-- The fault is an error, or the successor of the largest word was asked for. -/
def Fault.OfWalk (fault : Fault) : Prop := (∃ e, fault = .error e) ∨ fault = .defect .wordOverflow

/-- The fault is not that the successor of the largest word was asked for. -/
def Fault.InWords (fault : Fault) : Prop := fault ≠ .defect .wordOverflow

theorem Fault.inWords_error (e : Error) : Fault.InWords (.error e) := fun h => by cases h

theorem Fault.Usual.inWords {fault : Fault} (h : fault.Usual) : fault.InWords := by
  rintro rfl
  rcases h with ⟨e, he⟩ | h
  · cases he
  · exact h

/-! ### The walk through a domain -/

namespace Domain

variable {d : Domain} {ps : List Float} {v : Value} {f : Family}

/-- What comes after a value in a domain of `n` elements, which may not have the value itself: the
element at the next position, or none. -/
def after (d : Domain) (n : Nat) (v : Value) : Option Value :=
  if v.position + 1 < n then some (d.element (v.position + 1)) else none

/-- Only the largest word has no successor. -/
theorem successor_overflows_iff :
    successor f (some v) = .error (.defect .wordOverflow) ↔ v = .largest := by
  cases v with
  | int m =>
      rw [successor_int, Value.int_eq_largest_iff]
      split
      · exact iff_of_false (fun h => by cases h) (not_not_intro ‹_›)
      · exact iff_of_true rfl ‹_›
  | bool | float | vec => exact iff_of_false (fun h => by cases h) (fun h => by cases h)

/-- What is computed from a successor overflows as the successor does. -/
theorem successor_bind_overflows_iff (g : UInt64 → Option Value) :
    (successor f (some v) >>= fun m => Except.ok (g m)) = .error (.defect .wordOverflow) ↔
      v = .largest := by
  rw [← successor_overflows_iff (f := f)]
  cases successor f (some v) with
  | error fault => exact Iff.of_eq (by simp only [bind, Except.bind, Except.error.injEq])
  | ok m => exact iff_of_false (fun h => by cases h) (fun h => by cases h)

/-- **The walk overflows at the largest word**, in a domain of words that the parameters give a
size, and nowhere else. -/
theorem next_overflows_iff : d.next (some v) ps = .error (.defect .wordOverflow) ↔
    v = .largest ∧ d ≠ .flip ∧ ∃ n, d.size ps = .ok n := by
  cases d with
  | flip =>
      refine iff_of_false (fun h => ?_) (fun h => h.2.1 rfl)
      cases v <;> cases h
  | categorical =>
      refine (successor_bind_overflows_iff _).trans (and_iff_left ?_).symm
      exact ⟨Domain.noConfusion, _, rfl⟩
  | binomial =>
      rw [next, size]
      cases Family.trials ps with
      | error e =>
          refine iff_of_false (fun h => by cases h) ?_
          rintro ⟨-, -, n, hn⟩
          cases hn
      | ok out =>
          refine (successor_bind_overflows_iff _).trans (and_iff_left ?_).symm
          exact ⟨Domain.noConfusion, _, rfl⟩

/-- The walk fails with an error, or overflows. -/
theorem raises_next_some (d : Domain) (v : Value) (ps : List Float) :
    Raises Fault.OfWalk (d.next (some v) ps) := by
  have hlift : ∀ {α : Type} (answer : Except Error α), Raises Fault.OfWalk (Fault.lift answer) := by
    rintro α (e | a)
    · exact raises_error (.inl ⟨e, rfl⟩)
    · exact raises_ok a
  have hsuccessor : ∀ f, Raises Fault.OfWalk (successor f (some v)) := fun f =>
    (hlift (f.intOf v)).bind fun m => by
      split
      · exact raises_ok _
      · exact raises_error (.inr rfl)
  cases d with
  | flip => exact (hlift _).bind fun _ => raises_ok _
  | categorical => exact (hsuccessor _).bind fun _ => raises_ok _
  | binomial => exact (hlift _).bind fun _ => (hsuccessor _).bind fun _ => raises_ok _

/-- **Where the walk does not overflow, it goes to the next position**, up to the last one, and
from outside the domain to nowhere. -/
theorem next_eq (hc : d.family.check ps = .ok ()) (hv : d.family.checkValue v = .ok ())
    (hne : v ≠ .largest) : ∃ n, d.size ps = .ok n ∧ d.next (some v) ps = .ok (d.after n v) := by
  cases hn : d.next (some v) ps with
  | ok out =>
      obtain ⟨n, hsize, -, rfl⟩ := next_eq_ok hn
      exact ⟨n, hsize, rfl⟩
  | error fault =>
      rcases raises_next_some d v ps fault hn with ⟨e, rfl⟩ | rfl
      · exact absurd hn (next_ne_error hc hv e)
      · exact absurd (next_overflows_iff.mp hn).1 hne

end Domain

/-! ### The odometer -/

namespace Record

variable {r : Record} {d : Domain}

/-- The record holds the largest word, in a domain of words. -/
def Topped (r : Record) : Prop :=
  r.value = .largest ∧ ∃ d n, r.family.support = .enumerable d ∧ d ≠ .flip ∧
    d.size r.params = .ok n

/-- The wheel, if there is one, goes back to its first value and carries. -/
def Carries (r : Record) : Prop :=
  ∀ d, r.family.support = .enumerable d → ∃ m, r.turn d = .ok (m, true)

theorem carries_iff (hd : r.family.support = .enumerable d) :
    r.Carries ↔ ∃ m, r.turn d = .ok (m, true) := by
  refine ⟨fun h => h d hd, fun h d' hd' => ?_⟩
  cases hd.symm.trans hd'
  exact h

/-- A record without a wheel carries, whatever it holds. -/
theorem carries_of_loose (hf : r.family.isEnumerable = false) : r.Carries ∧ ¬ r.Topped := by
  refine ⟨fun d hd => absurd hd (Family.support_of_loose hf d), ?_⟩
  rintro ⟨-, d, n, hd, -⟩
  exact Family.support_of_loose hf d hd

theorem topped_iff (hd : r.family.support = .enumerable d) :
    d.next (some r.value) r.params = .error (.defect .wordOverflow) ↔ r.Topped := by
  rw [Domain.next_overflows_iff, Topped]
  constructor
  · rintro ⟨hv, hne, n, hn⟩
    exact ⟨hv, d, n, hd, hne, hn⟩
  · rintro ⟨hv, d', n, hd', hne, hn⟩
    cases hd.symm.trans hd'
    exact ⟨hv, hne, n, hn⟩

/-- A wheel overflows where the walk does: its first value comes after none. -/
theorem turn_overflows_iff (hd : r.family.support = .enumerable d) :
    r.turn d = .error (.defect .wordOverflow) ↔ r.Topped := by
  rw [← topped_iff hd, turn]
  cases d.next (some r.value) r.params with
  | error fault => exact Iff.of_eq (by simp only [bind, Except.bind, Except.error.injEq])
  | ok o =>
      refine iff_of_false (fun h => ?_) (fun h => by cases h)
      have hrescored : ∀ (v : Value) (b : Bool), Raises Fault.Usual
          (Fault.lift (r.rescored v) >>= fun m => Except.ok (m, b)) := fun v b =>
        (usual_lift _).bind fun _ => raises_ok _
      refine Fault.Usual.inWords ?_ rfl
      cases o with
      | some v => exact hrescored v false _ h
      | none => exact (d.usual_first r.params).bind (fun v => hrescored v true) _ h

end Record

namespace Trace

variable {t u : Trace} {is : List Nat}

/-- On the way through these slots the odometer comes to a wheel that holds the largest word. -/
inductive Overruns (t : Trace) : List Nat → Prop where
  | topped {i : Nat} {is : List Nat} {r : Record} (hi : t.arena.record? i = some r)
      (hr : r.Topped) : Overruns t (i :: is)
  | carried {i : Nat} {is : List Nat} {r : Record} (hi : t.arena.record? i = some r)
      (hr : r.Carries) (h : Overruns t is) : Overruns t (i :: is)

theorem overruns_cons_iff {i : Nat} {r : Record} (hi : t.arena.record? i = some r) :
    t.Overruns (i :: is) ↔ r.Topped ∨ r.Carries ∧ t.Overruns is := by
  constructor
  · rintro (⟨hi', hr⟩ | ⟨hi', hr, h⟩)
    · cases hi.symm.trans hi'
      exact .inl hr
    · cases hi.symm.trans hi'
      exact .inr ⟨hr, h⟩
  · rintro (hr | ⟨hr, h⟩)
    · exact .topped hi hr
    · exact .carried hi hr h

theorem not_overruns_of_empty {i : Nat} (hi : t.arena.record? i = none) :
    ¬ t.Overruns (i :: is) := by
  rintro (⟨h, -⟩ | ⟨h, -⟩)
  · cases hi.symm.trans h
  · cases hi.symm.trans h

/-- It depends on the records of these slots only. -/
theorem overruns_congr (hu : ∀ i ∈ is, u.arena.record? i = t.arena.record? i) :
    u.Overruns is ↔ t.Overruns is := by
  induction is with
  | nil => exact iff_of_false (fun h => by cases h) (fun h => by cases h)
  | cons i is ih =>
      have hi := hu i (.head _)
      cases hr : t.arena.record? i with
      | none =>
          exact iff_of_false (not_overruns_of_empty (hi.trans hr)) (not_overruns_of_empty hr)
      | some r =>
          rw [overruns_cons_iff hr, overruns_cons_iff (hi.trans hr),
            ih fun j hj => hu j (.tail _ hj)]

/-- **The odometer overflows at a wheel that holds the largest word**, if those before it carry. -/
theorem advanceSlots_overflows_iff (hn : is.Nodup) :
    (t.advanceSlots is).1 = .error (.defect .wordOverflow) ↔ t.Overruns is := by
  induction is generalizing t with
  | nil => exact iff_of_false (fun h => by cases h) (fun h => by cases h)
  | cons i is ih =>
      obtain ⟨hni, hn⟩ := List.nodup_cons.mp hn
      cases hi : t.arena.record? i with
      | none =>
          rw [advanceSlots, hi]
          exact iff_of_false (fun h => by cases h) (not_overruns_of_empty hi)
      | some r =>
          rw [overruns_cons_iff hi]
          cases hf : r.family.isEnumerable with
          | false =>
              obtain ⟨hcarries, htopped⟩ := Record.carries_of_loose hf
              rw [advanceSlots_of_loose hi hf, ih hn, or_iff_right htopped, and_iff_right hcarries]
          | true =>
              obtain ⟨d, hd⟩ := Family.isEnumerable_iff.mp hf
              rw [← Record.turn_overflows_iff hd, Record.carries_iff hd]
              rcases ht : r.turn d with fault | ⟨m, _ | _⟩
              · -- the wheel fails, and nothing after it is turned
                rw [advanceSlots_of_error hi hd ht]
                simp
              · rw [advanceSlots_of_stay hi hd ht]
                simp
              · have hframe : ∀ j ∈ is, (t.rewrite i m).arena.record? j = t.arena.record? j :=
                  fun j hj => Arena.record?_put_of_ne fun hij => hni (hij ▸ hj)
                rw [advanceSlots_of_carry hi hd ht, ih hn, overruns_congr hframe]
                simp

/-- The odometer of a well-formed trace turns every wheel at most once. -/
theorem WellFormed.advance_overflows_iff (h : t.WellFormed) :
    t.advance.1 = .error (.defect .wordOverflow) ↔
      t.Overruns (t.freeSlots true true).reverse :=
  advanceSlots_overflows_iff (List.nodup_reverse.mpr (h.order_nodup.filter _))

end Trace

/-! ### Programs -/

/-- **No run of a program overflows**: a choice asks for the first element of a domain only. -/
theorem Program.inWords_run : ∀ (program : Program) (p : Pass),
    Raises Fault.InWords (program.run p).1
  | .done v, _ => raises_ok v
  | .fail e, _ => raises_error (Fault.inWords_error e)
  | .choose q next, p => by
      have hchoose := p.usual_choose q
      rw [run]
      generalize p.choose q = out at hchoose ⊢
      obtain ⟨(e | d | _) | v, p'⟩ := out
      · exact inWords_run (next (.error e)) p'
      · exact raises_error (hchoose _ rfl).inWords
      · exact raises_error (hchoose _ rfl).inWords
      · exact inWords_run (next (.ok v)) p'
  | .enter id next, p => by
      rw [run]
      rcases p.enter id with ⟨answer, p'⟩
      exact inWords_run (next answer) p'
  | .leave id next, ⟨t, sites, s⟩ => by
      rw [run]
      cases sites.leave? id with
      | some sites' => exact inWords_run (next ()) _
      | none => exact raises_error fun h => by cases h
  | .factor w next, ⟨t, sites, s⟩ => inWords_run (next ()) ⟨t.addFactor w, sites, s⟩
  | .condition b next, ⟨t, sites, s⟩ => inWords_run (next ()) ⟨t.demand b, sites, s⟩
  | .isActive next, p => inWords_run (next true) p
  | .depth next, p => inWords_run (next p.sites.depth) p
  | .isEnumerating next, p => inWords_run (next p.session.enumerating) p
  | .read cell next, p => inWords_run (next (p.session.readCell cell)) p
  | .write cell v next, ⟨t, sites, s⟩ => inWords_run (next ()) ⟨t, sites, s.writeCell cell v⟩
  | .nested fixed inner next, ⟨t, sites, s⟩ => by
      rw [run]
      obtain ⟨u, s'⟩ := s.newTrace inner {} (.ofSeed nestedSeed)
      have hinner := u.raises_passWith Fault.inWords_error (inWords_run inner) fixed s'
      simp only
      generalize u.passWith inner.run fixed s' = out at hinner ⊢
      obtain ⟨(e | d | _) | v, u', s''⟩ := out
      · exact inWords_run (next (.error e)) _
      · exact raises_error (hinner _ rfl)
      · exact raises_error (hinner _ rfl)
      · exact inWords_run (next (.ok v)) _

theorem Trace.inWords_update (t : Trace) (fixed : Bool) (s : Session) :
    Raises Fault.InWords (t.update fixed s).1 :=
  t.raises_passWith Fault.inWords_error t.program.inWords_run fixed s

/-! ### Searches -/

namespace Search

/-- Where the invariant holds, what a search may fail on besides its odometer is in `P`. -/
structure Confines (I : Trace → Session → Prop) (P : Fault → Prop) : Prop where
  invariant  : Invariant I
  error      : ∀ e, P (.error e)
  unfinished : P .unfinished
  update     : ∀ {t s}, I t s → Raises P (t.update false s).1

namespace Confines

variable {I : Trace → Session → Prop} {P : Fault → Prop} {t : Trace} {s : Session}

theorem raises_checkAttempts (h : Confines I P) (t : Trace) (passes : Nat) :
    Raises P (checkAttempts t passes) := by
  rw [checkAttempts]
  split
  · split
    · exact raises_error (h.error _)
    · exact raises_ok ()
  · exact raises_ok ()

theorem raises_pass (h : Confines I P) (hi : I t s) : Raises P (pass t s).1 := by
  have hu := h.update hi
  rw [pass]
  generalize t.update false s = out at hu ⊢
  obtain ⟨fault | v, u, s'⟩ := out
  · exact raises_error (hu fault rfl)
  · exact raises_ok ()

theorem raises_freshPass (h : Confines I P) (hi : I t s) : Raises P (freshPass t s).1 :=
  h.raises_pass (h.invariant.reset (h.invariant.flag false hi))

theorem raises_rejectionFrom (h : Confines I P) : ∀ (fuel passes : Nat) {t : Trace} {s : Session},
    I t s → Raises P (rejectionFrom fuel passes t s).1
  | 0, _, _, _, _ => raises_error h.unfinished
  | fuel + 1, passes, t, s, hi => by
      have hattempts := h.raises_checkAttempts t passes
      have hfresh := h.raises_freshPass hi
      have hleads := h.invariant.leads_freshPass hi
      rw [rejectionFrom]
      generalize checkAttempts t passes = attempts at hattempts ⊢
      obtain fault | _ := attempts
      · exact raises_error (hattempts fault rfl)
      simp only
      generalize freshPass t s = out at hfresh hleads ⊢
      obtain ⟨fault | _, u, s'⟩ := out
      · exact raises_error (hfresh fault rfl)
      simp only
      split
      · exact raises_ok _
      · exact h.raises_rejectionFrom fuel (passes + 1) (hleads.kept (ended_ok ()))

/-! With an odometer that fails in `P` only, so does everything that turns it. -/

theorem raises_onward (hi : Raises P t.advance.1) (worlds : Nat) (s : Session) :
    Raises P (onward worlds t s).1 := by
  rw [onward]
  generalize t.advance = out at hi ⊢
  obtain ⟨fault | _ | _, u⟩ := out
  · exact raises_error (hi fault rfl)
  · simp only
    split
    · exact raises_ok _
    · exact raises_ok _
  · exact raises_ok _

variable (hodometer : ∀ {t s}, I t s → Raises P t.advance.1)
include hodometer

theorem raises_enumerationFrom (h : Confines I P) : ∀ (fuel passes worlds : Nat) {t : Trace}
    {s : Session}, I t s → Raises P (enumerationFrom fuel passes worlds t s).1
  | 0, _, _, _, _, _ => raises_error h.unfinished
  | fuel + 1, passes, worlds, t, s, hi => by
      have hattempts := h.raises_checkAttempts t passes
      have honward := raises_onward (hodometer hi) worlds s
      have hnext := h.invariant.of_onward hi worlds
      rw [enumerationFrom]
      split
      · exact raises_ok _
      generalize checkAttempts t passes = attempts at hattempts ⊢
      obtain fault | _ := attempts
      · exact raises_error (hattempts fault rfl)
      simp only
      generalize onward worlds t s = out at honward hnext ⊢
      obtain ⟨fault | way, u, s'⟩ := out
      · exact raises_error (honward fault rfl)
      have hpass := h.raises_pass hnext
      have hleads := h.invariant.leads_pass hnext
      cases way with
      | ended => exact raises_ok _
      | advanced | restarted =>
          simp only
          generalize pass u s' = out at hpass hleads ⊢
          obtain ⟨fault | _, u', s''⟩ := out
          · exact raises_error (hpass fault rfl)
          · exact h.raises_enumerationFrom fuel (passes + 1) _ (hleads.kept (ended_ok ()))

theorem raises_enumerationStep (h : Confines I P) (hi : I t s) :
    Raises P (enumerationStep t s).1 := by
  have hflag := h.invariant.flag true hi
  have hadvance := hodometer hflag
  have hkept := h.invariant.advance hflag
  rw [enumerationStep, guarded]
  simp only
  generalize t.advance = out at hadvance hkept ⊢
  obtain ⟨fault | _ | _, u⟩ := out
  · exact raises_error (hadvance fault rfl)
  · exact h.raises_pass (h.invariant.reset hkept)
  · exact h.raises_pass hkept

theorem raises_hybridStep (h : Confines I P) (hi : I t s) (c : Schedule) :
    Raises P (hybridStep c t s).1 := by
  have hstep := raises_enumerationStep hodometer h hi
  have hleads := h.invariant.leads_enumerationStep hi
  rw [hybridStep, containedStep]
  split
  · exact h.raises_freshPass hi
  generalize enumerationStep t s = out at hstep hleads ⊢
  split
  · exact h.raises_freshPass (h.invariant.report _ (hleads.kept (ended_error _)))
  · exact hstep

theorem raises_hybridFrom (h : Confines I P) : ∀ (fuel passes : Nat) (c : Schedule) {t : Trace}
    {s : Session}, I t s → Raises P (hybridFrom fuel passes c t s).1
  | 0, _, _, _, _, _ => raises_error h.unfinished
  | fuel + 1, passes, c, t, s, hi => by
      have hattempts := h.raises_checkAttempts t passes
      have hstep := raises_hybridStep hodometer h hi c
      have hleads := h.invariant.leads_hybridStep hi c
      rw [hybridFrom]
      split
      · exact raises_ok _
      generalize checkAttempts t passes = attempts at hattempts ⊢
      obtain fault | _ := attempts
      · exact raises_error (hattempts fault rfl)
      simp only
      generalize hybridStep c t s = out at hstep hleads ⊢
      obtain ⟨fault | _, u, s'⟩ := out
      · exact raises_error (hstep fault rfl)
      · exact h.raises_hybridFrom fuel (passes + 1) c.next (hleads.kept (ended_ok ()))

/-- **A search fails as its passes and its odometer do**, whatever its strategy. -/
theorem raises_search (h : Confines I P) (hi : I t s) (strategy : Strategy) (fuel : Nat) :
    Raises P (t.search strategy fuel s).1 := by
  have hattempts := h.raises_checkAttempts t 0
  cases strategy with
  | rejection => exact h.raises_rejectionFrom fuel 0 hi
  | enumeration =>
      have hflag := h.invariant.flag true hi
      have hpass := h.raises_pass hflag
      have hleads := h.invariant.leads_pass hflag
      show Raises P (enumerationAll fuel t { s with enumerating := true }).1
      rw [enumerationAll]
      generalize checkAttempts t 0 = attempts at hattempts ⊢
      obtain fault | _ := attempts
      · exact raises_error (hattempts fault rfl)
      simp only
      generalize pass t { s with enumerating := true } = out at hpass hleads ⊢
      obtain ⟨fault | _, u, s'⟩ := out
      · exact raises_error (hpass fault rfl)
      · exact raises_enumerationFrom hodometer h fuel 1 1 (hleads.kept (ended_ok ()))
  | hybrid =>
      have hfresh := h.raises_freshPass hi
      have hleads := h.invariant.leads_freshPass hi
      show Raises P (hybrid fuel t s).1
      rw [hybrid]
      generalize checkAttempts t 0 = attempts at hattempts ⊢
      obtain fault | _ := attempts
      · exact raises_error (hattempts fault rfl)
      simp only
      generalize freshPass t s = out at hfresh hleads ⊢
      obtain ⟨fault | _, u, s'⟩ := out
      · exact raises_error (hfresh fault rfl)
      · exact raises_hybridFrom hodometer h fuel 1 {} (hleads.kept (ended_ok ()))

end Confines

end Search

namespace Search

/-- If the fault is an overflow, then the odometer overflows on a trace that a search from `t` may
come to. -/
def OfOdometer (t : Trace) (s : Session) (fault : Fault) : Prop :=
  fault = .defect .wordOverflow →
    ∃ u s', Reaches t s u s' ∧ u.advance.1 = .error (.defect .wordOverflow)

theorem confines_ofOdometer (t : Trace) (s : Session) :
    Confines (Reaches t s) (OfOdometer t s) where
  invariant := Reaches.invariant t s
  error _ h := by cases h
  unfinished h := by cases h
  update {u s'} _ fault h he := absurd he (u.inWords_update false s' fault h)

/-- A search overflows where its odometer does. -/
theorem ofOdometer_search (t : Trace) (s : Session) (strategy : Strategy) (fuel : Nat) :
    Raises (OfOdometer t s) (t.search strategy fuel s).1 := by
  have hodometer : ∀ {u s'}, Reaches t s u s' → Raises (OfOdometer t s) u.advance.1 :=
    fun {u s'} hu fault hf he => ⟨u, s', hu, he ▸ hf⟩
  exact Confines.raises_search hodometer (confines_ofOdometer t s) .refl strategy fuel

theorem confines_inWords : Confines (fun _ _ => True) Fault.InWords where
  invariant := ⟨fun _ _ => trivial, fun _ => trivial, fun _ => trivial, fun _ _ => trivial,
    fun _ _ => trivial⟩
  error := Fault.inWords_error
  unfinished h := by cases h
  update {t s} _ := t.inWords_update false s

/-- Rejection, which turns no odometer, does not overflow. -/
theorem inWords_rejection (t : Trace) (s : Session) (fuel : Nat) :
    Raises Fault.InWords (t.search .rejection fuel s).1 :=
  confines_inWords.raises_rejectionFrom fuel 0 trivial

end Search

/-- **Successors overflow at the largest word, and nowhere else.**  On a reachable trace,

* the walk through the domain of a record overflows exactly if the record holds the largest word, in
  a domain of words; from any other value that can be scored, in its domain or not, it goes to the
  element at the next position, or to none if the domain has no such position;
* the odometer overflows exactly if it comes to a wheel that holds the largest word, those that
  turn before it carrying;
* a search overflows only where its odometer does so on a trace that it has come to, and never by
  rejection. -/
theorem Reachable.overflows_iff {t : Trace} (h : Reachable t) :
    (∀ i r d, t.arena.record? i = some r → r.family.support = .enumerable d →
      (d.next (some r.value) r.params = .error (.defect .wordOverflow) ↔ r.Topped) ∧
      ∀ lp, r.family.logDensity r.value r.params = .ok lp → r.value ≠ .largest →
        ∃ n, d.size r.params = .ok n ∧
          d.next (some r.value) r.params = .ok (d.after n r.value)) ∧
    (t.advance.1 = .error (.defect .wordOverflow) ↔
      t.Overruns (t.freeSlots true true).reverse) ∧
    ∀ strategy fuel s, (t.search strategy fuel s).1 = .error (.defect .wordOverflow) →
      strategy ≠ .rejection ∧ ∃ u s', Search.Reaches t s u s' ∧
        u.Overruns (u.freeSlots true true).reverse := by
  refine ⟨fun i r d _ hd => ⟨Record.topped_iff hd, fun lp hlp hne => ?_⟩,
    h.wellFormed.advance_overflows_iff, fun strategy fuel s hs => ⟨?_, ?_⟩⟩
  · obtain ⟨hv, hc⟩ := Family.check_of_logDensity _ hlp
    have hfam := Domain.family_of_support hd
    exact Domain.next_eq (hfam ▸ hc) (hfam ▸ hv) hne
  · rintro rfl
    exact Search.inWords_rejection t s fuel _ hs rfl
  · obtain ⟨u, s', hu, ha⟩ := Search.ofOdometer_search t s strategy fuel _ hs rfl
    exact ⟨u, s', hu, (hu.reachable h).1.wellFormed.advance_overflows_iff.mp ha⟩

/-- Draws an index below one, and demands what does not hold. -/
def soleIndex : Program := Computation.program do
  let v ← Computation.sample .categorical [1.0]
  Computation.condition false
  return v

/-- The trace of one pass, in which the index has then been set. -/
def forcedIndex (n : UInt64) : Trace := (observedOnce soleIndex).withValue (.atSite "" 0) (.int n)

theorem reachable_forcedIndex (n : UInt64) : Reachable (forcedIndex n) :=
  (reachable_observedOnce (v := .int 0) (by decide +kernel)).withValue _ _

/-- The record of the index, forced outside the outcomes. -/
def indexRecord (n : UInt64) : Record :=
  ⟨.atSite "" 0, .categorical, [1.0], .int n, Special.negInfinity, false, false, true⟩

/-- The trace with the index set to the largest word. -/
def largestIndex : Trace := forcedIndex 18446744073709551615

theorem reachable_largestIndex : Reachable largestIndex := reachable_forcedIndex _

/-- From an index outside the outcomes the walk goes to none; from the largest word the odometer
overflows, and with it the enumeration. -/
theorem overflows_iff_forcedIndex :
    Reachable (forcedIndex 5) ∧ (forcedIndex 5).arena.record? 0 = some (indexRecord 5) ∧
    Domain.categorical.next (some (.int 5)) [1.0] = .ok none ∧
    Reachable largestIndex ∧ largestIndex.Overruns [0] ∧
    ∃ u s', Search.Reaches largestIndex {} u s' ∧ u.Overruns (u.freeSlots true true).reverse := by
  obtain ⟨hnext, -, -⟩ := (reachable_forcedIndex 5).overflows_iff
  obtain ⟨-, hadvance, hsearch⟩ := reachable_largestIndex.overflows_iff
  have hrecord : (forcedIndex 5).arena.record? 0 = some (indexRecord 5) := by decide +kernel
  obtain ⟨n, hsize, hafter⟩ := (hnext 0 (indexRecord 5) .categorical hrecord rfl).2
    Special.negInfinity (by decide +kernel) (by decide +kernel)
  cases hsize
  have hslots : (largestIndex.freeSlots true true).reverse = [0] := by decide +kernel
  exact ⟨reachable_forcedIndex 5, hrecord, hafter, reachable_largestIndex,
    hslots ▸ hadvance.mp (by decide +kernel), (hsearch .enumeration 1 {} (by decide +kernel)).2⟩

/-- The index is forced to the largest word, where it can be scored; yet the walk through the
outcomes, the odometer and the enumeration overflow, and do not find that there is no next one. -/
theorem overflows_largestIndex : Reachable largestIndex ∧
    largestIndex.arena.record? 0 = some (indexRecord 18446744073709551615) ∧
    Family.categorical.logDensity .largest [1.0] = .ok Special.negInfinity ∧
    Domain.categorical.next (some .largest) [1.0] = .error (.defect .wordOverflow) ∧
    largestIndex.advance.1 = .error (.defect .wordOverflow) ∧
    (largestIndex.search .enumeration 1 {}).1 = .error (.defect .wordOverflow) := by
  refine ⟨reachable_largestIndex, ?_, ?_, ?_, ?_, ?_⟩
  · decide +kernel
  · decide +kernel
  · decide +kernel
  · decide +kernel
  · decide +kernel

end ProbTrace
