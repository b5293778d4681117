import ProbTrace.Proofs.Guards
import ProbTrace.Proofs.Turnover

/-!
# Proofs — Refusing: what is asked for in the middle of a pass

While a pass is running, an update, a proposal and a search are refused.  The refusal comes from
the pass that they ask for, so what matters is what they have done by then.  An update has done
nothing, a proposal has drawn from the generator of its source and moved a record in a copy, and an
enumeration has set the flag, which it restores.  A rejection and a hybrid search begin with a fresh
pass, and have reset the trace: its choices are gone, and it still has the joint log-probability,
the value and the verdict of a world that it is no longer in.

`Reachable.refused` is the account of all of them, and `Trace.Retains` what of it a caller sees.
-/

namespace ProbTrace

variable {t u : Trace} {s : Session}

/-- The trace `u` shows what `t` shows: its choices, their order and the ones removed, and what is
known of the world it is in. -/
structure Trace.Retains (t u : Trace) : Prop where
  stored    : ∀ x, u.record? x = t.record? x
  records   : u.records = t.records
  removed   : u.removed = t.removed
  joint     : u.joint = t.joint
  satisfied : u.satisfied = t.satisfied
  returned  : u.returned = t.returned

theorem Trace.Retains.refl (t : Trace) : t.Retains t := ⟨fun _ => rfl, rfl, rfl, rfl, rfl, rfl⟩

/-- The generator is not shown. -/
theorem Trace.retains_reseeded (t : Trace) (generator : Generator) :
    t.Retains { t with generator } := ⟨fun _ => rfl, rfl, rfl, rfl, rfl, rfl⟩

/-- A reset loses the choices, unless there are none. -/
theorem Trace.WellFormed.retains_reset_iff (h : t.WellFormed) :
    t.Retains t.reset ↔ t.records = [] ∧ t.removed = #[] := by
  constructor
  · exact fun hr => ⟨hr.records.symm, hr.removed.symm⟩
  · rintro ⟨hrecords, hremoved⟩
    refine ⟨fun x => ?_, hrecords.symm, hremoved.symm, rfl, rfl, rfl⟩
    have hnone : t.record? x = none := Option.eq_none_iff_forall_ne_some.mpr fun r hr => by
      have hmem := h.mem_of_record? hr
      rw [hrecords] at hmem
      cases hmem
    rw [hnone]
    rfl

/-! ### Refused operations -/

/-- A move depends on the session for its events only. -/
theorem Proposal.fst_move (r : Record) (g : Generator) (s s' : Session) :
    (move r g s).1 = (move r g s').1 := by
  rw [move, move]
  split
  · rfl
  split
  · rfl
  · rfl
  simp only
  split
  · rfl
  · rfl

theorem Proposal.rerun_of_busy (h : s.active.isSome = true) (t : Trace) (i : Nat) (m : Move)
    (fixed : Bool) : rerun t i m fixed s = (.error (.error .reentrant), s) := by
  rw [rerun, Trace.update_of_busy h]

/-- A proposal at a free address fails with the error of the move, if it fails, or is refused. -/
theorem Trace.propose_of_busy (hs : s.active.isSome = true) {x : Address} {r : Record}
    (hx : t.record? x = some r) (hc : r.conditioned = false) (fixed : Bool) :
    (t.propose x fixed s).1 =
        (Proposal.move r (.ofSeed t.generator.next.1) s).1.bind
          (fun _ => .error (.error .reentrant)) ∧
      t.Retains (t.propose x fixed s).2.1 := by
  obtain ⟨i, ho, hi⟩ := Option.bind_eq_some_iff.mp hx
  have h := t.proposes x fixed s
  generalize t.propose x fixed s = out at h ⊢
  cases h with
  | unknown h =>
      rw [h i ho] at hi
      cases hi
  | observed ho' hi' hc' =>
      obtain rfl := Arena.Owned.unique ho ho'
      cases hi.symm.trans hi'
      rw [hc] at hc'
      cases hc'
  | unmoved ho' hi' _ hm =>
      obtain rfl := Arena.Owned.unique ho ho'
      cases hi.symm.trans hi'
      refine ⟨?_, t.retains_reseeded _⟩
      rw [Proposal.fst_move r _ s (s.copyTrace t).2, hm]
      rfl
  | @ran _ m _ s' hr =>
      have hbusy : s'.active.isSome = true := by
        rw [show s'.active = s.active from congrArg Settings.active hr.under.settings]
        exact hs
      obtain ⟨r', generator, hi', -, hm, -⟩ := hr.moved
      obtain rfl := Arena.Owned.unique ho hr.owned
      cases hi.symm.trans hi'
      refine ⟨?_, t.retains_reseeded _⟩
      rw [Proposal.rerun_of_busy hbusy, Proposal.fst_move r _ s (s.copyTrace t).2, hm]
      rfl

namespace Search

theorem pass_of_busy (hs : s.active.isSome = true) (t : Trace) :
    pass t s = (.error (.error .reentrant), t, s) := by
  rw [pass, Trace.update_of_busy hs]

/-- A fresh pass has reset the trace when it is refused. -/
theorem freshPass_of_busy (hs : s.active.isSome = true) (t : Trace) :
    freshPass t s = (.error (.error .reentrant), t.reset, s) := by
  have hset : (s.setEnumerating false).2.active.isSome = true := hs
  simp only [freshPass, guarded, pass_of_busy hset, Session.release_setEnumerating]

/-- The trace that a refused search leaves. -/
def leftBy (t : Trace) : Strategy → Trace
  | .enumeration => t
  | _            => t.reset

/-- **A search is refused in its first pass.** -/
theorem search_of_busy (hs : s.active.isSome = true)
    (hcap : ∀ n, t.limits.maxAttempts = some n → 0 < n) (strategy : Strategy) (fuel : Nat) :
    t.search strategy (fuel + 1) s = (.error (.error .reentrant), leftBy t strategy, s) := by
  cases strategy with
  | rejection =>
      show rejectionFrom (fuel + 1) 0 t s = _
      rw [rejectionFrom, checkAttempts_eq_ok_iff.mpr hcap, freshPass_of_busy hs]
      rfl
  | enumeration =>
      have hset : (s.setEnumerating true).2.active.isSome = true := hs
      show enumeration (fuel + 1) t s = _
      simp only [enumeration, guarded, enumerationAll, checkAttempts_eq_ok_iff.mpr hcap,
        pass_of_busy hset, Session.release_setEnumerating]
      rfl
  | hybrid =>
      show hybrid (fuel + 1) t s = _
      rw [hybrid, checkAttempts_eq_ok_iff.mpr hcap, freshPass_of_busy hs]
      rfl

end Search

/-! ### What is left -/

/-- **What a refusal leaves.**  While a pass is running, an update of a trace with a history is
refused and changes nothing.  A proposal at a free address shows nothing either, and is refused
unless its move has failed.  A search is refused, whatever its strategy, and leaves the session as
it was, the world that the trace claims to be in, and its choices exactly if it is an enumeration
or there were none to lose. -/
theorem Reachable.refused (h : Reachable t) (hs : s.active.isSome = true) :
    (∀ fixed, t.update fixed s = (.error (.error .reentrant), t, s)) ∧
    (∀ x r fixed, t.record? x = some r → r.conditioned = false →
      (t.propose x fixed s).1 =
          (Proposal.move r (.ofSeed t.generator.next.1) s).1.bind
            (fun _ => .error (.error .reentrant)) ∧
        t.Retains (t.propose x fixed s).2.1 ∧
        (t.propose x fixed s).2.2.settings = s.settings) ∧
    ∀ strategy fuel, 0 < fuel → (∀ n, t.limits.maxAttempts = some n → 0 < n) →
      let out := t.search strategy fuel s
      out.1 = .error (.error .reentrant) ∧ out.2.2 = s ∧
        out.2.1.joint = t.joint ∧ out.2.1.satisfied = t.satisfied ∧
        out.2.1.returned = t.returned ∧
        (t.Retains out.2.1 ↔
          strategy = .enumeration ∨ t.records = [] ∧ t.removed = #[]) := by
  refine ⟨Trace.update_of_busy hs t, fun x r fixed hx hc => ?_, fun strategy fuel hfuel hcap => ?_⟩
  · obtain ⟨ha, ht⟩ := Trace.propose_of_busy hs hx hc fixed
    exact ⟨ha, ht, t.settings_propose x fixed s⟩
  · intro out
    have hout : out = (.error (.error .reentrant), Search.leftBy t strategy, s) := by
      cases fuel with
      | zero => exact absurd hfuel (Nat.lt_irrefl 0)
      | succ fuel => exact Search.search_of_busy hs hcap strategy fuel
    rw [hout]
    have hreset := h.wellFormed.retains_reset_iff
    cases strategy with
    | enumeration => exact ⟨rfl, rfl, rfl, rfl, rfl, fun _ => .inl rfl, fun _ => .refl t⟩
    | rejection => exact ⟨rfl, rfl, rfl, rfl, rfl, hreset.trans (by simp)⟩
    | hybrid => exact ⟨rfl, rfl, rfl, rfl, rfl, hreset.trans (by simp)⟩

/-- A flip that comes up true. -/
def certainFlip : Program := (Computation.sample .flip [1.0]).program

/-- A session in which some trace is being populated. -/
def midPass : Session := { active := some 1 }

theorem reachable_certainFlip : Reachable (observedOnce certainFlip) :=
  reachable_observedOnce (v := .bool true) (by decide +kernel)

theorem uncapped_certainFlip : (observedOnce certainFlip).limits.maxAttempts = none := by
  decide +kernel

/-- A proposal and an enumeration are refused, and keep the flip. -/
theorem refused_certainFlip :
    let t := observedOnce certainFlip
    (t.propose ⟨":0"⟩ false midPass).1 = .error (.error .reentrant) ∧
      t.Retains (t.propose ⟨":0"⟩ false midPass).2.1 ∧
      (t.search .enumeration 1 midPass).1 = .error (.error .reentrant) ∧
      t.Retains (t.search .enumeration 1 midPass).2.1 := by
  obtain ⟨-, hpropose, hsearch⟩ := reachable_certainFlip.refused (s := midPass) rfl
  obtain ⟨r, hr, hfree⟩ : ∃ r, (observedOnce certainFlip).record? ⟨":0"⟩ = some r ∧
      r.conditioned = false := by
    have h : ((observedOnce certainFlip).record? ⟨":0"⟩).map (·.conditioned) = some false := by
      decide +kernel
    exact Option.map_eq_some_iff.mp h
  obtain ⟨-, hkept, -⟩ := hpropose ⟨":0"⟩ r false hr hfree
  obtain ⟨hanswer, -, -, -, -, hretains⟩ :=
    hsearch .enumeration 1 Nat.one_pos fun n hn => by cases uncapped_certainFlip.symm.trans hn
  refine ⟨?_, hkept, hanswer, hretains.mpr (.inl rfl)⟩
  have h : ((observedOnce certainFlip).propose ⟨":0"⟩ false midPass).1.map (fun _ => ()) =
      .error (.error .reentrant) := by
    decide +kernel
  generalize ((observedOnce certainFlip).propose ⟨":0"⟩ false midPass).1 = answer at h ⊢
  cases answer with
  | error fault => exact congrArg Except.error (Except.error.inj h)
  | ok proposal => cases h

/-- **A rejection that is refused loses the choices** of a trace that still says that its
conditions hold and that the flip came up true. -/
theorem choices_lost_certainFlip :
    let t := observedOnce certainFlip
    let u := (t.search .rejection 1 midPass).2.1
    Reachable t ∧ midPass.active.isSome = true ∧ t.limits.maxAttempts = none ∧
      (t.search .rejection 1 midPass).1 = .error (.error .reentrant) ∧
      u.satisfied = true ∧ u.returned = some (.bool true) ∧ ¬ t.Retains u := by
  refine ⟨reachable_certainFlip, rfl, uncapped_certainFlip, by decide +kernel, by decide +kernel,
    by decide +kernel, fun h => ?_⟩
  have hlengths : (observedOnce certainFlip).records.length =
      ((observedOnce certainFlip).search .rejection 1 midPass).2.1.records.length :=
    congrArg List.length h.records.symm
  revert hlengths
  decide +kernel

end ProbTrace
