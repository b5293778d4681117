import ProbTrace.Proofs.Candidate
import ProbTrace.Proofs.Numeric
import ProbTrace.Proofs.Retracing

/-!
# Proofs — Reversal: a proposal and the way back

From the candidate of a proposal the choice is moved back to its old value.  The record of the
target is the old one again (`Proposed.moved_back`); every other record of the source is either
still in the candidate, and refreshed back, or was removed, and is created again; and no other
record is created, since the way back retraces the source (`Proposed.agrees_back`).  What one of the
two proposals creates is what the other one removes, and so their forward and reverse
log-probabilities have changed places (`Proposed.reverses`).

This needs a program that goes on from a value observed as from an equal one that the trace has
kept.  `not_agrees_zeroSource` is a program that tells minus zero from zero, and does not come back.
-/

namespace ProbTrace

/-! ### The way back -/

namespace Trace

variable {t u : Trace}

/-- The pass is completed. -/
def Completes (t : Trace) (s : Session) : Prop := ∃ v, (t.update false s).1 = .ok v

/-- A record has a counterpart where its key is. -/
theorem WellFormed.isSome_counterpart?_iff (h : t.WellFormed) (r : Record) :
    (t.counterpart? r).isSome ↔ r.key ∈ t.records.map Record.key := by
  rw [Option.isSome_iff_exists, List.mem_map]
  constructor
  · rintro ⟨s, hs⟩
    obtain ⟨hrec, hfam, hstr⟩ := counterpart?_eq_some_iff.mp hs
    refine ⟨s, h.mem_of_record? hrec, ?_⟩
    rw [Record.key, Record.key, h.address_record? hrec, hfam, hstr]
  · rintro ⟨s, hs, hk⟩
    simp only [Record.key, Prod.mk.injEq] at hk
    exact ⟨s, counterpart?_eq_some_iff.mpr ⟨hk.1 ▸ h.record?_of_mem hs, hk.2⟩⟩

/-- What is new to a trace is new to one whose records agree with its own. -/
theorem newTo_of_agrees (ht : t.WellFormed) (hu : u.WellFormed)
    (h : List.Forall₂ Record.Agrees t.records u.records) (w : Trace) : w.newTo u = w.newTo t := by
  refine List.filter_congr fun r _ => ?_
  rw [← Option.not_isSome, ← Option.not_isSome, Bool.eq_iff_iff, Bool.not_eq_true',
    Bool.not_eq_true', ← Bool.not_eq_true, ← Bool.not_eq_true, ht.isSome_counterpart?_iff,
    hu.isSome_counterpart?_iff, Record.map_key_of_agrees h]

/-- What is new in one trace is new in one whose records agree with its own. -/
theorem agrees_newTo (h : List.Forall₂ Record.Agrees t.records u.records) (w : Trace) :
    List.Forall₂ Record.Agrees (t.newTo w) (u.newTo w) := by
  refine List.rel_filter (fun r r' hr => ?_) h
  show (w.counterpart? r).isNone = true ↔ (w.counterpart? r').isNone = true
  rw [counterpart?, counterpart?, hr.address, hr.family, hr.structural]

end Trace

/-- A trace none of whose passes has failed is scored. -/
theorem ReachableIn.scored_of_completes {t : Trace} (h : ReachableIn Trace.Completes t) :
    t.Scored := by
  refine ReachableIn.trace_scored (h.mono fun t s ht hv => ?_)
  obtain ⟨v, hv⟩ := hv
  exact ht.wellFormed.failsClean_of_ok hv

namespace Trace

variable {t c c₁ : Trace} {x y : Address} {r r₁ s : Record} {p b : Proposal}
  {m m₁ : Proposal.Move} {observed : Address → Bool}

namespace Proposed

/-- A record of the candidate, but for the one that was moved, is the source's record of the same
family and class at its address, refreshed. -/
theorem exists_refreshed (hp : t.Proposed x p r m c) (hs : t.program.Strict)
    (ho : t.program.Sorted observed .empty) {rc : Record} (hst : t.record? y = some s) (hy : y ≠ x)
    (hrc : p.trace.record? y = some rc) (hfam : s.family = rc.family)
    (hstr : s.structural = rc.structural) :
    ∃ q, s.refreshed q = (.ok (), rc) ∧ q.observed.isSome = observed y := by
  obtain ⟨es, w, hes⟩ := hp.exists_walk hs
  have hx := hp.wellFormed.address_record? hrc
  have hmem := hp.wellFormed.mem_of_record? hrc
  rw [hes] at hmem
  obtain ⟨⟨q, rc'⟩, he, rfl⟩ := List.mem_map.mp hmem
  have hstored : c.record? rc'.address = some s := by
    rw [hp.moved.record?_eq, hx, if_neg hy, hst]
  have hserved := w.of_mem he
  refine ⟨q, ?_, hx ▸ w.sorted ho _ he⟩
  obtain ⟨hqf, hqs⟩ := Record.fits_iff.mp hserved.settles.1
  cases hserved with
  | reused hs' _ hr =>
      rw [hstored] at hs'
      cases hs'
      exact hr
  | created hs' =>
      have hno := hs' s hstored
      rw [Record.fits_iff.mpr ⟨hfam.trans hqf, hstr.trans hqs⟩] at hno
      cases hno

/-- A record that the candidate creates is new to the source. -/
theorem new_of_created (hp : t.Proposed x p r m c) {q : Request} (hs : s ∈ p.trace.records)
    (hx : s.address ≠ x)
    (hnone : ∀ r₀, c.record? s.address = some r₀ → r₀.fits q.family q.structural = false)
    (heq : s = .ofRequest s.address q s.value s.logDensity) : s ∈ p.trace.newTo t := by
  refine mem_newTo.mpr ⟨hs, Option.eq_none_iff_forall_ne_some.mpr fun r₀ hr₀ => ?_⟩
  obtain ⟨hrec, hfam, hstr⟩ := counterpart?_eq_some_iff.mp hr₀
  have hfit : r₀.fits q.family q.structural = true := Record.fits_iff.mpr
    ⟨hfam.trans (congrArg Record.family heq), hstr.trans (congrArg Record.structural heq)⟩
  rw [hnone r₀ (by rw [hp.moved.record?_eq, if_neg hx, hrec])] at hfit
  cases hfit

/-- A free choice that the candidate creates has the value that was drawn for it. -/
theorem value_of_created (hp : t.Proposed x p r m c) {q : Request} {u : Trace}
    (hs : s ∈ p.trace.records) (hx : s.address ≠ x)
    (hnone : ∀ r₀, c.record? s.address = some r₀ → r₀.fits q.family q.structural = false)
    (heq : s = .ofRequest s.address q s.value s.logDensity) (hq : q.observed = none)
    (hdrawn : ∀ s ∈ p.trace.newTo t, s.conditioned = false →
      u.value? s.address = some s.value) : u.value? s.address = some s.value := by
  refine hdrawn s (hp.new_of_created hs hx hnone heq) ?_
  rw [congrArg Record.conditioned heq]
  show q.observed.isSome = false
  rw [hq]
  rfl

/-- The record of the target, moved back, is the one it was. -/
theorem moved_back (hp : t.Proposed x p r m c) (hb : p.trace.Proposed x b r₁ m₁ c₁)
    (hs : t.program.Strict) (hw : t.Walked) (hr : r.Scored) (hv : b.trace.value? x = t.value? x) :
    r₁ = m.record ∧ m₁.record = r := by
  have hr₁ : r₁ = m.record :=
    Option.some.inj (hb.moved.stored.symm.trans (hp.arrived hw hs))
  subst hr₁
  have harr := hb.arrived (hp.walked hs) (hp.program_eq ▸ hs)
  rw [value?, value?, harr, hp.moved.stored] at hv
  exact ⟨rfl, hp.moved.revalued.eq_of_scored hb.moved.revalued hr (Option.some.inj hv)⟩

/-- **The way back leads to a trace that agrees with the source**, choice by choice. -/
theorem agrees_back (hp : t.Proposed x p r m c) (hb : p.trace.Proposed x b r₁ m₁ c₁)
    (hs : t.program.Strict) (hw : t.Walked) (ho : t.program.Sorted observed .empty)
    (hi : t.program.Indifferent t.record? .empty) (hscored : t.Scored)
    (hn : ∀ s ∈ t.records, s.family.Numeric) (hv : b.trace.value? x = t.value? x)
    (hdrawn : ∀ s ∈ b.trace.newTo p.trace, s.conditioned = false →
      t.value? s.address = some s.value) :
    List.Forall₂ Record.Agrees t.records b.trace.records := by
  have ht := hp.moved.source
  obtain ⟨es, w, hes⟩ := hw
  obtain ⟨es', w', hes'⟩ := hb.exists_walk (hp.program_eq ▸ hs)
  rw [hp.program_eq] at w'
  obtain ⟨-, hm₁⟩ := hp.moved_back hb hs ⟨es, w, hes⟩ (hscored.stored hp.moved.stored) hv
  have hmem : ∀ e ∈ es, e.2 ∈ t.records := fun e he => hes ▸ List.mem_map_of_mem he
  rw [hes, hes']
  refine w.retrace w' (fun e he => ht.record?_of_mem (hmem e he)) hi fun q s s' he he' hx => ?_
  have hsettles : Record.Settles q s := w.of_mem he
  have hserved : Record.Served c₁.record? q s' := w'.of_mem he'
  have hst : t.record? s.address = some s := ht.record?_of_mem (hmem _ he)
  have hsc : s.Scored := hscored.stored hst
  have hnum := hn s (hmem _ he)
  by_cases hy : s.address = x
  · -- the target: the record moved back is the old one, and settled
    have hsr : s = r := by
      rw [hy, hp.moved.stored] at hst
      exact (Option.some.inj hst).symm
    have hstored : c₁.record? s'.address = some s := by
      rw [hb.moved.record?_eq, if_pos (hx.trans hy), hm₁, hsr]
    rw [hserved.eq_of_settles hstored hsettles]
    exact ⟨.refl s, .inl rfl⟩
  · have hstored : c₁.record? s'.address = p.trace.record? s.address := by
      rw [hb.moved.record?_eq, hx, if_neg hy]
    obtain ⟨hfam, hstr⟩ := Record.fits_iff.mp hsettles.1
    cases hserved with
    | @reused rc hrc hfit hq =>
        rw [hstored] at hrc
        obtain ⟨hfam', hstr'⟩ := Record.fits_iff.mp hfit
        obtain ⟨q', hq', ho'⟩ := hp.exists_refreshed hs ho hst hy hrc (hfam.trans hfam'.symm)
          (hstr.trans hstr'.symm)
        have hobs : q.observed.isSome = q'.observed.isSome := (w.sorted ho _ he).trans ho'.symm
        exact ⟨hsettles.agrees_back hsc hnum hq' hq hobs, (hsettles.value_back hq' hq hobs).2⟩
    | created hnone hlp heq hobs =>
        have hvalue : s.value.Like s'.value ∧
            (s'.value = s.value ∨ q.observed = some s'.value) := by
          cases hqo : q.observed with
          | some v =>
              rw [hobs v hqo]
              exact ⟨(hsettles.like_observed hqo).symm, .inr rfl⟩
          | none =>
              -- a free choice that is created draws the value of the source
              have hv' := hb.value_of_created (hes' ▸ List.mem_map_of_mem he') (hx ▸ hy) hnone heq
                hqo hdrawn
              rw [hx, value?, hst] at hv'
              have hsame : s.value = s'.value := Option.some.inj hv'
              exact ⟨.inl hsame, .inl hsame.symm⟩
        have hactive : s.active = true := by
          obtain ⟨i, hi⟩ := ht.mem_records.mp (hmem _ he)
          exact ht.active hi
        exact ⟨hsettles.agrees_created hsc hnum hactive hx hlp heq hvalue.1, hvalue.2⟩

/-- **The way back takes back what the proposal has done**: it leads to a trace that agrees with the
source, and the forward and the reverse log-probability have changed places. -/
theorem reverses (hp : t.Proposed x p r m c) (hb : p.trace.Proposed x b r₁ m₁ c₁)
    (hs : t.program.Strict) (hw : t.Walked) (ho : t.program.Sorted observed .empty)
    (hi : t.program.Indifferent t.record? .empty) (hscored : t.Scored)
    (hn : ∀ s ∈ t.records, s.family.Numeric) (hv : b.trace.value? x = t.value? x)
    (hdrawn : ∀ s ∈ b.trace.newTo p.trace, s.conditioned = false →
      t.value? s.address = some s.value) :
    List.Forall₂ Record.Agrees t.records b.trace.records ∧
      Record.SameSum m.reverse (t.newTo p.trace) b.forward p.reverse ∧
      Record.SameSum m.forward (p.trace.newTo t) b.reverse p.forward := by
  have hagrees := hp.agrees_back hb hs hw ho hi hscored hn hv hdrawn
  obtain ⟨rfl, hr⟩ := hp.moved_back hb hs hw (hscored.stored hp.moved.stored) hv
  have hthere : (p.trace.counterpart? r).isSome := by
    rw [hp.counterpart?_eq hw hs]
    rfl
  have hhere : (b.trace.counterpart? m.record).isSome := by
    rw [hb.counterpart?_eq (hp.walked hs) (hp.program_eq ▸ hs)]
    rfl
  -- the kernel scores the two moves as it did before
  have hfam := hp.moved.revalued.family
  have hpar := hp.moved.revalued.params
  have hforward : m₁.forward = m.reverse := by
    have hk := hb.moves.forward
    rw [hr, hfam, hpar, hp.moves.reverse] at hk
    exact (Except.ok.inj hk).symm
  have hreverse : m₁.reverse = m.forward := by
    have hk := hb.moves.reverse
    rw [hr, hfam, hpar, hp.moves.forward] at hk
    exact (Except.ok.inj hk).symm
  refine ⟨hagrees, ?_, ?_⟩
  · obtain ⟨sum, hsum, hrev⟩ := hp.reverse_eq hthere
    refine ⟨_, sum, Record.adds_sumOnto _, hsum, ?_, hrev⟩
    rw [hb.forward_eq, hforward, Record.sumOnto_of_agrees (agrees_newTo hagrees p.trace)]
  · obtain ⟨sum, hsum, hrev⟩ := hb.reverse_eq hhere
    rw [newTo_of_agrees hp.moved.source hb.wellFormed hagrees] at hsum
    exact ⟨sum, _, hsum, Record.adds_sumOnto _, hreverse ▸ hrev, hp.forward_eq⟩

end Proposed

end Trace

variable {t : Trace} {x : Address} {fixed fixed' : Bool} {s s' : Session} {p b : Proposal}
  {observed : Address → Bool}

/-- **A proposal can be taken back.**  The source is settled, none of its passes has failed, and its
program is strict, observes an address always or never, and goes on from an observed value as from
an equal one that the trace has kept.  The families of its records score equal values under equal
parameters alike (`Family.Numeric`).  If the proposal from the candidate gets the old value back,
and what it draws is what the source has, the trace that it leads to agrees with the source record
by record, and the forward and the reverse log-probability have changed places. -/
theorem SettledIn.proposal_reverses (h : SettledIn Trace.Completes t) (hs : t.program.Strict)
    (ho : t.program.Sorted observed .empty) (hi : t.program.Indifferent t.record? .empty)
    (hn : ∀ r ∈ t.records, r.family.Numeric) (hp : (t.propose x fixed s).1 = .ok p)
    (hb : (p.trace.propose x fixed' s').1 = .ok b) (hv : b.trace.value? x = t.value? x)
    (hdrawn : ∀ r ∈ b.trace.newTo p.trace, r.conditioned = false →
      t.value? r.address = some r.value) :
    List.Forall₂ Record.Agrees t.records b.trace.records ∧
      ∃ r m, t.record? x = some r ∧ r.MovesBy (.ofSeed t.generator.next.1) m ∧
        Record.SameSum m.reverse (t.newTo p.trace) b.forward p.reverse ∧
        Record.SameSum m.forward (p.trace.newTo t) b.reverse p.forward := by
  obtain ⟨r, m, c, hprop⟩ := h.wellFormed.exists_proposed hp
  obtain ⟨r₁, m₁, c₁, hback⟩ := hprop.wellFormed.exists_proposed hb
  obtain ⟨hagrees, hforward, hreverse⟩ := hprop.reverses hback hs (h.walked hs) ho hi
    h.reachableIn.scored_of_completes hn hv hdrawn
  exact ⟨hagrees, r, m, hprop.moved.stored, hprop.moves, hforward, hreverse⟩

/-- **Nothing is asked of the families** if the logarithm and the floor are at the zeros what they
are documented to be. -/
theorem SettledIn.reverses_of_zeroLaws (laws : ZeroLaws) (h : SettledIn Trace.Completes t)
    (hs : t.program.Strict) (ho : t.program.Sorted observed .empty)
    (hi : t.program.Indifferent t.record? .empty) (hp : (t.propose x fixed s).1 = .ok p)
    (hb : (p.trace.propose x fixed' s').1 = .ok b) (hv : b.trace.value? x = t.value? x)
    (hdrawn : ∀ r ∈ b.trace.newTo p.trace, r.conditioned = false →
      t.value? r.address = some r.value) :
    List.Forall₂ Record.Agrees t.records b.trace.records ∧
      ∃ r m, t.record? x = some r ∧ r.MovesBy (.ofSeed t.generator.next.1) m ∧
        Record.SameSum m.reverse (t.newTo p.trace) b.forward p.reverse ∧
        Record.SameSum m.forward (p.trace.newTo t) b.reverse p.forward := by
  obtain ⟨r, m, c, hprop⟩ := h.wellFormed.exists_proposed hp
  obtain ⟨r₁, m₁, c₁, hback⟩ := hprop.wellFormed.exists_proposed hb
  have hn : ∀ r ∈ t.records, r.family.Numeric := fun r _ => Family.numeric laws r.family
  obtain ⟨hagrees, hforward, hreverse⟩ := hprop.reverses hback hs (h.walked hs) ho hi
    h.reachableIn.scored_of_completes hn hv hdrawn
  exact ⟨hagrees, r, m, hprop.moved.stored, hprop.moves, hforward, hreverse⟩

/-! ### There and back -/

/-- Proposes a change and, from the candidate, another one of the same choice. -/
def Trace.thereAndBack (t : Trace) (x : Address) : Except Fault (Proposal × Proposal) := do
  let p ← (t.propose x false {}).1
  let b ← (p.trace.propose x false {}).1
  return (p, b)

theorem Trace.thereAndBack_eq_ok {t : Trace} {x : Address} {p b : Proposal}
    (h : t.thereAndBack x = .ok (p, b)) :
    (t.propose x false {}).1 = .ok p ∧ (p.trace.propose x false {}).1 = .ok b := by
  obtain ⟨p', hp, h⟩ := bind_eq_ok.mp h
  obtain ⟨b', hb, h⟩ := bind_eq_ok.mp h
  cases h
  exact ⟨hp, hb⟩

/-- Makes a choice that is true at first, and one more while it is. -/
def lateChoice : Program :=
  (do
    let x ← Computation.structural .flip [1.0]
    if x = Value.bool true then Computation.sample .flip [1.0] else pure x).program

theorem strict_lateChoice : lateChoice.Strict := by
  refine ⟨fun v => ?_, fun _ => trivial⟩
  simp only
  split
  · exact ⟨fun _ => trivial, fun _ => trivial⟩
  · trivial

theorem sorted_lateChoice : lateChoice.Sorted (fun _ => false) .empty := by
  refine ⟨rfl, fun v => ?_⟩
  simp only
  split
  · exact ⟨rfl, fun _ => trivial⟩
  · trivial

/-- Nothing is observed. -/
theorem indifferent_lateChoice (stored : Address → Option Record) :
    lateChoice.Indifferent stored .empty := by
  refine fun r _ => ⟨nofun, ?_⟩
  simp only
  split
  · exact fun _ _ => ⟨nofun, trivial⟩
  · trivial

/-- The trace after one pass. -/
def twoChoices : Trace := observedOnce lateChoice

theorem update_lateChoice :
    ((Trace.unstarted 0 lateChoice {} (.ofSeed 0)).update false {}).1 = .ok (.bool true) := by
  decide +kernel

theorem settledIn_twoChoices : SettledIn Trace.Completes twoChoices :=
  settledIn_observedOnce ⟨_, update_lateChoice⟩ update_lateChoice

theorem program_twoChoices : twoChoices.program = lateChoice :=
  program_observedOnce update_lateChoice

/-- The second choice is removed on the way there, and created on the way back. -/
theorem proposal_reverses_twoChoices :
    ∃ p b, (twoChoices.propose (.atSite "" 0) false {}).1 = .ok p ∧
      (p.trace.propose (.atSite "" 0) false {}).1 = .ok b ∧
      twoChoices.addresses = [.atSite "" 0, .atSite "" 1] ∧ p.trace.addresses = [.atSite "" 0] ∧
      List.Forall₂ Record.Agrees twoChoices.records b.trace.records ∧
      ∃ r m, twoChoices.record? (.atSite "" 0) = some r ∧
        r.MovesBy (.ofSeed twoChoices.generator.next.1) m ∧
        Record.SameSum m.reverse (twoChoices.newTo p.trace) b.forward p.reverse ∧
        Record.SameSum m.forward (p.trace.newTo twoChoices) b.reverse p.forward := by
  obtain ⟨⟨p, b⟩, hpb, hview⟩ := exists_ok_of_map (twoChoices.thereAndBack (.atSite "" 0))
    (fun w => (w.1.trace.addresses, w.2.trace.value? (.atSite "" 0),
      (w.2.trace.newTo w.1.trace).map fun r => (r.address, r.value)))
    (b := ([.atSite "" 0], some (.bool true), [(.atSite "" 1, .bool true)])) (by decide +kernel)
  simp only [Prod.mk.injEq] at hview
  obtain ⟨haddr, hvalue, hnew⟩ := hview
  obtain ⟨hp, hb⟩ := Trace.thereAndBack_eq_ok hpb
  have hfamilies : twoChoices.records.map (·.family) = [.flip, .flip] := by decide +kernel
  have hn : ∀ r ∈ twoChoices.records, r.family.Numeric := by
    intro r hr
    have hmem := List.mem_map_of_mem (f := Record.family) hr
    rw [show twoChoices.records.map Record.family = _ from hfamilies] at hmem
    have hflip : r.family = .flip := by simpa using hmem
    rw [hflip]
    exact Family.numeric_flip
  have hv : b.trace.value? (.atSite "" 0) = twoChoices.value? (.atSite "" 0) :=
    hvalue.trans (by decide +kernel)
  have hdrawn : ∀ r ∈ b.trace.newTo p.trace, r.conditioned = false →
      twoChoices.value? r.address = some r.value := by
    intro r hr _
    have hmem := List.mem_map_of_mem (f := fun r : Record => (r.address, r.value)) hr
    rw [hnew, List.mem_singleton, Prod.mk.injEq] at hmem
    rw [hmem.1, hmem.2]
    decide +kernel
  exact ⟨p, b, hp, hb, by decide +kernel, haddr,
    SettledIn.proposal_reverses settledIn_twoChoices (program_twoChoices ▸ strict_lateChoice)
      (program_twoChoices ▸ sorted_lateChoice)
      (program_twoChoices ▸ indifferent_lateChoice _) hn hp hb hv hdrawn⟩

/-! ### A program that tells the zeros apart -/

/-- Makes a choice that is true at first, and observes a beta to be minus zero or one.  If one over
what was observed is positive, there is a choice more. -/
def zeroSensitive : Program :=
  (do
    let x ← Computation.structural .flip [1.0]
    let v ← Computation.observe .beta [1.0, 1.0]
      (.float (if x = Value.bool true then -0.0 else 1.0))
    if 0.0 < 1.0 / v.asFloat.getD 1.0 then Computation.sample .flip [1.0] else pure x).program

/-- The trace after one pass, with zero set for the minus zero observed. -/
def zeroSet : Trace := (observedOnce zeroSensitive).withValue (.atSite "" 1) (.float 0.0)

/-- The trace after one pass more: the zero is kept, and the last choice is made. -/
def zeroSource : Trace := (zeroSet.update false {}).2.1

theorem update_zeroSensitive :
    ((Trace.unstarted 0 zeroSensitive {} (.ofSeed 0)).update false {}).1 = .ok (.bool true) := by
  decide +kernel

theorem update_zeroSet : (zeroSet.update false {}).1 = .ok (.bool true) := by
  decide +kernel

theorem reachableIn_zeroSet : ReachableIn Trace.Completes zeroSet :=
  (settledIn_observedOnce ⟨_, update_zeroSensitive⟩ update_zeroSensitive).reachableIn.withValue _ _

theorem settledIn_zeroSource : SettledIn Trace.Completes zeroSource :=
  .update false {} reachableIn_zeroSet ⟨_, update_zeroSet⟩ update_zeroSet

theorem program_zeroSource : zeroSource.program = zeroSensitive := by
  rw [zeroSource, reachableIn_zeroSet.wellFormed.program_update update_zeroSet, zeroSet,
    Trace.program_withValue]
  exact program_observedOnce update_zeroSensitive

theorem strict_zeroSensitive : zeroSensitive.Strict := by
  refine ⟨fun v => ⟨fun w => ?_, fun _ => trivial⟩, fun _ => trivial⟩
  simp only
  split
  · exact ⟨fun _ => trivial, fun _ => trivial⟩
  · trivial

/-- The second choice is observed, and the others are free. -/
theorem sorted_zeroSensitive :
    zeroSensitive.Sorted (fun x => x == .atSite "" 1) .empty := by
  have hsecond : true = (CallSites.empty.claim.2.claim.1.address == .atSite "" 1) := by
    decide +kernel
  refine ⟨by decide +kernel, fun v => ⟨hsecond, fun w => ?_⟩⟩
  simp only
  split
  · exact ⟨by decide +kernel, fun _ => trivial⟩
  · trivial

/-- **There and back, and not the same trace**: the beta that was kept as zero comes back as the
minus zero that is observed, and the last choice is not made. -/
theorem not_agrees_zeroSource :
    SettledIn Trace.Completes zeroSource ∧ zeroSource.program.Strict ∧
      zeroSource.program.Sorted (fun x => x == .atSite "" 1) .empty ∧
      ∃ p b, (zeroSource.propose (.atSite "" 0) false {}).1 = .ok p ∧
        (p.trace.propose (.atSite "" 0) false {}).1 = .ok b ∧
        b.trace.value? (.atSite "" 0) = zeroSource.value? (.atSite "" 0) ∧
        b.trace.newTo p.trace = [] ∧
        zeroSource.addresses = [.atSite "" 0, .atSite "" 1, .atSite "" 2] ∧
        b.trace.addresses = [.atSite "" 0, .atSite "" 1] ∧
        ¬ List.Forall₂ Record.Agrees zeroSource.records b.trace.records := by
  obtain ⟨⟨p, b⟩, hpb, hview⟩ := exists_ok_of_map
    (zeroSource.thereAndBack (.atSite "" 0))
    (fun w => (w.2.trace.value? (.atSite "" 0), w.2.trace.newTo w.1.trace,
      w.2.trace.addresses))
    (b := (some (.bool true), [], [.atSite "" 0, .atSite "" 1])) (by decide +kernel)
  simp only [Prod.mk.injEq] at hview
  obtain ⟨hp, hb⟩ := Trace.thereAndBack_eq_ok hpb
  have haddr : zeroSource.addresses = [.atSite "" 0, .atSite "" 1, .atSite "" 2] := by
    decide +kernel
  have hvalue : zeroSource.value? (.atSite "" 0) = some (.bool true) := by decide +kernel
  refine ⟨settledIn_zeroSource, program_zeroSource ▸ strict_zeroSensitive,
    program_zeroSource ▸ sorted_zeroSensitive, p, b, hp, hb, hview.1.trans hvalue.symm, hview.2.1,
    haddr, hview.2.2, fun hagrees => ?_⟩
  have hlen := hagrees.length_eq
  rw [← List.length_map (f := Record.address), ← List.length_map (f := Record.address)] at hlen
  rw [show zeroSource.records.map Record.address = _ from haddr,
    show b.trace.records.map Record.address = _ from hview.2.2] at hlen
  cases hlen

end ProbTrace
