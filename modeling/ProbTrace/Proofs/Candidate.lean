import ProbTrace.Proofs.Walking

/-!
# Proofs — Candidate: what a proposal reports

From a settled trace of a strict program the candidate goes the way of its source up to the choice
that was moved, and makes that choice as well (`Proposed.before`).  So the record that was moved is
neither created nor lost, and what the proposal reports is about the rest of the two traces: the
forward log-probability about the records of the candidate that are new to the source, the reverse
one about those of the source that are new to the candidate (`SettledIn.candidate_follows`).

Whether these records are observed makes no difference to a proposal.  `SettledIn.entropy_eq` says
when the two sums are over the choices that the proposal is free to change: when no observed choice
comes or goes, and no observation takes the place of a free value.  `forward_lateSource` is a
proposal to which an observation has leaked.
-/

namespace ProbTrace

namespace Trace

variable {t c u : Trace} {x : Address} {r s s₀ : Record} {proposal : Proposal} {m : Proposal.Move}

namespace Proposed

/-- **The candidate goes the way of its source up to the choice that was moved**, and makes that
choice as well. -/
theorem before (h : t.Proposed x proposal r m c) (hw : t.Walked) (hp : t.program.Strict) :
    ∃ pre post post', t.records = pre ++ r :: post ∧
      proposal.trace.records = pre ++ m.record :: post' := by
  obtain ⟨es, w, hes⟩ := hw
  have hmem : r ∈ t.records := h.moved.source.mem_of_record? h.moved.stored
  obtain ⟨⟨q, r'⟩, he, rfl⟩ : ∃ e ∈ es, e.2 = r := List.mem_map.mp (hes ▸ hmem)
  obtain ⟨pre, post, rfl⟩ := List.append_of_mem he
  obtain ⟨es', w', hes'⟩ := h.exists_walk hp
  have hx := h.moved.address_eq
  have hpre : ∀ e ∈ pre, c.record? e.2.address = some e.2 := by
    intro e he
    have hne : e.2.address ≠ x := by
      have hn := h.moved.source.nodup_addresses
      rw [addresses, hes, List.map_map, List.map_append, List.nodup_append] at hn
      rw [← hx]
      exact hn.2.2 _ (List.mem_map_of_mem he) _ (List.mem_map_of_mem (.head _))
    rw [h.moved.record?_eq, if_neg hne]
    refine h.moved.source.record?_of_mem ?_
    rw [hes]
    exact List.mem_map_of_mem (List.mem_append_left _ he)
  have hm : c.record? r'.address = some m.record := by
    rw [h.moved.record?_eq, if_pos hx]
  obtain ⟨post', rfl⟩ := w.along w' hpre hm
    (h.moved.revalued.settles (w.of_mem he) h.free) h.moved.revalued.address
  refine ⟨pre.map (·.2), post.map (·.2), post'.map (·.2), ?_, ?_⟩
  · rw [hes, List.map_append, List.map_cons]
  · rw [hes', List.map_append, List.map_cons]

theorem arrived (h : t.Proposed x proposal r m c) (hw : t.Walked) (hp : t.program.Strict) :
    proposal.trace.record? x = some m.record := by
  obtain ⟨pre, post, post', -, hu⟩ := h.before hw hp
  have hmem : m.record ∈ proposal.trace.records := by
    rw [hu]
    exact List.mem_append_right _ (.head _)
  rw [← h.moved.address_eq, ← h.moved.revalued.address]
  exact h.wellFormed.record?_of_mem hmem

/-- The record that was moved has a counterpart in the candidate, itself. -/
theorem counterpart?_eq (h : t.Proposed x proposal r m c) (hw : t.Walked)
    (hp : t.program.Strict) : proposal.trace.counterpart? r = some m.record := by
  refine counterpart?_eq_some_iff.mpr ⟨?_, h.moved.revalued.family, h.moved.revalued.structural⟩
  rw [h.moved.address_eq]
  exact h.arrived hw hp

/-- The choices removed count towards the reverse log-probability. -/
theorem reverse_eq (h : t.Proposed x proposal r m c)
    (hr : (proposal.trace.counterpart? r).isSome) :
    ∃ sum, Record.Adds sum (t.newTo proposal.trace) ∧ proposal.reverse = m.reverse + sum := by
  refine ⟨proposal.trace.dropped, ?_, h.reverse⟩
  rw [← h.moved.newTo_of_reached hr]
  exact h.turnover.dropped

/-- A free choice of the candidate keeps the value of its counterpart. -/
theorem kept (h : t.Proposed x proposal r m c) (hs : s ∈ proposal.trace.records)
    (hx : s.address ≠ x) (hfree : s.conditioned = false) (hs₀ : t.counterpart? s = some s₀) :
    s.value = s₀.value := by
  refine h.turnover.kept s hs hfree s₀ ?_
  rw [counterpart?, h.moved.record?_eq, if_neg hx]
  exact hs₀

end Proposed

/-- The candidate of a proposal follows its source, in which the record `r` at the address `x` has
moved. -/
structure Follows (t : Trace) (x : Address) (proposal : Proposal) (r : Record)
    (m : Proposal.Move) : Prop where
  stored : t.record? x = some r
  free   : r.conditioned = false
  moves  : r.MovesBy (.ofSeed t.generator.next.1) m
  /-- The choice that was moved is made, as it was but for its value. -/
  arrived : proposal.trace.record? x = some m.record
  same    : m.record = { r with value := m.record.value, logDensity := m.record.logDensity }
  /-- The choices before it are unchanged. -/
  before : ∃ pre post post', t.records = pre ++ r :: post ∧
    proposal.trace.records = pre ++ m.record :: post'
  /-- The free choices that survive keep their values. -/
  kept : ∀ s ∈ proposal.trace.records, s.address ≠ x → s.conditioned = false →
    ∀ s₀, t.counterpart? s = some s₀ → s.value = s₀.value
  forward : proposal.forward = m.forward + Record.sumOnto 0.0 (proposal.trace.newTo t)
  reverse : ∃ sum, Record.Adds sum (t.newTo proposal.trace) ∧ proposal.reverse = m.reverse + sum

end Trace

variable {P : Trace → Session → Prop} {t : Trace} {x : Address} {fixed : Bool} {s : Session}
  {proposal : Proposal}

/-- **The candidate of a proposal follows its source**, if a completed pass has left the source.
When the move is scored alike both ways and no record is created or lost, the proposal is as likely
as the way back. -/
theorem SettledIn.candidate_follows (h : SettledIn P t) (hp : t.program.Strict)
    (hc : (t.propose x fixed s).1 = .ok proposal) :
    ∃ r m, t.Follows x proposal r m ∧
      (m.forward = m.reverse → proposal.trace.newTo t = [] → t.newTo proposal.trace = [] →
        proposal.forward = proposal.reverse) := by
  obtain ⟨r, m, c, hprop⟩ := h.wellFormed.exists_proposed hc
  have hw := h.walked hp
  have hreached : (proposal.trace.counterpart? r).isSome := by
    rw [hprop.counterpart?_eq hw hp]
    rfl
  refine ⟨r, m,
    { stored := hprop.moved.stored
      free := hprop.free
      moves := hprop.moves
      arrived := hprop.arrived hw hp
      same := hprop.moved.revalued.eq
      before := hprop.before hw hp
      kept := fun s hs hx hfree s₀ hs₀ => hprop.kept hs hx hfree hs₀
      forward := hprop.forward_eq
      reverse := hprop.reverse_eq hreached }, fun hsym hnew hlost => ?_⟩
  obtain ⟨sum, hsum, hrev⟩ := hprop.reverse_eq hreached
  rw [hlost, Record.adds_nil] at hsum
  rw [hprop.forward_eq, hrev, hnew, hsum, hsym]
  rfl

/-! ### What a proposal is free to change -/

namespace Trace

/-- Whether the trace has the choice of a record, with the value of that record. -/
def shares (t : Trace) (r : Record) : Bool := (t.counterpart? r).any fun s => s.value = r.value

/-- The free choices of `u`, but for the one at the address `x`, whose values `t` does not have. -/
def freeNewTo (u t : Trace) (x : Address) : List Record :=
  u.records.filter fun r => !r.conditioned && r.address != x && !t.shares r

variable {t u : Trace} {x : Address} {r s : Record}

theorem mem_freeNewTo : r ∈ u.freeNewTo t x ↔ r ∈ u.records ∧
    r.conditioned = false ∧ r.address ≠ x ∧ t.shares r = false := by
  simp [freeNewTo, and_assoc]

theorem shares_of_none (h : t.counterpart? r = none) : t.shares r = false := by
  rw [shares, h]
  rfl

theorem shares_of_some (h : t.counterpart? r = some s) :
    t.shares r = true ↔ s.value = r.value := by
  rw [shares, h, Option.any_some, decide_eq_true_iff]

/-- The records that are new to another trace are the free ones among them, exactly when none of
them is observed and no free value was overwritten. -/
theorem newTo_eq_freeNewTo_iff (hx : ∀ r ∈ u.records, r.address = x → t.counterpart? r ≠ none) :
    u.newTo t = u.freeNewTo t x ↔ (∀ r ∈ u.newTo t, r.conditioned = false) ∧
      ∀ r ∈ u.records, r.conditioned = false → r.address ≠ x →
        ∀ s, t.counterpart? r = some s → s.value = r.value := by
  constructor
  · intro h
    refine ⟨fun r hr => ?_, fun r hr hfree hne s hs => ?_⟩
    · rw [h] at hr
      exact (mem_freeNewTo.mp hr).2.1
    · by_contra hv
      have hshares : t.shares r = false :=
        Bool.eq_false_iff.mpr fun hsh => hv ((shares_of_some hs).mp hsh)
      have hmem : r ∈ u.newTo t := h ▸ mem_freeNewTo.mpr ⟨hr, hfree, hne, hshares⟩
      rw [(mem_newTo.mp hmem).2] at hs
      cases hs
  · rintro ⟨hnew, hold⟩
    refine List.filter_congr fun r hr => ?_
    cases hs : t.counterpart? r with
    | none =>
        have hfree := hnew r (mem_newTo.mpr ⟨hr, hs⟩)
        have hne : r.address ≠ x := fun he => hx r hr he hs
        simp [hfree, hne, shares_of_none hs]
    | some s =>
        have hrest : r.conditioned = false → r.address ≠ x → t.shares r = true :=
          fun hfree hne => (shares_of_some hs).mpr (hold r hr hfree hne s hs)
        cases hc : r.conditioned with
        | true => simp
        | false =>
            by_cases hne : r.address = x
            · simp [hne]
            · simp [hrest hc hne]

end Trace

/-- **What a proposal reports, and when this is about free values only.**  Beside the scores of the
move, the forward log-probability is the sum over the records of the candidate that are new to the
source, and the reverse one the sum over those of the source that are new to the candidate.  The
first are the free choices whose values were not inherited exactly when none of them is observed;
the second are the free choices whose values were not kept exactly when none of them is observed
and no free value was overwritten. -/
theorem SettledIn.entropy_eq (h : SettledIn P t) (hp : t.program.Strict)
    (hc : (t.propose x fixed s).1 = .ok proposal) :
    ∃ r m, t.record? x = some r ∧ r.conditioned = false ∧
      r.MovesBy (.ofSeed t.generator.next.1) m ∧
      proposal.forward = m.forward + Record.sumOnto 0.0 (proposal.trace.newTo t) ∧
      (∃ sum, Record.Adds sum (t.newTo proposal.trace) ∧ proposal.reverse = m.reverse + sum) ∧
      (proposal.trace.newTo t = proposal.trace.freeNewTo t x ↔
        ∀ r ∈ proposal.trace.newTo t, r.conditioned = false) ∧
      (t.newTo proposal.trace = t.freeNewTo proposal.trace x ↔
        (∀ r ∈ t.newTo proposal.trace, r.conditioned = false) ∧
          ∀ r ∈ t.records, r.conditioned = false → r.address ≠ x →
            ∀ s, proposal.trace.counterpart? r = some s → s.value = r.value) := by
  obtain ⟨r, m, c, hprop⟩ := h.wellFormed.exists_proposed hc
  have hw := h.walked hp
  have hreached := hprop.counterpart?_eq hw hp
  refine ⟨r, m, hprop.moved.stored, hprop.free, hprop.moves, hprop.forward_eq,
    hprop.reverse_eq (by rw [hreached]; rfl), ?_, Trace.newTo_eq_freeNewTo_iff fun s hs hx hn => ?_⟩
  · -- nothing that is free in the candidate was overwritten
    have hiff := Trace.newTo_eq_freeNewTo_iff (t := t) (u := proposal.trace) (x := x)
      fun s hs hx hn => ?_
    · rw [hiff, and_iff_left]
      exact fun s hs hfree hne s₀ hs₀ => (hprop.kept hs hne hfree hs₀).symm
    · have hrec := hprop.wellFormed.record?_of_mem hs
      rw [hx, hprop.arrived hw hp] at hrec
      cases hrec
      have hcp : t.counterpart? m.record = some r :=
        Trace.counterpart?_eq_some_iff.mpr ⟨hx ▸ hprop.moved.stored,
          hprop.moved.revalued.family.symm, hprop.moved.revalued.structural.symm⟩
      rw [hn] at hcp
      cases hcp
  · have hrec := h.wellFormed.record?_of_mem hs
    rw [hx, hprop.moved.stored] at hrec
    cases hrec
    rw [hn] at hreached
    cases hreached

/-! ### An observation that leaks into a proposal -/

/-- Makes a choice that is true at first, and an impossible observation when it is not. -/
def lateObservation : Program :=
  (do
    let x ← Computation.structural .flip [1.0]
    if x = Value.bool true then pure x else Computation.observe .flip [0.0] (.bool true)).program

theorem strict_lateObservation : lateObservation.Strict := by
  refine ⟨fun v => ?_, fun e => trivial⟩
  simp only
  split
  · trivial
  · exact ⟨fun _ => trivial, fun _ => trivial⟩

/-- The trace after one pass. -/
def lateSource : Trace := observedOnce lateObservation

example : lateSource.records.map (fun r => (r.address, r.value)) =
    [(.atSite "" 0, .bool true)] := by
  decide +kernel

theorem update_lateObservation :
    ((Trace.unstarted 0 lateObservation {} (.ofSeed 0)).update false {}).1 =
      .ok (.bool true) := by
  decide +kernel

theorem settled_lateSource : Settled lateSource :=
  settledIn_observedOnce trivial update_lateObservation

theorem strict_lateSource : lateSource.program.Strict := by
  rw [lateSource, program_observedOnce update_lateObservation]
  exact strict_lateObservation

/-- What a view of an answer shows of the value in it. -/
theorem exists_ok_of_map {α β : Type} (answer : Except Fault α) (view : α → β) {b : β}
    (h : answer.map view = .ok b) : ∃ a, answer = .ok a ∧ view a = b := by
  cases answer with
  | error fault => cases h
  | ok a => exact ⟨a, rfl, Except.ok.inj h⟩

theorem candidate_follows_lateSource :
    ∃ proposal r m, (lateSource.propose (.atSite "" 0) false {}).1 = .ok proposal ∧
      lateSource.Follows (.atSite "" 0) proposal r m ∧ r.value = .bool true ∧
      m.record.value = .bool false := by
  obtain ⟨proposal, hc, hv⟩ := exists_ok_of_map
    (lateSource.propose (.atSite "" 0) false {}).1
    (fun p => p.trace.value? (.atSite "" 0)) (b := some (.bool false)) (by decide +kernel)
  obtain ⟨r, m, hf, -⟩ := SettledIn.candidate_follows settled_lateSource strict_lateSource hc
  refine ⟨proposal, r, m, hc, hf, ?_, ?_⟩
  · have hr : lateSource.value? (.atSite "" 0) = some (.bool true) := by decide +kernel
    rw [Trace.value?, hf.stored] at hr
    exact Option.some.inj hr
  · rw [Trace.value?, hf.arrived] at hv
    exact Option.some.inj hv

theorem entropy_eq_lateSource :
    ∃ proposal r m, (lateSource.propose (.atSite "" 0) false {}).1 = .ok proposal ∧
      lateSource.record? (.atSite "" 0) = some r ∧
      r.MovesBy (.ofSeed lateSource.generator.next.1) m ∧
      proposal.forward = m.forward + Record.sumOnto 0.0 (proposal.trace.newTo lateSource) := by
  obtain ⟨proposal, hc, -⟩ := exists_ok_of_map
    (lateSource.propose (.atSite "" 0) false {}).1 (fun p => p.trace.size)
    (b := 2) (by decide +kernel)
  obtain ⟨r, m, hr, -, hm, hf, -⟩ := SettledIn.entropy_eq settled_lateSource strict_lateSource hc
  exact ⟨proposal, r, m, hc, hr, hm, hf⟩

/-- **The forward log-probability of a proposal is that of an observation which the proposal
reaches**, although it is certain that the choice moves as it does, and no other choice is free. -/
theorem forward_lateSource :
    Settled lateSource ∧ lateSource.program.Strict ∧
      ∃ proposal, (lateSource.propose (.atSite "" 0) false {}).1 = .ok proposal ∧
        lateSource.records.map (fun r => (r.address, r.value, r.conditioned)) =
          [(.atSite "" 0, .bool true, false)] ∧
        proposal.trace.records.map (fun r => (r.address, r.value, r.conditioned)) =
          [(.atSite "" 0, .bool false, false), (.atSite "" 1, .bool true, true)] ∧
        Family.flip.logKernel (.bool true) (.bool false) [1.0] = .ok 0.0 ∧
        proposal.trace.freeNewTo lateSource (.atSite "" 0) = [] ∧
        proposal.forward = Special.negInfinity ∧
        proposal.forward ≠
          0.0 + Record.sumOnto 0.0 (proposal.trace.freeNewTo lateSource (.atSite "" 0)) := by
  obtain ⟨proposal, hc, hv⟩ := exists_ok_of_map
    (lateSource.propose (.atSite "" 0) false {}).1
    (fun p => (p.trace.records.map fun r => (r.address, r.value, r.conditioned),
      p.trace.freeNewTo lateSource (.atSite "" 0), p.forward))
    (b := ([(.atSite "" 0, .bool false, false), (.atSite "" 1, .bool true, true)], [],
      Special.negInfinity)) (by decide +kernel)
  obtain ⟨hrecords, hfree, hforward⟩ :
      proposal.trace.records.map (fun r => (r.address, r.value, r.conditioned)) =
          [(.atSite "" 0, .bool false, false), (.atSite "" 1, .bool true, true)] ∧
        proposal.trace.freeNewTo lateSource (.atSite "" 0) = [] ∧
        proposal.forward = Special.negInfinity := by
    simpa only [Prod.mk.injEq] using hv
  refine ⟨settled_lateSource, strict_lateSource, proposal, hc, by decide +kernel, hrecords,
    by decide +kernel, hfree, hforward, ?_⟩
  rw [hforward, hfree]
  decide +kernel

end ProbTrace
