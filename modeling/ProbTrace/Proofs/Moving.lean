import ProbTrace.Proofs.Turnover

/-!
# Proofs — Moving: from the source of a proposal to its candidate

A proposal that succeeds has moved one free record in a copy of its source and run the program
there, so the candidate is the turnover of the copy.  The copy stores what the source stores but
for the moved record (`Trace.Moved`), and a moved record keeps its address, family and class: what
is new to the copy is what is new to the source (`Moved.newTo_eq`), and what the candidate has lost
of the copy it has lost of the source (`Moved.newTo_of_reached`), provided that the program still
makes the choice whose record has moved.
-/

namespace ProbTrace

namespace Record

variable {r m : Record} {v : Value}

/-- The record with its value changed, and its density with it. -/
structure RevaluedTo (r m : Record) : Prop where
  address     : m.address = r.address
  family      : m.family = r.family
  params      : m.params = r.params
  structural  : m.structural = r.structural
  conditioned : m.conditioned = r.conditioned
  active      : m.active = r.active
  scored      : r.family.logDensity m.value r.params = .ok m.logDensity

theorem revaluedTo_of_rescored (h : r.rescored v = .ok m) : r.RevaluedTo m := by
  obtain ⟨lp, hlp, rfl⟩ := rescored_eq_ok_iff.mp h
  exact ⟨rfl, rfl, rfl, rfl, rfl, rfl, hlp⟩

theorem RevaluedTo.eq (h : r.RevaluedTo m) :
    m = { r with value := m.value, logDensity := m.logDensity } := by
  rw [← h.address, ← h.family, ← h.params, ← h.structural, ← h.conditioned, ← h.active]

/-- The move undone: the old value, under the same parameters, has the old density. -/
theorem RevaluedTo.eq_of_scored (h : r.RevaluedTo m) {m' : Record} (h' : m.RevaluedTo m')
    (hr : r.Scored) (hv : m'.value = r.value) : m' = r := by
  have hlp := h'.scored
  rw [h.family, h.params, hv, hr] at hlp
  rw [h'.eq, h.eq, hv, ← Except.ok.inj hlp]

end Record

namespace Trace

variable {t u c : Trace} {x y : Address} {r m s : Record}

/-- The trace `c` is the trace `t` but for the record `r` at the address `x`, which has been moved
to `m`. -/
structure Moved (t : Trace) (x : Address) (r m : Record) (c : Trace) : Prop where
  source     : t.WellFormed
  wellFormed : c.WellFormed
  program    : c.program = t.program
  limits     : c.limits = t.limits
  stored     : t.record? x = some r
  revalued   : r.RevaluedTo m
  record?_eq : ∀ y, c.record? y = if y = x then some m else t.record? y
  records_eq : c.records = t.records.map fun s => if s.address = x then m else s

/-- Rewriting the slot of a record in a copy moves the record. -/
theorem WellFormed.moved_rewrite (h : t.WellFormed) {i : Nat} (ho : t.arena.Owned i x)
    (hi : t.arena.record? i = some r) {v : Value} (hm : r.rescored v = .ok m) (id : Nat)
    (generator : Generator) : t.Moved x r m ({ t.copyAs id with generator }.rewrite i m) := by
  have hself : (t.arena.put i m).record? i = some m := Arena.record?_put_self ⟨r, hi⟩
  have hx : r.address = x := by
    obtain ⟨s, hs, hx⟩ := (h.owned_iff x i).mp ho
    rw [hi] at hs
    cases hs
    exact hx
  exact
    { source := h
      wellFormed := h.rescore_copy hi hm id generator
      program := rfl
      limits := rfl
      stored := Option.bind_eq_some_iff.mpr ⟨i, ho, hi⟩
      revalued := Record.revaluedTo_of_rescored hm
      record?_eq := fun y => by
        show (t.arena.slotOf? y).bind (t.arena.put i m).record? = _
        split
        · rename_i hy
          rw [hy]
          exact Option.bind_eq_some_iff.mpr ⟨i, ho, hself⟩
        · rename_i hy
          show _ = (t.arena.slotOf? y).bind t.arena.record?
          cases hj : t.arena.slotOf? y with
          | none => rfl
          | some j =>
              refine Arena.record?_put_of_ne ?_
              rintro rfl
              obtain ⟨s, hs, hy'⟩ := (h.owned_iff y i).mp hj
              rw [hi] at hs
              cases hs
              exact hy (hy'.symm.trans hx)
      records_eq := by
        show t.order.toList.filterMap (t.arena.put i m).record? = _
        rw [records, List.map_filterMap]
        refine List.filterMap_congr fun j _ => ?_
        by_cases hj : i = j
        · subst hj
          rw [hself, hi, Option.map_some, if_pos hx]
        · rw [Arena.record?_put_of_ne hj]
          cases hs : t.arena.record? j with
          | none => rfl
          | some s =>
              have hne : s.address ≠ x := fun hsx =>
                hj (Arena.Owned.unique ho (hsx ▸ h.owned hs))
              rw [Option.map_some, if_neg hne] }

/-- How a proposal came about: a record that was free has moved in a copy, and a completed pass
over the copy has left the candidate. -/
structure Proposed (t : Trace) (x : Address) (proposal : Proposal) (r : Record)
    (m : Proposal.Move) (c : Trace) : Prop where
  free     : r.conditioned = false
  moves    : r.MovesBy (.ofSeed t.generator.next.1) m
  moved    : t.Moved x r m.record c
  completed : ∃ fixed s v, (c.update fixed s).1 = .ok v ∧ proposal.trace = (c.update fixed s).2.1
  forward  : proposal.forward = m.forward + proposal.trace.added
  reverse  : proposal.reverse = m.reverse + proposal.trace.dropped

theorem WellFormed.exists_proposed (h : t.WellFormed) {fixed : Bool} {s : Session}
    {proposal : Proposal} (hp : (t.propose x fixed s).1 = .ok proposal) :
    ∃ r m c, t.Proposed x proposal r m c := by
  obtain ⟨i, r, m, id, generator, s', w, ho, hi, hc, hm, hv, hu, hf, hr⟩ := propose_eq_ok hp
  exact ⟨r, m, _, hc, hm, h.moved_rewrite ho hi hm.rescored id generator,
    ⟨fixed, s', w, hv, hu⟩, hf, hr⟩

namespace Moved

/-- The address of the moved record. -/
theorem address_eq (h : t.Moved x r m c) : r.address = x := h.source.address_record? h.stored

/-- A record has a counterpart in the copy if it has one in the source. -/
theorem isNone_counterpart? (h : t.Moved x r m c) (s : Record) :
    (c.counterpart? s).isNone = (t.counterpart? s).isNone := by
  rw [counterpart?, counterpart?, h.record?_eq]
  split
  · rename_i hs
    have hfits : m.fits s.family s.structural = r.fits s.family s.structural := by
      rw [Record.fits, Record.fits, h.revalued.family, h.revalued.structural]
    rw [hs, h.stored, Option.filter_some, Option.filter_some, hfits]
    cases r.fits s.family s.structural <;> rfl
  · rfl

/-- What is new to the copy is new to the source. -/
theorem newTo_eq (h : t.Moved x r m c) (u : Trace) : u.newTo c = u.newTo t :=
  List.filter_congr fun s _ => h.isNone_counterpart? s

/-- What another trace has lost of the copy it has lost of the source, as it was moved. -/
theorem newTo_moved (h : t.Moved x r m c) (u : Trace) :
    c.newTo u = (t.newTo u).map fun s => if s.address = x then m else s := by
  rw [newTo, newTo, h.records_eq, List.filter_map]
  refine congrArg _ (List.filter_congr fun s hs => ?_)
  show (u.counterpart? (if s.address = x then m else s)).isNone = _
  split
  · rename_i hx
    -- the only record at the address is the one that has moved
    have hsr : s = r := by
      have hst := h.source.record?_of_mem hs
      rw [hx, h.stored] at hst
      exact (Option.some.inj hst).symm
    rw [hsr, counterpart?, counterpart?, h.revalued.address, h.revalued.family,
      h.revalued.structural]
  · rfl

/-- If the other trace still has the choice, it is not lost. -/
theorem newTo_of_reached (h : t.Moved x r m c) (hr : (u.counterpart? r).isSome) :
    c.newTo u = t.newTo u := by
  rw [h.newTo_moved]
  refine (List.map_congr_left fun s hs => ?_).trans (List.map_id _)
  have hne : s.address ≠ x := by
    intro hx
    obtain ⟨hmem, hnone⟩ := mem_newTo.mp hs
    have hst := h.source.record?_of_mem hmem
    rw [hx, h.stored] at hst
    cases hst
    rw [hnone] at hr
    cases hr
  exact if_neg hne

end Moved

namespace Proposed

variable {proposal : Proposal} {mv : Proposal.Move}

theorem wellFormed (h : t.Proposed x proposal r mv c) : proposal.trace.WellFormed := by
  obtain ⟨fixed, s, v, hv, hu⟩ := h.completed
  rw [hu]
  exact h.moved.wellFormed.update_ok hv

/-- The candidate is the turnover of the copy. -/
theorem turnover (h : t.Proposed x proposal r mv c) : c.Turnover proposal.trace := by
  obtain ⟨fixed, s, v, hv, hu⟩ := h.completed
  rw [hu]
  exact h.moved.wellFormed.turnover_update hv

/-- The choices created count towards the forward log-probability. -/
theorem forward_eq (h : t.Proposed x proposal r mv c) :
    proposal.forward = mv.forward + Record.sumOnto 0.0 (proposal.trace.newTo t) := by
  rw [h.forward, h.turnover.added, h.moved.newTo_eq]

end Proposed

end Trace

end ProbTrace
