import ProbTrace.Proofs.Candidate

/-!
# Proofs — Difference: a candidate and its source, compared by address

What one finished trace has and another has not can be read off their addresses (`Trace.onlyIn`), or
off what the pass that made the one from the other has added up.  The two differ in the addresses at
which both traces have a record, and not of the same family and class: such a record stands in for
the other (`Trace.standIns`), is created or removed like any record that is new, and its address is
in both traces (`perm_newTo`).

`ReachableIn.difference_eq` is the comparison for a candidate and its source.  It asks nothing of
the program, and so the program may not make the choice that was moved: then its record is removed
as it was moved.
-/

namespace ProbTrace

namespace Trace

variable {t u c : Trace} {x : Address} {r s : Record}

/-- The records of `u` at whose addresses `t` has records of another family or class. -/
def standIns (u t : Trace) : List Record :=
  u.records.filter fun r => t.arena.contains r.address && (t.counterpart? r).isNone

theorem logProbabilityOnlyIn_eq (u t : Trace) :
    u.logProbabilityOnlyIn t = Record.sumOnto 0.0 (u.onlyIn t) := rfl

theorem WellFormed.contains_eq (h : t.WellFormed) (x : Address) :
    t.arena.contains x = (t.record? x).isSome := by
  have hslot : t.arena.contains x = (t.arena.slotOf? x).isSome :=
    Std.TreeMap.contains_eq_isSome_getElem?
  rw [hslot, record?, Arena.lookup?]
  cases hi : t.arena.slotOf? x with
  | none => rfl
  | some i =>
      obtain ⟨r, hr, -⟩ := (h.owned_iff x i).mp hi
      rw [Option.bind_some, hr]
      rfl

/-- **A record is new to another trace if its address is, or if it stands in for another
record.** -/
theorem WellFormed.perm_newTo (h : t.WellFormed) (u : Trace) :
    (u.newTo t).Perm (u.onlyIn t ++ u.standIns t) := by
  have honly : u.onlyIn t = (u.newTo t).filter fun r => !t.arena.contains r.address := by
    rw [onlyIn, newTo, List.filter_filter]
    refine List.filter_congr fun r _ => ?_
    rw [h.contains_eq, counterpart?]
    cases t.record? r.address <;> rfl
  have hstand : u.standIns t = (u.newTo t).filter fun r => !!t.arena.contains r.address := by
    rw [standIns, newTo, List.filter_filter]
    exact List.filter_congr fun r _ => by rw [Bool.not_not]
  rw [honly, hstand]
  exact (List.filter_append_perm _ _).symm

/-- Where a record stands in for another one, that one stands in for it. -/
theorem mem_addresses_standIns (ht : t.WellFormed) (hu : u.WellFormed) :
    x ∈ (u.standIns t).map (·.address) ↔ ∃ r s, u.record? x = some r ∧ t.record? x = some s ∧
      ¬ (s.family = r.family ∧ s.structural = r.structural) := by
  simp only [standIns, List.mem_map, List.mem_filter, Bool.and_eq_true, Option.isNone_iff_eq_none,
    ht.contains_eq, Option.isSome_iff_exists]
  constructor
  · rintro ⟨r, ⟨hr, ⟨s, hs⟩, hn⟩, rfl⟩
    refine ⟨r, s, hu.record?_of_mem hr, hs, fun hsame => ?_⟩
    rw [counterpart?_eq_some_iff.mpr ⟨hs, hsame⟩] at hn
    cases hn
  · rintro ⟨r, s, hr, hs, hdiff⟩
    have hx := hu.address_record? hr
    subst hx
    refine ⟨r, ⟨hu.mem_of_record? hr, ⟨s, hs⟩, ?_⟩, rfl⟩
    refine Option.eq_none_iff_forall_ne_some.mpr fun s' hs' => ?_
    obtain ⟨hs'', hsame⟩ := counterpart?_eq_some_iff.mp hs'
    rw [hs] at hs''
    cases hs''
    exact hdiff hsame

theorem standIns_eq_nil_comm (ht : t.WellFormed) (hu : u.WellFormed) (h : u.standIns t = []) :
    t.standIns u = [] := by
  rw [← List.map_eq_nil_iff (f := Record.address), List.eq_nil_iff_forall_not_mem] at h ⊢
  intro x hx
  obtain ⟨s, r, hs, hr, hdiff⟩ := (mem_addresses_standIns hu ht).mp hx
  refine h x ((mem_addresses_standIns ht hu).mpr ⟨r, s, hr, hs, fun hsame => hdiff ?_⟩)
  exact ⟨hsame.1.symm, hsame.2.symm⟩

/-- The removed records, with the record that was moved as it was moved. -/
theorem Proposed.dropped_moved {proposal : Proposal} {m : Proposal.Move}
    (h : t.Proposed x proposal r m c) : Record.Adds proposal.trace.dropped
      ((t.newTo proposal.trace).map fun s => if s.address = x then m.record else s) := by
  rw [← h.moved.newTo_moved]
  exact h.turnover.dropped

theorem Proposed.removed {proposal : Proposal} {m : Proposal.Move}
    (h : t.Proposed x proposal r m c) : (proposal.trace.removed.toList.map (·.address)).Perm
      ((t.newTo proposal.trace).map (·.address)) := by
  refine h.turnover.removed.trans (.of_eq ?_)
  rw [h.moved.newTo_moved, List.map_map]
  refine List.map_congr_left fun s _ => ?_
  show (if s.address = x then m.record else s).address = s.address
  split
  · rename_i hx
    rw [hx, h.moved.revalued.address, h.moved.address_eq]
  · rfl

end Trace

variable {t : Trace} {x : Address} {fixed : Bool} {s : Session} {proposal : Proposal}

/-- **The candidate of a proposal and its source, compared by address.**  The log-probability added
is that of the records at the addresses which only the candidate has, and of those that stand in for
records of the source; the records removed are those at the addresses which only the source has, and
those that the candidate has stand-ins for.  Their log-probability is the one that they have in the
source, if the record that was moved is not one of them, which it is not if the source is settled
and the program strict.  Without stand-ins the comparison by address is exact. -/
theorem ReachableIn.difference_eq (h : Reachable t)
    (hc : (t.propose x fixed s).1 = .ok proposal) :
    ∃ r m, t.record? x = some r ∧ r.MovesBy (.ofSeed t.generator.next.1) m ∧
      Record.Adds proposal.trace.added
        (proposal.trace.onlyIn t ++ proposal.trace.standIns t) ∧
      (proposal.trace.removed.toList.map (·.address)).Perm
        ((t.onlyIn proposal.trace ++ t.standIns proposal.trace).map (·.address)) ∧
      Record.Adds proposal.trace.dropped
        ((t.onlyIn proposal.trace ++ t.standIns proposal.trace).map fun s =>
          if s.address = x then m.record else s) ∧
      ((proposal.trace.counterpart? r).isSome → Record.Adds proposal.trace.dropped
        (t.onlyIn proposal.trace ++ t.standIns proposal.trace)) ∧
      (Settled t → t.program.Strict → (proposal.trace.counterpart? r).isSome) ∧
      (proposal.trace.standIns t = [] →
        proposal.trace.added = proposal.trace.logProbabilityOnlyIn t ∧
          (proposal.trace.removed.toList.map (·.address)).Perm
            (t.addressesOnlyIn proposal.trace) ∧
          ((proposal.trace.counterpart? r).isSome →
            Record.Adds proposal.trace.dropped (t.onlyIn proposal.trace))) := by
  obtain ⟨r, m, c, hprop⟩ := h.wellFormed.exists_proposed hc
  have hadded : proposal.trace.added = Record.sumOnto 0.0 (proposal.trace.newTo t) := by
    rw [hprop.turnover.added, hprop.moved.newTo_eq]
  have hnew := h.wellFormed.perm_newTo proposal.trace
  have hlost := hprop.wellFormed.perm_newTo t
  have hkept : (proposal.trace.counterpart? r).isSome → Record.Adds proposal.trace.dropped
      (t.onlyIn proposal.trace ++ t.standIns proposal.trace) := fun hr => by
    have hdropped := hprop.turnover.dropped
    rw [hprop.moved.newTo_of_reached hr] at hdropped
    exact hdropped.of_perm hlost
  refine ⟨r, m, hprop.moved.stored, hprop.moves, ?_, hprop.removed.trans (hlost.map _),
    hprop.dropped_moved.of_perm (hlost.map _), hkept, fun hs hp => ?_, fun hn => ?_⟩
  · rw [hadded]
    exact (Record.adds_sumOnto _).of_perm hnew
  · rw [hprop.counterpart?_eq (hs.walked hp) hp]
    rfl
  · have hn' := Trace.standIns_eq_nil_comm h.wellFormed hprop.wellFormed hn
    rw [hn', List.append_nil] at hkept hlost
    refine ⟨?_, hprop.removed.trans (hlost.map _), hkept⟩
    -- without stand-ins the two lists are the same, in the same order
    have heq : proposal.trace.newTo t = proposal.trace.onlyIn t := by
      refine List.filter_congr fun r hr => ?_
      have hmem : r ∉ proposal.trace.standIns t := by
        rw [hn]
        exact List.not_mem_nil
      rw [Trace.standIns, List.mem_filter, not_and] at hmem
      have hfree := hmem hr
      have hcontains := h.wellFormed.contains_eq r.address
      rw [Trace.counterpart?] at hfree ⊢
      cases hs : t.record? r.address with
      | none => simp [hcontains, hs]
      | some s => simpa [hcontains, hs] using hfree
    rw [hadded, heq, Trace.logProbabilityOnlyIn_eq]

/-! ### A record that stands in for another one -/

/-- Observes a flip or a beta, as a structural choice decides, neither of which can be. -/
def shiftingObservation : Program :=
  (do
    let x ← Computation.structural .flip [1.0]
    if x = Value.bool true then Computation.observe .flip [0.0] (.bool true)
    else Computation.observe .beta [1.0, 1.0] (.float 2.0)).program

/-- The trace after one pass: the choice is true. -/
def shiftingSource : Trace := observedOnce shiftingObservation

theorem settled_shiftingSource : Settled shiftingSource :=
  settledIn_observedOnce (v := .bool true) trivial (by decide +kernel)

theorem difference_eq_shiftingSource :
    ∃ proposal, (shiftingSource.propose (.atSite "" 0) false {}).1 = .ok proposal ∧
      Record.Adds proposal.trace.added
        (proposal.trace.onlyIn shiftingSource ++ proposal.trace.standIns shiftingSource) ∧
      (proposal.trace.standIns shiftingSource).map (·.address) = [.atSite "" 1] := by
  obtain ⟨proposal, hc, hv⟩ := exists_ok_of_map
    (shiftingSource.propose (.atSite "" 0) false {}).1
    (fun p => (p.trace.standIns shiftingSource).map (·.address))
    (b := [.atSite "" 1]) (by decide +kernel)
  obtain ⟨r, m, -, -, ha, -⟩ := ReachableIn.difference_eq settled_shiftingSource.reachableIn hc
  exact ⟨proposal, hc, ha, hv⟩

/-- While one choice is true, observes a flip to be what another one decides, which may not be a
truth value; and else draws a flip, and another one when that fails. -/
def fallingBack : Program :=
  (do
    let x ← Computation.structural .flip [1.0]
    let y ← Computation.structural .flip [1.0]
    if x = Value.bool true then
      Computation.observe .flip [1.0] (if y = Value.bool true then .bool true else .int 5)
    else try Computation.sample .flip [0.0] catch _ => Computation.sample .flip [1.0]).program

/-- The trace after a pass that failed, because the second choice was set to false: the record at
`:2` holds a word. -/
def fallenSource : Trace :=
  (((observedOnce fallingBack).withValue (.atSite "" 1) (.bool false)).update false {}).2.1

theorem reachable_fallenSource : Reachable fallenSource := by
  have h : Reachable (observedOnce fallingBack) :=
    reachable_observedOnce (v := .bool true) (by decide +kernel)
  exact ReachableIn.update false {} (h.withValue (.atSite "" 1) (.bool false)) trivial
    ⟨Family.flip.mismatch "boolean" (.int 5), by decide +kernel⟩

/-- The trace after one pass more, with both choices false: the record at `:2` cannot be rescored,
and the flip at `:3` is made. -/
def fallbackSource : Trace :=
  ((fallenSource.withValue (.atSite "" 0) (.bool false)).update false {}).2.1

theorem settled_fallbackSource : Settled fallbackSource :=
  SettledIn.update (v := .bool true) false {}
    (reachable_fallenSource.withValue (.atSite "" 0) (.bool false)) trivial (by decide +kernel)

/-- **What a proposal adds and removes is not what the addresses tell**: when the re-run observes a
beta where the source has a flip, both count, and the address is in both traces; and when it does
not make the choice that was moved, that choice counts with the density of the move. -/
theorem difference_ne_onlyIn :
    (Settled shiftingSource ∧
      ∃ proposal, (shiftingSource.propose (.atSite "" 0) false {}).1 = .ok proposal ∧
        proposal.trace.added = Special.negInfinity ∧
        proposal.trace.logProbabilityOnlyIn shiftingSource = 0.0 ∧
        proposal.trace.dropped = Special.negInfinity ∧
        shiftingSource.logProbabilityOnlyIn proposal.trace = 0.0 ∧
        proposal.trace.removed.toList.map (·.address) = [.atSite "" 1] ∧
        shiftingSource.addressesOnlyIn proposal.trace = []) ∧
    Settled fallbackSource ∧
      ∃ proposal, (fallbackSource.propose (.atSite "" 3) false {}).1 = .ok proposal ∧
        proposal.trace.removed.toList.map (·.address) = [.atSite "" 3] ∧
        proposal.trace.dropped = Special.negInfinity ∧
        fallbackSource.logProbabilityOnlyIn proposal.trace = 0.0 := by
  refine ⟨⟨settled_shiftingSource, ?_⟩, settled_fallbackSource, ?_⟩
  · obtain ⟨proposal, hc, hv⟩ := exists_ok_of_map
      (shiftingSource.propose (.atSite "" 0) false {}).1
      (fun p => ([p.trace.added, p.trace.logProbabilityOnlyIn shiftingSource,
        p.trace.dropped, shiftingSource.logProbabilityOnlyIn p.trace],
        p.trace.removed.toList.map (·.address), shiftingSource.addressesOnlyIn p.trace))
      (b := ([Special.negInfinity, 0.0, Special.negInfinity, 0.0], [.atSite "" 1], []))
      (by decide +kernel)
    simp only [Prod.mk.injEq, List.cons.injEq, and_true] at hv
    obtain ⟨⟨ha, ha', hd, hd'⟩, hr, hr'⟩ := hv
    exact ⟨proposal, hc, ha, ha', hd, hd', hr, hr'⟩
  · obtain ⟨proposal, hc, hv⟩ := exists_ok_of_map
      (fallbackSource.propose (.atSite "" 3) false {}).1
      (fun p => (p.trace.removed.toList.map (·.address), p.trace.dropped,
        fallbackSource.logProbabilityOnlyIn p.trace))
      (b := ([.atSite "" 3], Special.negInfinity, 0.0)) (by decide +kernel)
    simp only [Prod.mk.injEq] at hv
    exact ⟨proposal, hc, hv⟩

end ProbTrace
