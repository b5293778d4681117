import ProbTrace.Proofs.Agreement

/-!
# Proofs — Turnover: what a completed pass brings in and what it leaves behind

A record has a counterpart in a trace that stores a record of the same family and class at its
address (`Trace.counterpart?`).  The records of one trace without a counterpart in another are new
to it (`Trace.newTo`).  A completed pass creates the records that are new to the trace it started
from, and removes those of that trace that are new to the one it leaves; both sums of
log-densities are over these (`Turnover`).

Removed records are added up in the order of their slots and listed here in the order of their
visits, so a sum is taken in some order (`Record.Adds`): in exact arithmetic the order does not
matter.
-/

namespace ProbTrace

namespace Family

theorem same_iff {f g : Family} : f.same g = true ↔ f = g := by
  cases f <;> cases g <;> decide

end Family

namespace Record

variable {r s : Record} {f : Family} {structural : Bool}

theorem fits_iff : r.fits f structural = true ↔ r.family = f ∧ r.structural = structural := by
  rw [fits, Bool.and_eq_true, Family.same_iff, beq_iff_eq]

/-- `x` is the sum of the log-densities of `rs`, in some order, from zero. -/
def Adds (x : Float) (rs : List Record) : Prop := ∃ l : List Record, l.Perm rs ∧ x = sumOnto 0.0 l

theorem adds_sumOnto (rs : List Record) : Adds (sumOnto 0.0 rs) rs := ⟨rs, .refl rs, rfl⟩

theorem Adds.of_perm {x : Float} {rs rs' : List Record} (h : Adds x rs) (hp : rs.Perm rs') :
    Adds x rs' :=
  let ⟨l, hl, hx⟩ := h
  ⟨l, hl.trans hp, hx⟩

/-- Nothing adds up to zero. -/
theorem adds_nil {x : Float} : Adds x [] ↔ x = 0.0 := by
  constructor
  · rintro ⟨l, hl, rfl⟩
    rw [hl.eq_nil]
    rfl
  · rintro rfl
    exact ⟨[], .refl [], rfl⟩

end Record

/-! ### The records of a trace -/

namespace Trace

variable {t u : Trace} {r s : Record} {x : Address}

namespace WellFormed

/-- The trace lists the records that it stores. -/
theorem mem_records (h : t.WellFormed) : r ∈ t.records ↔ ∃ i, t.arena.record? i = some r := by
  rw [records, List.mem_filterMap]
  constructor
  · rintro ⟨i, -, hi⟩
    exact ⟨i, hi⟩
  · rintro ⟨i, hi⟩
    exact ⟨i, (h.mem_order i).mpr ⟨r, hi⟩, hi⟩

theorem record?_of_mem (h : t.WellFormed) (hr : r ∈ t.records) :
    t.record? r.address = some r := by
  obtain ⟨i, hi⟩ := h.mem_records.mp hr
  exact h.record?_address hi

theorem mem_of_record? (h : t.WellFormed) (hr : t.record? x = some r) : r ∈ t.records := by
  obtain ⟨i, -, hi⟩ := Option.bind_eq_some_iff.mp hr
  exact h.mem_records.mpr ⟨i, hi⟩

/-- The addresses of the records are distinct. -/
theorem nodup_addresses (h : t.WellFormed) : t.addresses.Nodup := by
  refine List.Nodup.map_on (fun r hr s hs hx => ?_) (h.order_nodup.filterMap fun i j r hi hj => ?_)
  · have hrec := h.record?_of_mem hr
    rw [hx, h.record?_of_mem hs] at hrec
    exact (Option.some.inj hrec).symm
  · exact (h.owned hi).unique (h.owned hj)

/-- The order of the slots and that of the visits list the same records. -/
theorem perm_records (h : t.WellFormed) : (t.arena.occupants.map (·.2)).Perm t.records := by
  have hslots : (t.arena.occupants.map (·.1)).Perm t.order.toList := by
    refine (List.perm_ext_iff_of_nodup t.arena.nodup_occupants h.order_nodup).mpr fun i => ?_
    rw [h.mem_order, List.mem_map]
    constructor
    · rintro ⟨⟨j, r⟩, hj, rfl⟩
      exact ⟨r, Arena.mem_occupants.mp hj⟩
    · rintro ⟨r, hr⟩
      exact ⟨(i, r), Arena.mem_occupants.mpr hr, rfl⟩
  exact t.arena.filterMap_occupants ▸ hslots.filterMap t.arena.record?

end WellFormed

/-! ### Counterparts -/

/-- The record of the same family and class that the trace stores at the address of `r`. -/
def counterpart? (t : Trace) (r : Record) : Option Record :=
  (t.record? r.address).filter fun s => s.fits r.family r.structural

theorem counterpart?_eq_some_iff : t.counterpart? r = some s ↔
    t.record? r.address = some s ∧ s.family = r.family ∧ s.structural = r.structural := by
  rw [counterpart?, Option.filter_eq_some_iff, Record.fits_iff]

/-- The records of `u` that have no counterpart in `t`, in the order of their visits. -/
def newTo (u t : Trace) : List Record := u.records.filter fun r => (t.counterpart? r).isNone

theorem mem_newTo : r ∈ u.newTo t ↔ r ∈ u.records ∧ t.counterpart? r = none := by
  rw [newTo, List.mem_filter, Option.isNone_iff_eq_none]

/-- The trace `u` took over from `t` what both have, and made up the rest. -/
structure Turnover (t u : Trace) : Prop where
  /-- The addresses of the choices are distinct. -/
  nodup : u.addresses.Nodup
  /-- What is not observed keeps its value. -/
  kept : ∀ r ∈ u.records, r.conditioned = false → ∀ s, t.counterpart? r = some s →
    r.value = s.value
  /-- The log-probability of what was created. -/
  added : u.added = Record.sumOnto 0.0 (u.newTo t)
  /-- The log-probability of what was removed. -/
  dropped : Record.Adds u.dropped (t.newTo u)
  /-- The addresses of what was removed. -/
  removed : (u.removed.toList.map (·.address)).Perm ((t.newTo u).map (·.address))

end Trace

/-! ### The choices of a replay and the stored records -/

namespace Replay.Faithful

variable {ρ : Replay} {stored : Address → Option Record} {q : Request} {r : Record}
  {created : Bool}

/-- A choice is of the family and the class that were asked for, and observed if asked to be. -/
theorem class_made (h : ρ.Faithful stored) (hr : .made q r created ∈ ρ.entries) :
    r.family = q.family ∧ r.structural = q.structural ∧ r.conditioned = q.observed.isSome := by
  cases created with
  | true =>
      obtain ⟨-, v, lp, -, he⟩ := h.created hr
      rw [he]
      exact ⟨rfl, rfl, rfl⟩
  | false =>
      obtain ⟨r₀, -, hfit, hq⟩ := h.reused hr
      obtain ⟨hf, hs⟩ := Record.fits_iff.mp hfit
      have hrr := r₀.refreshes q
      rw [hq] at hrr
      cases hrr <;> exact ⟨hf, hs, rfl⟩

end Replay.Faithful

namespace Trace.Agrees

variable {t u : Trace} {ρ : Replay} {r : Record}

/-- A choice reuses a stored record exactly when its record has a counterpart. -/
theorem reused_iff (h : t.Agrees ρ u) (hf : ρ.Faithful t.record?) {q : Request} {created : Bool}
    (hr : .made q r created ∈ ρ.entries) : created = false ↔ (t.counterpart? r).isSome := by
  obtain ⟨hfam, hstr, -⟩ := hf.class_made hr
  rw [h.reused hr, Option.isSome_iff_exists]
  simp only [counterpart?, hfam, hstr, Option.filter_eq_some_iff]

/-- The created records are those without a counterpart. -/
theorem created_eq (h : t.Agrees ρ u) (hf : ρ.Faithful t.record?) : ρ.created = u.newTo t := by
  rw [newTo, h.records, Replay.records, List.filter_filterMap, Replay.created]
  refine List.filterMap_congr fun e he => ?_
  cases e with
  | factor w => rfl
  | made q r created =>
      have hiff := h.reused_iff hf he
      cases created with
      | true =>
          have hn : (t.counterpart? r).isNone = true := by simpa using hiff
          simp [Entry.created?, Entry.record?, Option.filter_some, hn]
      | false =>
          have hn : (t.counterpart? r).isNone = false := by simpa using hiff
          simp [Entry.created?, Entry.record?, Option.filter_some, hn]

/-- A stored record is reused exactly when it has a counterpart among the choices. -/
theorem reuses_iff (h : t.Agrees ρ u) (ht : t.WellFormed) (hu : u.WellFormed)
    (hf : ρ.Faithful t.record?) (hr : r ∈ t.records) :
    ρ.reuses r = true ↔ (u.counterpart? r).isSome := by
  have hstored := ht.record?_of_mem hr
  rw [Replay.reuses_iff, Option.isSome_iff_exists]
  constructor
  · rintro ⟨s, hs, hx⟩
    obtain ⟨e, he, hes⟩ := List.mem_filterMap.mp hs
    cases e with
    | factor w => cases hes
    | made q s' created =>
        cases created with
        | true => cases hes
        | false =>
            cases hes
            -- the record that was reused is `r`, for no other has the address
            obtain ⟨r₀, hr₀, hfit, -⟩ := hf.reused he
            rw [hx, hstored] at hr₀
            cases hr₀
            obtain ⟨hfam, hstr⟩ := Record.fits_iff.mp hfit
            obtain ⟨hfam', hstr', -⟩ := hf.class_made he
            have hs : s ∈ u.records := by
              rw [h.records]
              exact Replay.reused_subset ρ hs
            refine ⟨s, counterpart?_eq_some_iff.mpr ⟨hx ▸ hu.record?_of_mem hs, ?_, ?_⟩⟩
            · rw [hfam', hfam]
            · rw [hstr', hstr]
  · rintro ⟨s, hs⟩
    obtain ⟨hs, hfam, hstr⟩ := counterpart?_eq_some_iff.mp hs
    have hx := hu.address_record? hs
    have hmem : s ∈ ρ.records := h.records ▸ hu.mem_of_record? hs
    obtain ⟨e, he, hes⟩ := List.mem_filterMap.mp hmem
    cases e with
    | factor w => cases hes
    | made q s' created =>
        cases hes
        have hreused : created = false := by
          refine (h.reused_iff hf he).mpr (Option.isSome_iff_exists.mpr ⟨r, ?_⟩)
          exact counterpart?_eq_some_iff.mpr ⟨hx ▸ hstored, hfam.symm, hstr.symm⟩
        subst hreused
        exact ⟨s, List.mem_filterMap.mpr ⟨_, he, rfl⟩, hx⟩

/-- What the replay has not reused are the stored records without a counterpart. -/
theorem perm_unreused (h : t.Agrees ρ u) (ht : t.WellFormed) (hu : u.WellFormed)
    (hf : ρ.Faithful t.record?) : (t.unreused ρ).Perm (t.newTo u) := by
  have hfilter : t.newTo u = t.records.filter fun r => !ρ.reuses r := by
    refine List.filter_congr fun r hr => ?_
    have hiff := h.reuses_iff ht hu hf hr
    cases hreuses : ρ.reuses r with
    | true => simpa [hreuses] using hiff
    | false => simpa [hreuses] using hiff
  rw [hfilter]
  exact ht.perm_records.filter _

end Trace.Agrees

theorem Trace.WellFormed.update_ok {t : Trace} (h : t.WellFormed) {fixed : Bool} {s : Session}
    {v : Value} (hv : (t.update fixed s).1 = .ok v) : (t.update fixed s).2.1.WellFormed :=
  h.update fixed s (show _ = Fault.lift (.ok v) from hv)

/-- **A completed pass over a well-formed trace creates what is new to it, and removes what is new
to the trace that it leaves.** -/
theorem Trace.WellFormed.turnover_update {t : Trace} (h : t.WellFormed) {fixed : Bool}
    {s : Session} {v : Value} (hv : (t.update fixed s).1 = .ok v) :
    t.Turnover (t.update fixed s).2.1 := by
  obtain ⟨-, -, ha, -⟩ := h.agrees_update hv
  have hf := h.faithful_replayed s
  have hu := h.update_ok hv
  have hperm := ha.perm_unreused h hu hf
  exact
    { nodup := ha.nodup
      kept := fun r hr hc r₀ hr₀ => by
        rw [ha.records] at hr
        obtain ⟨e, he, her⟩ := List.mem_filterMap.mp hr
        cases e with
        | factor w => cases her
        | made q r' created =>
            cases her
            obtain ⟨-, -, hcond⟩ := hf.class_made he
            have hreused := (ha.reused_iff hf he).mpr (Option.isSome_iff_exists.mpr ⟨r₀, hr₀⟩)
            subst hreused
            have hq : q.observed = none := by simpa [hc] using hcond
            have hkept := ha.kept he hq
            rw [value?, (counterpart?_eq_some_iff.mp hr₀).1] at hkept
            exact (Option.some.inj hkept).symm
      added := by
        rw [ha.added, Replay.added, ha.created_eq hf]
      dropped := by
        rw [ha.dropped]
        exact ⟨_, hperm, rfl⟩
      removed := by
        rw [ha.removed, List.map_map]
        refine .trans (.of_eq (List.map_congr_left fun r _ => ?_)) (hperm.map _)
        show ((t.replayed s).2.left r).address = r.address
        rcases Replay.left_cases (t.replayed s).2 r with ⟨-, hl⟩ | ⟨-, hx⟩
        · rw [hl]
        · exact hx }

end ProbTrace
