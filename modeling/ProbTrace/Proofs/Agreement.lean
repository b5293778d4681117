import ProbTrace.Proofs.Mirror
import ProbTrace.Proofs.Reachable

/-!
# Proofs — Agreement: a completed pass and its replay

`Trace.Agrees` says in what a trace left by a completed pass agrees with the replay of its program
over the records that the trace held before: the records in the order of the choices, the sums, the
removed records in the order of their slots, the generator and the rest.

`Reachable.update_agrees`: a completed pass of a reachable trace agrees with its replay.  Only what
the removed records look like is not settled by the stored records alone.  A choice that fails to
rescore a stored record leaves its parameters and its observation on it, and when the program goes
on and never reaches the record, it is removed like that.  So the removed records are the stored
ones that were not reused exactly when every refused record came out as it was.
-/

namespace ProbTrace

namespace Arena

variable {a b : Arena} {i k : Nat} {r : Record}

/-- Past the last slot there are no more records. -/
theorem occupantsBelow_of_size_le (h : a.slots.size ≤ k) : a.occupantsBelow k = a.occupants := by
  induction h with
  | refl => rfl
  | step hk ih => rw [occupantsBelow_succ_of_none (record?_eq_none_of_size_le hk), ih]

/-- If slot by slot what is kept of one arena is what is kept of another, so it is on the whole. -/
theorem filter_occupantsBelow {p q : Nat → Record → Bool} {f : Record → Record}
    (h : ∀ i, (a.record? i).filter (p i) = ((b.record? i).filter (q i)).map f) (k : Nat) :
    (a.occupantsBelow k).filter (fun w => p w.1 w.2) =
      ((b.occupantsBelow k).filter fun w => q w.1 w.2).map fun w => (w.1, f w.2) := by
  induction k with
  | zero => rfl
  | succ k ih =>
      have hk := h k
      cases ha : a.record? k with
      | none =>
          rw [ha, Option.filter_none, eq_comm, Option.map_eq_none_iff] at hk
          rw [occupantsBelow_succ_of_none ha, ih]
          cases hb : b.record? k with
          | none => rw [occupantsBelow_succ_of_none hb]
          | some s =>
              rw [hb, Option.filter_eq_none_iff] at hk
              simp [occupantsBelow_succ_of_some hb, hk s rfl]
      | some r =>
          rw [occupantsBelow_succ_of_some ha, List.filter_append, ih]
          cases hb : b.record? k with
          | none =>
              rw [ha, hb, Option.filter_none, Option.map_none, Option.filter_eq_none_iff] at hk
              simp [occupantsBelow_succ_of_none hb, hk r rfl]
          | some s =>
              rw [ha, hb, Option.filter_some, Option.filter_some] at hk
              cases hr : p k r <;> cases hs : q k s <;>
                simp_all [occupantsBelow_succ_of_some hb]

theorem filter_occupants {p q : Nat → Record → Bool} {f : Record → Record}
    (h : ∀ i, (a.record? i).filter (p i) = ((b.record? i).filter (q i)).map f) :
    a.occupants.filter (fun w => p w.1 w.2) =
      (b.occupants.filter fun w => q w.1 w.2).map fun w => (w.1, f w.2) := by
  -- the two arenas need not have as many slots
  have hk := filter_occupantsBelow h (max a.slots.size b.slots.size)
  rwa [occupantsBelow_of_size_le (Nat.le_max_left _ _),
    occupantsBelow_of_size_le (Nat.le_max_right _ _)] at hk

/-- The same without the slots. -/
theorem map_filter_occupants {p : Nat → Record → Bool} {q : Record → Bool}
    {f : Record → Record}
    (h : ∀ i, (a.record? i).filter (p i) = ((b.record? i).filter q).map f) :
    (a.occupants.filter fun w => p w.1 w.2).map (·.2) =
      ((b.occupants.map (·.2)).filter q).map f := by
  rw [filter_occupants (q := fun _ => q) h, List.map_map, List.filter_map, List.map_map]
  rfl

end Arena

/-! ### What became of the stored records -/

namespace Record

theorem unmarked_inj {r s : Record} (hr : r.active = true) (hs : s.active = true)
    (h : r.unmarked = s.unmarked) : r = s := by
  rw [← marked_unmarked hr, h, marked_unmarked hs]

end Record

namespace Trace

/-- The stored records that the replay has not reused, in the order of their slots. -/
def unreused (t : Trace) (ρ : Replay) : List Record :=
  (t.arena.occupants.map (·.2)).filter fun r => !ρ.reuses r

variable {t u : Trace} {ρ : Replay} {r s : Record} {i : Nat}

theorem mem_unreused : r ∈ t.unreused ρ ↔
    (∃ i, t.arena.record? i = some r) ∧ ρ.reuses r = false := by
  simp [unreused, Arena.mem_occupants]

/-- How the trace `u`, left by a completed pass over the trace `t`, agrees with the replay. -/
structure Agrees (t : Trace) (ρ : Replay) (u : Trace) : Prop where
  /-- A choice is served by the record stored at its address if that one fits, and only then. -/
  reused : ∀ {q r created}, .made q r created ∈ ρ.entries →
    (created = false ↔ ∃ r₀, t.record? r.address = some r₀ ∧
      r₀.fits q.family q.structural = true)
  /-- Unless it is observed, it keeps its value. -/
  kept : ∀ {q r}, .made q r false ∈ ρ.entries → q.observed = none →
    t.value? r.address = some r.value
  records   : u.records = ρ.records
  nodup     : u.addresses.Nodup
  joint     : u.joint = ρ.joint
  added     : u.added = ρ.added
  removed   : u.removed.toList = (t.unreused ρ).map fun r => (ρ.left r).unmarked
  dropped   : u.dropped = Record.sumOnto 0.0 (t.unreused ρ)
  satisfied : u.satisfied = ρ.satisfied
  generator : u.generator = ρ.generator

end Trace

namespace Replay.Mirrors

variable {t : Trace} {p : Pass} {ρ : Replay}

/-- What the pass has not reached is what the replay has not reused. -/
theorem unreached (h : Mirrors t p ρ) (ht : p.Trimmed) :
    p.trace.arena.unreachedBelow p.trace.arena.slots.size =
      (t.unreused ρ).map fun r => (ρ.left r).unmarked := by
  refine Arena.map_filter_occupants (p := fun _ r => !r.active) fun i => ?_
  cases hi : t.arena.record? i with
  | none =>
      rw [Option.filter_none, Option.map_none, Option.filter_eq_none_iff]
      intro s hs ha
      obtain ⟨r₀, hr₀, -⟩ := h.stored hs (by simpa using ha)
      rw [hi] at hr₀
      cases hr₀
  | some r =>
      cases hr : ρ.reuses r with
      | false => simp [h.left hi hr, Option.filter_some, hr]
      | true =>
          obtain ⟨s, hs, ha⟩ := (ht.mem_order i).mp (h.reached hi hr)
          simp [hs, Option.filter_some, ha, hr]

/-- The records that the completed trace lists are the choices of the replay. -/
theorem records_complete (h : Mirrors t p ρ) (ht : p.Trimmed) (v : Value) :
    (p.trace.complete v).records = ρ.records := by
  have hp := Trace.pruned_complete ht.layout v
  have hord : (p.trace.complete v).order.toList = p.trace.order.toList := by
    rw [hp.frame]
    exact (Trace.toList_order_forgetRest p.trace).trans
      (Trace.visited_of_size_le (Nat.le_of_eq ht.size))
  have hrec : p.trace.order.toList.map (p.trace.complete v).arena.record? =
      ρ.records.map some := by
    rw [← h.visited]
    refine List.map_congr_left fun i hi => ?_
    obtain ⟨r, hr, ha⟩ := (ht.mem_order i).mp hi
    rw [hp.record i]
    exact (congrArg (Option.filter _) hr).trans
      ((if_pos (show (r.active || _) = true by rw [ha]; rfl)).trans hr.symm)
  have hid := congrArg (List.filterMap id) hrec
  rw [List.filterMap_map, List.filterMap_map] at hid
  rw [Trace.records, hord]
  exact hid.trans List.filterMap_some

end Replay.Mirrors

/-! ### Records that came out as they were -/

namespace Trace.WellFormed

variable {t : Trace} {ρ : Replay} {r s : Record} {i : Nat}

theorem record?_address (h : t.WellFormed) (hi : t.arena.record? i = some r) :
    t.record? r.address = some r :=
  Option.bind_eq_some_iff.mpr ⟨i, h.owned hi, hi⟩

/-- A refused record is that of a stored one, which the pass has not reused. -/
theorem exists_refused (h : t.WellFormed) (hf : ρ.Faithful t.record?) (hs : s ∈ ρ.refused) :
    ∃ i r, t.arena.record? i = some r ∧ r.address = s.address ∧ r ∈ t.unreused ρ ∧
      ρ.left r = s ∧ ∃ q e, r.refreshed q = (.error e, s) := by
  obtain ⟨r, q, e, hr, -, hq⟩ := hf.refused s hs
  have hx := h.address_record? hr
  obtain ⟨i, -, hi⟩ := Option.bind_eq_some_iff.mp hr
  refine ⟨i, r, hi, hx, mem_unreused.mpr ⟨⟨i, hi⟩, ?_⟩, Replay.left_of_refused hf.nodup hs hx.symm,
    q, e, hq⟩
  rw [Bool.eq_false_iff]
  intro hu
  obtain ⟨u, hu, hux⟩ := (Replay.reuses_iff _ _).mp hu
  exact Replay.address_ne_of_refused hf.nodup (Replay.reused_subset _ hu) hs (hux.trans hx)

theorem active_refused (h : t.WellFormed) (hf : ρ.Faithful t.record?) (hs : s ∈ ρ.refused) :
    s.active = true := by
  obtain ⟨i, r, hi, -, -, -, q, e, hq⟩ := h.exists_refused hf hs
  have ha := r.active_refreshed q
  rw [hq] at ha
  exact ha.trans (h.active hi)

theorem logDensity_left (h : t.WellFormed) (hf : ρ.Faithful t.record?)
    (hi : t.arena.record? i = some r) : (ρ.left r).logDensity = r.logDensity := by
  rcases Replay.left_cases ρ r with ⟨-, hl⟩ | ⟨hl, hx⟩
  · rw [hl]
  · obtain ⟨j, r', hj, hx', -, -, q, e, hq⟩ := h.exists_refused hf hl
    have hij : i = j := (h.owned hi).unique ((hx'.trans hx) ▸ h.owned hj)
    subst hij
    rw [hi] at hj
    cases hj
    exact Record.logDensity_refused hq

/-- What is left of the unreused records are those records, exactly when every refused record came
out as it was. -/
theorem map_left_iff (h : t.WellFormed) (hf : ρ.Faithful t.record?) :
    ((t.unreused ρ).map fun r => (ρ.left r).unmarked) = (t.unreused ρ).map Record.unmarked ↔
      ∀ s ∈ ρ.refused, t.record? s.address = some s := by
  rw [List.map_inj_left]
  constructor
  · intro hl s hs
    obtain ⟨i, r, hi, hx, hu, hrs, -⟩ := h.exists_refused hf hs
    have he := hl r hu
    rw [hrs] at he
    -- neither of the two was marked as anything but reached
    rw [Record.unmarked_inj (h.active_refused hf hs) (h.active hi) he]
    exact h.record?_address hi
  · intro hs r hr
    obtain ⟨⟨i, hi⟩, -⟩ := mem_unreused.mp hr
    rcases Replay.left_cases ρ r with ⟨-, hl⟩ | ⟨hl, hx⟩
    · rw [hl]
    · have he := hs _ hl
      rw [hx, h.record?_address hi] at he
      exact congrArg Record.unmarked (Option.some.inj he).symm

/-! ### The whole pass -/

/-- The trace that a pass completes agrees with the replay that the pass mirrors. -/
theorem agrees_complete (h : t.WellFormed) {p : Pass} (ht : p.Trimmed)
    (hf : ρ.Faithful t.record?) (hm : Replay.Mirrors t p ρ) (v : Value) :
    Agrees t ρ (p.trace.complete v) := by
  have hp := pruned_complete ht.layout v
  have hrecords := hm.records_complete ht v
  exact
    { reused := fun {q r created} hr => by
        constructor
        · rintro rfl
          obtain ⟨r₀, hr₀, hfit, -⟩ := hf.reused hr
          exact ⟨r₀, hr₀, hfit⟩
        · rintro ⟨r₀, hr₀, hfit⟩
          cases created with
          | false => rfl
          | true =>
              rw [(hf.created hr).1 r₀ hr₀] at hfit
              cases hfit
      kept := fun {q r} hr hq => by
        obtain ⟨r₀, hr₀, -, hrr⟩ := hf.reused hr
        have hval := Record.value_refreshed hq r₀
        rw [hrr] at hval
        rw [value?, hr₀, hval]
        rfl
      records := hrecords
      nodup := by
        have hn := hf.nodup
        rw [Replay.touched, List.map_append] at hn
        rw [addresses, hrecords]
        exact (List.nodup_append.mp hn).1
      joint := by
        rw [hp.frame, hm.frame]
        rfl
      added := by
        rw [hp.frame, hm.frame]
        rfl
      removed := by
        have hu : p.trace.removed = #[] := congrArg Trace.removed hm.frame
        rw [hp.removed]
        show p.trace.removed.toList ++ p.trace.arena.unreachedBelow p.trace.arena.slots.size = _
        rw [hu, hm.unreached ht]
        rfl
      dropped := by
        have hu : p.trace.dropped = 0.0 := congrArg Trace.dropped hm.frame
        rw [hp.dropped]
        show Record.sumOnto p.trace.dropped
          (p.trace.arena.unreachedBelow p.trace.arena.slots.size) = _
        -- what a refused record has become does not show in the sum: it keeps its density
        rw [hu, hm.unreached ht, Record.sumOnto, Record.sumOnto, List.foldl_map]
        refine List.foldl_ext _ _ _ fun sum r hr => ?_
        obtain ⟨⟨i, hi⟩, -⟩ := mem_unreused.mp hr
        exact congrArg (sum + ·) (h.logDensity_left hf hi)
      satisfied := by
        rw [hp.frame, hm.frame]
        rfl
      generator := by
        rw [hp.frame, hm.frame]
        rfl }

end Trace.WellFormed

/-- A completed pass over a well-formed trace agrees with its replay. -/
theorem Trace.WellFormed.agrees_update {t : Trace} (h : t.WellFormed) {fixed : Bool} {s : Session}
    {v : Value} (hv : (t.update fixed s).1 = .ok v) :
    (t.replayed s).1 = .ok v ∧ (t.update fixed s).2.2.quiet = (t.replayed s).2.session ∧
      Trace.Agrees t (t.replayed s).2 (t.update fixed s).2.1 ∧
      (t.update fixed s).2.1.returned = some v := by
  have hs : s.active = none := Trace.idle_of_ok hv
  obtain ⟨ha, hq, p, ht, hm, hclose⟩ := h.update_mirrors hs fixed
  have hr := ha.symm.trans hv
  have hu : (t.update fixed s).2.1 = p.trace.complete v := hclose (.ok v) hr
  rw [hu]
  refine ⟨hr, hq, h.agrees_complete ht (h.faithful_replayed s) hm v, ?_⟩
  rw [(Trace.pruned_complete ht.layout v).frame]
  rfl

/-- **A completed pass of a reachable trace agrees with its replay**, whether or not the structure
is fixed.  The records it removed are the stored ones that were not reused exactly when every
refused record came out as it was. -/
theorem Reachable.update_agrees {t : Trace} (h : Reachable t) {fixed : Bool} {s : Session}
    {v : Value} (hv : (t.update fixed s).1 = .ok v) :
    (t.replayed s).1 = .ok v ∧ (t.update fixed s).2.2.quiet = (t.replayed s).2.session ∧
      Trace.Agrees t (t.replayed s).2 (t.update fixed s).2.1 ∧
      (t.update fixed s).2.1.returned = some v ∧
      ((t.update fixed s).2.1.removed.toList = (t.unreused (t.replayed s).2).map Record.unmarked ↔
        ∀ r ∈ (t.replayed s).2.refused, t.record? r.address = some r) := by
  obtain ⟨hr, hq, ha, hret⟩ := h.wellFormed.agrees_update hv
  rw [ha.removed]
  exact ⟨hr, hq, ha, hret, h.wellFormed.map_left_iff (h.wellFormed.faithful_replayed s)⟩

/-! ### A record that is removed otherwise than it was stored -/

theorem update_agrees_tolerantFlip :
    ((observedOnce tolerantFlip).update false overOne).1 = .ok (.bool false) ∧
      Trace.Agrees (observedOnce tolerantFlip) ((observedOnce tolerantFlip).replayed overOne).2
        ((observedOnce tolerantFlip).update false overOne).2.1 := by
  have hv : ((observedOnce tolerantFlip).update false overOne).1 = .ok (.bool false) := by
    decide +kernel
  obtain ⟨-, -, ha, -⟩ := Reachable.update_agrees reachable_tolerantFlip hv
  exact ⟨hv, ha⟩

/-- Makes a choice that is true at first, and observes a flip that has no probability when it is
not; when that fails, it does without the flip. -/
def sparingFlip : Program :=
  (do
    let x ← Computation.structural .flip [1.0]
    try Computation.observe .flip [if x = Value.bool true then 1.0 else 2.0] (.bool true)
    catch _ => pure x).program

/-- **The pass is completed and reuses the first record alone, and it removes the second one with
the parameter that could not be scored**, which no pass before it has stored. -/
theorem removed_ne_unreused :
    Reachable (turnedOver sparingFlip) ∧
      ((turnedOver sparingFlip).update false {}).1 = .ok (.bool false) ∧
      (turnedOver sparingFlip).records.map (·.params) = [[1.0], [1.0]] ∧
      ((turnedOver sparingFlip).update false {}).2.1.addresses = [.atSite "" 0] ∧
      ((turnedOver sparingFlip).update false {}).2.1.removed.toList.map
        (fun r => (r.address, r.params)) = [(.atSite "" 1, [2.0])] ∧
      ((turnedOver sparingFlip).update false {}).2.1.removed.toList ≠
        ((turnedOver sparingFlip).unreused ((turnedOver sparingFlip).replayed {}).2).map
          Record.unmarked := by
  have hv : ((Trace.unstarted 0 sparingFlip {} (.ofSeed 0)).update false {}).1 =
      .ok (.bool true) := by
    decide +kernel
  refine ⟨reachable_turnedOver hv, ?_, ?_, ?_, ?_, ?_⟩ <;> decide +kernel

end ProbTrace
