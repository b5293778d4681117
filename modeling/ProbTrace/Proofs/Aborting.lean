import ProbTrace.Proofs.Moving
import ProbTrace.Proofs.Scores

/-!
# Proofs — Aborting: what a pass that fails leaves behind

A pass may fail at any point: before it has reached anything, with half of the old order forgotten,
with slots reused and addresses taken over.  `Trace.Aborted` says what the trace is then, in terms
of the records stored before and of what a naive reader has written down up to the failure
(`Replay`).  Nothing is lost but the records whose address a created one took over; what was not
reached is as it was; and the sums and the listing are those of what is stored.

The records that the pass made are as it made them, and a record that it could not rescore is as
that choice left it, under parameters that have no density (`Aborted.refused`).

`LastReturned` follows a history for the value of its last completed pass, which is the one thing
that a failed pass leaves alone altogether.
-/

namespace ProbTrace

/-! ### The value of the last completed pass -/

/-- Some history leads to the trace, and this is what the last completed pass of it returned. -/
inductive LastReturned : Trace → Option Value → Prop where
  | unstarted (id : Nat) (program : Program) (limits : Limits) (generator : Generator) :
      LastReturned (.unstarted id program limits generator) none
  | completed {t : Trace} {w : Option Value} {v : Value} (fixed : Bool) (s : Session)
      (h : LastReturned t w) (hv : (t.update fixed s).1 = .ok v) :
      LastReturned (t.update fixed s).2.1 (some v)
  | failed {t : Trace} {w : Option Value} {e : Error} (fixed : Bool) (s : Session)
      (h : LastReturned t w) (he : (t.update fixed s).1 = .error (.error e)) :
      LastReturned (t.update fixed s).2.1 w
  | setValue {t u : Trace} {w : Option Value} {x : Address} {v : Value} (h : LastReturned t w)
      (hu : t.setValue x v = .ok u) : LastReturned u w
  | reset {t : Trace} {w : Option Value} (h : LastReturned t w) : LastReturned t.reset w
  | copyAs {t : Trace} {w : Option Value} (id : Nat) (h : LastReturned t w) :
      LastReturned (t.copyAs id) w
  /-- The last pass of a candidate is the one that ran over the moved copy of its source. -/
  | candidate {t c : Trace} {w : Option Value} {x : Address} {fixed fixed' : Bool}
      {s s' : Session} {proposal : Proposal} {r : Record} {m : Proposal.Move} {v : Value}
      (h : LastReturned t w) (hc : (t.propose x fixed s).1 = .ok proposal)
      (hp : t.Proposed x proposal r m c) (hv : (c.update fixed' s').1 = .ok v)
      (hu : proposal.trace = (c.update fixed' s').2.1) : LastReturned proposal.trace (some v)
  | source {t : Trace} {w : Option Value} (x : Address) (fixed : Bool) (s : Session)
      (h : LastReturned t w) : LastReturned (t.propose x fixed s).2.1 w
  | advance {t : Trace} {w : Option Value} (h : LastReturned t w) : LastReturned t.advance.2 w
  | addFactor {t : Trace} {w : Option Value} (weight : Float) (h : LastReturned t w) :
      LastReturned (t.addFactor weight) w
  | demand {t : Trace} {w : Option Value} (b : Bool) (h : LastReturned t w) :
      LastReturned (t.demand b) w

/-- Whatever the history, its last completed pass returned something or there was none. -/
theorem ReachableIn.exists_lastReturned {P : Trace → Session → Prop} {t : Trace}
    (h : ReachableIn P t) : ∃ w, LastReturned t w := by
  induction h with
  | unstarted id program limits generator => exact ⟨_, .unstarted id program limits generator⟩
  | update fixed s _ _ ha ih =>
      obtain ⟨w, hw⟩ := ih
      obtain ⟨v | e, ha⟩ := ha
      · exact ⟨_, hw.failed fixed s ha⟩
      · exact ⟨_, hw.completed fixed s ha⟩
  | setValue _ hu ih => exact ih.imp fun _ hw => hw.setValue hu
  | reset _ ih => exact ih.imp fun _ hw => hw.reset
  | copyAs id _ ih => exact ih.imp fun _ hw => hw.copyAs id
  | candidate h hc ih =>
      obtain ⟨w, hw⟩ := ih
      obtain ⟨r, m, c, hp⟩ := h.wellFormed.exists_proposed hc
      obtain ⟨fixed, s, v, hv, hu⟩ := hp.completed
      exact ⟨_, hw.candidate hc hp hv hu⟩
  | source x fixed s _ ih => exact ih.imp fun _ hw => hw.source x fixed s
  | advance _ ih => exact ih.imp fun _ hw => hw.advance
  | addFactor w _ ih => exact ih.imp fun _ hw => hw.addFactor w
  | demand b _ ih => exact ih.imp fun _ hw => hw.demand b

namespace Trace

variable {t u : Trace} {p : Pass} {ρ : Replay} {i : Nat} {r : Record} {x : Address}

/-- The stored records whose address a created one took over, in the order of their slots. -/
def displaced (t : Trace) (ρ : Replay) : List Record :=
  (t.arena.occupants.map (·.2)).filter fun r => ρ.created.any fun s => s.address == r.address

/-- What the trace `u`, left by a pass over the trace `t` that failed, has to do with the replay
of that pass. -/
structure Aborted (t : Trace) (ρ : Replay) (u : Trace) : Prop where
  wellFormed : u.WellFormed
  satisfied  : u.satisfied = false
  /-- Nothing is lost, and only what was created is new. -/
  stored     : ∀ x, (u.record? x).isSome ↔ (t.record? x).isSome ∨ ∃ r ∈ ρ.created, r.address = x
  /-- Where no choice was made, or refused for a stored record, everything is as it was. -/
  unreached  : ∀ x ∉ ρ.touched, u.record? x = t.record? x
  made       : ∀ r ∈ ρ.records, u.record? r.address = some r
  refused    : ∀ r ∈ ρ.refused, u.record? r.address = some r
  /-- The records are listed in the order of their slots. -/
  records    : u.records = u.arena.occupants.map (·.2)
  nodup      : u.addresses.Nodup
  active     : ∀ r ∈ u.records, r.active = true
  joint      : u.joint = Record.sumOnto 0.0 u.records
  removed    : u.removed.toList = (t.displaced ρ).map Record.unmarked
  dropped    : u.dropped = Record.sumOnto 0.0 (t.displaced ρ)
  returned   : u.returned = t.returned
  /-- A failed pass is a pass of the same program, and what was drawn in it is drawn. -/
  program    : u.program = t.program
  limits     : u.limits = t.limits
  generator  : u.generator = ρ.generator

/-! ### Abandoning, slot by slot -/

/-- What is left after abandoning are the records that their address stood for. -/
theorem record?_abandon (h : t.arena.Sound) (i : Nat) : t.abandon.arena.record? i =
    ((t.arena.record? i).filter (t.arena.owns i)).map fun r => { r with active := true } := by
  refine Option.ext fun r => ?_
  rw [record?_abandon_eq_some_iff h]
  simp only [Option.map_eq_some_iff, Option.filter_eq_some_iff, and_assoc, Arena.owns_iff]

theorem occupants_abandon (h : t.arena.Sound) : t.abandon.arena.occupants =
    (t.arena.ownersBelow t.arena.slots.size).map fun w => (w.1, { w.2 with active := true }) := by
  have ho := Arena.filter_occupants (a := t.abandon.arena) (b := t.arena)
    (p := fun _ _ => true) (q := t.arena.owns) (f := fun r => { r with active := true })
    fun i => by
      rw [← record?_abandon h]
      cases t.abandon.arena.record? i <;> rfl
  rwa [List.filter_true] at ho

/-- What abandoning does not change. -/
theorem frame_abandon (h : t.arena.Sound) : t.abandon = { t with
    satisfied := false, arena := t.abandon.arena, order := t.abandon.order,
    cursor := t.abandon.cursor, joint := t.abandon.joint, dropped := t.abandon.dropped,
    removed := t.abandon.removed } := by
  obtain ⟨v, hv, he⟩ := salvaged_abandon h
  rw [he, hv.frame]
  rfl

/-- The listing and the joint log-probability of an abandoned trace are those of its slots. -/
theorem records_abandon (h : t.arena.Sound) :
    t.abandon.records = t.abandon.arena.occupants.map (·.2) ∧
      t.abandon.joint = Record.sumOnto 0.0 t.abandon.records := by
  obtain ⟨v, hv, he⟩ := salvaged_abandon h
  have hocc := occupants_abandon h
  have horder : t.abandon.order.toList = t.abandon.arena.occupants.map (·.1) := by
    rw [hocc, List.map_map, he]
    exact hv.order
  have hrecords : t.abandon.records = t.abandon.arena.occupants.map (·.2) := by
    rw [records, horder, Arena.filterMap_occupants]
  refine ⟨hrecords, ?_⟩
  rw [hrecords, hocc, List.map_map, Record.sumOnto, List.foldl_map]
  refine (congrArg Trace.joint he).trans (hv.joint.trans ?_)
  exact List.foldl_map

end Trace

namespace Replay

variable {ρ : Replay} {r s : Record}

/-- A choice creates its record or reuses one. -/
theorem perm_created_reused (ρ : Replay) : (ρ.created ++ ρ.reused).Perm ρ.records := by
  rw [created, reused, records]
  induction ρ.entries with
  | nil => exact .refl _
  | cons e es ih =>
      cases e with
      | factor w => exact ih
      | made q r created =>
          cases created with
          | true => exact ih.cons r
          | false => exact List.perm_middle.trans (ih.cons r)

theorem exists_request_of_reused (hr : r ∈ ρ.reused) :
    ∃ q, Entry.made q r false ∈ ρ.entries := by
  obtain ⟨e, he, her⟩ := List.mem_filterMap.mp hr
  rcases e with ⟨q, r', _ | _⟩ | w
  · cases her
    exact ⟨q, he⟩
  · cases her
  · cases her

/-- Choices are made at distinct addresses, so none reuses a record where another one creates. -/
theorem reuses_eq_false (h : ρ.touched.Nodup) (hs : s ∈ ρ.created) (hx : s.address = r.address) :
    ρ.reuses r = false := by
  rw [touched, List.map_append] at h
  have hn := ((ρ.perm_created_reused.map (·.address)).nodup_iff).mpr (List.nodup_append.mp h).1
  rw [List.map_append] at hn
  rw [Bool.eq_false_iff]
  intro hr
  obtain ⟨u, hu, hux⟩ := (reuses_iff ρ r).mp hr
  exact (List.nodup_append.mp hn).2.2 _ (List.mem_map_of_mem hs) _ (List.mem_map_of_mem hu)
    (hx.trans hux.symm)

/-- Where a record is created, none is refused. -/
theorem left_of_created (h : ρ.touched.Nodup) (hs : s ∈ ρ.created) (hx : s.address = r.address) :
    ρ.left r = r :=
  left_of_not_refused ρ r fun _ hu he =>
    address_ne_of_refused h (created_subset ρ hs) hu (hx.trans he.symm)

namespace Mirrors

variable {t : Trace} {p : Pass} {i : Nat}

/-- The record of a choice is stored and marked, and its address stands for it. -/
theorem exists_marked (h : Mirrors t p ρ) (ht : p.Trimmed) (hr : r ∈ ρ.records) :
    ∃ i, p.trace.arena.record? i = some r ∧ r.active = true ∧
      p.trace.arena.Owned i r.address := by
  have hm : some r ∈ p.trace.order.toList.map p.trace.arena.record? := by
    rw [h.visited]
    exact List.mem_map_of_mem hr
  obtain ⟨i, hi, hri⟩ := List.mem_map.mp hm
  obtain ⟨r', hr', ha⟩ := (ht.mem_order i).mp hi
  cases hri.symm.trans hr'
  refine ⟨i, hri, ha, (ht.layout.owned hri).resolve_right fun hn => ?_⟩
  rw [ha] at hn
  cases hn.1

/-- The address of an unmarked record stands for it unless a created record took it over. -/
theorem owned_iff_of_unmarked (h : Mirrors t p ρ) (hw : t.WellFormed) (ht : p.Trimmed)
    (hi : p.trace.arena.record? i = some r) (ha : r.active = false) :
    p.trace.arena.Owned i r.address ↔ ∀ s ∈ ρ.created, s.address ≠ r.address := by
  constructor
  · intro ho s hs hx
    obtain ⟨j, hj, hja, hjo⟩ := h.exists_marked ht (created_subset ρ hs)
    have hij : i = j := ho.unique (hx ▸ hjo)
    subst hij
    cases hi.symm.trans hj
    rw [ha] at hja
    cases hja
  · intro hn
    obtain ⟨r₀, hr₀, hx⟩ := h.stored hi ha
    have ho : t.arena.Owned i r.address := hx ▸ hw.owned hr₀
    exact (h.index _ hn).trans ho

/-- What is not owned in the pass are the stored records whose address was taken over. -/
theorem displaced_slot (h : Mirrors t p ρ) (hw : t.WellFormed) (ht : p.Trimmed)
    (hf : ρ.Faithful t.record?) (i : Nat) :
    (p.trace.arena.record? i).filter (fun r => !p.trace.arena.owns i r) =
      ((t.arena.record? i).filter fun r => ρ.created.any fun s => s.address == r.address).map
        Record.unmarked := by
  -- a record that is not owned is unmarked, and its address was taken over
  have howned : ∀ {r}, p.trace.arena.record? i = some r → p.trace.arena.owns i r = false →
      r.active = false ∧ ∃ s ∈ ρ.created, s.address = r.address := fun {r} hr ho => by
    have hno : ¬ p.trace.arena.Owned i r.address := fun hi => by
      rw [Arena.owns_iff.mpr hi] at ho
      cases ho
    obtain ⟨ha, -⟩ := (ht.layout.owned hr).resolve_left hno
    rw [h.owned_iff_of_unmarked hw ht hr ha] at hno
    push Not at hno
    exact ⟨ha, hno⟩
  refine Option.ext fun r => ?_
  rw [Option.filter_eq_some_iff, Option.map_eq_some_iff]
  constructor
  · rintro ⟨hr, ho⟩
    obtain ⟨ha, s, hs, hx⟩ := howned hr (by simpa using ho)
    obtain ⟨r₀, hr₀, rfl⟩ := h.eq_left ht hr ha
    have hx₀ : s.address = r₀.address := by
      obtain ⟨r₁, hr₁, hx₁⟩ := h.stored hr ha
      cases hr₀.symm.trans hr₁
      exact hx.trans hx₁.symm
    rw [left_of_created hf.nodup hs hx₀]
    refine ⟨r₀, Option.filter_eq_some_iff.mpr ⟨hr₀, ?_⟩, rfl⟩
    exact List.any_eq_true.mpr ⟨s, hs, by simpa using hx₀⟩
  · rintro ⟨r₀, hr₀, rfl⟩
    obtain ⟨hr₀, hc⟩ := Option.filter_eq_some_iff.mp hr₀
    obtain ⟨s, hs, hx⟩ := List.any_eq_true.mp hc
    have hx : s.address = r₀.address := by simpa using hx
    have hp := h.left hr₀ (reuses_eq_false hf.nodup hs hx)
    rw [left_of_created hf.nodup hs hx] at hp
    refine ⟨hp, ?_⟩
    rw [Bool.not_eq_true', Bool.eq_false_iff]
    intro ho
    have hn := (h.owned_iff_of_unmarked hw ht hp rfl).mp (Arena.owns_iff.mp ho)
    exact hn s hs hx

end Mirrors

end Replay

namespace Trace.WellFormed

variable {t : Trace} {p : Pass} {ρ : Replay} {r : Record} {x : Address}

/-- A record of a choice is kept by a pass that fails. -/
theorem record?_abandon_of_made (ht : p.Trimmed) (hm : Replay.Mirrors t p ρ)
    (hr : r ∈ ρ.records) : p.trace.abandon.record? r.address = some r := by
  obtain ⟨i, hi, ha, ho⟩ := hm.exists_marked ht hr
  refine (wellFormed_abandon ht.layout).record?_address (i := i) ?_
  exact (record?_abandon_eq_some_iff ht.layout.arena).mpr ⟨r, hi, ho, by rw [← ha]⟩

/-- Where nothing was written down, the trace stores what it stored before. -/
theorem record?_abandon_of_untouched (h : t.WellFormed) (ht : p.Trimmed)
    (hm : Replay.Mirrors t p ρ) (hx : x ∉ ρ.touched) : p.trace.abandon.record? x = t.record? x := by
  have hu := wellFormed_abandon ht.layout
  have hmade : ∀ {s : Record}, s.address = x → s ∉ ρ.records := fun hs hm =>
    hx (List.mem_map.mpr ⟨_, List.mem_append_left _ hm, hs⟩)
  refine Option.ext fun r => ⟨fun hr => ?_, fun hr => ?_⟩
  · obtain ⟨i, ho, hi⟩ := Option.bind_eq_some_iff.mp hr
    obtain ⟨s, hs, -, rfl⟩ := (record?_abandon_eq_some_iff ht.layout.arena).mp hi
    have hsx := hu.address_record? hr
    have ha : s.active = false := Bool.eq_false_iff.mpr fun ha =>
      hmade (s := s) hsx (hm.mem_records ht hs ha)
    obtain ⟨r₀, hr₀, rfl⟩ := hm.eq_left ht hs ha
    have hrx : r₀.address = x := by
      obtain ⟨r₁, hr₁, hx₁⟩ := hm.stored hs ha
      cases hr₀.symm.trans hr₁
      exact hx₁.trans hsx
    rw [(Replay.Mirrors.untouched (r := r₀) (hrx ▸ hx)).2, Record.marked_unmarked (h.active hr₀),
      ← hrx]
    exact h.record?_address hr₀
  · have hrx := h.address_record? hr
    obtain ⟨i, -, hi⟩ := Option.bind_eq_some_iff.mp hr
    obtain ⟨hno, hl⟩ := Replay.Mirrors.untouched (r := r) (hrx ▸ hx)
    have hp := hm.left hi hno
    rw [hl] at hp
    have ho := (hm.owned_iff_of_unmarked h ht hp rfl).mpr fun s hs hsx =>
      hmade (hsx.trans hrx) (Replay.created_subset ρ hs)
    rw [← hrx]
    exact hu.record?_address ((record?_abandon_eq_some_iff ht.layout.arena).mpr
      ⟨_, hp, ho, Record.marked_unmarked (h.active hi)⟩)

/-- A record that the pass refused to rescore is kept as the refusal left it. -/
theorem record?_abandon_of_refused (h : t.WellFormed) (ht : p.Trimmed) (hf : ρ.Faithful t.record?)
    (hm : Replay.Mirrors t p ρ) (hr : r ∈ ρ.refused) :
    p.trace.abandon.record? r.address = some r := by
  obtain ⟨i, hi⟩ := hm.record?_abandon_of_refused h ht hf hr
  exact (wellFormed_abandon ht.layout).record?_address hi

/-- The addresses stored are those stored before and those of the records created. -/
theorem isSome_abandon_iff (h : t.WellFormed) (ht : p.Trimmed) (hf : ρ.Faithful t.record?)
    (hm : Replay.Mirrors t p ρ) (x : Address) : (p.trace.abandon.record? x).isSome ↔
      (t.record? x).isSome ∨ ∃ r ∈ ρ.created, r.address = x := by
  by_cases hx : x ∈ ρ.touched
  · obtain ⟨r, hr, rfl⟩ := List.mem_map.mp hx
    rcases List.mem_append.mp hr with hr | hr
    · -- a choice was made: it created its record, or there was one to reuse
      refine iff_of_true (by rw [record?_abandon_of_made ht hm hr]; rfl) ?_
      rcases List.mem_append.mp (ρ.perm_created_reused.mem_iff.mpr hr) with hr | hr
      · exact .inr ⟨r, hr, rfl⟩
      · obtain ⟨q, hes⟩ := Replay.exists_request_of_reused hr
        obtain ⟨r₀, hr₀, -⟩ := hf.reused hes
        exact .inl (by rw [hr₀]; rfl)
    · refine iff_of_true (by rw [h.record?_abandon_of_refused ht hf hm hr]; rfl) ?_
      obtain ⟨r₀, q, e, hr₀, -⟩ := hf.refused r hr
      exact .inl (by rw [hr₀]; rfl)
  · rw [h.record?_abandon_of_untouched ht hm hx, iff_self_or]
    rintro ⟨r, hr, rfl⟩
    have hmade := Replay.created_subset ρ hr
    exact absurd (List.mem_map_of_mem (List.mem_append_left _ hmade)) hx

/-- The trace that a failed pass abandons is as the replay says that the pass mirrors. -/
theorem aborted_abandon (h : t.WellFormed) (ht : p.Trimmed) (hf : ρ.Faithful t.record?)
    (hm : Replay.Mirrors t p ρ) : Aborted t ρ p.trace.abandon := by
  have ha := ht.layout.arena
  have hu := wellFormed_abandon ht.layout
  obtain ⟨hrecords, hjoint⟩ := records_abandon ha
  obtain ⟨v, hv, he⟩ := salvaged_abandon ha
  have hframe := frame_abandon ha
  have hdisplaced : p.trace.arena.displacedBelow p.trace.arena.slots.size =
      (t.displaced ρ).map Record.unmarked :=
    Arena.map_filter_occupants (p := fun i r => !p.trace.arena.owns i r)
      (hm.displaced_slot h ht hf)
  exact
    { wellFormed := hu
      satisfied := congrArg Trace.satisfied hframe
      stored := fun x => h.isSome_abandon_iff ht hf hm x
      unreached := fun x hx => h.record?_abandon_of_untouched ht hm hx
      made := fun r hr => record?_abandon_of_made ht hm hr
      refused := fun r hr => h.record?_abandon_of_refused ht hf hm hr
      records := hrecords
      nodup := hu.nodup_addresses
      active := fun r hr => by
        obtain ⟨i, hi⟩ := hu.mem_records.mp hr
        exact hu.active hi
      joint := hjoint
      removed := by
        have hr : p.trace.removed = #[] := congrArg Trace.removed hm.frame
        rw [he]
        refine hv.removed.trans ?_
        show p.trace.removed.toList ++ p.trace.arena.displacedBelow p.trace.arena.slots.size = _
        rw [hr, hdisplaced]
        rfl
      dropped := by
        have hd : p.trace.dropped = 0.0 := congrArg Trace.dropped hm.frame
        rw [he]
        refine hv.dropped.trans ?_
        show Record.sumOnto p.trace.dropped
          (p.trace.arena.displacedBelow p.trace.arena.slots.size) = _
        rw [hd, hdisplaced, Record.sumOnto, List.foldl_map]
        rfl
      returned := by
        rw [hframe, hm.frame]
      program := by
        rw [hframe, hm.frame]
      limits := by
        rw [hframe, hm.frame]
      generator := by
        rw [hframe, hm.frame] }

/-- A pass whose program fails gives the error of the program. -/
theorem replayed_of_run (h : t.WellFormed) {fixed : Bool} {s : Session} {e : Error}
    (hs : s.active = none) (he : (t.program.run (t.opening fixed s)).1 = .error (.error e)) :
    (t.update fixed s).1 = .error (.error e) ∧ (t.replayed s).1 = .error (.error e) := by
  have hu : (t.update fixed s).1 = .error (.error e) := by
    rw [update_of_idle hs]
    exact (fst_conclude _ _).trans he
  exact ⟨hu, (h.update_mirrors hs fixed).1.symm.trans hu⟩

/-- A pass that fails leaves an aborted trace. -/
theorem aborted_update (h : t.WellFormed) (fixed : Bool) {s : Session} {e : Error}
    (hs : s.active = none) (he : (t.replayed s).1 = .error (.error e)) :
    Aborted t (t.replayed s).2 (t.update fixed s).2.1 := by
  obtain ⟨-, -, p, ht, hm, hclose⟩ := h.update_mirrors hs fixed
  rw [hclose (.error e) he]
  exact h.aborted_abandon ht (h.faithful_replayed s) hm

/-- Neither does a refused pass change what was returned. -/
theorem returned_update_of_error (h : t.WellFormed) {fixed : Bool} {s : Session} {e : Error}
    (he : (t.update fixed s).1 = .error (.error e)) :
    (t.update fixed s).2.1.returned = t.returned := by
  cases hs : s.active with
  | some id => rw [update_of_busy (by rw [hs]; rfl)]
  | none => exact (h.aborted_update fixed hs ((h.update_mirrors hs fixed).1.symm.trans he)).returned

end Trace.WellFormed

/-! ### Histories -/

namespace LastReturned

variable {t : Trace} {w w' : Option Value}

theorem reachable (h : LastReturned t w) : Reachable t := by
  induction h with
  | unstarted id program limits generator => exact .unstarted id program limits generator
  | completed fixed s _ hv ih => exact ih.update fixed s trivial ⟨.ok _, hv⟩
  | failed fixed s _ he ih => exact ih.update fixed s trivial ⟨.error _, he⟩
  | setValue _ hu ih => exact ih.setValue hu
  | reset _ ih => exact ih.reset
  | copyAs id _ ih => exact ih.copyAs id
  | candidate _ hc _ _ _ ih => exact ih.candidate hc
  | source x fixed s _ ih => exact ih.source x fixed s
  | advance _ ih => exact ih.advance
  | addFactor w _ ih => exact ih.addFactor w
  | demand b _ ih => exact ih.demand b

/-- **The trace keeps the value that the last completed pass returned**, whatever came after. -/
theorem returned_eq (h : LastReturned t w) : t.returned = w := by
  induction h with
  | unstarted => rfl
  | completed fixed s h hv _ => exact (h.reachable.wellFormed.agrees_update hv).2.2.2
  | failed fixed s h he ih => exact (h.reachable.wellFormed.returned_update_of_error he).trans ih
  | setValue _ hu ih =>
      obtain ⟨i, r, r', -, -, -, rfl⟩ := Trace.setValue_eq_ok hu
      exact ih
  | reset _ ih => exact ih
  | copyAs _ _ ih => exact ih
  | candidate _ _ hp hv hu _ =>
      rw [hu]
      exact (hp.moved.wellFormed.agrees_update hv).2.2.2
  | @source t w x fixed s _ ih =>
      obtain ⟨generator, hg⟩ := t.propose_source x fixed s
      rw [hg]
      exact ih
  | @advance t w _ ih =>
      exact Trace.advance_keeps (I := fun t => t.returned = w) (fun h _ _ => h) ih
  | addFactor _ _ ih => exact ih
  | demand _ _ ih => exact ih

end LastReturned

/-- What the trace has returned is what the last completed pass of its history returned. -/
theorem ReachableIn.lastReturned_iff {P : Trace → Session → Prop} {t : Trace}
    (h : ReachableIn P t) (w : Option Value) : LastReturned t w ↔ t.returned = w := by
  refine ⟨LastReturned.returned_eq, ?_⟩
  rintro rfl
  obtain ⟨w, hw⟩ := h.exists_lastReturned
  exact hw.returned_eq ▸ hw

/-- **A pass over a reachable trace whose program fails** gives the error of the program, whether or
not the structure is fixed, and leaves a trace that has lost nothing but the records whose address
a created one took over, and that keeps what its last completed pass returned. -/
theorem Reachable.update_aborts {t : Trace} (h : Reachable t) (fixed : Bool) {s : Session}
    {e : Error} (hs : s.active = none)
    (he : (t.program.run (t.opening fixed s)).1 = .error (.error e)) :
    (t.update fixed s).1 = .error (.error e) ∧
      Trace.Aborted t (t.replayed s).2 (t.update fixed s).2.1 ∧
      ∀ w, LastReturned t w ↔ (t.update fixed s).2.1.returned = w := by
  obtain ⟨hu, hr⟩ := h.wellFormed.replayed_of_run hs he
  have ha := h.wellFormed.aborted_update fixed hs hr
  refine ⟨hu, ha, fun w => ?_⟩
  rw [ha.returned]
  exact h.lastReturned_iff w

/-! ### A pass that fails after it took an address over -/

/-- Observes a flip; once the cell is set, it observes a structural one in its place and fails. -/
def usurper : Program :=
  (do
    match ← Computation.read "p" with
    | none   => Computation.observe .flip [1.0] (.bool true)
    | some _ =>
      let _ ← Computation.choice
        { family := .flip, params := [1.0], structural := true, observed := some (.bool true) }
      throw (.failure "usurped") : Computation Value).program

/-- The new record is kept, and the old one is removed. -/
theorem update_aborts_usurper :
    ((observedOnce usurper).update true overOne).1 = .error (.error (.failure "usurped")) ∧
      Trace.Aborted (observedOnce usurper) ((observedOnce usurper).replayed overOne).2
        ((observedOnce usurper).update true overOne).2.1 ∧
      ((observedOnce usurper).update true overOne).2.1.records.map (·.structural) = [true] ∧
      ((observedOnce usurper).update true overOne).2.1.removed.toList.map (·.structural) =
        [false] ∧
      ((observedOnce usurper).update true overOne).2.1.returned = some (.bool true) := by
  have hr : Reachable (observedOnce usurper) :=
    reachable_observedOnce (v := .bool true) (by decide +kernel)
  obtain ⟨hu, ha, -⟩ := Reachable.update_aborts hr true (s := overOne)
    (e := .failure "usurped") rfl (by decide +kernel)
  exact ⟨hu, ha, by decide +kernel, by decide +kernel, by decide +kernel⟩

end ProbTrace
