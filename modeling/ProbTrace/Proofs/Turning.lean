import ProbTrace.Proofs.Moving
import ProbTrace.Proofs.Retracing
import ProbTrace.Proofs.Worlds

/-!
# Proofs — Turning: the odometer of a trace that holds a world

A trace holds a world if its records, in the order of the visits, serve the choices of the world
(`Record.Embodies`).  Then its wheels are the free choices of the world, and the odometer turns them
from the last one on.  A wheel at the end of its domain goes back to the beginning and carries
(`Record.turn_eq`), so a run of choices that are all at the end is wound back as a whole
(`Trace.Lists.advanceSlots`).

Where the world has a successor the odometer stops at the choice that moves on, and what is then
stored supplies the choices of the successor, one by one: those before have their records, the one
that moves on has its next value, and those after it begin (`WellFormed.advance_of_next`).  In the
last world every wheel is wound back, and the odometer has come round
(`WellFormed.advance_of_last`).
-/

namespace ProbTrace

/-! ### Turning one wheel -/

theorem Domain.family_of_support {f : Family} {d : Domain} (h : f.support = .enumerable d) :
    d.family = f := by
  cases f <;> cases h <;> rfl

theorem Family.isEnumerable_iff {f : Family} :
    f.isEnumerable = true ↔ ∃ d, f.support = .enumerable d := by
  rw [isEnumerable]
  cases f.support with
  | enumerable d => exact iff_of_true rfl ⟨d, rfl⟩
  | continuous | discrete => exact iff_of_false Bool.false_ne_true (fun ⟨_, h⟩ => by cases h)

theorem Family.support_of_loose {f : Family} (hf : f.isEnumerable = false) (d : Domain) :
    f.support ≠ .enumerable d := fun hd => by
  rw [isEnumerable_iff.mpr ⟨d, hd⟩] at hf
  cases hf

/-- The values of a domain are of the kind that its family asks for. -/
theorem Domain.checkValue_element (d : Domain) (i : Nat) :
    d.family.checkValue (d.element i) = .ok () := by
  cases d <;> rfl

namespace Record

variable {r m : Record} {d : Domain} {n i : Nat}

theorem Scored.check (h : r.Scored) :
    r.family.checkValue r.value = .ok () ∧ r.family.check r.params = .ok () :=
  Family.check_of_logDensity _ h

/-- **A wheel goes to its next position**, or back to the first one with a carry. -/
theorem turn_eq (hc : r.family.check r.params = .ok ()) (hd : r.family.support = .enumerable d)
    (hn : d.Sized r.params n) (hi : i < n) (hv : r.value = d.element i) :
    ∃ m, r.RevaluedTo m ∧ m.value = d.element (if i + 1 < n then i + 1 else 0) ∧
      r.turn d = .ok (m, decide (n ≤ i + 1)) := by
  have hscore : ∀ j, ∃ m, r.rescored (d.element j) = .ok m := fun j => by
    obtain ⟨lp, hlp⟩ := Family.exists_logDensity r.params
      (Domain.family_of_support hd ▸ d.checkValue_element j) hc
    exact ⟨_, rescored_eq_ok_iff.mpr ⟨lp, hlp, rfl⟩⟩
  obtain ⟨m, hm⟩ := hscore (if i + 1 < n then i + 1 else 0)
  have hval : m.value = d.element (if i + 1 < n then i + 1 else 0) := by
    obtain ⟨lp, -, rfl⟩ := rescored_eq_ok_iff.mp hm
    rfl
  refine ⟨m, revaluedTo_of_rescored hm, hval, ?_⟩
  rw [turn, hv, hn.next_eq hi]
  by_cases hlast : i + 1 < n
  · rw [if_pos hlast] at hm ⊢
    simp only [bind, Except.bind, pure, Except.pure, hm, decide_eq_false (Nat.not_le.mpr hlast)]
    rfl
  · rw [if_neg hlast] at hm ⊢
    simp only [bind, Except.bind, pure, Except.pure, hn.first_eq, hm,
      decide_eq_true (Nat.not_lt.mp hlast)]
    rfl

end Record

/-! ### Records that serve the choices of a world -/

namespace Record

/-- The record can serve the choice and then has its value: if the choice is free the very value,
and if it is observed a value that one of the worlds observes there. -/
structure Serves (ws : List World) (r : Record) (k : Choice) : Prop where
  scored   : r.Scored
  free     : k.request.observed = none → r.value = k.value
  observed : k.request.observed.isSome = true →
    World.Observe ws k.address k.request.family k.request.structural r.value

/-- The record is that of the choice. -/
structure Embodies (ws : List World) (r : Record) (k : Choice) : Prop where
  address : r.address = k.address
  settles : r.Settles k.request
  serves  : r.Serves ws k

/-- The record was that of the choice, and its wheel is at the beginning. -/
structure Rewound (ws : List World) (r : Record) (k : Choice) : Prop where
  address     : r.address = k.address
  scored      : r.Scored
  conditioned : r.conditioned = k.request.observed.isSome
  free        : k.request.observed = none →
    ∃ d, r.family.support = .enumerable d ∧ r.value = d.element 0
  observed    : k.request.observed.isSome = true →
    World.Observe ws r.address r.family r.structural r.value

variable {ws : List World} {r m : Record} {k k' : Choice} {d : Domain} {n i : Nat}

namespace Embodies

theorem conditioned_eq (h : r.Embodies ws k) : r.conditioned = k.request.observed.isSome :=
  h.settles.conditioned_eq

theorem family_eq (h : r.Embodies ws k) : r.family = k.request.family :=
  family_of_fits h.settles.1

theorem support_eq (h : r.Embodies ws k) (hw : k.Wheel d n i) :
    r.family.support = .enumerable d := h.family_eq ▸ hw.support

/-- The domain of the record is as large as that of the choice. -/
theorem sized (h : r.Embodies ws k) (hw : k.Wheel d n i) : d.Sized r.params n := by
  refine hw.sized.congr (LikeParams.symm h.settles.like_params) ?_
  rw [Domain.family_of_support (h.support_eq hw)]
  exact h.serves.scored.check.2

theorem value_eq (h : r.Embodies ws k) (hw : k.Wheel d n i) : r.value = d.element i :=
  (h.serves.free hw.free).trans hw.value

/-- The record of an observed choice stays as it is. -/
theorem rewound_of_observed (h : r.Embodies ws k) (ho : k.request.observed.isSome = true) :
    r.Rewound ws k where
  address := h.address
  scored := h.serves.scored
  conditioned := h.conditioned_eq
  free hn := by
    rw [hn] at ho
    cases ho
  observed _ := by
    rw [h.address, h.family_eq, (fits_iff.mp h.settles.1).2]
    exact h.serves.observed ho

/-- The wheel of a choice that moves on. -/
theorem turn_of_next (h : r.Embodies ws k) (hk : k.Next k') : ∃ d m,
    r.family.support = .enumerable d ∧ r.turn d = .ok (m, false) ∧ m.Embodies ws k' := by
  obtain ⟨hx, hq, d, n, i, hw, hw'⟩ := hk
  have hlt := hw'.lt
  obtain ⟨m, hm, hv, ht⟩ := turn_eq h.serves.scored.check.2 (h.support_eq hw) (h.sized hw) hw.lt
    (h.value_eq hw)
  rw [if_pos hlt] at hv
  rw [decide_eq_false (Nat.not_le.mpr hlt)] at ht
  have hfree : r.conditioned = false := by
    rw [h.conditioned_eq, hw.free]
    rfl
  refine ⟨d, m, h.support_eq hw, ht, ⟨?_, ?_, ?_⟩⟩
  · rw [hm.address, h.address, hx]
  · rw [hq]
    exact hm.settles h.settles hfree
  · refine ⟨?_, fun _ => hv.trans hw'.value.symm, fun ho => ?_⟩
    · rw [Scored, hm.family, hm.params]
      exact hm.scored
    · rw [hw'.free] at ho
      cases ho

/-- The wheel of a choice that is at the end. -/
theorem turn_of_last (h : r.Embodies ws k) (hk : k.Last) (ho : k.request.observed = none) :
    ∃ d m, r.family.support = .enumerable d ∧ r.turn d = .ok (m, true) ∧ m.Rewound ws k := by
  obtain ⟨d, i, hw⟩ := hk ho
  obtain ⟨m, hm, hv, ht⟩ := turn_eq h.serves.scored.check.2 (h.support_eq hw) (h.sized hw) hw.lt
    (h.value_eq hw)
  rw [if_neg (Nat.lt_irrefl _)] at hv
  rw [decide_eq_true (Nat.le_refl _)] at ht
  refine ⟨d, m, h.support_eq hw, ht, ?_⟩
  exact
    { address := hm.address.trans h.address
      scored := by
        rw [Scored, hm.family, hm.params]
        exact hm.scored
      conditioned := hm.conditioned.trans h.conditioned_eq
      free := fun _ => ⟨d, hm.family ▸ h.support_eq hw, hv⟩
      observed := fun hs => by
        rw [ho] at hs
        cases hs }

end Embodies

/-- A record that was wound back serves a choice that begins. -/
theorem Rewound.serves (h : r.Rewound ws k) (hx : k'.address = r.address) (hk : k'.First)
    (hfit : r.fits k'.request.family k'.request.structural = true)
    (ho : k'.request.observed.isSome = k.request.observed.isSome) : r.Serves ws k' where
  scored := h.scored
  free hn := by
    have hn' : k.request.observed = none := by simpa [hn] using ho.symm
    obtain ⟨d, hd, hv⟩ := h.free hn'
    obtain ⟨d', n, hw⟩ := hk hn
    have hsupp := hw.support
    rw [← family_of_fits hfit, hd] at hsupp
    cases hsupp
    exact hv.trans hw.value.symm
  observed hs := by
    obtain ⟨hfam, hstr⟩ := fits_iff.mp hfit
    rw [hx, ← hfam, ← hstr]
    exact h.observed (ho.symm.trans hs)

end Record

/-- What is stored supplies the choice: a record that fits serves it, and where there is none the
choice begins. -/
structure Choice.Supplied (ws : List World) (stored : Address → Option Record) (k : Choice) :
    Prop where
  ready : ∀ r, stored k.address = some r →
    r.fits k.request.family k.request.structural = true → r.Serves ws k
  fresh : (∀ r, stored k.address = some r →
    r.fits k.request.family k.request.structural = false) → k.First

/-! ### Slots and choices -/

namespace Trace

variable {t u : Trace} {P : Record → Choice → Prop} {ws : List World} {w w' : World}
  {is js : List Nat} {ks : List Choice} {i : Nat} {r m : Record} {k : Choice} {d : Domain}

/-- The slots hold, one by one, records of the choices. -/
def Lists (t : Trace) (P : Record → Choice → Prop) (is : List Nat) (ks : List Choice) : Prop :=
  List.Forall₂ (fun i k => ∃ r, t.arena.record? i = some r ∧ P r k) is ks

namespace Lists

theorem congr (h : t.Lists P is ks)
    (hu : ∀ i ∈ is, u.arena.record? i = t.arena.record? i) : u.Lists P is ks := by
  induction h with
  | nil => exact .nil
  | cons hr _ ih =>
      obtain ⟨r, hr, hp⟩ := hr
      exact .cons ⟨r, (hu _ (.head _)).trans hr, hp⟩ (ih fun i hi => hu i (.tail _ hi))

theorem of_mem (h : t.Lists P is ks) (hi : i ∈ is) (hr : t.arena.record? i = some r) :
    ∃ k ∈ ks, P r k := by
  induction h with
  | nil => cases hi
  | cons hk _ ih =>
      cases hi with
      | head =>
          obtain ⟨r', hr', hp⟩ := hk
          cases hr.symm.trans hr'
          exact ⟨_, .head _, hp⟩
      | tail _ hi =>
          obtain ⟨k, hk, hp⟩ := ih hi
          exact ⟨k, .tail _ hk, hp⟩

theorem exists_slot (h : t.Lists P is ks) (hk : k ∈ ks) :
    ∃ i ∈ is, ∃ r, t.arena.record? i = some r ∧ P r k := by
  induction h with
  | nil => cases hk
  | cons hr _ ih =>
      cases hk with
      | head => exact ⟨_, .head _, hr⟩
      | tail _ hk =>
          obtain ⟨i, hi, hr⟩ := ih hk
          exact ⟨i, .tail _ hi, hr⟩

/-- The slots of the choices before one choice, its own, and those after it. -/
theorem of_append_cons {pre post : List Choice} (h : t.Lists P is (pre ++ k :: post)) :
    ∃ js i js', is = js ++ i :: js' ∧ t.Lists P js pre ∧
      (∃ r, t.arena.record? i = some r ∧ P r k) ∧ t.Lists P js' post := by
  have hpre := List.forall₂_take_append _ _ _ h
  have hpost := List.forall₂_drop_append _ _ _ h
  have his := (List.take_append_drop pre.length is).symm
  generalize is.drop pre.length = rest at hpost his
  cases hpost with
  | @cons i _ js _ hr hpost => exact ⟨_, i, js, his, hpre, hr, hpost⟩

end Lists

/-- The records of a well-formed trace lie in the slots of its order. -/
theorem WellFormed.lists_order (h : t.WellFormed) (hr : List.Forall₂ P t.records ks) :
    t.Lists P t.order.toList ks := by
  have hocc : ∀ i ∈ t.order.toList, t.arena.Occupied i := fun i hi => (h.mem_order i).mp hi
  rw [records] at hr
  generalize t.order.toList = is at hr hocc
  induction is generalizing ks with
  | nil =>
      cases hr
      exact .nil
  | cons i is ih =>
      obtain ⟨r, hi⟩ := hocc i (.head _)
      rw [List.filterMap_cons_some hi] at hr
      cases hr with
      | cons hp hr => exact .cons ⟨r, hi, hp⟩ (ih hr fun j hj => hocc j (.tail _ hj))

/-- Whether the slot is that of a wheel that the odometer may turn. -/
def isWheel (t : Trace) (i : Nat) : Bool := (t.arena.record? i).any (isFree true true)

theorem isWheel_eq (hi : t.arena.record? i = some r) : t.isWheel i = !r.conditioned := by
  rw [isWheel, hi, Option.any_some, isFree]
  cases r.structural <;> cases r.conditioned <;> rfl

theorem advance_eq (t : Trace) :
    t.advance = t.advanceSlots (t.order.toList.filter t.isWheel).reverse := rfl

/-! ### Turning the wheels of a trace -/

theorem advanceSlots_of_carry (hi : t.arena.record? i = some r)
    (hd : r.family.support = .enumerable d) (ht : r.turn d = .ok (m, true)) (is : List Nat) :
    t.advanceSlots (i :: is) = (t.rewrite i m).advanceSlots is := by
  rw [advanceSlots, hi]
  simp only [hd, ht]
  rfl

theorem advanceSlots_of_stay (hi : t.arena.record? i = some r)
    (hd : r.family.support = .enumerable d) (ht : r.turn d = .ok (m, false)) (is : List Nat) :
    t.advanceSlots (i :: is) = (.ok true, t.rewrite i m) := by
  rw [advanceSlots, hi]
  simp only [hd, ht]
  rfl

/-- The trace with other records in some of its slots. -/
structure Spins (t : Trace) (is : List Nat) (u : Trace) : Prop where
  order  : u.order = t.order
  others : ∀ i, i ∉ is → u.arena.record? i = t.arena.record? i

theorem Spins.refl (t : Trace) (is : List Nat) : t.Spins is t := ⟨rfl, fun _ _ => rfl⟩

theorem Spins.rewrite (h : t.Spins is u) (i : Nat) (m : Record) :
    t.Spins (i :: is) (u.rewrite i m) where
  order := h.order
  others j hj := by
    have hne : i ≠ j := fun he => hj (he ▸ .head _)
    exact (Arena.record?_put_of_ne hne).trans (h.others j fun hm => hj (.tail _ hm))

theorem Spins.mono (h : t.Spins is u) (hs : is ⊆ js) : t.Spins js u :=
  ⟨h.order, fun i hi => h.others i fun hm => hi (hs hm)⟩

/-- **Where every choice is at the end, the wheels are wound back and carry.** -/
theorem Lists.advanceSlots (h : t.Lists (Record.Embodies ws) is ks) (hn : is.Nodup)
    (hlast : ∀ k ∈ ks, k.Last) : ∀ js, ∃ u, t.Spins is u ∧ u.Lists (Record.Rewound ws) is ks ∧
      t.advanceSlots ((is.filter t.isWheel).reverse ++ js) = u.advanceSlots js := by
  induction h with
  | nil => exact fun js => ⟨t, .refl t [], .nil, rfl⟩
  | @cons i k is ks hr _ ih =>
      intro js
      obtain ⟨r, hi, hr⟩ := hr
      obtain ⟨hni, hn⟩ := List.nodup_cons.mp hn
      have ih := ih hn fun k hk => hlast k (.tail _ hk)
      have hwheel : t.isWheel i = !k.request.observed.isSome := by
        rw [isWheel_eq hi, hr.conditioned_eq]
      cases ho : k.request.observed with
      | some v =>
          -- an observed choice has no wheel
          obtain ⟨u, hu, hl, he⟩ := ih js
          rw [ho] at hwheel
          rw [List.filter_cons_of_neg (by rw [hwheel]; exact Bool.false_ne_true)]
          have hrew := hr.rewound_of_observed (by rw [ho]; rfl)
          exact ⟨u, hu.mono (List.subset_cons_self _ _),
            .cons ⟨r, (hu.others i hni).trans hi, hrew⟩ hl, he⟩
      | none =>
          obtain ⟨u, hu, hl, he⟩ := ih (i :: js)
          obtain ⟨d, m, hd, ht, hrew⟩ := hr.turn_of_last (hlast k (.head _)) ho
          have hui : u.arena.record? i = some r := (hu.others i hni).trans hi
          rw [ho] at hwheel
          rw [List.filter_cons_of_pos (by rw [hwheel]; rfl), List.reverse_cons, List.append_assoc]
          refine ⟨u.rewrite i m, hu.rewrite i m, .cons ⟨m, ?_, hrew⟩ (hl.congr fun j hj => ?_), ?_⟩
          · exact Arena.record?_put_self ⟨r, hui⟩
          · exact Arena.record?_put_of_ne fun hij => hni (hij ▸ hj)
          · exact he.trans (advanceSlots_of_carry hui hd ht js)

/-- What is stored supplies a world, if it is the records of its first choices and, beside them,
records that were wound back. -/
theorem WellFormed.supplied (hu : u.WellFormed) (hord : u.order.toList = is ++ js)
    (hl : u.Lists (Record.Embodies ws) is ks) {post post' : List Choice}
    (hl' : u.Lists (Record.Rewound ws) js post) (hw : w.choices = ks ++ post')
    (hx : (w.choices.map (·.address)).Nodup)
    (hne : ∀ k ∈ ks, ∀ j ∈ post, k.address ≠ j.address) (hfirst : ∀ k ∈ post', k.First)
    (ho : ∀ k ∈ w.choices, ∀ j ∈ post, k.address = j.address →
      k.request.observed.isSome = j.request.observed.isSome) :
    ∀ k ∈ w.choices, k.Supplied ws u.record? := by
  intro k hk
  have hks : ∀ j ∈ ks, j ∈ w.choices := fun j hj => hw ▸ List.mem_append_left _ hj
  have hcases : k ∈ ks ∨ k ∈ post' := List.mem_append.mp (hw ▸ hk)
  refine ⟨fun r hs hfit => ?_, fun hn => ?_⟩
  · have hrx : r.address = k.address := hu.address_record? hs
    obtain ⟨i, hi, hr⟩ := List.mem_filterMap.mp (hu.mem_of_record? hs)
    rcases List.mem_append.mp (hord ▸ hi) with hi | hi
    · obtain ⟨j, hj, he⟩ := hl.of_mem hi hr
      have hjk : j = k := List.inj_on_of_nodup_map hx (hks j hj) hk (he.address.symm.trans hrx)
      exact hjk ▸ he.serves
    · obtain ⟨j, hj, he⟩ := hl'.of_mem hi hr
      have hkj : k.address = j.address := hrx.symm.trans he.address
      rcases hcases with hk' | hk'
      · exact absurd hkj (hne k hk' j hj)
      · exact he.serves hrx.symm (hfirst k hk') hfit (ho k hk j hj hkj)
  · rcases hcases with hk' | hk'
    · obtain ⟨i, -, r, hr, he⟩ := hl.exists_slot hk'
      have hfit := he.settles.1
      rw [hn r (he.address ▸ hu.record?_address hr)] at hfit
      cases hfit
    · exact hfirst k hk'

/-- The odometer stops at the last choice that is not at the end, and moves it on. -/
theorem Lists.advance_of_next {pre post : List Choice} {k' : Choice}
    (h : t.Lists (Record.Embodies ws) t.order.toList (pre ++ k :: post))
    (hn : t.order.toList.Nodup) (hk : k.Next k') (hlast : ∀ j ∈ post, j.Last) :
    ∃ u is js, t.advance = (.ok true, u) ∧ u.order.toList = is ++ js ∧
      u.Lists (Record.Embodies ws) is (pre ++ [k']) ∧ u.Lists (Record.Rewound ws) js post := by
  obtain ⟨is, i, js, hord, hpre, ⟨r, hi, hr⟩, hpost⟩ := h.of_append_cons
  rw [hord] at hn
  obtain ⟨-, hn, hdisj⟩ := List.nodup_append.mp hn
  obtain ⟨hni, hnj⟩ := List.nodup_cons.mp hn
  obtain ⟨d, m, hd, ht, hm⟩ := hr.turn_of_next hk
  obtain ⟨u, hu, hl, he⟩ := hpost.advanceSlots hnj hlast (i :: (is.filter t.isWheel).reverse)
  have hui : u.arena.record? i = some r := (hu.others i hni).trans hi
  have hwheel : t.isWheel i = true := by
    obtain ⟨-, -, d, n, j, hk, -⟩ := hk
    rw [isWheel_eq hi, hr.conditioned_eq, hk.free]
    rfl
  have hother : ∀ j, j ≠ i → (u.rewrite i m).arena.record? j = u.arena.record? j := fun j hj =>
    Arena.record?_put_of_ne hj.symm
  refine ⟨u.rewrite i m, is ++ [i], js, ?_, ?_, ?_, ?_⟩
  · rw [advance_eq, hord, List.filter_append, List.filter_cons_of_pos hwheel, List.reverse_append,
      List.reverse_cons, List.append_assoc, List.singleton_append, he]
    exact advanceSlots_of_stay hui hd ht _
  · show u.order.toList = _
    rw [hu.order, hord, List.append_assoc]
    rfl
  · refine List.rel_append (hpre.congr fun j hj => ?_)
      (.cons ⟨m, Arena.record?_put_self ⟨r, hui⟩, hm⟩ .nil)
    rw [hother j fun hji => hdisj j hj i (.head _) hji]
    exact hu.others j fun hjs => hdisj j hj j (.tail _ hjs) rfl
  · exact hl.congr fun j hj => hother j fun hji => hni (hji ▸ hj)

/-- **Where the world has a successor the odometer stops at it**, and what is then stored supplies
its choices. -/
theorem WellFormed.advance_of_next (h : t.WellFormed)
    (hr : List.Forall₂ (Record.Embodies ws) t.records w.choices) (hn : w.Next w')
    (hx : (w.choices.map (·.address)).Nodup) (hx' : (w'.choices.map (·.address)).Nodup)
    (ho : ∀ k' ∈ w'.choices, ∀ k ∈ w.choices, k'.address = k.address →
      k'.request.observed.isSome = k.request.observed.isSome) :
    ∃ u, t.advance = (.ok true, u) ∧ ∀ k ∈ w'.choices, k.Supplied ws u.record? := by
  obtain ⟨pre, k, k', post, post', hw, hw', hk, hlast, hfirst⟩ := hn
  have hl := h.lists_order hr
  rw [hw] at hl
  obtain ⟨u, is, js, hadv, hord, hl, hl'⟩ := hl.advance_of_next h.order_nodup hk hlast
  have hwf : t.advance.2.WellFormed :=
    advance_keeps (I := WellFormed) (fun h hi hr => h.rescore hi hr) h
  rw [hadv] at hwf
  have hne : ∀ j ∈ pre ++ [k'], ∀ l ∈ post, j.address ≠ l.address := by
    have hsplit : w.choices.map (·.address) =
        (pre ++ [k']).map (·.address) ++ post.map (·.address) := by
      simp [hw, hk.1]
    rw [hsplit] at hx
    exact fun j hj l hl =>
      (List.nodup_append.mp hx).2.2 _ (List.mem_map_of_mem hj) _ (List.mem_map_of_mem hl)
  refine ⟨u, hadv, hwf.supplied hord hl hl' ?_ hx' hne hfirst
    fun k' hk' j hj => ho k' hk' j (hw ▸ List.mem_append_right _ (.tail _ hj))⟩
  rw [hw', List.append_assoc]
  rfl

/-- **In the last world the odometer comes round**, and no choice is loose. -/
theorem WellFormed.advance_of_last (h : t.WellFormed)
    (hr : List.Forall₂ (Record.Embodies ws) t.records w.choices)
    (hlast : ∀ k ∈ w.choices, k.Last) : ∃ u, t.advance = (.ok false, u) ∧ u.hasLoose = false := by
  obtain ⟨u, hu, hl, he⟩ := (h.lists_order hr).advanceSlots h.order_nodup hlast []
  rw [List.append_nil] at he
  refine ⟨u, he, List.any_eq_false.mpr fun r hr => ?_⟩
  obtain ⟨i, hi, hr⟩ := List.mem_filterMap.mp hr
  obtain ⟨k, -, hk⟩ := hl.of_mem (hu.order ▸ hi) hr
  rw [Record.isLoose, Family.isEnumerable, hk.conditioned]
  cases ho : k.request.observed with
  | some v => exact Bool.false_ne_true
  | none =>
      obtain ⟨d, hd, -⟩ := hk.free ho
      rw [hd]
      exact Bool.false_ne_true

end Trace

end ProbTrace
