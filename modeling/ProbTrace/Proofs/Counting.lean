import ProbTrace.Proofs.Winding

/-!
# Proofs — Counting: the odometer counts

The values of the free choices with a finite domain are the digits of a number.  A digit is the
place of the value in its domain, its radix is the number of values of the domain, and the choice
visited last has the least significant digit.  `Digit.succ` adds one to such a number: each digit
at the end of its radix starts again and carries into the one before.

* `Digit.succ_eq`: the number grows by one, or starts again at zero after the last one; and the
  order of the numbers is the lexicographic order of their places (`Digit.places_lt_iff`), so what
  comes next is the least vector of places above the present one (`Digit.Next`).
* `Trace.Displays.advanceSlots`: turning the wheels of a trace adds one to the number that its
  records show.  Only the records of the digits are changed, and each of them is scored under its
  own parameters (`Trace.Redialed`).
* `WellFormed.advance_number`, and from it by induction `WellFormed.reads_advanced`: after `k`
  moves from the number zero a trace reads `k`.
-/

namespace ProbTrace

/-! ### Numbers with mixed radices -/

/-- A digit, with its radix. -/
structure Digit where
  radix : Nat
  place : Nat
  lt    : place < radix

namespace Digit

variable {d e : Digit} {ds es fs : List Digit}

/-- The radices of the digits of a number. -/
def radices (ds : List Digit) : List Nat := ds.map radix

/-- The places of the digits of a number. -/
def places (ds : List Digit) : List Nat := ds.map place

/-- How many numbers there are with the radices of this one. -/
def count (ds : List Digit) : Nat := (radices ds).prod

/-- The number; the first digit is the most significant one. -/
def number : List Digit → Nat
  | []      => 0
  | d :: ds => d.place * count ds + number ds

/-- Adds one to a digit, or goes back to zero with a carry. -/
def turn (d : Digit) : Digit × Bool :=
  if h : d.place + 1 < d.radix then ({ d with place := d.place + 1, lt := h }, false)
  else ({ d with place := 0, lt := d.place.zero_lt_of_lt d.lt }, true)

/-- Adds one to a number, from the last digit on.  The answer is also whether the first digit has
carried. -/
def succ : List Digit → List Digit × Bool
  | []      => ([], true)
  | d :: ds =>
    match succ ds with
    | (es, false) => (d :: es, false)
    | (es, true)  => (d.turn.1 :: es, d.turn.2)

theorem count_cons (d : Digit) (ds : List Digit) : count (d :: ds) = d.radix * count ds :=
  List.prod_cons

theorem count_congr (h : radices ds = radices es) : count ds = count es :=
  congrArg List.prod h

theorem radices_cons_eq (h : radices (d :: ds) = radices (e :: es)) :
    d.radix = e.radix ∧ radices ds = radices es := List.cons.inj h

theorem ext_place (hr : d.radix = e.radix) (hp : d.place = e.place) : d = e := by
  cases d
  cases e
  cases hr
  cases hp
  rfl

/-- Every number is below the count. -/
theorem number_lt_count (ds : List Digit) : number ds < count ds := by
  induction ds with
  | nil => exact Nat.one_pos
  | cons d ds ih =>
      have hle : (d.place + 1) * count ds ≤ d.radix * count ds := Nat.mul_le_mul_right _ d.lt
      rw [count_cons, number]
      rw [Nat.add_mul, Nat.one_mul] at hle
      omega

theorem number_eq_zero_iff : number ds = 0 ↔ ∀ d ∈ ds, d.place = 0 := by
  induction ds with
  | nil => simp [number]
  | cons d ds ih =>
      have hpos : count ds ≠ 0 := Nat.ne_of_gt (Nat.zero_lt_of_lt (number_lt_count ds))
      rw [number, Nat.add_eq_zero_iff, Nat.mul_eq_zero, or_iff_left hpos, ih,
        List.forall_mem_cons]

/-! ### The order of the numbers -/

/-- A more significant digit outweighs all that follow. -/
theorem number_cons_lt_of_lt (hr : radices ds = radices es) (hp : d.place < e.place) :
    number (d :: ds) < number (e :: es) := by
  have hle : (d.place + 1) * count ds ≤ e.place * count ds := Nat.mul_le_mul_right _ hp
  have hlt := number_lt_count ds
  rw [number, number, ← count_congr hr]
  rw [Nat.add_mul, Nat.one_mul] at hle
  omega

/-- **Numbers of the same radices are ordered as the vectors of their places.** -/
theorem places_lt_iff (hr : radices ds = radices es) :
    places ds < places es ↔ number ds < number es := by
  induction ds generalizing es with
  | nil =>
      cases es with
      | nil => simp [places, number]
      | cons e es => cases hr
  | cons d ds ih =>
      cases es with
      | nil => cases hr
      | cons e es =>
          obtain ⟨hd, hr⟩ := radices_cons_eq hr
          show d.place :: places ds < e.place :: places es ↔ _
          rw [List.cons_lt_cons_iff, ih hr]
          rcases Nat.lt_trichotomy d.place e.place with hlt | heq | hgt
          · exact iff_of_true (.inl hlt) (number_cons_lt_of_lt hr hlt)
          · rw [number, number, heq, count_congr hr]
            omega
          · have hnum := number_cons_lt_of_lt hr.symm hgt
            refine iff_of_false ?_ (by omega)
            rintro (hlt | ⟨heq, -⟩) <;> omega

theorem places_le_iff (hr : radices ds = radices es) :
    places ds ≤ places es ↔ number ds ≤ number es := by
  rw [← not_lt, ← not_lt, places_lt_iff hr.symm]

/-- A number and its radices determine the digits. -/
theorem number_inj (hr : radices ds = radices es) (hn : number ds = number es) : ds = es := by
  induction ds generalizing es with
  | nil =>
      cases es with
      | nil => rfl
      | cons e es => cases hr
  | cons d ds ih =>
      cases es with
      | nil => cases hr
      | cons e es =>
          obtain ⟨hd, hr⟩ := radices_cons_eq hr
          have hplace : d.place = e.place := by
            rcases Nat.lt_trichotomy d.place e.place with hlt | heq | hgt
            · exact absurd hn (Nat.ne_of_lt (number_cons_lt_of_lt hr hlt))
            · exact heq
            · exact absurd hn.symm (Nat.ne_of_lt (number_cons_lt_of_lt hr.symm hgt))
          have htail : number ds = number es := by
            rw [number, number, hplace, count_congr hr] at hn
            omega
          rw [ext_place hd hplace, ih hr htail]

/-! ### Adding one -/

theorem radix_turn (d : Digit) : d.turn.1.radix = d.radix := by
  rw [turn]
  split <;> rfl

theorem radices_succ (ds : List Digit) : radices (succ ds).1 = radices ds := by
  induction ds with
  | nil => rfl
  | cons d ds ih =>
      rw [succ]
      split
      · rename_i es hs
        rw [hs] at ih
        exact congrArg (d.radix :: ·) ih
      · rename_i es hs
        rw [hs] at ih
        exact congrArg₂ (· :: ·) d.radix_turn ih

/-- **The number grows by one**, until every digit carries. -/
theorem succ_eq (ds : List Digit) :
    (succ ds).2 = decide (count ds ≤ number ds + 1) ∧
      number (succ ds).1 = if number ds + 1 < count ds then number ds + 1 else 0 := by
  induction ds with
  | nil => exact ⟨rfl, rfl⟩
  | cons d ds ih =>
      have hlt := number_lt_count ds
      have hcount := count_congr (radices_succ ds)
      have hle : (d.place + 1) * count ds ≤ d.radix * count ds := Nat.mul_le_mul_right _ d.lt
      rw [Nat.add_mul, Nat.one_mul] at hle
      rw [succ, count_cons, number]
      split
      · -- the digits after this one have not carried
        rename_i es hs
        rw [hs] at ih hcount
        obtain ⟨hcarry, hnum⟩ := ih
        have hstay : number ds + 1 < count ds := by simpa using hcarry
        rw [if_pos hstay] at hnum
        rw [number, hcount, hnum, if_pos (by omega)]
        exact ⟨(decide_eq_false (by omega)).symm, by omega⟩
      · -- they have, and are all zero
        rename_i es hs
        rw [hs] at ih hcount
        obtain ⟨hcarry, hnum⟩ := ih
        have hround : count ds ≤ number ds + 1 := by simpa using hcarry
        rw [if_neg (by omega)] at hnum
        rw [number, hcount, hnum, turn]
        by_cases hd : d.place + 1 < d.radix
        · have hmore : (d.place + 1 + 1) * count ds ≤ d.radix * count ds :=
            Nat.mul_le_mul_right _ hd
          rw [Nat.add_mul, Nat.add_mul, Nat.one_mul] at hmore
          rw [dif_pos hd, if_pos (by omega)]
          refine ⟨(decide_eq_false (by omega)).symm, ?_⟩
          rw [Nat.add_mul, Nat.one_mul]
          omega
        · have hd : d.radix = d.place + 1 := Nat.le_antisymm (Nat.not_lt.mp hd) d.lt
          have hlast : d.radix * count ds = d.place * count ds + count ds := by
            rw [hd, Nat.add_mul, Nat.one_mul]
          rw [dif_neg (by omega), if_neg (by omega)]
          exact ⟨(decide_eq_true (by omega)).symm, by rw [Nat.zero_mul]⟩

/-- The one vector of places comes right after the other, among those of the same radices. -/
structure Next (ds es : List Digit) : Prop where
  lt    : places ds < places es
  least : ∀ fs, radices fs = radices ds → places ds < places fs → places es ≤ places fs

theorem next_of_number (hr : radices es = radices ds) (hn : number es = number ds + 1) :
    Next ds es where
  lt := (places_lt_iff hr.symm).mpr (by omega)
  least fs hf hlt := by
    have hlt := (places_lt_iff hf.symm).mp hlt
    exact (places_le_iff (hr.trans hf.symm)).mpr (by omega)

/-- There is a vector of places above this one, unless the number is the last one. -/
theorem exists_lt_iff :
    (∃ es, radices es = radices ds ∧ places ds < places es) ↔ number ds + 1 < count ds := by
  constructor
  · rintro ⟨es, hr, hlt⟩
    have hnum := (places_lt_iff hr.symm).mp hlt
    have hbound := number_lt_count es
    rw [count_congr hr] at hbound
    omega
  · intro hlt
    have hnum := (succ_eq ds).2
    rw [if_pos hlt] at hnum
    exact ⟨_, radices_succ ds, (next_of_number (radices_succ ds) hnum).lt⟩

end Digit

/-! ### The digits that records show -/

namespace Record

/-- The odometer turns the record: it is free, and its family has a finite domain. -/
def turns (r : Record) : Bool := !r.conditioned && r.family.isEnumerable

/-- The value of the record is at the place of the digit in the domain `d`, which has, under
parameters that the family accepts, as many values as the radix says. -/
structure Shows (r : Record) (d : Domain) (g : Digit) : Prop where
  support  : r.family.support = .enumerable d
  accepted : r.family.check r.params = .ok ()
  sized    : d.Sized r.params g.radix
  value    : r.value = d.element g.place

variable {r m : Record} {d : Domain} {g g' : Digit}

theorem Shows.of_eq {ps : List Float}
    (h : (r.family, r.params, r.value) = (d.family, ps, d.element g.place))
    (hc : d.family.check ps = .ok ()) (hs : d.Sized ps g.radix) : r.Shows d g := by
  obtain ⟨hfam, rfl, hv⟩ : r.family = d.family ∧ r.params = ps ∧ r.value = d.element g.place := by
    simpa using h
  refine ⟨?_, hfam ▸ hc, hs, hv⟩
  rw [hfam]
  cases d <;> rfl

theorem Shows.unique {d' : Domain} (h : r.Shows d g) (h' : r.Shows d' g') : g = g' := by
  have hd : d = d' := by
    have := h.support.symm.trans h'.support
    cases this
    rfl
  subst hd
  have hradix : g.radix = g'.radix := Except.ok.inj (h.sized.size_eq.symm.trans h'.sized.size_eq)
  have hposition : ∀ {g : Digit}, r.Shows d g → (d.element g.place).position = g.place :=
    fun {g} hg => Domain.position_element hg.sized.size_eq g.lt (Nat.lt_trans g.lt hg.sized.small)
  refine Digit.ext_place hradix ?_
  rw [← hposition h, ← hposition h', ← h.value, ← h'.value]

theorem turns_of_revaluedTo (h : r.RevaluedTo m) : m.turns = r.turns := by
  rw [turns, turns, h.conditioned, h.family]

/-- **A record turns as the digit that it shows.** -/
theorem Shows.turn (h : r.Shows d g) :
    ∃ m, r.RevaluedTo m ∧ m.Shows d g.turn.1 ∧ r.turn d = .ok (m, g.turn.2) := by
  obtain ⟨m, hm, hv, ht⟩ := turn_eq h.accepted h.support h.sized g.lt h.value
  have hshows : ∀ e : Digit, e.radix = g.radix → m.value = d.element e.place → m.Shows d e :=
    fun e hr hv => ⟨hm.family ▸ h.support, hm.family ▸ hm.params ▸ h.accepted,
      hm.params ▸ hr ▸ h.sized, hv⟩
  refine ⟨m, hm, hshows _ g.radix_turn ?_, ?_⟩
  · rw [hv, Digit.turn]
    split <;> rfl
  · rw [ht, Digit.turn]
    split
    · rename_i hlt
      rw [decide_eq_false (Nat.not_le.mpr hlt)]
    · rename_i hlt
      rw [decide_eq_true (Nat.not_lt.mp hlt)]

end Record

namespace Trace

variable {t u : Trace} {is js : List Nat} {gs hs : List Digit} {i : Nat} {r m : Record}

/-- The free choices of the trace that have a finite domain show, in the order of the visits, the
digits of the number. -/
def Reads (t : Trace) (gs : List Digit) : Prop :=
  List.Forall₂ (fun r g => ∃ d, r.Shows d g) (t.records.filter Record.turns) gs

/-- The records in the slots show the digits; those that the odometer does not turn are passed
over. -/
inductive Displays (t : Trace) : List Nat → List Digit → Prop where
  | nil : t.Displays [] []
  | pass {i : Nat} {is : List Nat} {gs : List Digit} {r : Record}
      (hi : t.arena.record? i = some r) (hr : r.turns = false) (h : t.Displays is gs) :
      t.Displays (i :: is) gs
  | digit {i : Nat} {is : List Nat} {gs : List Digit} {r : Record} {d : Domain} {g : Digit}
      (hi : t.arena.record? i = some r) (hr : r.turns = true) (hg : r.Shows d g)
      (h : t.Displays is gs) : t.Displays (i :: is) (g :: gs)

theorem Displays.congr (h : t.Displays is gs)
    (hu : ∀ i ∈ is, u.arena.record? i = t.arena.record? i) : u.Displays is gs := by
  induction h with
  | nil => exact .nil
  | pass hi hr _ ih =>
      exact .pass ((hu _ (.head _)).trans hi) hr (ih fun i hi => hu i (.tail _ hi))
  | digit hi hr hg _ ih =>
      exact .digit ((hu _ (.head _)).trans hi) hr hg (ih fun i hi => hu i (.tail _ hi))

/-- Slot by slot, or record by record. -/
theorem displays_iff (ho : ∀ i ∈ is, t.arena.Occupied i) : t.Displays is gs ↔
    List.Forall₂ (fun r g => ∃ d, r.Shows d g)
      ((is.filterMap t.arena.record?).filter Record.turns) gs := by
  induction is generalizing gs with
  | nil =>
      constructor
      · rintro ⟨⟩
        exact .nil
      · rintro ⟨⟩
        exact .nil
  | cons i is ih =>
      obtain ⟨r, hi⟩ := ho i (.head _)
      have ih : ∀ {gs}, t.Displays is gs ↔ _ := fun {_} => ih fun j hj => ho j (.tail _ hj)
      rw [List.filterMap_cons_some hi]
      cases hr : r.turns with
      | false =>
          rw [List.filter_cons_of_neg (by simp [hr]), ← ih]
          refine ⟨fun h => ?_, .pass hi hr⟩
          cases h with
          | pass _ _ h => exact h
          | digit hi' hr' =>
              cases hi.symm.trans hi'
              cases hr.symm.trans hr'
      | true =>
          rw [List.filter_cons_of_pos hr]
          constructor
          · intro h
            cases h with
            | pass hi' hr' =>
                cases hi.symm.trans hi'
                cases hr.symm.trans hr'
            | digit hi' _ hg h =>
                cases hi.symm.trans hi'
                exact .cons ⟨_, hg⟩ (ih.mp h)
          · intro h
            cases h with
            | cons hg h =>
                obtain ⟨d, hg⟩ := hg
                exact .digit hi hr hg (ih.mpr h)

theorem WellFormed.displays_iff_reads (h : t.WellFormed) :
    t.Displays t.order.toList gs ↔ t.Reads gs :=
  displays_iff fun i hi => (h.mem_order i).mp hi

/-! ### Turning the wheels adds one -/

/-- The trace with other values in some of the choices that the odometer turns, each with its
density under the parameters of its record.  All else is the same. -/
structure Redialed (t u : Trace) : Prop where
  frame   : u = { t with arena := { t.arena with slots := u.arena.slots } }
  size    : u.arena.slots.size = t.arena.slots.size
  records : ∀ i, u.arena.record? i = t.arena.record? i ∨ ∃ r m, t.arena.record? i = some r ∧
    r.turns = true ∧ r.RevaluedTo m ∧ u.arena.record? i = some m

theorem Redialed.refl (t : Trace) : t.Redialed t := ⟨rfl, rfl, fun _ => .inl rfl⟩

theorem Redialed.rewrite (h : t.Redialed u) (hi : t.arena.record? i = some r)
    (hu : u.arena.record? i = some r) (hr : r.turns = true) (hm : r.RevaluedTo m) :
    t.Redialed (u.rewrite i m) where
  frame := by
    conv_lhs => rw [h.frame]
    rfl
  size := Array.size_setIfInBounds.trans h.size
  records j := by
    by_cases hij : i = j
    · subst hij
      exact .inr ⟨r, m, hi, hr, hm, Arena.record?_put_self ⟨r, hu⟩⟩
    · have hj : (u.rewrite i m).arena.record? j = u.arena.record? j :=
        Arena.record?_put_of_ne hij
      rw [hj]
      exact h.records j

/-- A slot that the odometer turns, after the slots that follow it have been turned. -/
theorem Displays.rewrite {d : Domain} {g : Digit} (h : u.Displays is gs) (hni : i ∉ is)
    (hu : u.arena.record? i = some r) (hm : m.Shows d g) (hr : m.turns = true) :
    (u.rewrite i m).Displays (i :: is) (g :: gs) :=
  .digit (Arena.record?_put_self ⟨r, hu⟩) hr hm
    (h.congr fun _ hj => Arena.record?_put_of_ne fun hij => hni (hij ▸ hj))

/-- **Turning the wheels of the slots adds one to the number that they show**; on a carry out of
the first digit the slots `js` are turned as well. -/
theorem Displays.advanceSlots (h : t.Displays is gs) (hn : is.Nodup) : ∀ js, ∃ u,
    t.Redialed u ∧ t.Spins is u ∧ u.Displays is (Digit.succ gs).1 ∧
    t.advanceSlots ((is.filter t.isWheel).reverse ++ js) =
      if (Digit.succ gs).2 then u.advanceSlots js else (.ok true, u) := by
  induction h with
  | nil => exact fun js => ⟨t, .refl t, .refl t [], .nil, rfl⟩
  | @pass i is gs r hi hr _ ih =>
      intro js
      obtain ⟨hni, hn⟩ := List.nodup_cons.mp hn
      have hwheel := isWheel_eq hi
      have hkeep : ∀ {u hs}, t.Spins is u → u.Displays is hs → u.Displays (i :: is) hs :=
        fun hu hd => .pass ((hu.others i hni).trans hi) hr hd
      cases hcond : r.conditioned with
      | true =>
          -- an observed record has no wheel
          obtain ⟨u, hu, hs, hd, he⟩ := ih hn js
          rw [hcond] at hwheel
          rw [List.filter_cons_of_neg (by rw [hwheel]; exact Bool.false_ne_true)]
          exact ⟨u, hu, hs.mono (List.subset_cons_self _ _), hkeep hs hd, he⟩
      | false =>
          obtain ⟨u, hu, hs, hd, he⟩ := ih hn (i :: js)
          have hui : u.arena.record? i = some r := (hs.others i hni).trans hi
          have hloose : r.family.isEnumerable = false := by
            rw [Record.turns, hcond] at hr
            exact hr
          rw [hcond] at hwheel
          rw [List.filter_cons_of_pos (by rw [hwheel]; rfl), List.reverse_cons,
            List.append_assoc]
          refine ⟨u, hu, hs.mono (List.subset_cons_self _ _), hkeep hs hd, he.trans ?_⟩
          rw [advanceSlots_of_loose hui hloose]
  | @digit i is gs r d g hi hr hg _ ih =>
      intro js
      obtain ⟨hni, hn⟩ := List.nodup_cons.mp hn
      obtain ⟨u, hu, hs, hd, he⟩ := ih hn (i :: js)
      have hui : u.arena.record? i = some r := (hs.others i hni).trans hi
      have hfree : r.conditioned = false := by
        rw [Record.turns, Bool.and_eq_true_iff, Bool.not_eq_true'] at hr
        exact hr.1
      rw [List.filter_cons_of_pos (by rw [isWheel_eq hi, hfree]; rfl), List.reverse_cons,
        List.append_assoc, List.singleton_append, he, Digit.succ]
      generalize Digit.succ gs = out at hd ⊢
      obtain ⟨es, carry⟩ := out
      cases carry with
      | false =>
          exact ⟨u, hu, hs.mono (List.subset_cons_self _ _), .digit hui hr hg hd, rfl⟩
      | true =>
          obtain ⟨m, hm, hgm, ht⟩ := hg.turn
          have hmt : m.turns = true := (Record.turns_of_revaluedTo hm).trans hr
          refine ⟨u.rewrite i m, hu.rewrite hi hui hr hm, hs.rewrite i m,
            hd.rewrite hni hui hgm hmt, ?_⟩
          show u.advanceSlots (i :: js) = _
          revert ht
          cases g.turn.2 with
          | false => exact fun ht => advanceSlots_of_stay hui hg.support ht js
          | true => exact fun ht => advanceSlots_of_carry hui hg.support ht js

/-- **The odometer adds one to the number that the trace reads.**  Its answer is false when every
digit has carried. -/
theorem WellFormed.advance_number (h : t.WellFormed) (hs : t.Reads gs) : ∃ u,
    t.advance = (.ok !(Digit.succ gs).2, u) ∧ t.Redialed u ∧ u.Reads (Digit.succ gs).1 := by
  obtain ⟨u, hu, hspins, hd, he⟩ :=
    (h.displays_iff_reads.mpr hs).advanceSlots h.order_nodup []
  have hadvance : t.advance = (.ok !(Digit.succ gs).2, u) := by
    rw [advance_eq, ← List.append_nil (t.order.toList.filter t.isWheel).reverse, he]
    cases (Digit.succ gs).2 <;> rfl
  have hwell : t.advance.2.WellFormed := advance_keeps (fun h hi hr => h.rescore hi hr) h
  rw [hadvance] at hwell
  exact ⟨u, hadvance, hu, hwell.displays_iff_reads.mp (hspins.order ▸ hd)⟩

theorem Reads.unique (h : t.Reads gs) (h' : t.Reads hs) : gs = hs := by
  rw [Reads] at h h'
  generalize t.records.filter Record.turns = rs at h h'
  induction h generalizing hs with
  | nil =>
      cases h'
      rfl
  | cons hg _ ih =>
      cases h' with
      | cons hg' h' =>
          obtain ⟨d, hg⟩ := hg
          obtain ⟨d', hg'⟩ := hg'
          rw [hg.unique hg', ih h']

/-! ### Repeated calls -/

/-- The trace after so many moves of the odometer. -/
def advanced (t : Trace) (k : Nat) : Trace := (fun u : Trace => u.advance.2)^[k] t

theorem advanced_succ (t : Trace) (k : Nat) : t.advanced (k + 1) = (t.advanced k).advance.2 :=
  Function.iterate_succ_apply' _ k t

theorem WellFormed.advanced (h : t.WellFormed) (k : Nat) : (t.advanced k).WellFormed := by
  induction k with
  | zero => exact h
  | succ k ih =>
      rw [advanced_succ]
      exact advance_keeps (fun h hi hr => h.rescore hi hr) ih

/-- **After `k` moves from zero the trace reads `k`.** -/
theorem WellFormed.reads_advanced (h : t.WellFormed) (hs : t.Reads gs)
    (hzero : Digit.number gs = 0) (k : Nat) (hk : k < Digit.count gs) :
    ∃ hs, (t.advanced k).Reads hs ∧ Digit.radices hs = Digit.radices gs ∧ Digit.number hs = k := by
  induction k with
  | zero => exact ⟨gs, hs, rfl, hzero⟩
  | succ k ih =>
      obtain ⟨hs, hreads, hr, hnum⟩ := ih (Nat.lt_of_succ_lt hk)
      obtain ⟨u, ha, -, hu⟩ := (h.advanced k).advance_number hreads
      have hsucc := (Digit.succ_eq hs).2
      rw [Digit.count_congr hr, hnum, if_pos hk] at hsucc
      refine ⟨_, ?_, (Digit.radices_succ hs).trans hr, hsucc⟩
      rw [advanced_succ, ha]
      exact hu

/-- **The odometer is a counter with mixed radices**, whose last digit is that of the choice
visited last.  It moves to the vector of places that comes next in lexicographic order, if there is
one, and otherwise answers false with every place at zero; whatever else the trace holds stays.
Started at zero it counts through all vectors of places, each of them once, and its answer is false
for the first time when the last one has been there.

A trace that can be read has parameters at its wheels that their families accept (`Record.Shows`):
without these a wheel has no domain to be in, and a record that turns could not be rescored. -/
theorem WellFormed.advance_counts (h : t.WellFormed) (hs : t.Reads gs) :
    (∃ moved u es, t.advance = (.ok moved, u) ∧ t.Redialed u ∧ u.Reads es ∧
      Digit.radices es = Digit.radices gs ∧
      (moved = true ↔ ∃ fs, Digit.radices fs = Digit.radices gs ∧
        Digit.places gs < Digit.places fs) ∧
      (moved = true → Digit.Next gs es) ∧ (moved = false → ∀ e ∈ es, e.place = 0)) ∧
    ((∀ g ∈ gs, g.place = 0) →
      (∀ k < Digit.count gs,
        (t.advanced k).advance.1 = .ok (decide (k + 1 < Digit.count gs))) ∧
      ∀ fs, Digit.radices fs = Digit.radices gs →
        ∃! k, k < Digit.count gs ∧ (t.advanced k).Reads fs) := by
  have hanswer : ∀ es, (!(Digit.succ es).2) = decide (Digit.number es + 1 < Digit.count es) :=
    fun es => by rw [(Digit.succ_eq es).1, ← decide_not, decide_eq_decide, Nat.not_le]
  refine ⟨?_, fun hfront => ⟨fun k hk => ?_, fun fs hf => ?_⟩⟩
  · obtain ⟨u, ha, hu, hreads⟩ := h.advance_number hs
    have hr := Digit.radices_succ gs
    have hnum := (Digit.succ_eq gs).2
    rw [hanswer] at ha
    refine ⟨_, u, _, ha, hu, hreads, hr, ?_, fun hmoved => ?_, fun hstopped => ?_⟩
    · rw [decide_eq_true_iff, Digit.exists_lt_iff]
    · rw [if_pos (of_decide_eq_true hmoved)] at hnum
      exact Digit.next_of_number hr hnum
    · rw [if_neg (of_decide_eq_false hstopped)] at hnum
      exact Digit.number_eq_zero_iff.mp hnum
  · obtain ⟨es, hreads, hr, hnum⟩ :=
      h.reads_advanced hs (Digit.number_eq_zero_iff.mpr hfront) k hk
    obtain ⟨u, ha, -⟩ := (h.advanced k).advance_number hreads
    rw [ha, hanswer, hnum, Digit.count_congr hr]
  · have hzero := Digit.number_eq_zero_iff.mpr hfront
    have hlt := Digit.number_lt_count fs
    rw [Digit.count_congr hf] at hlt
    refine ⟨Digit.number fs, ⟨hlt, ?_⟩, ?_⟩
    · obtain ⟨es, hreads, hr, hnum⟩ := h.reads_advanced hs hzero _ hlt
      cases Digit.number_inj (hr.trans hf.symm) hnum
      exact hreads
    · rintro k ⟨hk, hreads⟩
      obtain ⟨es, hes, -, hnum⟩ := h.reads_advanced hs hzero k hk
      rw [← hnum, hes.unique hreads]

end Trace

/-! ### Two wheels among other choices -/

/-- Draws from the domains of two families, with an observed choice and a continuous one between
them. -/
def twoWheels : Program :=
  (do
    let _ ← Computation.sample .flip [1.0]
    let _ ← Computation.observe .flip [1.0] (.bool true)
    let _ ← Computation.sample .uniform [0.0, 1.0]
    Computation.sample .categorical [0.25, 0.25, 0.5]).program

/-- The choices of an enumerating pass of the program. -/
def twoWheelsTrace : Trace :=
  ((Trace.unstarted 0 twoWheels {} (.ofSeed 0)).update false { enumerating := true }).2.1

/-- The digits of the first assignment of the two wheels. -/
def twoZeros : List Digit := [⟨2, 0, by decide⟩, ⟨3, 0, by decide⟩]

theorem wellFormed_twoWheelsTrace : twoWheelsTrace.WellFormed := by
  have h : (Trace.unstarted 0 twoWheels {} (.ofSeed 0)).WellFormed := .of_empty rfl rfl rfl
  have hend : ((Trace.unstarted 0 twoWheels {} (.ofSeed 0)).update false
      { enumerating := true }).1 = Fault.lift (.ok (.int 0)) := by
    decide +kernel
  exact h.update false { enumerating := true } hend

theorem reads_twoWheelsTrace : twoWheelsTrace.Reads twoZeros := by
  have hshown : (twoWheelsTrace.records.filter Record.turns).map
      (fun r => (r.family, r.params, r.value)) =
        [(.flip, [1.0], .bool false), (.categorical, [0.25, 0.25, 0.5], .int 0)] := by
    decide +kernel
  obtain ⟨r, rs, hrs, hr, hshown⟩ := List.map_eq_cons_iff.mp hshown
  obtain ⟨q, qs, rfl, hq, hshown⟩ := List.map_eq_cons_iff.mp hshown
  cases List.map_eq_nil_iff.mp hshown
  have hflip : r.Shows .flip ⟨2, 0, by decide⟩ :=
    .of_eq hr (by decide +kernel) ⟨rfl, by decide, by decide⟩
  have hcategorical : q.Shows .categorical ⟨3, 0, by decide⟩ :=
    .of_eq hq (by decide +kernel) ⟨rfl, by decide, by decide⟩
  rw [Trace.Reads, hrs]
  exact .cons ⟨_, hflip⟩ (.cons ⟨_, hcategorical⟩ .nil)

/-- Two values of the one wheel and three of the other: the odometer moves five times, and comes
round with the sixth. -/
theorem advance_counts_twoWheelsTrace :
    twoWheelsTrace.WellFormed ∧ twoWheelsTrace.Reads twoZeros ∧
      (∃ u es, twoWheelsTrace.advance = (.ok true, u) ∧ u.Reads es ∧ Digit.Next twoZeros es) ∧
      (∀ k < 6, (twoWheelsTrace.advanced k).advance.1 = .ok (decide (k + 1 < 6))) ∧
      ∀ fs, Digit.radices fs = [2, 3] → ∃! k, k < 6 ∧ (twoWheelsTrace.advanced k).Reads fs := by
  obtain ⟨⟨moved, u, es, ha, -, hes, -, -, hnext, -⟩, hfront⟩ :=
    wellFormed_twoWheelsTrace.advance_counts reads_twoWheelsTrace
  obtain ⟨hcalls, hvisits⟩ := hfront (by decide)
  have hmoved : moved = true := by
    have hfirst : twoWheelsTrace.advance.1 = .ok true := hcalls 0 (by decide)
    rw [ha] at hfirst
    exact Except.ok.inj hfirst
  subst hmoved
  exact ⟨wellFormed_twoWheelsTrace, reads_twoWheelsTrace, ⟨u, es, ha, hes, hnext rfl⟩, hcalls,
    hvisits⟩

end ProbTrace
