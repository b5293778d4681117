import ProbTrace.Proofs.Turning

/-!
# Proofs — Covering: the walk through a domain comes by everything that is drawn

`Domain.listing` says which values a finite family has, without a walk: both truth values, the
indices of the masses, and the counts up to the number of trials.  The number of trials is given as
a double, and is the whole part of that number (`Binary.toUInt64_eq`).

The walk from nowhere is this list, in ascending order (`Domain.Sized.walk_none_eq`).  A draw does
not walk: it compares a word with a probability, looks for a running sum, or counts successes.  What
it comes to has a position in the domain all the same (`Family.exists_element_of_sample`), and so
has what the kernel proposes from any value at all (`Family.exists_element_of_propose`).
-/

namespace ProbTrace

/-! ### Whole parts -/

namespace Binary

open Float.Model Float.Model.UnpackedFloat

variable {x : Float} {s : Sign} {m : Nat} {e : Int} {hm : 0 < m}

/-- The whole part of a positive number; it is zero for numbers that are not positive or not
finite. -/
def whole (x : Float) : Nat :=
  match number x with
  | .finite .positive m e _ => m * 2 ^ e.toNat / 2 ^ (-e).toNat
  | _                       => 0

theorem mantissa_shiftRight (em : ExtendedMantissa) (k : Nat) :
    (em >>> k).mantissa = em.mantissa / 2 ^ k := by
  induction k with
  | zero => exact (Nat.div_one _).symm
  | succ k ih =>
      show (ExtendedMantissa.shiftRightOne (em >>> k)).mantissa = _
      rw [ExtendedMantissa.shiftRightOne, ih, Nat.div_div_eq_div_mul, Nat.pow_succ]

/-- The bits behind the point are cut off. -/
theorem roundToInt_eq (s : Sign) (m : Nat) (e : Int) :
    roundToInt s m e = s.apply (m * 2 ^ e.toNat / 2 ^ (-e).toNat : Nat) := by
  have hshift : (0 - (e - e.toNat)).toNat = (-e).toNat := by omega
  simp only [roundToInt, decreaseExponent, shiftToExponent, mantissa_shiftRight,
    ExtendedMantissa.ofMantissaAndAccuracy, Nat.shiftLeft_eq, Int.sub_zero, hshift]

theorem mantissa_lt (hx : number x = .finite s m e hm) : m < 2 ^ 53 := by
  rw [number, Float.Model.unpack, UnpackedFloat.unpack] at hx
  simp only at hx
  split at hx
  · split at hx <;> cases hx
  · split at hx
    · split at hx
      · cases hx
      · cases hx
        exact Nat.lt_trans (BitVec.isLt _) (by decide)
    · cases hx
      exact BitVec.isLt _

theorem number_words :
    number 18446744073709551616.0 = .finite .positive (2 ^ 52) 12 (by decide) := by
  rfl

/-- There are no doubles between `2 ^ 64 - 2 ^ 11` and `2 ^ 64`: the whole part of what is below
`2 ^ 64` is not even the largest word. -/
theorem whole_lt (h : x < 18446744073709551616.0) : whole x + 1 < UInt64.size := by
  have hsize : UInt64.size = 2 ^ 53 * 2 ^ 11 := by decide
  rw [lt_iff, number_words] at h
  rw [whole]
  split
  · rename_i m e hm hx
    have hlt := mantissa_lt hx
    rw [hx] at h
    have he : e < 12 ∨ e = 12 ∧ m < 2 ^ 52 := by
      simpa [UnpackedFloat.compare, Ordering.then_eq_lt, compare_lt_iff_lt] using h
    have hproduct : m * 2 ^ e.toNat + 1 < UInt64.size := by
      rcases he with he | ⟨rfl, hm'⟩
      · have hpow : 2 ^ e.toNat ≤ 2 ^ 11 := Nat.pow_le_pow_right (by decide) (by omega)
        have hle := Nat.mul_le_mul (Nat.le_sub_one_of_lt hlt) hpow
        omega
      · have hpow : (12 : Int).toNat = 12 := rfl
        rw [hpow]
        omega
    exact Nat.lt_of_le_of_lt (Nat.succ_le_succ (Nat.div_le_self _ _)) hproduct
  · decide

/-- **As a word, a number below `2 ^ 64` is its whole part.** -/
theorem toUInt64_eq (h : x < 18446744073709551616.0) : x.toUInt64 = .ofNat (whole x) := by
  have hlt : whole x < UInt64.size := Nat.lt_of_succ_lt (whole_lt h)
  have hint : ((number x).toInt 0 (UInt64.size - 1)).toNat = whole x := by
    rw [lt_iff, number_words] at h
    rw [whole]
    generalize number x = u at h ⊢
    cases u with
    | notANumber | zero => rfl
    | infinity s =>
        cases s with
        | negative => rfl
        | positive => cases h
    | finite s m e hm =>
        rw [UnpackedFloat.toInt, roundToInt_eq]
        cases s with
        | positive => rfl
        | negative => exact Int.toNat_of_nonpos (Int.neg_nonpos_of_nonneg (Int.natCast_nonneg _))
  show UInt64.ofNatClamp ((number x).toInt 0 (UInt64.size - 1)).toNat = _
  rw [hint, UInt64.ofNatClamp, dif_pos hlt]
  refine UInt64.toNat_inj.mp ?_
  rw [UInt64.toNat_ofNatLT, UInt64.toNat_ofNat_of_lt' hlt]

end Binary

/-! ### What is drawn -/

namespace Draw

theorem length_runningSums (acc : Float) :
    ∀ masses, (runningSums acc masses).length = masses.length
  | []      => rfl
  | m :: ms => congrArg (· + 1) (length_runningSums (acc + m) ms)

/-- An index that is drawn is that of a mass. -/
theorem lt_of_index {masses : List Float} {g g' : Generator} {i : Nat}
    (h : index masses g = .ok (i, g')) : i < masses.length := by
  obtain ⟨u, g₁, -, h⟩ := exists_of_bind_eq_ok h
  dsimp only at h
  cases hi : (runningSums 0.0 masses).findIdx? (fun s => s >= u * total masses) with
  | none =>
      rw [hi] at h
      cases h
  | some j =>
      rw [hi] at h
      cases h
      obtain ⟨hlt, -⟩ := List.findIdx?_eq_some_iff_getElem.mp hi
      exact length_runningSums 0.0 masses ▸ hlt

/-- No more trials succeed than are made. -/
theorem toNat_le_of_trials {p : Float} : ∀ {n : Nat} {acc k : UInt64} {g g' : Generator},
    acc.toNat + n < UInt64.size → trials p n acc g = .ok (k, g') → k.toNat ≤ acc.toNat + n
  | 0, acc, k, g, g', _, h => by
      cases h
      exact Nat.le_refl _
  | n + 1, acc, k, g, g', hn, h => by
      obtain ⟨u, g₁, -, h⟩ := exists_of_bind_eq_ok h
      split at h
      · have hlt : acc.toNat + 1 < UInt64.size := by omega
        have hacc : (acc + 1).toNat = acc.toNat + 1 := by
          rw [UInt64.toNat_add]
          exact Nat.mod_eq_of_lt hlt
        have ih := toNat_le_of_trials (by omega) h
        omega
      · have ih := toNat_le_of_trials (by omega) h
        omega

/-- A number of successes that is drawn is no larger than the number of trials. -/
theorem toNat_le_of_binomial {p : Float} {n k : UInt64} {g g' : Generator}
    (h : binomial p n g = .ok (k, g')) : k.toNat ≤ n.toNat := by
  have hn : (0 : UInt64).toNat + n.toNat < UInt64.size := by
    rw [UInt64.toNat_zero, Nat.zero_add]
    exact n.toNat_lt_size
  simpa using toNat_le_of_trials hn h

end Draw

namespace Family

variable {f : Family} {d : Domain} {ps ms : List Float} {p x : Float} {n : Nat} {u v : Value}
  {g g' : Generator}

theorem eq_of_two (h : f.two ps = .ok (p, x)) : ps = [p, x] := by
  simp only [two] at h
  split at h
  · cases h
    rfl
  · cases h

theorem eq_of_categoricalParams (h : categoricalParams ps = .ok ms) : ms = ps := by
  rw [categoricalParams] at h
  split at h
  · cases h
  · exact (accept_eq_ok.mp h).2.symm

/-- **What is drawn from a finite family is in its domain.** -/
theorem exists_element_of_sample (hn : d.Sized ps n) (h : d.family.sample ps g = .ok (v, g')) :
    ∃ i < n, v = d.element i := by
  cases d with
  | flip =>
      obtain ⟨p, -, h⟩ := Draw.lift_bind_eq_ok h
      obtain ⟨b, -, rfl⟩ := Draw.bind_pure_eq_ok h
      obtain rfl : 2 = n := Except.ok.inj hn.size_eq
      cases b with
      | false => exact ⟨0, by decide, rfl⟩
      | true => exact ⟨1, by decide, rfl⟩
  | categorical =>
      obtain ⟨masses, hmasses, h⟩ := Draw.lift_bind_eq_ok h
      obtain ⟨i, hi, rfl⟩ := Draw.bind_pure_eq_ok h
      obtain rfl : ps.length = n := Except.ok.inj hn.size_eq
      obtain rfl : masses = ps := eq_of_categoricalParams hmasses
      exact ⟨i, Draw.lt_of_index hi, rfl⟩
  | binomial =>
      obtain ⟨⟨p, k⟩, hparams, h⟩ := Draw.lift_bind_eq_ok h
      obtain ⟨j, hj, rfl⟩ := Draw.bind_pure_eq_ok h
      obtain ⟨p', k', htrials, rfl⟩ := Domain.trials_of_size hn.size_eq
      obtain ⟨⟨p'', k''⟩, htrials', hacc⟩ := bind_eq_ok.mp hparams
      cases htrials.symm.trans htrials'
      obtain ⟨-, he⟩ := accept_eq_ok.mp hacc
      cases he
      exact ⟨j.toNat, Nat.lt_succ_of_le (Draw.toNat_le_of_binomial hj),
        congrArg Value.int UInt64.ofNat_toNat.symm⟩

/-- **What is proposed in a finite family is in its domain**, whatever the current value is. -/
theorem exists_element_of_propose (hn : d.Sized ps n)
    (h : d.family.propose u ps g = .ok (v, g')) : ∃ i < n, v = d.element i := by
  cases d with
  | flip =>
      obtain ⟨b, -, h⟩ := Draw.lift_bind_eq_ok h
      cases h
      obtain rfl : 2 = n := Except.ok.inj hn.size_eq
      cases b with
      | false => exact ⟨1, by decide, rfl⟩
      | true => exact ⟨0, by decide, rfl⟩
  | categorical | binomial => exact exists_element_of_sample hn h

end Family

/-! ### The values of a domain -/

namespace Domain

/-- The elements of the domain can be counted in words: the masses are fewer than there are words,
as those of any list in memory are, and the number of trials is below `2 ^ 64`. -/
def InWords : Domain → List Float → Prop
  | .flip,        _  => True
  | .categorical, ps => ps.length < UInt64.size
  | .binomial,    ps => ∀ x, ps[1]? = some x → x < 18446744073709551616.0

/-- The values of the domain: both truth values, an index for each mass, and the counts up to the
number of trials. -/
def listing : Domain → List Float → List Value
  | .flip,        _  => [.bool false, .bool true]
  | .categorical, ps => (List.range ps.length).map fun i => .int (.ofNat i)
  | .binomial,    ps => (List.range (Binary.whole (ps.getD 1 0.0) + 1)).map fun i => .int (.ofNat i)

variable {d : Domain} {ps : List Float} {n : Nat}

theorem size_of_inWords (hw : d.InWords ps) (hn : d.size ps = .ok n) :
    n < UInt64.size ∧ d.listing ps = (List.range n).map d.element := by
  cases d with
  | flip =>
      cases hn
      exact ⟨by decide, rfl⟩
  | categorical =>
      cases hn
      exact ⟨hw, rfl⟩
  | binomial =>
      obtain ⟨p, k, ht, rfl⟩ := trials_of_size hn
      obtain ⟨x, hx, rfl⟩ := Family.trials_eq_ok ht
      obtain rfl : ps = [p, x] := Family.eq_of_two hx
      have hx : x < 18446744073709551616.0 := hw x rfl
      have hlt := Binary.whole_lt hx
      have hk : x.toUInt64.toNat = Binary.whole x := by
        rw [Binary.toUInt64_eq hx, UInt64.toNat_ofNat_of_lt' (Nat.lt_of_succ_lt hlt)]
      rw [hk]
      exact ⟨hlt, rfl⟩

/-- The parameters of a finite family give its domain a size, if they are accepted and the elements
can be counted in words; the values listed are those at its positions. -/
theorem exists_sized_of_inWords (hc : d.family.check ps = .ok ()) (hw : d.InWords ps) :
    ∃ n, d.Sized ps n ∧ d.listing ps = (List.range n).map d.element := by
  have hd : d.family.support = .enumerable d := by cases d <;> rfl
  obtain ⟨n, hn⟩ := Family.exists_sized hd hc fun n hn => (size_of_inWords hw hn).1
  exact ⟨n, hn, (size_of_inWords hw hn.size_eq).2⟩

/-- The positions of a domain ascend with its elements. -/
theorem Sized.pairwise_position (hn : d.Sized ps n) :
    ((List.range n).map d.element).Pairwise fun u w => u.position < w.position := by
  have hposition : ∀ {i}, i ∈ List.range n → (d.element i).position = i := fun hi =>
    have hi := List.mem_range.mp hi
    position_element hn.size_eq hi (hi.trans hn.small)
  rw [List.pairwise_map]
  refine List.pairwise_lt_range.imp_of_mem fun hi hj hlt => ?_
  rwa [hposition hi, hposition hj]

theorem Sized.head?_map_element (hn : d.Sized ps n) :
    ((List.range n).map d.element).head? = some (d.element 0) := by
  obtain ⟨k, rfl⟩ := Nat.exists_eq_succ_of_ne_zero hn.positive.ne'
  rw [List.range_succ_eq_map]
  rfl

/-- **The walk through a finite domain is complete.**  For all parameters with which the family
scores some value, and whose elements can be counted in words,

* the walk from nowhere, which goes on from each value to the next one, ends, and comes to the
  values of the domain;
* these ascend, so that none comes twice;
* the first of them is the first element of the domain, whatever the parameters are;
* each of them can be scored;
* whatever is drawn, or proposed from any value, is one of them. -/
theorem walk_covers {d : Domain} {ps : List Float} {v : Value} {lp : Float}
    (hps : d.family.logDensity v ps = .ok lp) (hw : d.InWords ps) :
    (∀ fuel, (d.listing ps).length < fuel → d.walk ps fuel none = .ok (d.listing ps)) ∧
    (d.listing ps).Pairwise (fun u w => u.position < w.position) ∧
    ((d.listing ps).head? = some (d.element 0) ∧ d.first ps = .ok (d.element 0)) ∧
    (∀ u ∈ d.listing ps, ∃ lu, d.family.logDensity u ps = .ok lu) ∧
    (∀ g u g', d.family.sample ps g = .ok (u, g') → u ∈ d.listing ps) ∧
    ∀ w g u g', d.family.propose w ps g = .ok (u, g') → u ∈ d.listing ps := by
  have hc := (Family.check_of_logDensity ps hps).2
  obtain ⟨n, hn, hlist⟩ := exists_sized_of_inWords hc hw
  have hmem : ∀ u, (∃ i < n, u = d.element i) → u ∈ (List.range n).map d.element := by
    rintro u ⟨i, hi, rfl⟩
    exact List.mem_map_of_mem (List.mem_range.mpr hi)
  have hscored : ∀ u ∈ (List.range n).map d.element, ∃ lu, d.family.logDensity u ps = .ok lu := by
    intro u hu
    obtain ⟨i, -, rfl⟩ := List.mem_map.mp hu
    exact Family.exists_logDensity ps (d.checkValue_element i) hc
  rw [hlist]
  exact ⟨fun fuel hf => hn.walk_none_eq (by simpa using hf), hn.pairwise_position,
    ⟨hn.head?_map_element, hn.first_eq⟩, hscored,
    fun g u g' h => hmem u (Family.exists_element_of_sample hn h),
    fun w g u g' h => hmem u (Family.exists_element_of_propose hn h)⟩

/-- Three unequal masses. -/
def threeMasses : List Float := [0.25, 0.5, 0.125]

/-- An index outside is scored, so the masses are accepted.  The walk goes through the three
indices, and the one drawn and the one proposed from outside are among them. -/
theorem walk_covers_threeMasses :
    Family.categorical.logDensity (.int 7) threeMasses = .ok Special.negInfinity ∧
    categorical.InWords threeMasses ∧
    categorical.walk threeMasses 4 none = .ok [.int 0, .int 1, .int 2] ∧
    Family.categorical.sample threeMasses (.ofSeed 0) =
      .ok (.int 1, (Generator.ofSeed 0).next.2) ∧
    .int 1 ∈ categorical.listing threeMasses ∧
    Family.categorical.propose (.int 7) threeMasses (.ofSeed 1) =
      .ok (.int 2, (Generator.ofSeed 1).next.2) ∧
    .int 2 ∈ categorical.listing threeMasses := by
  have hscored : Family.categorical.logDensity (.int 7) threeMasses =
      .ok Special.negInfinity := by
    decide +kernel
  have hwords : categorical.InWords threeMasses := by
    show threeMasses.length < UInt64.size
    decide
  have hdrawn : Family.categorical.sample threeMasses (.ofSeed 0) =
      .ok (.int 1, (Generator.ofSeed 0).next.2) := by
    decide +kernel
  have hproposed : Family.categorical.propose (.int 7) threeMasses (.ofSeed 1) =
      .ok (.int 2, (Generator.ofSeed 1).next.2) := by
    decide +kernel
  obtain ⟨hwalk, -, -, -, hsample, hpropose⟩ := walk_covers (d := categorical) hscored hwords
  exact ⟨hscored, hwords, hwalk 4 (by decide), hdrawn, hsample _ _ _ hdrawn, hproposed,
    hpropose _ _ _ _ hproposed⟩

/-- Minus zero trials are none. -/
example : binomial.listing [0.5, -0.0] = [.int 0] := by decide +kernel

end Domain

end ProbTrace
