import ProbTrace.Proofs.Signs

/-!
# Proofs — Numeric: the densities and the signs of zeros

Whether the families of distributions score equal values under equal parameters alike.  Those that
take the logarithm of nothing that may be a zero do: the flip, the Poisson, the Gaussian and the
beta.  The others do if the logarithm and the floor, which are not computed here, are at the zeros
what they are documented to be (`ZeroLaws`), and so all of them do (`Family.numeric`).
-/

namespace ProbTrace

open Binary (Near)

/-- A computation succeeds in two steps. -/
theorem bind_eq_ok {ε α β : Type} {a : Except ε α} {k : α → Except ε β} {b : β} :
    (a >>= k) = .ok b ↔ ∃ x, a = .ok x ∧ k x = .ok b := by
  constructor
  · intro h
    cases a with
    | error e => cases h
    | ok x => exact ⟨x, rfl, h⟩
  · rintro ⟨x, rfl, hk⟩
    exact hk

/-! ### Values and parameters -/

namespace Value

variable {v w : Value} {f : Family}

/-- Values that are alike are the same, or two doubles that are near, or two vectors. -/
theorem Like.eq_or (h : v.Like w) : v = w ∨
    (∃ x y, v = .float x ∧ w = .float y ∧ Near x y) ∨ ∃ vs ws, v = .vec vs ∧ w = .vec ws := by
  rcases h with rfl | h
  · exact .inl rfl
  · cases v <;> cases w <;> simp only [same, beq_iff_eq, Bool.false_eq_true] at h
    case bool.bool => exact .inl (congrArg _ h)
    case int.int => exact .inl (congrArg _ h)
    case float.float x y => exact .inr (.inl ⟨x, y, rfl, rfl, Binary.near_of_beq h⟩)
    case vec.vec vs ws => exact .inr (.inr ⟨vs, ws, rfl, rfl⟩)

theorem Like.boolOf {b : Bool} (h : v.Like w) (hb : f.boolOf v = .ok b) : f.boolOf w = .ok b := by
  obtain rfl | ⟨x, y, rfl, rfl, -⟩ | ⟨vs, ws, rfl, rfl⟩ := h.eq_or
  · exact hb
  · cases hb
  · cases hb

theorem Like.intOf {n : UInt64} (h : v.Like w) (hn : f.intOf v = .ok n) : f.intOf w = .ok n := by
  obtain rfl | ⟨x, y, rfl, rfl, -⟩ | ⟨vs, ws, rfl, rfl⟩ := h.eq_or
  · exact hn
  · cases hn
  · cases hn

theorem Like.floatOf {x : Float} (h : v.Like w) (hx : f.floatOf v = .ok x) :
    ∃ y, f.floatOf w = .ok y ∧ Near x y := by
  obtain rfl | ⟨x, y, rfl, rfl, hn⟩ | ⟨vs, ws, rfl, rfl⟩ := h.eq_or
  · exact ⟨x, hx, .refl x⟩
  · cases hx
    exact ⟨y, rfl, hn⟩
  · cases hx

end Value

namespace Record

variable {ps qs : List Float} {x y : Float} {f : Family}

/-- Parameters that are alike are so one by one. -/
theorem LikeParams.forall₂ (h : LikeParams ps qs) : List.Forall₂ Near ps qs := by
  rcases h with rfl | h
  · exact List.forall₂_same.mpr fun p _ => .refl p
  · induction ps generalizing qs with
    | nil =>
        cases qs with
        | nil => exact .nil
        | cons q qs => cases h
    | cons p ps ih =>
        cases qs with
        | nil => cases h
        | cons q qs =>
            rw [sameParams, Bool.and_eq_true] at h
            exact .cons (Binary.near_of_beq h.1) (ih h.2)

theorem LikeParams.one (h : LikeParams ps qs) (hx : f.one ps = .ok x) :
    ∃ x', f.one qs = .ok x' ∧ Near x x' := by
  cases h.forall₂ with
  | nil => cases hx
  | cons hn hrest =>
      cases hrest with
      | nil =>
          cases hx
          exact ⟨_, rfl, hn⟩
      | cons => cases hx

theorem LikeParams.two (h : LikeParams ps qs) (hxy : f.two ps = .ok (x, y)) :
    ∃ x' y', f.two qs = .ok (x', y') ∧ Near x x' ∧ Near y y' := by
  cases h.forall₂ with
  | nil => cases hxy
  | cons hx hrest =>
      cases hrest with
      | nil => cases hxy
      | cons hy hrest =>
          cases hrest with
          | nil =>
              cases hxy
              exact ⟨_, _, rfl, hx, hy⟩
          | cons => cases hxy

end Record

namespace Family

variable {f : Family} {v w : Value} {ps qs : List Float} {x y p q : Float}

theorem accept_eq_ok {α : Type} {ok : Bool} {a b : α} :
    f.accept ok a = .ok b ↔ ok = true ∧ a = b := by
  rw [accept]
  cases ok <;> simp [invalid]

/-! ### Parameters -/

/-- A probability of zero is as good as its twin. -/
theorem isProbability_congr (h : Near p q) : isProbability p = isProbability q := by
  simp only [isProbability, h.isNaN_eq, h.lt_iff (.refl 0.0), gt_iff_lt,
    (Near.refl 1.0).lt_iff h]

theorem flipParams_alike (hp : Record.LikeParams ps qs) (h : flipParams ps = .ok p) :
    ∃ q, flipParams qs = .ok q ∧ Near p q := by
  obtain ⟨p₀, hone, hacc⟩ := bind_eq_ok.mp h
  obtain ⟨hok, rfl⟩ := accept_eq_ok.mp hacc
  obtain ⟨q, hq, hn⟩ := hp.one hone
  exact ⟨q, bind_eq_ok.mpr ⟨q, hq, accept_eq_ok.mpr ⟨isProbability_congr hn ▸ hok, rfl⟩⟩, hn⟩

theorem poissonParams_alike (hp : Record.LikeParams ps qs) (h : poissonParams ps = .ok p) :
    poissonParams qs = .ok p := by
  obtain ⟨p₀, hone, hacc⟩ := bind_eq_ok.mp h
  obtain ⟨hok, rfl⟩ := accept_eq_ok.mp hacc
  obtain ⟨q, hq, hn⟩ := hp.one hone
  obtain rfl : p₀ = q := hn.eq_of_not_le (by simp_all)
  exact bind_eq_ok.mpr ⟨p₀, hq, hacc⟩

theorem gaussianParams_alike (hp : Record.LikeParams ps qs) (h : gaussianParams ps = .ok (x, y)) :
    ∃ x', gaussianParams qs = .ok (x', y) ∧ Near x x' := by
  obtain ⟨⟨x₀, y₀⟩, htwo, hacc⟩ := bind_eq_ok.mp h
  obtain ⟨hok, he⟩ := accept_eq_ok.mp hacc
  cases he
  obtain ⟨x', y', hxy', hx, hy⟩ := hp.two htwo
  obtain rfl : y = y' := hy.eq_of_not_le (by simp_all [isNormal])
  refine ⟨x', bind_eq_ok.mpr ⟨(x', y), hxy', accept_eq_ok.mpr ⟨?_, rfl⟩⟩, hx⟩
  rw [isNormal, hx.isNaN_eq] at hok
  exact hok

theorem eq_of_arePositive {x' y' : Float} (h : arePositive x y = true) (hx : Near x x')
    (hy : Near y y') : x = x' ∧ y = y' := by
  simp only [arePositive, Bool.and_eq_true, Bool.not_eq_true', decide_eq_false_iff_not] at h
  exact ⟨hx.eq_of_not_le h.1.2, hy.eq_of_not_le h.2⟩

theorem betaParams_alike (hp : Record.LikeParams ps qs) (h : betaParams ps = .ok (x, y)) :
    betaParams qs = .ok (x, y) := by
  obtain ⟨⟨x₀, y₀⟩, htwo, hacc⟩ := bind_eq_ok.mp h
  obtain ⟨hok, he⟩ := accept_eq_ok.mp hacc
  cases he
  obtain ⟨x', y', hxy', hx, hy⟩ := hp.two htwo
  obtain ⟨rfl, rfl⟩ := eq_of_arePositive hok hx hy
  exact bind_eq_ok.mpr ⟨(x, y), hxy', hacc⟩

/-! ### Families that compute no logarithm of what may be zero -/

/-- A family is numeric if its score is the same for all that is read from values and parameters
that are alike. -/
theorem numeric_of {α β : Type} (read : Value → Except Error α)
    (accepted : List Float → Except Error β) (score : β → α → Float)
    (hdensity : ∀ v ps, f.logDensity v ps = do
      let a ← read v
      let b ← accepted ps
      return score b a)
    (halike : ∀ ⦃v w : Value⦄ ⦃ps qs : List Float⦄ ⦃a : α⦄ ⦃b : β⦄, v.Like w →
      Record.LikeParams ps qs → read v = .ok a → accepted ps = .ok b →
        ∃ a' b', read w = .ok a' ∧ accepted qs = .ok b' ∧ score b' a' = score b a) :
    f.Numeric := by
  intro v w ps qs lp hv hp h
  rw [hdensity] at h ⊢
  obtain ⟨a, ha, h⟩ := bind_eq_ok.mp h
  obtain ⟨b, hb, h⟩ := bind_eq_ok.mp h
  obtain ⟨a', b', ha', hb', he⟩ := halike hv hp ha hb
  cases h
  exact bind_eq_ok.mpr ⟨a', ha', bind_eq_ok.mpr ⟨b', hb', congrArg Except.ok he⟩⟩

theorem lnBinomial_congr (h : Near p q) (n k : UInt64) : lnBinomial p n k = lnBinomial q n k := by
  have hpos : Special.closeToZero 0.0 = true := by decide +kernel
  have hneg : Special.closeToZero (-0.0) = true := by decide +kernel
  rcases h.eq_or with rfl | ⟨rfl, rfl⟩ | ⟨rfl, rfl⟩
  · rfl
  · rw [lnBinomial, lnBinomial, if_pos hpos, if_pos hneg]
  · rw [lnBinomial, lnBinomial, if_pos hpos, if_pos hneg]

theorem numeric_flip : Family.flip.Numeric := by
  refine numeric_of (boolOf .flip) flipParams (fun p b => lnBinomial p 1 (if b then 1 else 0))
    (fun _ _ => rfl) fun v w ps qs b p hv hp hb hparam => ?_
  obtain ⟨q, hq, hn⟩ := flipParams_alike hp hparam
  exact ⟨b, q, hv.boolOf hb, hq, (lnBinomial_congr hn _ _).symm⟩

theorem numeric_poisson : Family.poisson.Numeric :=
  numeric_of (intOf .poisson) poissonParams lnPoisson (fun _ _ => rfl)
    fun _ _ _ _ k mean hv hp hk hmean =>
      ⟨k, mean, hv.intOf hk, poissonParams_alike hp hmean, rfl⟩

/-- The distance from the mean may be either zero, and the bell is the same there. -/
theorem lnGaussian_congr {x' y' : Float} (hx : Near x x') (hy : Near y y') (deviation : Float) :
    lnGaussian y deviation x = lnGaussian y' deviation x' := by
  have hd := (hx.sub hy).div deviation
  have hbell := ((Near.refl (-0.5)).mul hd).mul hd
  rw [lnGaussian, lnGaussian, hbell.sub_eq (z := lnSqrtTwoPi) (by decide +kernel)]

theorem numeric_gaussian : Family.gaussian.Numeric := by
  refine numeric_of (floatOf .gaussian) gaussianParams (fun b x => lnGaussian b.1 b.2 x)
    (fun _ _ => rfl) fun v w ps qs x b hv hp hx hb => ?_
  obtain ⟨mean, deviation⟩ := b
  obtain ⟨x', hx', hnx⟩ := hv.floatOf hx
  obtain ⟨mean', hb', hnm⟩ := gaussianParams_alike hp hb
  exact ⟨x', (mean', deviation), hx', hb', (lnGaussian_congr hnx hnm deviation).symm⟩

/-- The density at the lower end is not computed from a logarithm. -/
theorem lnBeta_zeros (a b : Float) : lnBeta a b 0.0 = lnBeta a b (-0.0) := by
  have hpos : Special.closeToZero 0.0 = true := by decide +kernel
  have hneg : Special.closeToZero (-0.0) = true := by decide +kernel
  have hpos₁ : Special.close 0.0 1.0 = false := by decide +kernel
  have hneg₁ : Special.close (-0.0) 1.0 = false := by decide +kernel
  have hsub : (1.0 - 0.0 : Float) = 1.0 - -0.0 := by decide +kernel
  have hin : (decide ((0.0 : Float) ≤ 0.0) && decide ((0.0 : Float) ≤ 1.0)) = true := by
    decide +kernel
  have hin' : (decide ((0.0 : Float) ≤ -0.0) && decide ((-0.0 : Float) ≤ 1.0)) = true := by
    decide +kernel
  simp only [lnBeta, hpos, hneg, hpos₁, hneg₁, hsub, hin, hin', if_true]

theorem numeric_beta : Family.beta.Numeric := by
  refine numeric_of (floatOf .beta) betaParams (fun b x => lnBeta b.1 b.2 x) (fun _ _ => rfl)
    fun v w ps qs x b hv hp hx hb => ?_
  obtain ⟨x', hx', hn⟩ := hv.floatOf hx
  refine ⟨x', b, hx', betaParams_alike hp hb, ?_⟩
  rcases hn.eq_or with rfl | ⟨rfl, rfl⟩ | ⟨rfl, rfl⟩
  · rfl
  · exact (lnBeta_zeros _ _).symm
  · exact lnBeta_zeros _ _

/-! ### The other families -/

end Family

/-- What the logarithm and the floor are at zeros.  Neither is computed here: these are values that
they are documented to have. -/
structure ZeroLaws : Prop where
  log_zero       : Float.log 0.0 = Special.negInfinity
  log_neg_zero   : Float.log (-0.0) = Special.negInfinity
  /-- The logarithm of one is zero, and no logarithm is minus zero. -/
  log_ne         : ∀ x : Float, x.log ≠ -0.0
  floor_zero     : Float.floor 0.0 = 0.0
  floor_neg_zero : Float.floor (-0.0) = -0.0

theorem ZeroLaws.log_eq (laws : ZeroLaws) {x y : Float} (h : Near x y) : x.log = y.log := by
  rcases h.eq_or with rfl | ⟨rfl, rfl⟩ | ⟨rfl, rfl⟩
  · rfl
  · rw [laws.log_zero, laws.log_neg_zero]
  · rw [laws.log_zero, laws.log_neg_zero]

namespace Family

variable {ps qs : List Float} {x y p : Float} {n : UInt64}

theorem uniformParams_alike (hp : Record.LikeParams ps qs) (h : uniformParams ps = .ok (x, y)) :
    ∃ x' y', uniformParams qs = .ok (x', y') ∧ Near x x' ∧ Near y y' := by
  obtain ⟨⟨x₀, y₀⟩, htwo, hacc⟩ := bind_eq_ok.mp h
  obtain ⟨hok, he⟩ := accept_eq_ok.mp hacc
  cases he
  obtain ⟨x', y', hxy', hx, hy⟩ := hp.two htwo
  refine ⟨x', y', bind_eq_ok.mpr ⟨(x', y'), hxy', accept_eq_ok.mpr ⟨?_, rfl⟩⟩, hx, hy⟩
  simpa only [hx.isNaN_eq, hy.isNaN_eq, gt_iff_lt, hy.lt_iff hx] using hok

theorem numeric_uniform (laws : ZeroLaws) : Family.uniform.Numeric := by
  refine numeric_of (floatOf .uniform) uniformParams (fun b x => lnUniform b.1 b.2 x)
    (fun _ _ => rfl) fun v w ps qs x b hv hp hx hb => ?_
  obtain ⟨lo, hi⟩ := b
  obtain ⟨x', hx', hnx⟩ := hv.floatOf hx
  obtain ⟨lo', hi', hb', hlo, hhi⟩ := uniformParams_alike hp hb
  refine ⟨x', (lo', hi'), hx', hb', ?_⟩
  simp only [lnUniform, hnx.lt_iff hlo, gt_iff_lt, hhi.lt_iff hnx, laws.log_eq (hhi.sub hlo)]

theorem near_sum {x y : Float} (hxy : Near x y) (h : List.Forall₂ Near ps qs) :
    Near (ps.foldl (· + ·) x) (qs.foldl (· + ·) y) := by
  induction h generalizing x y with
  | nil => exact hxy
  | cons h _ ih => exact ih (hxy.add h)

theorem any_bad_congr (h : List.Forall₂ Near ps qs) :
    (ps.any fun m => m < 0.0 || m.isNaN) = qs.any fun m => m < 0.0 || m.isNaN := by
  induction h with
  | nil => rfl
  | cons h _ ih => rw [List.any_cons, List.any_cons, ih, h.isNaN_eq, decide_eq_decide.mpr
      (h.lt_iff (.refl 0.0))]

/-- A sum that is not zero is the same. -/
theorem sum_eq (h : List.Forall₂ Near ps qs) (hsum : (ps.foldl (· + ·) 0.0 != 0.0) = true) :
    ps.foldl (· + ·) 0.0 = qs.foldl (· + ·) 0.0 := by
  rcases (near_sum (.refl 0.0) h).eq_or with heq | ⟨hzero, -⟩ | ⟨hzero, -⟩
  · exact heq
  · rw [hzero] at hsum
    exact absurd hsum (by decide +kernel)
  · rw [hzero] at hsum
    exact absurd hsum (by decide +kernel)

theorem categoricalParams_alike {ms : List Float} (hp : Record.LikeParams ps qs)
    (h : categoricalParams ps = .ok ms) : categoricalParams qs = .ok qs ∧ ms = ps ∧
      ps.foldl (· + ·) 0.0 = qs.foldl (· + ·) 0.0 := by
  have hn := hp.forall₂
  rw [categoricalParams] at h
  split at h
  · cases h
  · rename_i hne
    obtain ⟨hok, rfl⟩ := accept_eq_ok.mp h
    have hsum : ps.foldl (· + ·) 0.0 = qs.foldl (· + ·) 0.0 :=
      sum_eq hn ((Bool.and_eq_true _ _).mp hok).2
    have hne' : ¬ qs.isEmpty = true := by
      rwa [List.isEmpty_iff_length_eq_zero, ← hn.length_eq, ← List.isEmpty_iff_length_eq_zero]
    refine ⟨?_, rfl, hsum⟩
    rw [categoricalParams, if_neg hne']
    exact accept_eq_ok.mpr ⟨by rw [← any_bad_congr hn, ← hsum, hok], rfl⟩

theorem numeric_categorical (laws : ZeroLaws) : Family.categorical.Numeric := by
  refine numeric_of (intOf .categorical) categoricalParams lnCategorical (fun _ _ => rfl)
    fun v w ps qs i ms hv hp hi hms => ?_
  obtain ⟨hqs, rfl, hsum⟩ := categoricalParams_alike hp hms
  refine ⟨i, qs, hv.intOf hi, hqs, ?_⟩
  rw [lnCategorical, lnCategorical, ← hsum]
  have hlen := hp.forall₂.length_eq
  by_cases hlt : i.toNat < ms.length
  · rw [List.getElem?_eq_getElem hlt, List.getElem?_eq_getElem (hlen ▸ hlt)]
    exact (laws.log_eq ((hp.forall₂.get hlt (hlen ▸ hlt)).div _)).symm
  · rw [List.getElem?_eq_none (by omega), List.getElem?_eq_none (by omega)]

theorem isCount_congr (laws : ZeroLaws) (h : Near x y) : isCount x = isCount y := by
  have hzeros : isCount 0.0 = isCount (-0.0) := by
    rw [isCount, isCount, laws.floor_zero, laws.floor_neg_zero]
    decide +kernel
  rcases h.eq_or with rfl | ⟨rfl, rfl⟩ | ⟨rfl, rfl⟩
  · rfl
  · exact hzeros
  · exact hzeros.symm

theorem toUInt64_congr (h : Near x y) : x.toUInt64 = y.toUInt64 := by
  rcases h.eq_or with rfl | ⟨rfl, rfl⟩ | ⟨rfl, rfl⟩
  · rfl
  · decide +kernel
  · decide +kernel

theorem trials_alike (laws : ZeroLaws) (hp : Record.LikeParams ps qs)
    (h : trials ps = .ok (p, n)) : ∃ q, trials qs = .ok (q, n) ∧ Near p q := by
  obtain ⟨⟨p₀, x⟩, htwo, h⟩ := bind_eq_ok.mp h
  obtain ⟨q, y, htwo', hpq, hxy⟩ := hp.two htwo
  simp only at h
  split at h
  · rename_i hcount
    cases h
    refine ⟨q, bind_eq_ok.mpr ⟨(q, y), htwo', ?_⟩, hpq⟩
    simp only
    rw [if_pos (isCount_congr laws hxy ▸ hcount), toUInt64_congr hxy]
    rfl
  · cases h

theorem binomialParams_alike (laws : ZeroLaws) (hp : Record.LikeParams ps qs)
    (h : binomialParams ps = .ok (p, n)) : ∃ q, binomialParams qs = .ok (q, n) ∧ Near p q := by
  obtain ⟨⟨p₀, n₀⟩, htrials, hacc⟩ := bind_eq_ok.mp h
  obtain ⟨hok, he⟩ := accept_eq_ok.mp hacc
  cases he
  obtain ⟨q, hq, hn⟩ := trials_alike laws hp htrials
  exact ⟨q, bind_eq_ok.mpr ⟨(q, n), hq, accept_eq_ok.mpr ⟨isProbability_congr hn ▸ hok, rfl⟩⟩, hn⟩

theorem numeric_binomial (laws : ZeroLaws) : Family.binomial.Numeric := by
  refine numeric_of (intOf .binomial) binomialParams (fun b k => lnBinomial b.1 b.2 k)
    (fun _ _ => rfl) fun v w ps qs k b hv hp hk hb => ?_
  obtain ⟨p, n⟩ := b
  obtain ⟨q, hq, hn⟩ := binomialParams_alike laws hp hb
  exact ⟨k, (q, n), hv.intOf hk, hq, (lnBinomial_congr hn n k).symm⟩

theorem gammaParams_alike (hp : Record.LikeParams ps qs) (h : gammaParams ps = .ok (x, y)) :
    gammaParams qs = .ok (x, y) := by
  obtain ⟨⟨shape, scale⟩, htwo, h⟩ := bind_eq_ok.mp h
  obtain ⟨shape', scale', htwo', hshape, hscale⟩ := hp.two htwo
  simp only at h
  split at h
  · cases h
  · rename_i hpos
    obtain rfl := hscale.eq_of_not_le hpos
    obtain ⟨hok, he⟩ := accept_eq_ok.mp h
    cases he
    obtain ⟨rfl, -⟩ := eq_of_arePositive hok hshape (.refl _)
    refine bind_eq_ok.mpr ⟨_, htwo', ?_⟩
    simp only
    rw [if_neg hpos]
    exact h

/-- At either zero the density of a gamma is made of the same infinities. -/
theorem lnGammaDensity_zeros (laws : ZeroLaws) (shape rate : Float) :
    lnGammaDensity shape rate 0.0 = lnGammaDensity shape rate (-0.0) := by
  have hzeros : Near (rate * 0.0) (rate * -0.0) :=
    (Near.refl rate).mul (.inr ⟨.positive, .negative, rfl, rfl⟩)
  have hpos : ¬ (0.0 : Float) < 0.0 := by decide +kernel
  have hneg : ¬ (-0.0 : Float) < 0.0 := by decide +kernel
  have hpos' : (0.0 : Float).isInf = false := by decide +kernel
  have hneg' : (-0.0 : Float).isInf = false := by decide +kernel
  simp only [lnGammaDensity, if_neg hpos, if_neg hneg, hpos', hneg', laws.log_zero,
    laws.log_neg_zero, hzeros.sub_right_eq (laws.log_ne rate),
    hzeros.sub_right_eq (Binary.add_mul_negInfinity_ne _ _)]

theorem numeric_gamma (laws : ZeroLaws) : Family.gamma.Numeric := by
  refine numeric_of (floatOf .gamma) gammaParams (fun b x => lnGammaDensity b.1 b.2 x)
    (fun _ _ => rfl) fun v w ps qs x b hv hp hx hb => ?_
  obtain ⟨x', hx', hn⟩ := hv.floatOf hx
  refine ⟨x', b, hx', gammaParams_alike hp hb, ?_⟩
  rcases hn.eq_or with rfl | ⟨rfl, rfl⟩ | ⟨rfl, rfl⟩
  · rfl
  · exact (lnGammaDensity_zeros laws _ _).symm
  · exact lnGammaDensity_zeros laws _ _

/-- **Every family scores equal values under equal parameters alike.** -/
theorem numeric (laws : ZeroLaws) (f : Family) : f.Numeric := by
  cases f with
  | flip => exact numeric_flip
  | categorical => exact numeric_categorical laws
  | binomial => exact numeric_binomial laws
  | poisson => exact numeric_poisson
  | uniform => exact numeric_uniform laws
  | gaussian => exact numeric_gaussian
  | gamma => exact numeric_gamma laws
  | beta => exact numeric_beta

end Family

end ProbTrace
