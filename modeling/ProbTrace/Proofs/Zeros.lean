import Mathlib
import ProbTrace.Proofs.Refreshing

/-!
# Proofs — Zeros: equal as numbers

Doubles are compared as numbers: a NaN is equal to nothing, and the two zeros are equal.  Apart from
that equal doubles are the same double (`Binary.Near.eq_or`).  So equality of parameters and of
values is symmetric and transitive like that of doubles, and all it overlooks is the signs of zeros.

`Family.Numeric` says that a family overlooks them as well.
-/

namespace ProbTrace

open Float.Model Float.Model.UnpackedFloat

/-! ### Doubles -/

namespace Binary

/-- The two numbers are the same but for the sign of a zero. -/
def Twins (u v : UnpackedFloat) : Prop := u = v ∨ ∃ s s', u = .zero s ∧ v = .zero s'

theorem Twins.trans {u v w : UnpackedFloat} (h : Twins u v) (h' : Twins v w) : Twins u w := by
  rcases h with rfl | ⟨s, s', rfl, rfl⟩
  · exact h'
  · rcases h' with rfl | ⟨-, t, -, rfl⟩
    · exact .inr ⟨s, s', rfl, rfl⟩
    · exact .inr ⟨s, t, rfl, rfl⟩

/-- The number that a double stands for. -/
def number (x : Float) : UnpackedFloat := x.toModel.unpack

variable {x y : Float}

theorem number_inj : number x = number y ↔ x = y :=
  (unpack_inj_of_valid x.toModel.valid y.toModel.valid).trans
    (UInt64.toBitVec_inj.trans Float.toBits_inj)

/-- The doubles are the same but for the sign of a zero. -/
def Near (x y : Float) : Prop := Twins (number x) (number y)

theorem Near.refl (x : Float) : Near x x := .inl rfl

theorem near_of_beq (h : (x == y) = true) : Near x y := by
  obtain ⟨-, -, rfl | ⟨rfl, rfl⟩ | ⟨rfl, rfl⟩⟩ := Float.beq_iff_ne_nan_and_eq.mp h
  · exact .refl x
  · exact .inr ⟨.positive, .negative, rfl, rfl⟩
  · exact .inr ⟨.negative, .positive, rfl, rfl⟩

/-- Doubles that differ are the two zeros. -/
theorem Near.eq_or (h : Near x y) : x = y ∨ x = 0.0 ∧ y = -0.0 ∨ x = -0.0 ∧ y = 0.0 := by
  have hpos : number 0.0 = .zero .positive := by rfl
  have hneg : number (-0.0) = .zero .negative := by rfl
  rcases h with h | ⟨s, s', hx, hy⟩
  · exact .inl (number_inj.mp h)
  · cases s <;> cases s'
    · exact .inl (number_inj.mp (hx.trans hy.symm))
    · exact .inr (.inr ⟨number_inj.mp (hx.trans hneg.symm), number_inj.mp (hy.trans hpos.symm)⟩)
    · exact .inr (.inl ⟨number_inj.mp (hx.trans hpos.symm), number_inj.mp (hy.trans hneg.symm)⟩)
    · exact .inl (number_inj.mp (hx.trans hy.symm))

end Binary

/-! ### Parameters and values -/

namespace Record

theorem sameParams_symm : ∀ {ps qs : List Float}, sameParams ps qs = true →
    sameParams qs ps = true
  | [], [], _ => rfl
  | [], _ :: _, h => by cases h
  | _ :: _, [], h => by cases h
  | p :: ps, q :: qs, h => by
      rw [sameParams, Bool.and_eq_true] at h ⊢
      exact ⟨BEq.symm h.1, sameParams_symm h.2⟩

theorem sameParams_trans : ∀ {ps qs rs : List Float}, sameParams ps qs = true →
    sameParams qs rs = true → sameParams ps rs = true
  | [], [], [], _, _ => rfl
  | [], [], _ :: _, _, h => by cases h
  | [], _ :: _, _, h, _ => by cases h
  | _ :: _, [], _, h, _ => by cases h
  | _ :: _, _ :: _, [], _, h => by cases h
  | p :: ps, q :: qs, r :: rs, h, h' => by
      rw [sameParams, Bool.and_eq_true] at h h' ⊢
      exact ⟨BEq.trans h.1 h'.1, sameParams_trans h.2 h'.2⟩

/-- Two lists of parameters are identical, or equal number by number. -/
def LikeParams (ps qs : List Float) : Prop := ps = qs ∨ sameParams ps qs = true

theorem LikeParams.symm {ps qs : List Float} (h : LikeParams ps qs) : LikeParams qs ps :=
  h.imp Eq.symm sameParams_symm

theorem LikeParams.trans {ps qs rs : List Float} (h : LikeParams ps qs) (h' : LikeParams qs rs) :
    LikeParams ps rs := by
  rcases h with rfl | h
  · exact h'
  · rcases h' with rfl | h'
    · exact .inr h
    · exact .inr (sameParams_trans h h')

end Record

namespace Value

mutual

theorem same_symm : ∀ {v w : Value}, v.same w = true → w.same v = true
  | .bool a, .bool b, h | .int a, .int b, h => by
      rw [same, beq_iff_eq] at h ⊢
      exact h.symm
  | .float a, .float b, h => by
      rw [same] at h ⊢
      exact BEq.symm h
  | .vec vs, .vec ws, h => by
      rw [same] at h ⊢
      exact sameAll_symm h
  | .bool _, .int _, h | .bool _, .float _, h | .bool _, .vec _, h | .int _, .bool _, h
  | .int _, .float _, h | .int _, .vec _, h | .float _, .bool _, h | .float _, .int _, h
  | .float _, .vec _, h | .vec _, .bool _, h | .vec _, .int _, h | .vec _, .float _, h => by
      simp [same] at h

theorem sameAll_symm : ∀ {vs ws : List Value}, sameAll vs ws = true → sameAll ws vs = true
  | [], [], _ => rfl
  | [], _ :: _, h | _ :: _, [], h => by simp [sameAll] at h
  | v :: vs, w :: ws, h => by
      rw [sameAll, Bool.and_eq_true] at h ⊢
      exact ⟨same_symm h.1, sameAll_symm h.2⟩

end

mutual

theorem same_trans : ∀ {u v w : Value}, u.same v = true → v.same w = true → u.same w = true
  | .bool a, .bool b, w, h, h' | .int a, .int b, w, h, h' => by
      rw [same, beq_iff_eq] at h
      exact h ▸ h'
  | .float a, .float b, .float c, h, h' => by
      rw [same] at h h' ⊢
      exact BEq.trans h h'
  | .vec us, .vec vs, .vec ws, h, h' => by
      rw [same] at h h' ⊢
      exact sameAll_trans h h'
  | .float _, .float _, .bool _, _, h | .float _, .float _, .int _, _, h
  | .float _, .float _, .vec _, _, h | .vec _, .vec _, .bool _, _, h
  | .vec _, .vec _, .int _, _, h | .vec _, .vec _, .float _, _, h => by simp [same] at h
  | .bool _, .int _, _, h, _ | .bool _, .float _, _, h, _ | .bool _, .vec _, _, h, _
  | .int _, .bool _, _, h, _ | .int _, .float _, _, h, _ | .int _, .vec _, _, h, _
  | .float _, .bool _, _, h, _ | .float _, .int _, _, h, _ | .float _, .vec _, _, h, _
  | .vec _, .bool _, _, h, _ | .vec _, .int _, _, h, _ | .vec _, .float _, _, h, _ => by
      simp [same] at h

theorem sameAll_trans : ∀ {us vs ws : List Value}, sameAll us vs = true →
    sameAll vs ws = true → sameAll us ws = true
  | [], [], _, _, h => h
  | [], _ :: _, _, h, _ | _ :: _, [], _, h, _ | _ :: _, _ :: _, [], _, h => by
      simp [sameAll] at h
  | u :: us, v :: vs, w :: ws, h, h' => by
      rw [sameAll, Bool.and_eq_true] at h h' ⊢
      exact ⟨same_trans h.1 h'.1, sameAll_trans h.2 h'.2⟩

end

/-- Two values are identical, or equal as the program sees it. -/
def Like (v w : Value) : Prop := v = w ∨ v.same w = true

theorem Like.symm {v w : Value} (h : v.Like w) : w.Like v := h.imp Eq.symm same_symm

end Value

/-- The family scores equal values under equal parameters alike: it does not look at the signs of
zeros. -/
def Family.Numeric (f : Family) : Prop :=
  ∀ ⦃v w : Value⦄ ⦃ps qs : List Float⦄ ⦃lp : Float⦄, v.Like w → Record.LikeParams ps qs →
    f.logDensity v ps = .ok lp → f.logDensity w qs = .ok lp

end ProbTrace
