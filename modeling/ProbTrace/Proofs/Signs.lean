import ProbTrace.Proofs.Zeros

/-!
# Proofs — Signs: arithmetic and the signs of zeros

Addition, subtraction, multiplication, and division by a number that is not in doubt, carry the
sign of a zero along: near operands have near results (`Binary.Near.sub`).  Where a number that is
not a zero is added or subtracted the sign is lost, and the results are the same double
(`Binary.Near.sub_eq`).  Comparisons do not see it at all (`Binary.Near.lt_iff`).
-/

namespace ProbTrace

open Float.Model Float.Model.UnpackedFloat

namespace Binary

/-! ### Arithmetic on twins -/

section

variable {α : Type} {spec : Format} {u u' v v' : UnpackedFloat}

/-- What takes zeros to twins takes twins to twins. -/
theorem Twins.map {f : UnpackedFloat → UnpackedFloat} (h : Twins u u')
    (hf : ∀ s s', Twins (f (.zero s)) (f (.zero s'))) : Twins (f u) (f u') := by
  rcases h with rfl | ⟨s, s', rfl, rfl⟩
  · exact .inl rfl
  · exact hf s s'

/-- What does not tell zeros apart does not tell twins apart. -/
theorem Twins.congr {f : UnpackedFloat → α} (h : Twins u u')
    (hf : ∀ s s', f (.zero s) = f (.zero s')) : f u = f u' := by
  rcases h with rfl | ⟨s, s', rfl, rfl⟩
  · rfl
  · exact hf s s'

theorem Twins.add_left (h : Twins u u') (v : UnpackedFloat) :
    Twins (UnpackedFloat.add spec u v) (UnpackedFloat.add spec u' v) := by
  refine h.map (f := (UnpackedFloat.add spec · v)) fun s s' => ?_
  cases v with
  | zero t => cases s <;> cases s' <;> cases t <;> exact .inr ⟨_, _, rfl, rfl⟩
  | _ => exact .inl rfl

theorem Twins.add_right (h : Twins v v') (u : UnpackedFloat) :
    Twins (UnpackedFloat.add spec u v) (UnpackedFloat.add spec u v') := by
  refine h.map fun s s' => ?_
  cases u with
  | zero t => cases s <;> cases s' <;> cases t <;> exact .inr ⟨_, _, rfl, rfl⟩
  | _ => exact .inl rfl

theorem Twins.sub_left (h : Twins u u') (v : UnpackedFloat) :
    Twins (UnpackedFloat.sub spec u v) (UnpackedFloat.sub spec u' v) := by
  refine h.map (f := (UnpackedFloat.sub spec · v)) fun s s' => ?_
  cases v with
  | zero t => cases s <;> cases s' <;> cases t <;> exact .inr ⟨_, _, rfl, rfl⟩
  | _ => exact .inl rfl

theorem Twins.sub_right (h : Twins v v') (u : UnpackedFloat) :
    Twins (UnpackedFloat.sub spec u v) (UnpackedFloat.sub spec u v') := by
  refine h.map fun s s' => ?_
  cases u with
  | zero t => cases s <;> cases s' <;> cases t <;> exact .inr ⟨_, _, rfl, rfl⟩
  | _ => exact .inl rfl

theorem Twins.mul_left (h : Twins u u') (v : UnpackedFloat) :
    Twins (UnpackedFloat.mul spec u v) (UnpackedFloat.mul spec u' v) := by
  refine h.map (f := (UnpackedFloat.mul spec · v)) fun s s' => ?_
  cases v with
  | notANumber | infinity => exact .inl rfl
  | zero | finite => exact .inr ⟨_, _, rfl, rfl⟩

theorem Twins.mul_right (h : Twins v v') (u : UnpackedFloat) :
    Twins (UnpackedFloat.mul spec u v) (UnpackedFloat.mul spec u v') := by
  refine h.map fun s s' => ?_
  cases u with
  | notANumber | infinity => exact .inl rfl
  | zero | finite => exact .inr ⟨_, _, rfl, rfl⟩

theorem Twins.div_left (h : Twins u u') (v : UnpackedFloat) :
    Twins (UnpackedFloat.div spec u v) (UnpackedFloat.div spec u' v) := by
  refine h.map (f := (UnpackedFloat.div spec · v)) fun s s' => ?_
  cases v with
  | notANumber | zero => exact .inl rfl
  | infinity | finite => exact .inr ⟨_, _, rfl, rfl⟩

theorem Twins.compare_left (h : Twins u u') (v : UnpackedFloat) : u.compare v = u'.compare v := by
  refine h.congr (f := (UnpackedFloat.compare · v)) fun s s' => ?_
  cases v with
  | infinity t => cases t <;> rfl
  | finite t => cases t <;> rfl
  | _ => rfl

theorem Twins.compare_right (h : Twins v v') (u : UnpackedFloat) :
    u.compare v = u.compare v' := by
  refine h.congr fun s s' => ?_
  cases u with
  | infinity t => cases t <;> rfl
  | finite t => cases t <;> rfl
  | _ => rfl

/-- A number that is not a zero takes the sign of a zero away. -/
theorem Twins.sub_eq (h : Twins u u') (hv : ∀ s, v ≠ .zero s) :
    UnpackedFloat.sub spec u v = UnpackedFloat.sub spec u' v := by
  refine h.congr (f := (UnpackedFloat.sub spec · v)) fun s s' => ?_
  cases v with
  | zero t => exact absurd rfl (hv t)
  | _ => rfl

/-- And so it does where it is taken away from: all but minus zero. -/
theorem Twins.sub_right_eq (h : Twins v v') (hu : u ≠ .zero .negative) :
    UnpackedFloat.sub spec u v = UnpackedFloat.sub spec u v' := by
  refine h.congr fun s s' => ?_
  cases u with
  | zero t =>
      cases t with
      | negative => exact absurd rfl hu
      | positive => cases s <;> cases s' <;> rfl
  | _ => rfl

theorem isFinite_mul_infinity (u : UnpackedFloat) (s : Sign) :
    (UnpackedFloat.mul spec u (.infinity s)).isFinite = false := by
  cases u <;> rfl

theorem isFinite_add (u : UnpackedFloat) (hv : v.isFinite = false) :
    (UnpackedFloat.add spec u v).isFinite = false := by
  cases v with
  | notANumber => cases u <;> rfl
  | infinity s =>
      cases u with
      | infinity t => cases s <;> cases t <;> rfl
      | _ => rfl
  | zero s => cases hv
  | finite s => cases hv

end

/-- A number as it is read back from the word that it is rounded to. -/
def repack (u : UnpackedFloat) : UnpackedFloat := (Float.Model.pack u).unpack

theorem Twins.repack {u v : UnpackedFloat} (h : Twins u v) : Twins (repack u) (repack v) := by
  have hz : ∀ s, Binary.repack (.zero s) = .zero s := fun s => by cases s <;> rfl
  exact h.map fun s s' => .inr ⟨s, s', hz s, hz s'⟩

theorem isFinite_repack {u : UnpackedFloat} (h : u.isFinite = false) :
    (repack u).isFinite = false := by
  cases u with
  | notANumber => rfl
  | infinity s => cases s <;> rfl
  | zero s => cases h
  | finite s => cases h

/-! ### Arithmetic on doubles -/

variable {x x' y y' z : Float}

theorem number_sub (x y : Float) :
    number (x - y) = repack (UnpackedFloat.sub .binary64 (number x) (number y)) := rfl

theorem Near.add (h : Near x x') (h' : Near y y') : Near (x + y) (x' + y') :=
  ((h.add_left (number y)).trans (h'.add_right (number x'))).repack

theorem Near.sub (h : Near x x') (h' : Near y y') : Near (x - y) (x' - y') :=
  ((h.sub_left (number y)).trans (h'.sub_right (number x'))).repack

theorem Near.mul (h : Near x x') (h' : Near y y') : Near (x * y) (x' * y') :=
  ((Twins.mul_left h (number y)).trans (Twins.mul_right h' (number x'))).repack

theorem Near.div (h : Near x x') (z : Float) : Near (x / z) (x' / z) :=
  (Twins.div_left h (number z)).repack

/-- A double that is not equal to zero does not stand for a zero. -/
theorem number_ne_zero (hz : (z == 0.0) = false) (s : Sign) : number z ≠ .zero s := by
  intro hs
  cases s with
  | positive =>
      obtain rfl : z = 0.0 := number_inj.mp hs
      exact absurd hz (by decide +kernel)
  | negative =>
      obtain rfl : z = -0.0 := number_inj.mp hs
      exact absurd hz (by decide +kernel)

theorem Near.sub_eq (h : Near x x') (hz : (z == 0.0) = false) : x - z = x' - z := by
  refine number_inj.mp ?_
  rw [number_sub, number_sub, Twins.sub_eq h (number_ne_zero hz)]

theorem Near.sub_right_eq (h : Near y y') (hx : x ≠ -0.0) : x - y = x - y' := by
  have hneg : number (-0.0) = .zero .negative := by rfl
  refine number_inj.mp ?_
  rw [number_sub, number_sub,
    Twins.sub_right_eq h fun hu => hx (number_inj.mp (hu.trans hneg.symm))]

/-- What a multiple of minus infinity is added to is not minus zero. -/
theorem add_mul_negInfinity_ne (x y : Float) : x + y * Special.negInfinity ≠ -0.0 := by
  intro h
  have hinf : number Special.negInfinity = .infinity .negative := by rfl
  have hmul : (y * Special.negInfinity).isFinite = false := by
    refine isFinite_repack ?_
    show (UnpackedFloat.mul .binary64 (number y) (number Special.negInfinity)).isFinite = false
    rw [hinf]
    exact isFinite_mul_infinity _ _
  have hadd : (x + y * Special.negInfinity).isFinite = false :=
    isFinite_repack (isFinite_add _ hmul)
  rw [h] at hadd
  revert hadd
  decide +kernel

theorem compare_eq (h : Near x x') (h' : Near y y') :
    (number x).compare (number y) = (number x').compare (number y') :=
  (h.compare_left (number y)).trans (h'.compare_right (number x'))

theorem lt_iff : x < y ↔ ((number x).compare (number y) == some .lt) = true := by
  show decide (x.toModel < y.toModel) = true ↔ _
  rw [decide_eq_true_iff]
  rfl

theorem Near.lt_iff (h : Near x x') (h' : Near y y') : x < y ↔ x' < y' := by
  rw [Binary.lt_iff, Binary.lt_iff, compare_eq h h']

theorem Near.isNaN_eq (h : Near x x') : x.isNaN = x'.isNaN :=
  Twins.congr h (f := UnpackedFloat.isNaN) fun _ _ => rfl

/-- A number that is near one that is positive is that number. -/
theorem Near.eq_of_not_le (h : Near x x') (hx : ¬ x ≤ 0.0) : x = x' := by
  rcases h.eq_or with rfl | ⟨rfl, -⟩ | ⟨rfl, -⟩
  · rfl
  · exact absurd (by decide +kernel) hx
  · exact absurd (by decide +kernel) hx

end Binary

end ProbTrace
