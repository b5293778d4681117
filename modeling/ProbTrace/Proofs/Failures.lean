import ProbTrace.Family.Density
import ProbTrace.Family.Domain
import ProbTrace.Family.Sampling

/-!
# Proofs — Failures: the errors of the families

Scoring a value and drawing one fail in two ways only: the family does not accept the parameters
(`Family.check`), or the value is of the wrong kind (`Family.checkValue`).  Scoring looks at the
value first (`logDensity_eq_error_iff`), and a draw has only the parameters to fail on, whatever
the generator (`sample_eq_error_iff`).  A draw may besides break an assumption or use up the rounds
of a loop; neither is an error that a program receives.

What has been drawn can be scored (`exists_logDensity_of_sample`).
-/

namespace ProbTrace

/-- The error is about the parameters of a family, or about the kind of a value. -/
def Error.OfFamily : Error → Prop
  | .invalidParams .. | .typeMismatch .. => True
  | _ => False

/-- The fault, if it is an error, is about the parameters of a family, or the kind of a value. -/
def Fault.OfFamily : Fault → Prop
  | .error e => e.OfFamily
  | .defect _ | .unfinished => True

/-- The fault is no error that a program receives. -/
def Fault.Grave : Fault → Prop
  | .error _ => False
  | .defect _ | .unfinished => True

/-- The fault is one that a sampler may have: an assumption of its own that is broken, or a loop
that used up its rounds. -/
def Fault.OfDraw : Fault → Prop
  | .unfinished | .defect .massNotReached | .defect .rangeNotFinite => True
  | _ => False

/-- The fault is an error, or one of a sampler: nothing else that was relied on has broken. -/
def Fault.Usual (fault : Fault) : Prop := (∃ e, fault = .error e) ∨ fault.OfDraw

/-- The answer fails in the ways that `P` allows only. -/
def Raises {ε α : Type} (P : ε → Prop) (answer : Except ε α) : Prop :=
  ∀ e, answer = .error e → P e

section Raises

variable {ε α β : Type} {P : ε → Prop}

theorem raises_ok (a : α) : Raises P (.ok a) := fun _ h => by cases h

theorem raises_error {e : ε} (h : P e) : Raises P (.error e : Except ε α) := fun _ he => by
  cases he
  exact h

theorem Raises.bind {x : Except ε α} {f : α → Except ε β} (hx : Raises P x)
    (hf : ∀ a, Raises P (f a)) : Raises P (x >>= f) := by
  intro e h
  cases hc : x with
  | error e' =>
      rw [hc] at h
      cases h
      exact hx e hc
  | ok a =>
      rw [hc] at h
      exact hf a e h

end Raises

/-! ### Parameters and densities -/

namespace Family

theorem raises_invalid {α : Type} (f : Family) (detail : String) :
    Raises Error.OfFamily (f.invalid detail : Except Error α) := raises_error trivial

theorem raises_accept {α : Type} (f : Family) (ok : Bool) (a : α) :
    Raises Error.OfFamily (f.accept ok a) := by
  rw [accept]
  split
  · exact raises_ok a
  · exact f.raises_invalid _

theorem raises_one (f : Family) (params : List Float) : Raises Error.OfFamily (f.one params) := by
  simp only [one]
  split
  · exact raises_ok _
  · exact f.raises_invalid _

theorem raises_two (f : Family) (params : List Float) : Raises Error.OfFamily (f.two params) := by
  simp only [two]
  split
  · exact raises_ok _
  · exact f.raises_invalid _

theorem raises_boolOf (f : Family) (v : Value) : Raises Error.OfFamily (f.boolOf v) := by
  rw [boolOf]
  split
  · exact raises_ok _
  · exact raises_error trivial

theorem raises_intOf (f : Family) (v : Value) : Raises Error.OfFamily (f.intOf v) := by
  rw [intOf]
  split
  · exact raises_ok _
  · exact raises_error trivial

theorem raises_floatOf (f : Family) (v : Value) : Raises Error.OfFamily (f.floatOf v) := by
  rw [floatOf]
  split
  · exact raises_ok _
  · exact raises_error trivial

variable (params : List Float)

theorem raises_flipParams : Raises Error.OfFamily (flipParams params) :=
  (raises_one _ _).bind fun _ => raises_accept _ _ _

theorem raises_categoricalParams : Raises Error.OfFamily (categoricalParams params) := by
  rw [categoricalParams]
  split
  · exact raises_invalid _ _
  · exact raises_accept _ _ _

theorem raises_trials : Raises Error.OfFamily (trials params) :=
  (raises_two _ _).bind fun (_, n) => by
    simp only
    split
    · exact raises_ok _
    · exact raises_invalid _ _

theorem raises_binomialParams : Raises Error.OfFamily (binomialParams params) :=
  (raises_trials params).bind fun _ => raises_accept _ _ _

theorem raises_poissonParams : Raises Error.OfFamily (poissonParams params) :=
  (raises_one _ _).bind fun _ => raises_accept _ _ _

theorem raises_uniformParams : Raises Error.OfFamily (uniformParams params) :=
  (raises_two _ _).bind fun _ => raises_accept _ _ _

theorem raises_gaussianParams : Raises Error.OfFamily (gaussianParams params) :=
  (raises_two _ _).bind fun _ => raises_accept _ _ _

theorem raises_gammaParams : Raises Error.OfFamily (gammaParams params) :=
  (raises_two _ _).bind fun (_, scale) => by
    simp only
    split
    · exact raises_invalid _ _
    · exact raises_accept _ _ _

theorem raises_betaParams : Raises Error.OfFamily (betaParams params) :=
  (raises_two _ _).bind fun _ => raises_accept _ _ _

/-- What the family says of the parameters. -/
def check : Family → List Float → Except Error Unit
  | .flip,        ps => (flipParams ps).map fun _ => ()
  | .categorical, ps => (categoricalParams ps).map fun _ => ()
  | .binomial,    ps => (binomialParams ps).map fun _ => ()
  | .poisson,     ps => (poissonParams ps).map fun _ => ()
  | .uniform,     ps => (uniformParams ps).map fun _ => ()
  | .gaussian,    ps => (gaussianParams ps).map fun _ => ()
  | .gamma,       ps => (gammaParams ps).map fun _ => ()
  | .beta,        ps => (betaParams ps).map fun _ => ()

/-- What the family says of the kind of a value. -/
def checkValue : Family → Value → Except Error Unit
  | .flip,        v => (boolOf .flip v).map fun _ => ()
  | .categorical, v => (intOf .categorical v).map fun _ => ()
  | .binomial,    v => (intOf .binomial v).map fun _ => ()
  | .poisson,     v => (intOf .poisson v).map fun _ => ()
  | .uniform,     v => (floatOf .uniform v).map fun _ => ()
  | .gaussian,    v => (floatOf .gaussian v).map fun _ => ()
  | .gamma,       v => (floatOf .gamma v).map fun _ => ()
  | .beta,        v => (floatOf .beta v).map fun _ => ()

theorem raises_map {α β : Type} {answer : Except Error α} (h : Raises Error.OfFamily answer)
    (f : α → β) : Raises Error.OfFamily (answer.map f) := by
  cases answer with
  | ok a => exact raises_ok _
  | error e => exact raises_error (h e rfl)

theorem raises_check (f : Family) : Raises Error.OfFamily (f.check params) := by
  cases f with
  | flip => exact raises_map (raises_flipParams params) _
  | categorical => exact raises_map (raises_categoricalParams params) _
  | binomial => exact raises_map (raises_binomialParams params) _
  | poisson => exact raises_map (raises_poissonParams params) _
  | uniform => exact raises_map (raises_uniformParams params) _
  | gaussian => exact raises_map (raises_gaussianParams params) _
  | gamma => exact raises_map (raises_gammaParams params) _
  | beta => exact raises_map (raises_betaParams params) _

theorem raises_checkValue (f : Family) (v : Value) : Raises Error.OfFamily (f.checkValue v) := by
  cases f with
  | flip => exact raises_map (raises_boolOf _ v) _
  | categorical | binomial | poisson => exact raises_map (raises_intOf _ v) _
  | uniform | gaussian | gamma | beta => exact raises_map (raises_floatOf _ v) _

/-- Two answers that are needed both fail as the first one of them does that fails. -/
theorem bind_bind_eq_error_iff {α β γ : Type} {x : Except Error α} {y : Except Error β}
    {h : α → β → γ} {e : Error} :
    (x >>= fun a => y >>= fun b => Except.ok (h a b)) = .error e ↔
      x.map (fun _ => ()) = .error e ∨
        x.map (fun _ => ()) = .ok () ∧ y.map (fun _ => ()) = .error e := by
  cases x <;> cases y <;> simp [bind, Except.bind, Except.map]

/-- **Scoring fails on the kind of the value, and then on the parameters**, and in no other way. -/
theorem logDensity_eq_error_iff (f : Family) (v : Value) (e : Error) :
    f.logDensity v params = .error e ↔
      f.checkValue v = .error e ∨ f.checkValue v = .ok () ∧ f.check params = .error e := by
  cases f <;> exact bind_bind_eq_error_iff

theorem raises_logDensity (f : Family) (v : Value) :
    Raises Error.OfFamily (f.logDensity v params) := by
  intro e he
  rcases (logDensity_eq_error_iff params f v e).mp he with h | ⟨-, h⟩
  · exact f.raises_checkValue v e h
  · exact raises_check params f e h

/-- What the family accepts can be scored. -/
theorem exists_logDensity {f : Family} {v : Value} (hv : f.checkValue v = .ok ())
    (hp : f.check params = .ok ()) : ∃ lp, f.logDensity v params = .ok lp := by
  cases h : f.logDensity v params with
  | ok lp => exact ⟨lp, rfl⟩
  | error e =>
      rcases (logDensity_eq_error_iff params f v e).mp h with he | ⟨-, he⟩
      · cases hv.symm.trans he
      · cases hp.symm.trans he

/-- What can be scored is accepted. -/
theorem check_of_logDensity {f : Family} {v : Value} {lp : Float}
    (h : f.logDensity v params = .ok lp) : f.checkValue v = .ok () ∧ f.check params = .ok () := by
  have hne : ∀ e, ¬ (f.checkValue v = .error e ∨ f.checkValue v = .ok () ∧
      f.check params = .error e) := fun e he => by
    rw [(logDensity_eq_error_iff params f v e).mpr he] at h
    cases h
  cases hv : f.checkValue v with
  | error e => exact absurd (.inl hv) (hne e)
  | ok _ =>
      cases hp : f.check params with
      | error e => exact absurd (.inr ⟨hv, hp⟩) (hne e)
      | ok _ => exact ⟨rfl, rfl⟩

end Family

/-! ### Draws -/

namespace Draw

variable {α β σ : Type}

/-- From no generator does the draw give an error: it fails as a sampler does only. -/
def Plain (d : Draw α) : Prop := ∀ g, Raises Fault.OfDraw (d g)

theorem plain_pure (a : α) : Plain (pure a) := fun _ => raises_ok _

theorem Plain.bind {d : Draw α} {f : α → Draw β} (hd : Plain d) (hf : ∀ a, Plain (f a)) :
    Plain (d >>= f) :=
  fun g => (hd g).bind fun (a, g') => hf a g'

theorem plain_stop {fault : Fault} (h : fault.OfDraw) : Plain (stop fault : Draw α) :=
  fun _ => raises_error h

theorem plain_word : Plain word := fun _ => raises_ok _

theorem plain_unit : Plain unit := plain_word.bind fun _ => plain_pure _

theorem plain_unitOpen : Plain unitOpen := plain_word.bind fun _ => plain_pure _

theorem plain_repeatFrom {round : σ → Draw (σ ⊕ α)} (h : ∀ s, Plain (round s)) :
    ∀ n s, Plain (repeatFrom round n s)
  | 0, _ => plain_stop trivial
  | n + 1, s => (h s).bind fun
    | .inl s => plain_repeatFrom h n s
    | .inr a => plain_pure a

theorem plain_repeatUntil {round : Draw (Option α)} (h : Plain round) : Plain (repeatUntil round) :=
  plain_repeatFrom (fun _ => h.bind fun
    | none   => plain_pure _
    | some _ => plain_pure _) _ _

theorem plain_bernoulli (p : Float) : Plain (bernoulli p) := by
  rw [bernoulli]
  split
  · exact plain_pure _
  · exact plain_word.bind fun _ => plain_pure _

theorem plain_index (masses : List Float) : Plain (index masses) :=
  plain_unit.bind fun u => by
    simp only
    split
    · exact plain_pure _
    · exact plain_stop trivial

theorem plain_trials (p : Float) : ∀ n acc, Plain (trials p n acc)
  | 0, _ => plain_pure _
  | n + 1, _ => plain_unit.bind fun _ => plain_trials p n _

theorem plain_poisson (mean : Float) : Plain (poisson mean) := by
  rw [poisson]
  split
  · refine plain_unit.bind fun _ => plain_repeatFrom (fun (count, product) => ?_) _ _
    simp only
    split
    · exact plain_unit.bind fun _ => plain_pure _
    · exact plain_pure _
  · refine plain_repeatUntil (plain_unit.bind fun u => ?_)
    simp only
    split
    · exact plain_pure _
    · exact plain_unit.bind fun _ => plain_pure _

theorem plain_uniform (lo hi : Float) : Plain (uniform lo hi) := by
  rw [uniform]
  simp only
  cases fitScale lo hi roundLimit ((hi - lo) / largestUnit) with
  | none =>
      split
      · refine Plain.bind (plain_stop ?_) fun _ => plain_stop trivial
        trivial
      · exact plain_stop trivial
  | some scale =>
      have hrest : Plain (word >>= fun w => pure ((oneToTwo w - 1.0) * scale + lo)) :=
        plain_word.bind fun _ => plain_pure _
      split
      · refine Plain.bind (plain_stop ?_) fun _ => hrest
        trivial
      · exact hrest

theorem plain_normal : Plain normal := by
  have htail : Plain normalTail :=
    plain_repeatUntil (plain_unitOpen.bind fun _ => plain_unitOpen.bind fun _ => plain_pure _)
  refine plain_repeatUntil (plain_word.bind fun w => ?_)
  simp only
  split
  · exact plain_pure _
  split
  · exact htail.bind fun _ => plain_pure _
  · exact plain_unit.bind fun _ => plain_pure _

theorem plain_gaussian (mean deviation : Float) : Plain (gaussian mean deviation) :=
  plain_normal.bind fun _ => plain_pure _

theorem plain_gamma (shape rate : Float) : Plain (gamma shape rate) := by
  have hnormal : ∀ c, Plain (shiftedNormal c) := fun c =>
    plain_repeatUntil ((plain_gaussian _ _).bind fun _ => plain_pure _)
  have hfactor : ∀ d, Plain (gammaFactor d) := fun d =>
    plain_repeatUntil ((hnormal _).bind fun _ => plain_unit.bind fun _ => plain_pure _)
  rw [gamma]
  split
  · exact plain_unit.bind fun _ =>
      (plain_pure _).bind fun _ => (hfactor _).bind fun _ => plain_pure _
  · exact (plain_pure _).bind fun _ => (hfactor _).bind fun _ => plain_pure _

theorem plain_beta (a b : Float) : Plain (beta a b) :=
  (plain_gamma _ _).bind fun _ => (plain_gamma _ _).bind fun _ => plain_pure _

/-- A draw that checks something first fails as the check does. -/
theorem lift_bind_eq_error_iff {answer : Except Error α} {f : α → Draw β} (hf : ∀ a, Plain (f a))
    (g : Generator) (e : Error) :
    (lift answer >>= f) g = .error (.error e) ↔ answer.map (fun _ => ()) = .error e := by
  cases answer with
  | ok a =>
      refine iff_of_false (fun h => ?_) (fun h => by cases h)
      exact (hf a g) (.error e) h
  | error e' =>
      show (.error (.error e') : Except Fault (β × Generator)) = .error (.error e) ↔ _
      simp [Except.map]

/-- A draw that checks something first fails with an error, or as a sampler does. -/
theorem usual_lift_bind {answer : Except Error α} {f : α → Draw β} (hf : ∀ a, Plain (f a))
    (g : Generator) : Raises Fault.Usual ((lift answer >>= f) g) := by
  cases answer with
  | ok a => exact fun fault h => .inr (hf a g fault h)
  | error e => exact raises_error (.inl ⟨e, rfl⟩)

/-- A draw succeeds in two steps. -/
theorem exists_of_bind_eq_ok {d : Draw α} {f : α → Draw β} {g g' : Generator} {b : β}
    (h : (d >>= f) g = .ok (b, g')) : ∃ a g₁, d g = .ok (a, g₁) ∧ f a g₁ = .ok (b, g') := by
  cases hd : d g with
  | error fault =>
      simp only [bind, StateT.bind, Except.bind, hd] at h
      cases h
  | ok out =>
      simp only [bind, StateT.bind, Except.bind, hd] at h
      exact ⟨out.1, out.2, rfl, h⟩

theorem bind_pure_eq_ok {d : Draw α} {f : α → β} {g g' : Generator} {b : β}
    (h : (d >>= fun a => pure (f a)) g = .ok (b, g')) : ∃ a, d g = .ok (a, g') ∧ b = f a := by
  obtain ⟨a, g₁, hd, h⟩ := exists_of_bind_eq_ok h
  cases h
  exact ⟨a, hd, rfl⟩

theorem lift_bind_eq_ok {answer : Except Error α} {f : α → Draw β} {g g' : Generator} {b : β}
    (h : (lift answer >>= f) g = .ok (b, g')) : ∃ a, answer = .ok a ∧ f a g = .ok (b, g') := by
  cases answer with
  | ok a => exact ⟨a, rfl, h⟩
  | error e => cases h

end Draw

namespace Family

variable (f : Family) (params : List Float) (g : Generator)

/-- A draw of a family looks at the parameters, and then only samples. -/
theorem exists_sample_eq : ∃ (α : Type) (answer : Except Error α) (d : α → Draw Value),
    f.sample params = Draw.lift answer >>= d ∧ (∀ a, (d a).Plain) ∧
      answer.map (fun _ => ()) = f.check params := by
  cases f with
  | flip =>
      exact ⟨_, _, _, rfl, fun _ => (Draw.plain_bernoulli _).bind fun _ => Draw.plain_pure _, rfl⟩
  | categorical =>
      exact ⟨_, _, _, rfl, fun _ => (Draw.plain_index _).bind fun _ => Draw.plain_pure _, rfl⟩
  | binomial =>
      exact ⟨_, _, _, rfl, fun _ => (Draw.plain_trials _ _ _).bind fun _ => Draw.plain_pure _, rfl⟩
  | poisson =>
      exact ⟨_, _, _, rfl, fun _ => (Draw.plain_poisson _).bind fun _ => Draw.plain_pure _, rfl⟩
  | uniform =>
      exact ⟨_, _, _, rfl, fun _ => (Draw.plain_uniform _ _).bind fun _ => Draw.plain_pure _, rfl⟩
  | gaussian =>
      exact ⟨_, _, _, rfl, fun _ => (Draw.plain_gaussian _ _).bind fun _ => Draw.plain_pure _, rfl⟩
  | gamma =>
      exact ⟨_, _, _, rfl, fun _ => (Draw.plain_gamma _ _).bind fun _ => Draw.plain_pure _, rfl⟩
  | beta =>
      exact ⟨_, _, _, rfl, fun _ => (Draw.plain_beta _ _).bind fun _ => Draw.plain_pure _, rfl⟩

/-- **Drawing fails on the parameters**, apart from broken assumptions and loops without end. -/
theorem sample_eq_error_iff (e : Error) :
    f.sample params g = .error (.error e) ↔ f.check params = .error e := by
  obtain ⟨α, answer, d, hd, hplain, hcheck⟩ := f.exists_sample_eq params
  rw [hd, ← hcheck]
  exact Draw.lift_bind_eq_error_iff hplain g e

/-- A draw of a family fails with an error, or as a sampler does. -/
theorem usual_sample : Raises Fault.Usual (f.sample params g) := by
  obtain ⟨α, answer, d, hd, hplain, -⟩ := f.exists_sample_eq params
  rw [hd]
  exact Draw.usual_lift_bind hplain g

theorem raises_sample : Raises Fault.OfFamily (f.sample params g) := by
  rintro (e | d | _) h
  · exact f.raises_check params e ((f.sample_eq_error_iff params g e).mp h)
  · trivial
  · trivial

variable {f params g} {g' : Generator} {v : Value}

theorem check_of_sample (h : f.sample params g = .ok (v, g')) : f.check params = .ok () := by
  cases hc : f.check params with
  | ok u => rfl
  | error e =>
      rw [(f.sample_eq_error_iff params g e).mpr hc] at h
      cases h

/-- What is drawn is of the kind of the family. -/
theorem checkValue_of_sample (h : f.sample params g = .ok (v, g')) : f.checkValue v = .ok () := by
  cases f with
  | flip | categorical | binomial | poisson | uniform | gaussian | gamma | beta =>
      obtain ⟨a, -, h⟩ := Draw.lift_bind_eq_ok h
      obtain ⟨b, -, rfl⟩ := Draw.bind_pure_eq_ok h
      rfl

/-- **What has been drawn can be scored.** -/
theorem exists_logDensity_of_sample (h : f.sample params g = .ok (v, g')) :
    ∃ lp, f.logDensity v params = .ok lp :=
  exists_logDensity params (checkValue_of_sample h) (check_of_sample h)

end Family

namespace Domain

/-- What is said of a domain without elements. -/
def emptyDomain : Error := .failure "enumerable domain is empty"

theorem raises_lift {α : Type} {answer : Except Error α} (h : Raises Error.OfFamily answer) :
    Raises Fault.OfFamily (Fault.lift answer) := by
  cases answer with
  | ok a => exact raises_ok a
  | error e => exact raises_error (h e rfl)

theorem raises_successor (f : Family) (o : Option Value) :
    Raises Fault.OfFamily (successor f o) := by
  cases o with
  | none => exact raises_ok _
  | some v =>
      refine (raises_lift (f.raises_intOf v)).bind fun n => ?_
      split
      · exact raises_ok _
      · exact raises_error trivial

theorem raises_next (d : Domain) (o : Option Value) (params : List Float) :
    Raises Fault.OfFamily (d.next o params) := by
  cases d with
  | flip =>
      cases o with
      | none => exact raises_ok _
      | some v => exact (raises_lift (Family.raises_boolOf .flip v)).bind fun _ => raises_ok _
  | categorical => exact (raises_successor _ o).bind fun _ => raises_ok _
  | binomial =>
      exact (raises_lift (Family.raises_trials params)).bind fun _ =>
        (raises_successor _ o).bind fun _ => raises_ok _

/-- A domain has a first element, unless the parameters are not accepted or it is empty. -/
theorem raises_first (d : Domain) (params : List Float) :
    Raises (fun fault => fault.OfFamily ∨ fault = .error emptyDomain) (d.first params) := by
  refine Raises.bind (fun fault h => .inl (d.raises_next none params fault h)) fun v => ?_
  cases v with
  | none => exact raises_error (.inr rfl)
  | some v => exact raises_ok v

end Domain

end ProbTrace
