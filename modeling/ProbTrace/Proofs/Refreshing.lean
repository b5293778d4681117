import ProbTrace.Record

/-!
# Proofs — Refreshing: what a request does to a stored record

A record that serves a request takes over its parameters and its observation
(`Record.withRequest`), and is rescored if one of them is new.  `Refreshes` lists the three ways in
which this ends; what refreshing keeps and changes is read off it (`refreshes`).

A record is `Scored` if scoring its value under its parameters succeeds and gives the density that
it carries.  Refreshing that succeeds keeps a record scored (`Scored.refreshed`).  Refreshing that
fails leaves it unscored (`not_scored_of_refused`), for what the request brings is taken over before
it is scored.
-/

namespace ProbTrace.Record

/-- The record with the parameters and the observation of a request, and its density as it was. -/
def withRequest (r : Record) (q : Request) : Record :=
  { r with
    params := (r.paramsFor q).1
    value := (r.valueFor q).1
    conditioned := q.observed.isSome }

/-- The ways in which bringing a record up to date can end. -/
inductive Refreshes (r : Record) (q : Request) : Except Error Unit × Record → Prop where
  /-- Parameters and value are the same as before. -/
  | same (hp : (r.paramsFor q).2 = false) (hv : (r.valueFor q).2 = false) :
      Refreshes r q (.ok (), r.withRequest q)
  /-- The record is rescored. -/
  | rescored {lp : Float}
      (h : r.family.logDensity (r.withRequest q).value (r.withRequest q).params = .ok lp) :
      Refreshes r q (.ok (), { r.withRequest q with logDensity := lp })
  /-- The record cannot be rescored. -/
  | refused {e : Error}
      (h : r.family.logDensity (r.withRequest q).value (r.withRequest q).params = .error e) :
      Refreshes r q (.error e, r.withRequest q)

variable {r s : Record} {q : Request} {v : Value} {e : Error}

theorem refreshes (r : Record) (q : Request) : Refreshes r q (r.refreshed q) := by
  rw [Record.refreshed]
  simp only
  split
  · split
    · rename_i lp h
      exact .rescored h
    · rename_i e h
      exact .refused h
  · rename_i hc
    obtain ⟨hp, hv⟩ : (r.paramsFor q).2 = false ∧ (r.valueFor q).2 = false := by simpa using hc
    exact .same hp hv

/-! ### What refreshing leaves alone -/

theorem Refreshes.address {out : Except Error Unit × Record} (h : Refreshes r q out) :
    out.2.address = r.address := by
  cases h <;> rfl

theorem address_refreshed (r : Record) (q : Request) : (r.refreshed q).2.address = r.address :=
  (r.refreshes q).address

theorem Refreshes.active {out : Except Error Unit × Record} (h : Refreshes r q out) :
    out.2.active = r.active := by
  cases h <;> rfl

theorem active_refreshed (r : Record) (q : Request) : (r.refreshed q).2.active = r.active :=
  (r.refreshes q).active

theorem Refreshes.family {out : Except Error Unit × Record} (h : Refreshes r q out) :
    out.2.family = r.family := by
  cases h <;> rfl

/-- A record that could not be rescored keeps its density. -/
theorem logDensity_refused (h : r.refreshed q = (.error e, s)) : s.logDensity = r.logDensity := by
  have hr := r.refreshes q
  rw [h] at hr
  cases hr
  rfl

/-- A record that fits a request is of its family. -/
theorem family_of_fits {structural : Bool} {f : Family} (h : r.fits f structural = true) :
    r.family = f := by
  have hf : r.family.name = f.name := by
    simp only [fits, Family.same, Bool.and_eq_true, beq_iff_eq] at h
    exact h.1
  revert hf
  cases r.family <;> cases f <;> decide

/-! ### What refreshing takes over -/

theorem paramsFor_of_same (h : (r.paramsFor q).2 = false) : (r.paramsFor q).1 = r.params := by
  rw [paramsFor] at h ⊢
  split at h
  · rename_i hs
    rw [if_pos hs]
  · cases h

theorem valueFor_of_same (h : (r.valueFor q).2 = false) : (r.valueFor q).1 = r.value := by
  rw [valueFor] at h ⊢
  cases ho : q.observed with
  | none => rfl
  | some w =>
      rw [ho] at h
      simp only at h ⊢
      split at h
      · rename_i hs
        rw [if_pos hs]
      · cases h

/-- The parameters are those of the request, number by number. -/
theorem params_withRequest (r : Record) (q : Request) : (r.withRequest q).params = q.params ∨
    sameParams (r.withRequest q).params q.params = true := by
  show (r.paramsFor q).1 = _ ∨ sameParams (r.paramsFor q).1 _ = true
  rw [paramsFor]
  split
  · rename_i hs
    exact .inr hs
  · exact .inl rfl

theorem params_refreshed (r : Record) (q : Request) : (r.refreshed q).2.params = q.params ∨
    sameParams (r.refreshed q).2.params q.params = true := by
  have h := r.refreshes q
  have hp := r.params_withRequest q
  generalize r.refreshed q = out at h ⊢
  cases h <;> exact hp

/-- An unobserved choice keeps the value of its record. -/
theorem value_refreshed (h : q.observed = none) (r : Record) :
    (r.refreshed q).2.value = r.value := by
  have hr := r.refreshes q
  have hv : (r.withRequest q).value = r.value := by
    show (r.valueFor q).1 = r.value
    rw [valueFor, h]
  generalize r.refreshed q = out at hr ⊢
  cases hr <;> exact hv

/-! ### The density of a record -/

/-- The record carries the density of its value under its parameters. -/
def Scored (r : Record) : Prop := r.family.logDensity r.value r.params = .ok r.logDensity

theorem rescored_eq_ok_iff : r.rescored v = .ok s ↔ ∃ lp,
    r.family.logDensity v r.params = .ok lp ∧ s = { r with value := v, logDensity := lp } := by
  rw [rescored]
  cases r.family.logDensity v r.params with
  | error e => simp [bind, Except.bind]
  | ok lp => simp [bind, Except.bind, pure, Except.pure, eq_comm]

theorem scored_of_rescored (h : r.rescored v = .ok s) : s.Scored := by
  obtain ⟨lp, hlp, rfl⟩ := rescored_eq_ok_iff.mp h
  exact hlp

/-- Refreshing that succeeds keeps a record scored. -/
theorem Scored.refreshed (hr : r.Scored) (h : r.refreshed q = (.ok (), s)) : s.Scored := by
  have hq := r.refreshes q
  rw [h] at hq
  cases hq with
  | rescored hlp => exact hlp
  | same hp hv =>
      show r.family.logDensity (r.valueFor q).1 (r.paramsFor q).1 = .ok r.logDensity
      rw [paramsFor_of_same hp, valueFor_of_same hv]
      exact hr

/-- **Refreshing that fails leaves a record unscored.** -/
theorem not_scored_of_refused (h : r.refreshed q = (.error e, s)) : ¬ s.Scored := by
  have hq := r.refreshes q
  rw [h] at hq
  cases hq with
  | refused he =>
      intro hs
      cases he.symm.trans hs

end ProbTrace.Record
