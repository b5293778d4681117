import ProbTrace.Proofs.Visiting
import ProbTrace.Proofs.Winding

/-!
# Proofs — Inheriting: where the values of a run come from

An enumerating pass makes each choice from what is held at its address (`Choice.Inherits`).  If that
fits, a free choice takes its value, whatever the choice was that left it there, and an observed one
keeps it if it is equal to the value observed.  If nothing fits, a free choice with a finite domain
begins (`Choice.Fresh`).

A completed pass of a sealed program over scored records is a way down its tree on which every
choice inherits its value (`Sealed.leads`).  If moreover every free choice has a finite domain, each
such way is that of a completed pass (`Sealed.makes`): what a pass comes to is settled by the
program and by what is held.
-/

namespace ProbTrace

/-! ### What is held at an address -/

/-- What a later pass looks at in a record. -/
structure Holding where
  family     : Family
  structural : Bool
  value      : Value

namespace Holding

/-- The request can be served by it. -/
def Fits (h : Holding) (q : Request) : Prop := h.family = q.family ∧ h.structural = q.structural

/-- The value that the request takes from it. -/
def valueFor (h : Holding) (q : Request) : Value :=
  match q.observed with
  | some v => if v.same h.value then h.value else v
  | none   => h.value

end Holding

/-- What a record holds. -/
def Record.holding (r : Record) : Holding := ⟨r.family, r.structural, r.value⟩

/-- What records hold at an address. -/
def holdingIn (stored : Address → Option Record) (x : Address) : Option Holding :=
  (stored x).map Record.holding

/-- What a trace holds at an address. -/
def Trace.held (t : Trace) : Address → Option Holding := holdingIn t.record?

namespace Choice

/-- What the choice leaves to later passes. -/
def holding (k : Choice) : Holding := ⟨k.request.family, k.request.structural, k.value⟩

/-- What choices leave at an address. -/
def held (ks : List Choice) (x : Address) : Option Holding :=
  (ks.find? fun k => k.address == x).map holding

/-- The choice has the value observed, or the first one of its domain. -/
structure Fresh (k : Choice) : Prop where
  observed : ∀ v, k.request.observed = some v → k.value = v
  first    : ∀ d, k.request.observed = none → k.request.family.support = .enumerable d →
    d.first k.request.params = .ok k.value

/-- The choice has the value that is held at its address, if that fits, and else begins. -/
structure Inherits (held : Address → Option Holding) (k : Choice) : Prop where
  kept  : ∀ h, held k.address = some h → h.Fits k.request → k.value = h.valueFor k.request
  fresh : (∀ h, held k.address = some h → ¬ h.Fits k.request) → k.Fresh

/-- What a choice of an enumerating pass is like. -/
def Made (held : Address → Option Holding) (k : Choice) : Prop := k.Sound ∧ k.Inherits held

variable {ks : List Choice} {k : Choice} {x : Address} {h : Holding}

theorem held_eq_some (hh : held ks x = some h) :
    ∃ k ∈ ks, k.address = x ∧ k.holding = h := by
  obtain ⟨k, hk, rfl⟩ := Option.map_eq_some_iff.mp hh
  exact ⟨k, List.mem_of_find?_eq_some hk, by simpa using List.find?_some hk, rfl⟩

theorem held_eq_none (hh : held ks x = none) : ∀ k ∈ ks, k.address ≠ x := fun k hk => by
  simpa using List.find?_eq_none.mp (Option.map_eq_none_iff.mp hh) k hk

end Choice

namespace Record

variable {r : Record} {k : Choice} {q : Request}

theorem Bears.holding_eq (h : r.Bears k) : r.holding = k.holding := by
  rw [holding, Choice.holding, h.family_eq, h.structural_eq, h.value]

theorem fits_iff_holding : r.fits q.family q.structural = true ↔ r.holding.Fits q := fits_iff

/-- The value of a refreshed record is the one that the request takes from it. -/
theorem value_refreshed_eq (r : Record) (q : Request) :
    (r.refreshed q).2.value = r.holding.valueFor q := by
  rw [Holding.valueFor]
  cases ho : q.observed with
  | none => exact value_refreshed ho r
  | some v => exact value_refreshed_of_observed ho r

end Record

/-- Values that are alike are of the same kind. -/
theorem Family.checkValue_congr {f : Family} {v w : Value} (h : v.Like w)
    (hv : f.checkValue v = .ok ()) : f.checkValue w = .ok () := by
  obtain rfl | ⟨x, y, rfl, rfl, -⟩ | ⟨vs, ws, rfl, rfl⟩ := h.eq_or
  · exact hv
  · cases f <;> cases hv <;> rfl
  · cases f <;> cases hv

/-! ### New values -/

namespace Request

variable {q : Request} {g g' : Generator} {v : Value} {fault : Fault}

/-- In an enumerating pass a free choice without a finite domain is drawn. -/
theorem newValue_of_loose (ho : q.observed = none) (hf : q.family.isEnumerable = false) :
    Trace.newValue q true g = q.family.sample q.params g := by
  simp only [Trace.newValue, ho]
  cases hd : q.family.support with
  | continuous | discrete => rfl
  | enumerable d => exact absurd hd (Family.support_of_loose hf d)

theorem newValue_of_wheel {d : Domain} (ho : q.observed = none)
    (hd : q.family.support = .enumerable d) :
    Trace.newValue q true g = (d.first q.params).map fun v => (v, g) := by
  simp only [Trace.newValue, ho, hd]
  rfl

/-- A number of trials gives a domain a first element. -/
theorem first_of_trials {ps : List Float} {p : Float} {n : UInt64}
    (ht : Family.trials ps = .ok (p, n)) : Domain.binomial.first ps = .ok (.int 0) := by
  have hnext : Domain.binomial.next none ps =
      .ok (if (0 : UInt64) ≤ n then some (.int 0) else none) := by
    rw [Domain.next, ht]
    rfl
  rw [Domain.first, hnext, if_pos UInt64.zero_le]
  rfl

/-- Parameters that are accepted give a domain a first element. -/
theorem exists_first {d : Domain} {ps : List Float} (h : d.family.check ps = .ok ()) :
    ∃ v, d.first ps = .ok v := by
  cases d with
  | flip => exact ⟨_, rfl⟩
  | categorical =>
      cases ps with
      | nil => cases h
      | cons p ps => exact ⟨_, rfl⟩
  | binomial =>
      obtain ⟨p, n, ht⟩ := Family.trials_of_check h
      exact ⟨_, first_of_trials ht⟩

/-- Looking for the first element fails with an error only. -/
theorem first_eq_error {d : Domain} {ps : List Float} (h : d.first ps = .error fault) :
    ∃ e, fault = .error e := by
  cases d with
  | flip => cases h
  | categorical =>
      cases ps with
      | nil =>
          cases h
          exact ⟨_, rfl⟩
      | cons p ps => cases h
  | binomial =>
      cases ht : Family.trials ps with
      | ok out => cases (first_of_trials ht).symm.trans h
      | error e =>
          rw [Domain.first, Domain.next, ht] at h
          cases h
          exact ⟨e, rfl⟩

/-- The new value of a free choice is drawn, or it is the first one of its domain. -/
theorem newValue_of_free (ho : q.observed = none) (enumerating : Bool) (g : Generator) :
    Trace.newValue q enumerating g = q.family.sample q.params g ∨
      ∃ d, q.family.support = .enumerable d ∧
        Trace.newValue q enumerating g = (d.first q.params).map fun v => (v, g) := by
  simp only [Trace.newValue, ho]
  cases hd : q.family.support with
  | continuous | discrete => exact .inl rfl
  | enumerable d =>
      cases enumerating with
      | false => exact .inl rfl
      | true => exact .inr ⟨d, rfl, rfl⟩

/-- **For a choice that is accepted a new value does not fail with an error.** -/
theorem Accepted.newValue_ne_error (hq : q.Accepted) (enumerating : Bool) (e : Error) :
    Trace.newValue q enumerating g ≠ .error (.error e) := by
  intro h
  cases ho : q.observed with
  | some v =>
      rw [Trace.newValue, ho] at h
      cases h
  | none =>
      rcases newValue_of_free ho enumerating g with hnew | ⟨d, hd, hnew⟩
      · rw [hnew, Family.sample_eq_error_iff, hq.params] at h
        cases h
      · obtain ⟨v, hv⟩ := exists_first (Domain.family_of_support hd ▸ hq.params)
        rw [hnew, hv] at h
        cases h

/-- Where the new value of a free choice comes from. -/
theorem sample_or_next_of_newValue {enumerating : Bool} (ho : q.observed = none)
    (h : Trace.newValue q enumerating g = .ok (v, g')) :
    q.family.sample q.params g = .ok (v, g') ∨
      ∃ d, q.family.support = .enumerable d ∧ d.next none q.params = .ok (some v) := by
  rcases newValue_of_free ho enumerating g with hnew | ⟨d, hd, hnew⟩
  · exact .inl (hnew ▸ h)
  · refine .inr ⟨d, hd, Domain.next_of_first ?_⟩
    rw [hnew] at h
    cases hv : d.first q.params with
    | error fault =>
        rw [hv] at h
        cases h
    | ok u =>
        rw [hv] at h
        cases h
        rfl

/-- A new value of a free choice is of the kind of the family. -/
theorem checkValue_of_free {enumerating : Bool} (ho : q.observed = none)
    (h : Trace.newValue q enumerating g = .ok (v, g')) : q.family.checkValue v = .ok () := by
  rcases sample_or_next_of_newValue ho h with hs | ⟨d, hd, hn⟩
  · exact Family.checkValue_of_sample hs
  · exact Domain.family_of_support hd ▸ Domain.checkValue_next hn

theorem newValue_of_observed {u : Value} (ho : q.observed = some u) (enumerating : Bool)
    (g : Generator) : Trace.newValue q enumerating g = .ok (u, g) := by
  rw [Trace.newValue, ho]

/-- The new value of an observed choice is the value observed. -/
theorem eq_of_newValue {u : Value} {enumerating : Bool} (ho : q.observed = some u)
    (h : Trace.newValue q enumerating g = .ok (v, g')) : v = u := by
  rw [newValue_of_observed ho] at h
  cases h
  rfl

/-- The errors with which a choice can fail, budgets apart. -/
inductive Fails (q : Request) (e : Error) : Prop where
  /-- There is no value for a new record. -/
  | undrawn {enumerating : Bool} {g : Generator}
      (h : Trace.newValue q enumerating g = .error (.error e))
  /-- The family does not accept the parameters. -/
  | params (h : q.family.check q.params = .error e)
  /-- The value observed is not of the kind of the family. -/
  | value {v : Value} (ho : q.observed = some v) (h : q.family.checkValue v = .error e)

/-- **A choice that is accepted does not fail.** -/
theorem Accepted.not_fails (hq : q.Accepted) {e : Error} : ¬ q.Fails e := by
  rintro (h | h | ⟨ho, h⟩)
  · exact hq.newValue_ne_error _ e h
  · cases hq.params.symm.trans h
  · cases (hq.value _ ho).symm.trans h

/-- **For a choice that is not accepted a new value fails with an error**, or cannot be scored. -/
theorem newValue_of_not_accepted (hq : ¬ q.Accepted) :
    (∃ e, Trace.newValue q true g = .error (.error e)) ∨
      ∃ v g' e, Trace.newValue q true g = .ok (v, g') ∧
        q.family.logDensity v q.params = .error e := by
  cases hv : Trace.newValue q true g with
  | ok out =>
      obtain ⟨v, g'⟩ := out
      cases hlp : q.family.logDensity v q.params with
      | error e => exact .inr ⟨v, g', e, rfl, hlp⟩
      | ok lp =>
          obtain ⟨hkind, hparams⟩ := Family.check_of_logDensity _ hlp
          refine absurd ⟨hparams, fun u hu => ?_⟩ hq
          rw [Trace.newValue, hu] at hv
          cases hv
          exact hkind
  | error fault =>
      refine .inl ?_
      cases ho : q.observed with
      | some u =>
          rw [Trace.newValue, ho] at hv
          cases hv
      | none =>
          cases hf : q.family.isEnumerable with
          | false =>
              rw [newValue_of_loose ho hf] at hv
              cases hc : q.family.check q.params with
              | ok _ => exact absurd ⟨hc, fun v hv => by cases ho.symm.trans hv⟩ hq
              | error e =>
                  rw [(q.family.sample_eq_error_iff _ _ e).mpr hc] at hv
                  cases hv
                  exact ⟨e, rfl⟩
          | true =>
              obtain ⟨d, hd⟩ := Family.isEnumerable_iff.mp hf
              rw [newValue_of_wheel ho hd] at hv
              cases hfirst : d.first q.params with
              | ok v =>
                  rw [hfirst] at hv
                  cases hv
              | error fault' =>
                  rw [hfirst] at hv
                  cases hv
                  obtain ⟨e, rfl⟩ := first_eq_error hfirst
                  exact ⟨e, rfl⟩

end Request

namespace Choice

variable {k : Choice} {g : Generator}

/-- A choice that begins has the value that a new record is given, unless it has to be drawn. -/
theorem Fresh.newValue (h : k.Fresh) (hl : ¬ k.Loose) :
    Trace.newValue k.request true g = .ok (k.value, g) := by
  cases ho : k.request.observed with
  | some v =>
      rw [Trace.newValue, ho, h.observed v ho]
  | none =>
      obtain ⟨d, hd⟩ :=
        Family.isEnumerable_iff.mp (Bool.eq_true_of_not_eq_false fun hf => hl ⟨ho, hf⟩)
      rw [Request.newValue_of_wheel ho hd, h.first d ho hd]
      rfl

/-- **Turning a choice that is accepted and sound fails with no error.** -/
theorem Sound.turn_ne_error (hk : k.Sound) (hq : k.request.Accepted) (e : Error) :
    k.turn ≠ .error (.error e) := by
  intro h
  rw [turn] at h
  split at h
  · rename_i d ho hd
    have hfam := Domain.family_of_support hd
    have hc : d.family.check k.request.params = .ok () := hfam ▸ hq.params
    cases hn : d.next (some k.value) k.request.params with
    | error fault =>
        rw [hn] at h
        cases h
        exact Domain.next_ne_error hc (hfam ▸ hk.kind) e hn
    | ok o =>
        rw [hn] at h
        cases o with
        | some v => cases h
        | none =>
            obtain ⟨v, hv⟩ := Request.exists_first hc
            simp only [bind, Except.bind, hv] at h
            cases h
  · cases h

/-- A choice to which a new value is given begins. -/
theorem fresh_of_newValue {g' : Generator}
    (h : Trace.newValue k.request true g = .ok (k.value, g')) : k.Fresh where
  observed v hv := by
    rw [Trace.newValue, hv] at h
    cases h
    rfl
  first d ho hd := by
    rw [Request.newValue_of_wheel ho hd] at h
    cases hv : d.first k.request.params with
    | error fault =>
        rw [hv] at h
        cases h
    | ok v =>
        rw [hv] at h
        exact congrArg Except.ok (congrArg Prod.fst (Except.ok.inj h))

end Choice

/-! ### The choices of an enumerating pass -/

namespace Replay

variable {limits : Limits} {stored : Address → Option Record} {q : Request} {ρ ρ' : Replay}
  {v : Value} {e : Error}

/-- Where the value of a choice comes from: from the record stored at its address, if that fits, and
else it is new. -/
inductive Gets (stored : Address → Option Record) (q : Request) (ρ : Replay) (v : Value) :
    Prop where
  | kept {r₀ : Record} (hs : stored ρ.sites.claim.1.address = some r₀)
      (hfit : r₀.fits q.family q.structural = true) (hv : v = r₀.holding.valueFor q)
  | new {g : Generator}
      (hn : ∀ r₀, stored ρ.sites.claim.1.address = some r₀ →
        r₀.fits q.family q.structural = false)
      (hv : Trace.newValue q ρ.session.enumerating ρ.generator = .ok (v, g))

/-- **A choice that succeeds is accepted, and its record bears it.** -/
theorem choose_bears (hst : ∀ {x r}, stored x = some r → r.address = x)
    (hsc : ∀ {x r}, stored x = some r → r.Scored) (hq : q.Steady)
    (h : ρ.choose limits stored q = (.ok v, ρ')) :
    ρ.spent limits = false ∧ q.Accepted ∧ Choice.Sound ⟨ρ.sites.claim.1.address, q, v⟩ ∧
      Gets stored q ρ v ∧ ∃ r created generator, r.Bears ⟨ρ.sites.claim.1.address, q, v⟩ ∧
        ρ' = { ρ with sites := ρ.sites.claim.2, generator }.note (.made q r created) := by
  have hout := chooses limits stored q ρ
  rw [h] at hout
  cases hout with
  | @reused r₀ r hb hs hfit hr =>
      have hx : r.address = ρ.sites.claim.1.address := by
        have hx := r₀.address_refreshed q
        rw [hr] at hx
        exact hx.trans (hst hs)
      have hsettles : r.Settles q := (Record.Served.reused (hx ▸ hs) hfit hr).settles
      have hscored := (hsc hs).refreshed hr
      have hfam := Record.family_of_fits hsettles.1
      have hkind : q.family.checkValue r.value = .ok () := hfam ▸ hscored.check.1
      have haccepted : q.Accepted :=
        ⟨hq _ hsettles.like_params (hfam ▸ hscored.check.2), fun u hu =>
          Family.checkValue_congr (hsettles.like_observed hu).symm hkind⟩
      have hval : r.value = r₀.holding.valueFor q := by
        have hval := r₀.value_refreshed_eq q
        rw [hr] at hval
        exact hval
      exact ⟨hb, haccepted, ⟨hkind, fun u hu => hsettles.like_observed hu⟩, .kept hs hfit hval,
        r, false, ρ.generator, ⟨hx, hsettles, rfl, hscored, haccepted⟩, rfl⟩
  | @created _ g lp hb hn hv hlp =>
      obtain ⟨hkind, hparams⟩ := Family.check_of_logDensity _ hlp
      have hobs : ∀ u, q.observed = some u → v = u := fun u hu => Request.eq_of_newValue hu hv
      have haccepted : q.Accepted := ⟨hparams, fun u hu => hobs u hu ▸ hkind⟩
      refine ⟨hb, haccepted, ⟨hkind, fun u hu => .inl (hobs u hu).symm⟩, .new hn hv,
        .ofRequest ρ.sites.claim.1.address q v lp, true, g, ⟨rfl, ?_, rfl, hlp, haccepted⟩, rfl⟩
      exact (Record.Served.created hn hlp rfl hobs).settles

/-- **In an enumerating pass a choice that succeeds inherits its value.** -/
theorem choose_made (hst : ∀ {x r}, stored x = some r → r.address = x)
    (hsc : ∀ {x r}, stored x = some r → r.Scored) (he : ρ.session.enumerating = true)
    (hq : q.Steady) (h : ρ.choose limits stored q = (.ok v, ρ')) :
    ρ.spent limits = false ∧ q.Accepted ∧
      Choice.Made (holdingIn stored) ⟨ρ.sites.claim.1.address, q, v⟩ ∧
      ∃ r created generator, r.Bears ⟨ρ.sites.claim.1.address, q, v⟩ ∧
        ρ' = { ρ with sites := ρ.sites.claim.2, generator }.note (.made q r created) := by
  obtain ⟨hb, haccepted, hsound, hgets, hrecord⟩ := choose_bears hst hsc hq h
  refine ⟨hb, haccepted, ⟨hsound, ?_⟩, hrecord⟩
  cases hgets with
  | kept hs hfit hv =>
      refine ⟨fun m hm _ => ?_, fun hn => ?_⟩
      · rw [holdingIn, hs] at hm
        cases hm
        exact hv
      · exact absurd (Record.fits_iff_holding.mp hfit) (hn _ (by rw [holdingIn, hs]; rfl))
  | new hn hv =>
      rw [he] at hv
      refine ⟨fun m hm hfit => ?_, fun _ => Choice.fresh_of_newValue hv⟩
      obtain ⟨r₀, hs, rfl⟩ := Option.map_eq_some_iff.mp hm
      have hno := hn r₀ hs
      rw [Record.fits_iff_holding.mpr hfit] at hno
      cases hno

/-- What cannot be rescored for a request is a request that fails. -/
theorem fails_of_refused {r₀ r : Record} (hr₀ : r₀.Scored)
    (hfit : r₀.fits q.family q.structural = true) (hr : r₀.refreshed q = (.error e, r)) :
    q.Fails e := by
  have hq := r₀.refreshes q
  rw [hr] at hq
  obtain ⟨hkind, hparams⟩ := hr₀.check
  rw [Record.family_of_fits hfit] at hkind hparams
  cases hq with
  | refused he =>
      rw [Record.family_of_fits hfit] at he
      rcases (Family.logDensity_eq_error_iff _ _ _ _).mp he with hv | ⟨-, hp⟩
      · -- the record was of the right kind, so it is the value observed that is not
        have hval : (r₀.withRequest q).value = (r₀.valueFor q).1 := rfl
        rw [hval, Record.valueFor] at hv
        cases ho : q.observed with
        | none =>
            rw [ho] at hv
            cases hkind.symm.trans hv
        | some u =>
            rw [ho] at hv
            simp only at hv
            split at hv
            · cases hkind.symm.trans hv
            · exact .value ho hv
      · have hpar : (r₀.withRequest q).params = (r₀.paramsFor q).1 := rfl
        rw [hpar, Record.paramsFor] at hp
        split at hp
        · cases hparams.symm.trans hp
        · exact .params hp

/-- **A choice that fails within the budget is one that fails, budgets apart.** -/
theorem choose_fails (hsc : ∀ {x r}, stored x = some r → r.Scored) (hb : ρ.spent limits = false)
    (h : ρ.choose limits stored q = (.error (.error e), ρ')) :
    q.Fails e ∧ ∃ generator refused,
      ρ' = { ρ with sites := ρ.sites.claim.2, generator, refused } := by
  have hout := chooses limits stored q ρ
  rw [h] at hout
  cases hout with
  | spent hb' => cases hb.symm.trans hb'
  | refused _ hs hfit hr => exact ⟨fails_of_refused (hsc hs) hfit hr, _, _, rfl⟩
  | undrawn _ _ hv => exact ⟨.undrawn hv, _, _, rfl⟩
  | @unscored v _ _ _ _ hv hlp =>
      refine ⟨?_, _, _, rfl⟩
      rcases (Family.logDensity_eq_error_iff _ _ _ _).mp hlp with hkind | ⟨-, hp⟩
      · cases ho : q.observed with
        | some u => exact .value ho (Request.eq_of_newValue ho hv ▸ hkind)
        | none => cases (Request.checkValue_of_free ho hv).symm.trans hkind
      · exact .params hp

/-- A choice that fails within the budget is not accepted. -/
theorem choose_refused (hsc : ∀ {x r}, stored x = some r → r.Scored)
    (hb : ρ.spent limits = false) (h : ρ.choose limits stored q = (.error (.error e), ρ')) :
    ¬ q.Accepted ∧ ∃ generator refused,
      ρ' = { ρ with sites := ρ.sites.claim.2, generator, refused } := by
  obtain ⟨hfails, hrest⟩ := choose_fails hsc hb h
  exact ⟨fun hq => hq.not_fails hfails, hrest⟩

/-- A choice that is accepted succeeds with the value that it inherits. -/
theorem choose_of_accepted (hst : ∀ {x r}, stored x = some r → r.address = x)
    (hsc : ∀ {x r}, stored x = some r → r.Scored) (he : ρ.session.enumerating = true)
    (hb : ρ.spent limits = false) (hq : q.Accepted)
    (hk : Choice.Made (holdingIn stored) ⟨ρ.sites.claim.1.address, q, v⟩)
    (hl : ¬ Choice.Loose ⟨ρ.sites.claim.1.address, q, v⟩) :
    ∃ r created generator, r.Bears ⟨ρ.sites.claim.1.address, q, v⟩ ∧
      ρ.choose limits stored q =
        (.ok v, { ρ with sites := ρ.sites.claim.2, generator }.note (.made q r created)) := by
  by_cases hex : ∃ r₀, stored ρ.sites.claim.1.address = some r₀ ∧
      r₀.fits q.family q.structural = true
  · obtain ⟨r₀, hs, hfit⟩ := hex
    obtain ⟨r, hr⟩ := (hsc hs).exists_refreshed hq hfit
    have hx : r.address = ρ.sites.claim.1.address := by
      have hx := r₀.address_refreshed q
      rw [hr] at hx
      exact hx.trans (hst hs)
    have hval : r.value = v := by
      have hval := r₀.value_refreshed_eq q
      rw [hr] at hval
      exact hval.trans (hk.2.kept _ (by rw [holdingIn, hs]; rfl)
        (Record.fits_iff_holding.mp hfit)).symm
    refine ⟨r, false, ρ.generator, ⟨hx, ?_, hval, (hsc hs).refreshed hr, hq⟩, ?_⟩
    · exact (Record.Served.reused (hx ▸ hs) hfit hr).settles
    · rw [choose_of_stored hb hs hfit, reuse, hr]
      simp only [hval]
  · have hn : ∀ r₀, stored ρ.sites.claim.1.address = some r₀ →
        r₀.fits q.family q.structural = false := fun r₀ hs =>
      Bool.eq_false_iff.mpr fun hfit => hex ⟨r₀, hs, hfit⟩
    have hfresh : Choice.Fresh ⟨ρ.sites.claim.1.address, q, v⟩ := hk.2.fresh fun m hm hfit => by
      obtain ⟨r₀, hs, rfl⟩ := Option.map_eq_some_iff.mp hm
      exact hex ⟨r₀, hs, Record.fits_iff_holding.mpr hfit⟩
    have hv := hfresh.newValue (g := ρ.generator) hl
    obtain ⟨lp, hlp⟩ := Family.exists_logDensity _ hk.1.kind hq.params
    refine ⟨.ofRequest ρ.sites.claim.1.address q v lp, true, ρ.generator,
      ⟨rfl, (Record.Served.created hn hlp rfl hfresh.observed).settles, rfl, hlp, hq⟩, ?_⟩
    rw [choose_of_absent hb hn, create]
    simp only [he, hv, hlp]

/-- A choice that is not accepted fails. -/
theorem choose_of_not_accepted (hst : ∀ {x r}, stored x = some r → r.address = x)
    (hsc : ∀ {x r}, stored x = some r → r.Scored) (he : ρ.session.enumerating = true)
    (hb : ρ.spent limits = false) (hs : q.Steady) (hq : ¬ q.Accepted) :
    ∃ e generator refused, ρ.choose limits stored q =
      (.error (.error e), { ρ with sites := ρ.sites.claim.2, generator, refused }) := by
  have hout := chooses limits stored q ρ
  generalize hc : ρ.choose limits stored q = out at hout
  cases hout with
  | spent hb' => cases hb.symm.trans hb'
  | reused | created => exact absurd (choose_made hst hsc he hs hc).2.1 hq
  | refused | unscored => exact ⟨_, _, _, rfl⟩
  | undrawn _ _ hv =>
      rw [he] at hv
      rcases Request.newValue_of_not_accepted hq with ⟨e, hv'⟩ | ⟨v, g', e, hv', -⟩
      · cases hv.symm.trans hv'
        exact ⟨_, _, _, rfl⟩
      · cases hv.symm.trans hv'

/-- The run over the stored records makes the choices of the world and comes to its leaf. -/
structure Makes (limits : Limits) (stored : Address → Option Record) (p : Program) (ρ : Replay)
    (w : World) : Prop where
  answer    : (p.play (player limits stored) ρ).1 = .ok w.returned
  records   : ∃ rs, (p.play (player limits stored) ρ).2.records = ρ.records ++ rs ∧
    List.Forall₂ Record.Bears rs w.choices
  satisfied : (p.play (player limits stored) ρ).2.satisfied = (ρ.satisfied && w.satisfied)

/-- Before what the run does from here on a request is answered that makes no choice. -/
theorem Makes.demand {p p' : Program} {w : World} {b : Bool} (h : Makes limits stored p' ρ' w)
    (hs : (player limits stored).Step p ρ p' ρ')
    (hrecords : ρ'.records = ρ.records) (hsat : ρ'.satisfied = (ρ.satisfied && b)) :
    Makes limits stored p ρ (w.demand b) where
  answer := hs.play_eq ▸ h.answer
  records := by
    rw [hs.play_eq, ← hrecords]
    exact h.records
  satisfied := by
    rw [hs.play_eq, h.satisfied, hsat, Bool.and_assoc]
    rfl

/-- Before what the run does from here on a choice is made. -/
theorem Makes.after {p p' : Program} {w : World} {k : Choice} {r : Record} {created : Bool}
    (h : Makes limits stored p' (ρ'.note (.made q r created)) w)
    (hs : (player limits stored).Step p ρ p' (ρ'.note (.made q r created)))
    (hrecords : ρ'.records = ρ.records) (hsat : ρ'.satisfied = ρ.satisfied) (hr : r.Bears k) :
    Makes limits stored p ρ (w.after k) where
  answer := hs.play_eq ▸ h.answer
  records := by
    obtain ⟨rs, hrs, hall⟩ := h.records
    refine ⟨r :: rs, ?_, .cons hr hall⟩
    rw [hs.play_eq, hrs, records_note, hrecords, List.append_assoc]
    rfl
  satisfied := by
    rw [hs.play_eq, h.satisfied]
    exact congrArg (· && w.satisfied) hsat

end Replay

/-! ### Runs of a sealed program -/

namespace Program.Sealed

open Replay (Makes player)

variable {limits : Limits} {stored : Address → Option Record} {v : Value}

/-- **A completed enumerating run of a sealed program is a way down its tree**, on which every
choice is sound and inherits its value. -/
theorem leads (hst : ∀ {x r}, stored x = some r → r.address = x)
    (hsc : ∀ {x r}, stored x = some r → r.Scored) :
    ∀ {p : Program}, p.Sealed → ∀ {ρ : Replay}, ρ.session.enumerating = true →
      (p.play (player limits stored) ρ).1 = .ok v →
      ∃ w, p.Leads limits (Choice.Made (holdingIn stored)) ρ.sites ρ.records.length w ∧
        Makes limits stored p ρ w
  | .done u, _, ρ, _, h => by
      cases h
      exact ⟨_, .done, rfl, ⟨[], (List.append_nil _).symm, .nil⟩, (Bool.and_true _).symm⟩
  | .fail _, _, _, _, h => by cases h
  | .choose q next, hp, ρ, he, h => by
      obtain ⟨hq, hnext, -⟩ := hp
      rcases hc : (player limits stored).choose q ρ with ⟨(e | d | _) | u, ρ'⟩
      · have hs : (player limits stored).Step (.choose q next) ρ (next (.error e)) ρ' := .choose hc
        rw [hs.play_eq] at h
        cases hb : ρ.spent limits with
        | true =>
            have hchoose : ρ.choose limits stored q = _ := hc
            cases hchoose.symm.trans (Replay.choose_of_spent hb)
            obtain ⟨w, hw, hm⟩ := leads hst hsc (hnext _) he h
            exact ⟨_, .silent (.spent ((Replay.spent_iff he).mp hb)) hw,
              hm.demand hs rfl (Bool.and_true _).symm⟩
        | false =>
            obtain ⟨hacc, g, refused, rfl⟩ := Replay.choose_refused hsc hb hc
            obtain ⟨w, hw, hm⟩ := leads (ρ := { ρ with
              sites := ρ.sites.claim.2, generator := g, refused }) hst hsc (hnext _) he h
            exact ⟨_, .silent (.refused e ((Replay.not_spent_iff he).mp hb) hacc) hw,
              hm.demand hs rfl (Bool.and_true _).symm⟩
      · rw [play, hc] at h
        cases h
      · rw [play, hc] at h
        cases h
      · have hs : (player limits stored).Step (.choose q next) ρ (next (.ok u)) ρ' := .choose hc
        rw [hs.play_eq] at h
        obtain ⟨hb, hacc, hk, r, created, g, hr, rfl⟩ := Replay.choose_made hst hsc he hq hc
        obtain ⟨w, hw, hm⟩ := leads (ρ := { ρ with
          sites := ρ.sites.claim.2, generator := g }.note (.made q r created)) hst hsc (hnext _) he
          h
        refine ⟨_, .choose ((Replay.not_spent_iff he).mp hb) hacc hk ?_,
          hm.after hs rfl rfl hr⟩
        rw [Replay.records_note, List.length_append] at hw
        exact hw
  | .enter id next, hp, ρ, he, h => by
      by_cases hd : limits.maxDepth ≤ ρ.sites.depth
      · have hs : (player limits stored).Step (.enter id next) ρ _ ρ := Replay.step_deep he hd
        rw [hs.play_eq] at h
        obtain ⟨w, hw, hm⟩ := leads hst hsc (hp _) he h
        exact ⟨_, .silent (.deep hd) hw, hm.demand hs rfl (Bool.and_true _).symm⟩
      · have hd := Nat.not_le.mp hd
        have hs : (player limits stored).Step (.enter id next) ρ _ _ :=
          Replay.step_enter fun _ => hd
        rw [hs.play_eq] at h
        obtain ⟨w, hw, hm⟩ := leads (ρ := { ρ with sites := ρ.sites.enter id }) hst hsc (hp _) he h
        exact ⟨_, .silent (.enter hd) hw, hm.demand hs rfl (Bool.and_true _).symm⟩
  | .leave id next, hp, ρ, he, h => by
      cases hl : ρ.sites.leave? id with
      | none =>
          rw [play, Replay.leave_of_mismatch hl] at h
          cases h
      | some sites =>
          have hs : (player limits stored).Step (.leave id next) ρ (next ()) { ρ with sites } :=
            Replay.step_leave hl
          rw [hs.play_eq] at h
          obtain ⟨w, hw, hm⟩ := leads (p := next ()) (ρ := { ρ with sites }) hst hsc hp he h
          exact ⟨_, .silent (.leave hl) hw, hm.demand hs rfl (Bool.and_true _).symm⟩
  | .factor x next, hp, ρ, he, h => by
      have hrecords := ρ.records_note_factor x
      obtain ⟨w, hw, hm⟩ := leads (p := next ()) (ρ := ρ.note (.factor x)) hst hsc hp he h
      rw [hrecords] at hw
      exact ⟨_, .silent .factor hw, hm.demand .factor hrecords (Bool.and_true _).symm⟩
  | .condition b next, hp, ρ, he, h => by
      obtain ⟨w, hw, hm⟩ := leads (p := next ()) (ρ := { ρ with satisfied := ρ.satisfied && b })
        hst hsc hp he h
      exact ⟨_, .silent .condition hw, hm.demand .condition rfl rfl⟩
  | .isActive next, hp, ρ, he, h => by
      obtain ⟨w, hw, hm⟩ := leads (p := next true) hst hsc hp he h
      exact ⟨_, .silent .isActive hw, hm.demand .isActive rfl (Bool.and_true _).symm⟩
  | .depth next, hp, ρ, he, h => by
      obtain ⟨w, hw, hm⟩ := leads hst hsc (hp ρ.sites.depth) he h
      exact ⟨_, .silent .depth hw, hm.demand .depth rfl (Bool.and_true _).symm⟩
  | .isEnumerating _, hp, _, _, _ => hp.elim
  | .read _ _, hp, _, _, _ => hp.elim
  | .write cell u next, hp, ρ, he, h => by
      obtain ⟨w, hw, hm⟩ := leads (p := next ())
        (ρ := { ρ with session := ρ.session.writeCell cell u }) hst hsc hp he h
      exact ⟨_, .silent .write hw, hm.demand .write rfl (Bool.and_true _).symm⟩
  | .nested fixed inner next, hp, ρ, he, h => by
      obtain ⟨w, hw, hm⟩ := leads (p := next (.error .reentrant))
        (ρ := { ρ with session := ρ.session.freshId.2 }) hst hsc hp he h
      exact ⟨_, .silent .nested hw, hm.demand (.nested rfl) rfl (Bool.and_true _).symm⟩

/-- **If every free choice has a finite domain, each way down the tree on which the choices inherit
their values is that of a completed run.** -/
theorem makes (hst : ∀ {x r}, stored x = some r → r.address = x)
    (hsc : ∀ {x r}, stored x = some r → r.Scored) :
    ∀ {p : Program}, p.Sealed → p.Countable → ∀ {ρ : Replay} {w : World},
      ρ.session.enumerating = true →
      p.Leads limits (Choice.Made (holdingIn stored)) ρ.sites ρ.records.length w →
      Makes limits stored p ρ w
  | .done u, _, _, ρ, w, _, hw => by
      cases hw with
      | done => exact ⟨rfl, ⟨[], (List.append_nil _).symm, .nil⟩, (Bool.and_true _).symm⟩
      | silent h => cases h
  | .fail _, _, _, _, _, _, hw => by
      cases hw with
      | silent h => cases h
  | .choose q next, hp, hf, ρ, w, he, hw => by
      cases hb : ρ.spent limits with
      | true =>
          obtain ⟨u, hu, rfl⟩ := hw.of_passes hp (.spent ((Replay.spent_iff he).mp hb))
          exact (makes hst hsc (hp.2.1 _) (hf.2 _) he hu).demand
            (.choose (Replay.choose_of_spent hb)) rfl (Bool.and_true _).symm
      | false =>
          have hmade := (Replay.not_spent_iff he).mp hb
          by_cases hq : q.Accepted
          · obtain ⟨v, u, hk, hu, rfl⟩ := hw.of_choose hmade hq
            obtain ⟨r, created, g, hr, hc⟩ := Replay.choose_of_accepted hst hsc he hb hq hk
              fun hl => by cases (hf.1 hl.1).symm.trans hl.2
            have hrecords := Replay.records_note
              { ρ with sites := ρ.sites.claim.2, generator := g } (.made q r created)
            have hm := makes hst hsc (hp.2.1 (.ok v)) (hf.2 _) (w := u) (ρ := { ρ with
              sites := ρ.sites.claim.2, generator := g }.note (.made q r created)) he (by
                rw [hrecords, List.length_append]
                exact hu)
            exact hm.after (.choose hc) rfl rfl hr
          · obtain ⟨e, g, refused, hc⟩ := Replay.choose_of_not_accepted hst hsc he hb hp.1 hq
            obtain ⟨u, hu, rfl⟩ := hw.of_passes hp (.refused e hmade hq)
            exact (makes hst hsc (hp.2.1 _) (hf.2 _) (ρ := { ρ with
              sites := ρ.sites.claim.2, generator := g, refused }) he hu).demand
              (.choose hc) rfl (Bool.and_true _).symm
  | .enter id next, hp, hf, ρ, w, he, hw => by
      by_cases hd : limits.maxDepth ≤ ρ.sites.depth
      · obtain ⟨u, hu, rfl⟩ := hw.of_passes hp (.deep hd)
        exact (makes hst hsc (hp _) (hf _) he hu).demand (Replay.step_deep he hd) rfl
          (Bool.and_true _).symm
      · have hd := Nat.not_le.mp hd
        obtain ⟨u, hu, rfl⟩ := hw.of_passes hp (.enter hd)
        exact (makes hst hsc (hp _) (hf _) (ρ := { ρ with sites := ρ.sites.enter id }) he
          hu).demand (Replay.step_enter fun _ => hd) rfl (Bool.and_true _).symm
  | .leave id next, hp, hf, ρ, w, he, hw => by
      cases hw with
      | @silent _ _ _ c' _ _ _ h hw =>
          cases h with
          | leave hl =>
              exact (makes (p := next ()) hst hsc hp hf (ρ := { ρ with sites := c' }) he
                hw).demand (Replay.step_leave hl) rfl (Bool.and_true _).symm
  | .factor x next, hp, hf, ρ, w, he, hw => by
      have hrecords := ρ.records_note_factor x
      obtain ⟨u, hu, rfl⟩ := hw.of_passes hp .factor
      rw [← hrecords] at hu
      exact (makes (p := next ()) hst hsc hp hf (ρ := ρ.note (.factor x)) he hu).demand .factor
        hrecords (Bool.and_true _).symm
  | .condition b next, hp, hf, ρ, w, he, hw => by
      obtain ⟨u, hu, rfl⟩ := hw.of_passes hp .condition
      exact (makes (p := next ()) hst hsc hp hf
        (ρ := { ρ with satisfied := ρ.satisfied && b }) he hu).demand .condition rfl rfl
  | .isActive next, hp, hf, ρ, w, he, hw => by
      obtain ⟨u, hu, rfl⟩ := hw.of_passes hp .isActive
      exact (makes (p := next true) hst hsc hp (hf true) he hu).demand .isActive rfl
        (Bool.and_true _).symm
  | .depth next, hp, hf, ρ, w, he, hw => by
      obtain ⟨u, hu, rfl⟩ := hw.of_passes hp .depth
      exact (makes hst hsc (hp ρ.sites.depth) (hf _) he hu).demand .depth rfl (Bool.and_true _).symm
  | .isEnumerating _, hp, _, _, _, _, _ => hp.elim
  | .read _ _, hp, _, _, _, _, _ => hp.elim
  | .write cell v next, hp, hf, ρ, w, he, hw => by
      obtain ⟨u, hu, rfl⟩ := hw.of_passes hp .write
      exact (makes (p := next ()) hst hsc hp hf
        (ρ := { ρ with session := ρ.session.writeCell cell v }) he hu).demand .write rfl
        (Bool.and_true _).symm
  | .nested fixed inner next, hp, hf, ρ, w, he, hw => by
      obtain ⟨u, hu, rfl⟩ := hw.of_passes hp .nested
      exact (makes (p := next (.error .reentrant)) hst hsc hp (hf _)
        (ρ := { ρ with session := ρ.session.freshId.2 }) he hu).demand (.nested rfl) rfl
        (Bool.and_true _).symm

end Program.Sealed

end ProbTrace
