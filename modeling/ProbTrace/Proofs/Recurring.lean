import ProbTrace.Proofs.Aborting
import ProbTrace.Proofs.Upkeep
import ProbTrace.Proofs.Walking

/-!
# Proofs — Recurring: a failed pass that is run again

A program is straight if it asks for nothing that its choices do not decide and passes every error
on (`Program.Straight`).  A pass over it comes to a halt at the first request that is not granted
(`Program.halt`), and fails there.  The next pass finds every record that the failed one made
(`Carried`), so it makes the same choices up to that place, step by step (`Abreast.choose_ok`), and
what was refused there is refused again (`Abreast.choose_error`), for neither the budgets nor the
errors of a family depend on the generator.

There is one way out.  A choice that fails to rescore a stored record has written its parameters and
its observation on it all the same.  The next pass finds the record as the choice asks for it and
does not score it: what failed is now accepted, with the density of the time before.  So a failure
recurs exactly when no record that was refused is settled on the request that it was refused for
(`Reachable.update_recurs_iff`).
-/

namespace ProbTrace

/-! ### Where a run comes to a halt -/

namespace Program

variable {σ τ : Type}

/-- What is left of a program at the first request that is not granted, and the state of the player
there. -/
def halt (H : Player σ) : Program → σ → Program × σ
  | .done v, a => (.done v, a)
  | .fail e, a => (.fail e, a)
  | .choose q next, a =>
    match H.choose q a with
    | (.ok v, b)    => halt H (next (.ok v)) b
    | (.error _, _) => (.choose q next, a)
  | .enter id next, a =>
    match H.enter id a with
    | (.ok (), b)   => halt H (next (.ok ())) b
    | (.error _, _) => (.enter id next, a)
  | .leave id next, a =>
    match H.leave id a with
    | .ok b    => halt H (next ()) b
    | .error _ => (.leave id next, a)
  | .factor w next, a => halt H (next ()) (H.factor w a)
  | .condition b next, a => halt H (next ()) (H.condition b a)
  | .isActive next, a => halt H (next (H.isActive a)) a
  | .depth next, a => halt H (next (H.depth a)) a
  | .isEnumerating next, a => halt H (next (H.isEnumerating a)) a
  | .read cell next, a => halt H (next (H.read cell a)) a
  | .write cell v next, a => halt H (next ()) (H.write cell v a)
  | .nested fixed inner next, a =>
    match H.nested fixed inner a with
    | (.ok v, b)    => halt H (next (.ok v)) b
    | (.error _, _) => (.nested fixed inner next, a)

theorem halt_choose {H : Player σ} {q : Request} {next : Except Error Value → Program} {a b : σ}
    {v : Value} (hc : H.choose q a = (.ok v, b)) :
    (choose q next).halt H a = (next (.ok v)).halt H b := by
  rw [halt, hc]

/-- Players that answer alike come to a halt at the same place. -/
theorem halt_simulates {H : Player σ} {K : Player τ} {R : σ → τ → Prop} (h : H.Simulates K R) :
    ∀ (program : Program) {a : σ} {b : τ}, R a b →
      Player.Alike R (program.halt H a) (program.halt K b)
  | .done _, _, _, hR => ⟨rfl, hR⟩
  | .fail _, _, _, hR => ⟨rfl, hR⟩
  | .choose q next, a, b, hR => by
      have hc := h.choose q hR
      rw [halt, halt]
      rcases ha : H.choose q a with ⟨answer, a'⟩
      rcases hb : K.choose q b with ⟨answer', b'⟩
      rw [ha, hb] at hc
      obtain ⟨rfl, hR'⟩ := hc
      cases answer with
      | error fault => exact ⟨rfl, hR⟩
      | ok v => exact halt_simulates h (next (.ok v)) hR'
  | .enter id next, a, b, hR => by
      have hc := h.enter id hR
      rw [halt, halt]
      rcases ha : H.enter id a with ⟨answer, a'⟩
      rcases hb : K.enter id b with ⟨answer', b'⟩
      rw [ha, hb] at hc
      obtain ⟨rfl, hR'⟩ := hc
      cases answer with
      | error e => exact ⟨rfl, hR⟩
      | ok u => exact halt_simulates h (next (.ok ())) hR'
  | .leave id next, a, b, hR => by
      rw [halt, halt]
      rcases h.leave id hR with ⟨fault, ha, hb⟩ | ⟨a', b', ha, hb, hR'⟩
      · rw [ha, hb]
        exact ⟨rfl, hR⟩
      · rw [ha, hb]
        exact halt_simulates h (next ()) hR'
  | .factor w next, _, _, hR => halt_simulates h (next ()) (h.factor w hR)
  | .condition holds next, _, _, hR => halt_simulates h (next ()) (h.condition holds hR)
  | .isActive next, a, b, hR => by
      rw [halt, halt, h.isActive hR]
      exact halt_simulates h _ hR
  | .depth next, a, b, hR => by
      rw [halt, halt, h.depth hR]
      exact halt_simulates h _ hR
  | .isEnumerating next, a, b, hR => by
      rw [halt, halt, h.isEnumerating hR]
      exact halt_simulates h _ hR
  | .read cell next, a, b, hR => by
      rw [halt, halt, h.read cell hR]
      exact halt_simulates h _ hR
  | .write cell v next, _, _, hR => halt_simulates h (next ()) (h.write cell v hR)
  | .nested fixed inner next, a, b, hR => by
      have hc := h.nested fixed inner hR
      rw [halt, halt]
      rcases ha : H.nested fixed inner a with ⟨answer, a'⟩
      rcases hb : K.nested fixed inner b with ⟨answer', b'⟩
      rw [ha, hb] at hc
      obtain ⟨rfl, hR'⟩ := hc
      cases answer with
      | error fault => exact ⟨rfl, hR⟩
      | ok v => exact halt_simulates h (next (.ok v)) hR'

/-- What every answer keeps holds where a run comes to a halt. -/
theorem halt_keeps {H : Player σ} {I : σ → Prop} (hk : H.Keeps I) (program : Program) {a : σ}
    (ha : I a) : I (program.halt H a).2 :=
  (halt_simulates hk.simulates program ⟨rfl, ha⟩).2.2

/-! ### Straight programs -/

/-- The program fails with the error, and before it does it only leaves call sites. -/
def PassesOn (e : Error) : Program → Prop
  | .fail e'       => e' = e
  | .leave _ next  => (next ()).PassesOn e
  | _              => False

/-- The program depends on nothing but the values of its choices, and catches no error: it does not
ask whether choices are enumerated and reads no cell, and it passes on whatever error it receives.
In a pass a trace is always being populated, and a nested pass is always refused. -/
def Straight : Program → Prop
  | .done _            => True
  | .fail _            => True
  | .choose _ next     => (∀ v, (next (.ok v)).Straight) ∧ ∀ e, (next (.error e)).PassesOn e
  | .enter _ next      => (next (.ok ())).Straight ∧ ∀ e, (next (.error e)).PassesOn e
  | .leave _ next      => (next ()).Straight
  | .factor _ next     => (next ()).Straight
  | .condition _ next  => (next ()).Straight
  | .isActive next     => (next true).Straight
  | .depth next        => ∀ n, (next n).Straight
  | .isEnumerating _   => False
  | .read _ _          => False
  | .write _ _ next    => (next ()).Straight
  | .nested _ _ next   => ∀ e, (next (.error e)).PassesOn e

end Program

/-! ### Two replays side by side -/

namespace Replay

variable {limits : Limits} {st₁ st₂ : Address → Option Record} {ρ₁ ρ₂ ρ₁' : Replay} {q : Request}
  {r : Record} {v : Value}

/-- Two readers are at the same place, with the same choices behind them. -/
structure Abreast (ρ₁ ρ₂ : Replay) : Prop where
  sites       : ρ₂.sites = ρ₁.sites
  records     : ρ₂.records = ρ₁.records
  enumerating : ρ₂.session.enumerating = ρ₁.session.enumerating

theorem Abreast.spent_eq (h : Abreast ρ₁ ρ₂) : ρ₂.spent limits = ρ₁.spent limits := by
  rw [spent, spent, h.records, h.enumerating]

/-- What is stored holds everything that was written down in a replay over what was stored
before. -/
structure Carried (st₁ st₂ : Address → Option Record) (ρ : Replay) : Prop where
  made      : ∀ r ∈ ρ.records, st₂ r.address = some r
  refused   : ∀ r ∈ ρ.refused, st₂ r.address = some r
  unreached : ∀ x ∉ ρ.touched, st₂ x = st₁ x

/-- A choice that succeeds succeeds again, with the record that it made. -/
theorem Abreast.choose_ok (h : Abreast ρ₁ ρ₂) (hst : ∀ {x r}, st₁ x = some r → r.address = x)
    (hc : ρ₁.choose limits st₁ q = (.ok v, ρ₁')) (hm : ∀ r ∈ ρ₁'.records, st₂ r.address = some r) :
    ∃ ρ₂', ρ₂.choose limits st₂ q = (.ok v, ρ₂') ∧ Abreast ρ₁' ρ₂' := by
  have hspent : ρ₂.spent limits = false := by
    rw [h.spent_eq, Bool.eq_false_iff]
    intro hb
    rw [choose_of_spent hb] at hc
    cases hc
  obtain ⟨r, created, g, rfl, hc₂⟩ := choose_again hst hc h.sites hspent hm
  refine ⟨_, hc₂, ?_, ?_, h.enumerating⟩
  · exact congrArg (fun c => c.claim.2) h.sites
  · rw [records_note, records_note]
    exact congrArg (· ++ [r]) h.records

end Replay

/-- A record that was refused is settled on the request, or refused again in the same way. -/
theorem Record.refused_again {r₀ r : Record} {q : Request} {e : Error}
    (hfit : r₀.fits q.family q.structural = true) (hr : r₀.refreshed q = (.error e, r)) :
    r.fits q.family q.structural = true ∧ (r.Settles q ∨ r.refreshed q = (.error e, r)) := by
  have hq := r₀.refreshes q
  rw [hr] at hq
  cases hq with
  | refused he =>
      have hfit' : (r₀.withRequest q).fits q.family q.structural = true := hfit
      have hself : (r₀.withRequest q).withRequest q = r₀.withRequest q :=
        withRequest_eq_self (paramsFor_withRequest r₀ q) (valueFor_withRequest r₀ q) rfl
      refine ⟨hfit', ?_⟩
      have hq' := (r₀.withRequest q).refreshes q
      generalize hout : (r₀.withRequest q).refreshed q = out at hq'
      cases hq' with
      | same =>
          rw [hself] at hout
          exact .inl ⟨hfit', hout⟩
      | rescored hlp =>
          rw [hself] at hlp
          cases he.symm.trans hlp
      | @refused e' he' =>
          rw [hself] at he' ⊢
          cases he.symm.trans he'
          exact .inr rfl

/-- The error of a new value does not depend on the generator. -/
theorem Trace.newValue_error {q : Request} {b : Bool} {g : Generator} {e : Error}
    (h : newValue q b g = .error (.error e)) (g' : Generator) :
    newValue q b g' = .error (.error e) := by
  have hs : q.family.sample q.params g = .error (.error e) →
      q.family.sample q.params g' = .error (.error e) := fun h =>
    (q.family.sample_eq_error_iff q.params g' e).mpr
      ((q.family.sample_eq_error_iff q.params g e).mp h)
  rw [newValue] at h ⊢
  split at h
  · cases h
  split at h
  · split at h
    · rename_i d _ hb
      rw [if_pos hb]
      cases hd : d.first q.params with
      | ok v =>
          rw [hd] at h
          cases h
      | error fault =>
          rw [hd] at h
          exact h
    · rename_i hb
      rw [if_neg hb]
      exact hs h
  · exact hs h

/-- Neither does a new value that cannot be scored, for it was not drawn. -/
theorem Trace.newValue_unscored {q : Request} {b : Bool} {g g₁ : Generator} {v : Value} {e : Error}
    (h : newValue q b g = .ok (v, g₁)) (he : q.family.logDensity v q.params = .error e)
    (g' : Generator) : ∃ g₂, newValue q b g' = .ok (v, g₂) := by
  have hs : q.family.sample q.params g ≠ .ok (v, g₁) := fun h => by
    obtain ⟨lp, hlp⟩ := Family.exists_logDensity_of_sample h
    cases hlp.symm.trans he
  rw [newValue] at h ⊢
  split at h
  · cases h
    exact ⟨g', rfl⟩
  split at h
  · split at h
    · rename_i d _ hb
      rw [if_pos hb]
      cases hd : d.first q.params with
      | error fault =>
          rw [hd] at h
          cases h
      | ok w =>
          rw [hd] at h
          cases h
          exact ⟨g', rfl⟩
    · exact absurd h hs
  · exact absurd h hs

namespace Replay

variable {limits : Limits} {st₁ st₂ : Address → Option Record} {ρ₁ ρ₂ ρ₁' : Replay} {q : Request}
  {e : Error}

/-- A choice that fails fails again in the same way, unless it has refused a record and that record
is now settled on the request: then it succeeds. -/
theorem Abreast.choose_error (h : Abreast ρ₁ ρ₂) (hst : ∀ {x r}, st₁ x = some r → r.address = x)
    (hf : ρ₁.Faithful st₁) (hn : ρ₁.refused = [])
    (hc : ρ₁.choose limits st₁ q = (.error (.error e), ρ₁')) (hm : Carried st₁ st₂ ρ₁') :
    ρ₁'.records = ρ₁.records ∧
      ((∀ r ∈ ρ₁'.refused, ¬ r.Settles q) → ∃ ρ₂',
        ρ₂.choose limits st₂ q = (.error (.error e), ρ₂') ∧ ρ₂'.sites = ρ₁'.sites) ∧
      ∀ r ∈ ρ₁'.refused, r.Settles q → ∃ ρ₂',
        ρ₂.choose limits st₂ q = (.ok r.value, ρ₂') ∧ ρ₂'.records = ρ₂.records ++ [r] := by
  have hout := chooses limits st₁ q ρ₁
  rw [hc] at hout
  -- where nothing is stored that fits, nothing is stored that fits in the next pass
  have habsent : ρ₁'.touched = ρ₁.touched →
      (∀ r₀, st₁ ρ₁.sites.claim.1.address = some r₀ → r₀.fits q.family q.structural = false) →
      ∀ r₀, st₂ ρ₂.sites.claim.1.address = some r₀ → r₀.fits q.family q.structural = false := by
    intro ht hn r₀ hr₀
    rw [h.sites] at hr₀
    refine hn r₀ ((hm.unreached _ ?_).symm.trans hr₀)
    rw [ht]
    exact fun hx => ρ₁.sites.not_claimed_claim (hf.claimed _ hx)
  have hnone : ∀ r ∈ ρ₁.refused, r.Settles q → ∃ ρ₂',
      ρ₂.choose limits st₂ q = (.ok r.value, ρ₂') ∧ ρ₂'.records = ρ₂.records ++ [r] := by
    intro r hr
    rw [hn] at hr
    cases hr
  cases hout with
  | spent hb =>
      refine ⟨rfl, fun _ => ⟨ρ₂, ?_, h.sites⟩, hnone⟩
      rw [choose_of_spent (h.spent_eq.trans hb), h.sites, h.records]
  | @refused r₀ r e hb hs hfit hr =>
      have hrefused : ({ ρ₁ with
          sites := ρ₁.sites.claim.2, refused := ρ₁.refused ++ [r] } : Replay).refused = [r] := by
        simp [hn]
      have hrm := hm.refused
      rw [hrefused] at hrm ⊢
      obtain ⟨hfit', hagain⟩ := Record.refused_again hfit hr
      have hx : r.address = ρ₂.sites.claim.1.address := by
        have hx := r₀.address_refreshed q
        rw [hr] at hx
        rw [h.sites]
        exact hx.trans (hst hs)
      have hstored : st₂ ρ₂.sites.claim.1.address = some r := hx ▸ hrm r (.head _)
      rw [choose_of_stored (h.spent_eq.trans hb) hstored hfit', reuse]
      refine ⟨rfl, fun hns => ?_, fun s hs hset => ?_⟩
      · rw [hagain.resolve_left (hns r (.head _))]
        exact ⟨_, rfl, by rw [h.sites]⟩
      · cases List.mem_singleton.mp hs
        rw [hset.2]
        exact ⟨_, rfl, records_note _ _⟩
  | undrawn hb hfit hv =>
      refine ⟨rfl, fun _ => ?_, hnone⟩
      rw [choose_of_absent (h.spent_eq.trans hb) (habsent rfl hfit)]
      have hv' := Trace.newValue_error hv ρ₂.generator
      rw [← h.enumerating] at hv'
      rw [create_eq_of_fault (ρ := { ρ₂ with sites := ρ₂.sites.claim.2 }) hv']
      exact ⟨_, rfl, by rw [h.sites]⟩
  | @unscored v g e hb hfit hv he =>
      refine ⟨rfl, fun _ => ?_, hnone⟩
      rw [choose_of_absent (h.spent_eq.trans hb) (habsent rfl hfit)]
      obtain ⟨g₂, hv'⟩ := Trace.newValue_unscored hv he ρ₂.generator
      rw [← h.enumerating] at hv'
      rw [create_eq_of_newValue (ρ := { ρ₂ with sites := ρ₂.sites.claim.2 }) hv', he]
      exact ⟨_, rfl, by rw [h.sites]⟩

end Replay

/-! ### Passing an error on -/

namespace Program

variable {limits : Limits} {st st' : Address → Option Record} {e e' : Error}

/-- While an error is passed on nothing is written down. -/
theorem PassesOn.kept (limits : Limits) (st : Address → Option Record) : ∀ {p : Program},
    p.PassesOn e → ∀ (ρ : Replay),
      ∃ c, (p.play (Replay.player limits st) ρ).2 = { ρ with sites := c }
  | .fail _, _, ρ => ⟨ρ.sites, rfl⟩
  | .leave id next, hp, ρ => by
      rw [play]
      simp only [Replay.player]
      cases ρ.sites.leave? id with
      | none => exact ⟨ρ.sites, rfl⟩
      | some c => exact PassesOn.kept limits st (p := next ()) hp { ρ with sites := c }

/-- The error that is passed on is the one that was received. -/
theorem PassesOn.answer : ∀ {p : Program}, p.PassesOn e → ∀ {ρ : Replay},
    (p.play (Replay.player limits st) ρ).1 = .error (.error e') → e' = e
  | .fail _, hp, _, h => by
      cases h
      exact hp
  | .leave id next, hp, ρ, h => by
      rw [play] at h
      simp only [Replay.player] at h
      cases hl : ρ.sites.leave? id with
      | none =>
          rw [hl] at h
          cases h
      | some c =>
          rw [hl] at h
          exact PassesOn.answer (p := next ()) hp h

/-- It is passed on in the same way from the same call sites. -/
theorem PassesOn.play_eq : ∀ {p : Program}, p.PassesOn e → ∀ {ρ ρ' : Replay},
    ρ'.sites = ρ.sites →
      (p.play (Replay.player limits st') ρ').1 = (p.play (Replay.player limits st) ρ).1
  | .fail _, _, _, _, _ => rfl
  | .leave id next, hp, ρ, ρ', h => by
      rw [play, play]
      simp only [Replay.player, h]
      cases ρ.sites.leave? id with
      | none => rfl
      | some c => exact PassesOn.play_eq (p := next ()) hp rfl

end Program

/-! ### The same place again -/

/-- Where a pass comes to a halt: what is left of the program, the call sites, and the records of
the choices made so far. -/
structure Place where
  rest  : Program
  sites : CallSites
  made  : List Record

namespace Replay

variable {limits : Limits} {st₁ st₂ : Address → Option Record} {ρ₁ ρ₂ ρ₁' : Replay} {q : Request}
  {e : Error}

/-- The place at which the naive reader comes to a halt. -/
def haltsAt (limits : Limits) (stored : Address → Option Record) (p : Program) (ρ : Replay) :
    Place :=
  let out := p.halt (player limits stored) ρ
  ⟨out.1, out.2.sites, out.2.records⟩

/-- The second reader fails as the first one does and at the same place, exactly when no refused
record is settled on the request that it was refused for. -/
def Recurs (limits : Limits) (st₁ st₂ : Address → Option Record) (p : Program) (ρ₁ ρ₂ : Replay) :
    Prop :=
  ((p.play (player limits st₂) ρ₂).1 = (p.play (player limits st₁) ρ₁).1 ∧
      haltsAt limits st₂ p ρ₂ = haltsAt limits st₁ p ρ₁) ↔
    ∀ q next, (haltsAt limits st₁ p ρ₁).rest = .choose q next →
      ∀ r ∈ (p.play (player limits st₁) ρ₁).2.refused, ¬ r.Settles q

/-- A program in which nothing was refused fails again at the place where it fails. -/
theorem recurs_of_eq {p : Program} (hn : (p.play (player limits st₁) ρ₁).2.refused = [])
    (hp : (p.play (player limits st₂) ρ₂).1 = (p.play (player limits st₁) ρ₁).1)
    (hh : haltsAt limits st₂ p ρ₂ = haltsAt limits st₁ p ρ₁) : Recurs limits st₁ st₂ p ρ₁ ρ₂ := by
  refine iff_of_true ⟨hp, hh⟩ fun _ _ _ r hr => ?_
  rw [hn] at hr
  cases hr

/-- After a request that both readers have answered it is a matter of what is left. -/
theorem Recurs.step {p p' : Program} {ρ₂' : Replay} (h : Recurs limits st₁ st₂ p' ρ₁' ρ₂')
    (h₁ : p.play (player limits st₁) ρ₁ = p'.play (player limits st₁) ρ₁')
    (h₂ : p.play (player limits st₂) ρ₂ = p'.play (player limits st₂) ρ₂')
    (hh₁ : p.halt (player limits st₁) ρ₁ = p'.halt (player limits st₁) ρ₁')
    (hh₂ : p.halt (player limits st₂) ρ₂ = p'.halt (player limits st₂) ρ₂') :
    Recurs limits st₁ st₂ p ρ₁ ρ₂ := by
  rw [Recurs, haltsAt, haltsAt, h₁, h₂, hh₁, hh₂]
  exact h

/-- At a choice that fails. -/
theorem Abreast.recurs_choose (h : Abreast ρ₁ ρ₂) (hst : ∀ {x r}, st₁ x = some r → r.address = x)
    (hf : ρ₁.Faithful st₁) (hn : ρ₁.refused = []) {next : Except Error Value → Program}
    (hnext : (next (.error e)).PassesOn e)
    (hc : ρ₁.choose limits st₁ q = (.error (.error e), ρ₁'))
    (hm : Carried st₁ st₂ ((Program.choose q next).play (player limits st₁) ρ₁).2) :
    Recurs limits st₁ st₂ (.choose q next) ρ₁ ρ₂ := by
  have hplay : (Program.choose q next).play (player limits st₁) ρ₁ =
      (next (.error e)).play (player limits st₁) ρ₁' := Player.Step.play_eq (.choose hc)
  have hhalt : haltsAt limits st₁ (.choose q next) ρ₁ =
      ⟨.choose q next, ρ₁.sites, ρ₁.records⟩ := by
    rw [haltsAt, Program.halt]
    simp only [player, hc]
  obtain ⟨c, hkept⟩ := hnext.kept limits st₁ ρ₁'
  have hm' : Carried st₁ st₂ ρ₁' := by
    rw [hplay, hkept] at hm
    exact ⟨hm.made, hm.refused, hm.unreached⟩
  obtain ⟨-, hagain, haccepted⟩ := h.choose_error hst hf hn hc hm'
  have hrefused : ((Program.choose q next).play (player limits st₁) ρ₁).2.refused =
      ρ₁'.refused := by
    rw [hplay, hkept]
  rw [Recurs, hhalt, hrefused]
  constructor
  · rintro ⟨-, hh⟩ q' next' heq r hr hset
    cases heq
    -- the record is accepted, so the second reader has one more choice behind it
    obtain ⟨ρ₂', hc₂, hrecords⟩ := haccepted r hr hset
    have hlt := (Program.halt_keeps (keeps_written limits st₂ ρ₂'.records)
      (next (.ok r.value)) (List.prefix_refl _)).length_le
    have hmade : ((next (.ok r.value)).halt (player limits st₂) ρ₂').2.records = ρ₁.records := by
      rw [← Program.halt_choose (q := q) (a := ρ₂) hc₂]
      exact congrArg Place.made hh
    rw [hmade, hrecords, h.records, List.length_append] at hlt
    exact absurd hlt (by simp)
  · intro hns
    obtain ⟨ρ₂', hc₂, hsites⟩ := hagain (hns q next rfl)
    constructor
    · have hplay₂ : (Program.choose q next).play (player limits st₂) ρ₂ =
          (next (.error e)).play (player limits st₂) ρ₂' := Player.Step.play_eq (.choose hc₂)
      rw [hplay, hplay₂]
      exact hnext.play_eq hsites
    · rw [haltsAt, Program.halt]
      simp only [player, hc₂, h.sites, h.records]

/-- At a call site that is too deep, which neither reader enters. -/
theorem Abreast.recurs_deep (h : Abreast ρ₁ ρ₂) (hn : ρ₁.refused = [])
    (he : ρ₁.session.enumerating = true) (hd : limits.maxDepth ≤ ρ₁.sites.depth) {id : String}
    {next : Except Error Unit → Program} (hnext : ∀ e, (next (.error e)).PassesOn e) :
    Recurs limits st₁ st₂ (.enter id next) ρ₁ ρ₂ := by
  have h₁ : (player limits st₁).enter id ρ₁ = _ := enter_of_deep he hd
  have h₂ : (player limits st₂).enter id ρ₂ = _ :=
    enter_of_deep (h.enumerating.trans he) (h.sites ▸ hd)
  rw [h.sites, h.records] at h₂
  obtain ⟨c, hkept⟩ := (hnext _).kept limits st₁ ρ₁
  refine recurs_of_eq ?_ ?_ ?_
  · rw [Program.play, h₁]
    exact (congrArg refused hkept).trans hn
  · rw [Program.play, Program.play, h₁, h₂]
    exact (hnext _).play_eq h.sites
  · rw [haltsAt, haltsAt, Program.halt, Program.halt, h₁, h₂]
    simp only [h.sites, h.records]

/-- **Two readers of a straight program that are side by side come to the same place**, and the
second one fails there as the first one does, unless a refused record is accepted. -/
theorem Abreast.recurs (hst : ∀ {x r}, st₁ x = some r → r.address = x) :
    ∀ {p : Program}, p.Straight → ∀ {ρ₁ ρ₂ : Replay}, Abreast ρ₁ ρ₂ → ρ₁.Faithful st₁ →
      ρ₁.refused = [] → (p.play (player limits st₁) ρ₁).1 = .error (.error e) →
      Carried st₁ st₂ (p.play (player limits st₁) ρ₁).2 → Recurs limits st₁ st₂ p ρ₁ ρ₂
  | .done v, _, _, _, _, _, _, he, _ => by cases he
  | .fail e', _, ρ₁, ρ₂, h, _, hn, _, _ => by
      refine recurs_of_eq hn rfl ?_
      simp only [haltsAt, Program.halt, h.sites, h.records]
  | .choose q next, hp, ρ₁, ρ₂, h, hf, hn, he, hm => by
      rcases hc : ρ₁.choose limits st₁ q with ⟨(e' | d | _) | v, ρ₁'⟩
      · exact h.recurs_choose hst hf hn (hp.2 e') hc hm
      · rw [Program.play] at he
        simp only [player, hc] at he
        cases he
      · rw [Program.play] at he
        simp only [player, hc] at he
        cases he
      · have hplay : (Program.choose q next).play (player limits st₁) ρ₁ =
            (next (.ok v)).play (player limits st₁) ρ₁' := Player.Step.play_eq (.choose hc)
        rw [hplay] at he hm
        have hsub := Player.Keeps.play (keeps_written limits st₁ ρ₁'.records) (next (.ok v))
          (List.prefix_refl _)
        obtain ⟨ρ₂', hc₂, h'⟩ := h.choose_ok hst hc fun r hr => hm.made r (hsub.mem hr)
        have hf' : ρ₁'.Faithful st₁ := by
          have hk := (keeps_faithful limits hst).choose q hf
          simp only [player, hc] at hk
          exact hk
        have hn' : ρ₁'.refused = [] := by
          have hout := chooses limits st₁ q ρ₁
          rw [hc] at hout
          cases hout <;> exact hn
        exact (Abreast.recurs hst (hp.1 v) h' hf' hn' he hm).step hplay
          (Player.Step.play_eq (.choose hc₂)) (Program.halt_choose hc) (Program.halt_choose hc₂)
  | .enter id next, hp, ρ₁, ρ₂, h, hf, hn, he, hm => by
      rcases deep_or_shallow limits ρ₁ with ⟨hb, hd⟩ | hd
      · exact h.recurs_deep hn hb hd hp.2
      · have hd₂ : ρ₂.session.enumerating = true → ρ₂.sites.depth < limits.maxDepth := by
          rw [h.enumerating, h.sites]
          exact hd
        have h₁ : (player limits st₁).enter id ρ₁ = _ := enter_of_shallow hd
        have h₂ : (player limits st₂).enter id ρ₂ = _ := enter_of_shallow hd₂
        have hf' := (keeps_faithful limits hst).enter id hf
        rw [h₁] at hf'
        rw [Program.play, h₁] at he hm
        have h' : Abreast { ρ₁ with sites := ρ₁.sites.enter id }
            { ρ₂ with sites := ρ₂.sites.enter id } :=
          ⟨by rw [h.sites], h.records, h.enumerating⟩
        exact (Abreast.recurs hst hp.1 h' hf' hn he hm).step (by rw [Program.play, h₁])
          (by rw [Program.play, h₂]) (by rw [Program.halt, h₁]) (by rw [Program.halt, h₂])
  | .leave id next, hp, ρ₁, ρ₂, h, hf, hn, he, hm => by
      cases hl : ρ₁.sites.leave? id with
      | none =>
          rw [Program.play, leave_of_mismatch hl] at he
          cases he
      | some c =>
          have h₁ : (player limits st₁).leave id ρ₁ = .ok { ρ₁ with sites := c } :=
            leave_eq_ok_iff.mpr ⟨c, hl, rfl⟩
          have h₂ : (player limits st₂).leave id ρ₂ = .ok { ρ₂ with sites := c } :=
            leave_eq_ok_iff.mpr ⟨c, h.sites ▸ hl, rfl⟩
          have hf' := (keeps_faithful limits hst).leave id hf h₁
          rw [Program.play, h₁] at he hm
          have h' : Abreast { ρ₁ with sites := c } { ρ₂ with sites := c } :=
            ⟨rfl, h.records, h.enumerating⟩
          exact (Abreast.recurs hst (p := next ()) hp h' hf' hn he hm).step
            (by rw [Program.play, h₁]) (by rw [Program.play, h₂])
            (by rw [Program.halt, h₁]) (by rw [Program.halt, h₂])
  | .factor w next, hp, ρ₁, ρ₂, h, hf, hn, he, hm =>
      Abreast.recurs hst (p := next ()) hp
        ⟨h.sites, by simp only [player, records_note_factor, h.records], h.enumerating⟩
        ((keeps_faithful limits hst).factor w hf) hn he hm
  | .condition b next, hp, ρ₁, ρ₂, h, hf, hn, he, hm =>
      Abreast.recurs hst (p := next ()) hp ⟨h.sites, h.records, h.enumerating⟩
        ((keeps_faithful limits hst).condition b hf) hn he hm
  | .isActive next, hp, _, _, h, hf, hn, he, hm =>
      Abreast.recurs hst (p := next true) hp h hf hn he hm
  | .depth next, hp, ρ₁, ρ₂, h, hf, hn, he, hm => by
      have hd : (player limits st₂).depth ρ₂ = ρ₁.sites.depth := congrArg CallSites.depth h.sites
      exact (Abreast.recurs hst (hp ρ₁.sites.depth) h hf hn he hm).step rfl
        (by rw [Program.play, hd]) rfl (by rw [Program.halt, hd])
  | .isEnumerating _, hp, _, _, _, _, _, _, _ => hp.elim
  | .read _ _, hp, _, _, _, _, _, _, _ => hp.elim
  | .write cell v next, hp, ρ₁, ρ₂, h, hf, hn, he, hm =>
      Abreast.recurs hst (p := next ()) hp ⟨h.sites, h.records, h.enumerating⟩
        ((keeps_faithful limits hst).write cell v hf) hn he hm
  | .nested fixed inner next, hp, ρ₁, ρ₂, h, hf, hn, he, hm => by
      obtain ⟨c, hkept⟩ := (hp .reentrant).kept limits st₁
        { ρ₁ with session := ρ₁.session.freshId.2 }
      refine recurs_of_eq ((congrArg refused hkept).trans hn) ?_ ?_
      · exact (hp .reentrant).play_eq h.sites
      · simp only [haltsAt, Program.halt, player, h.sites, h.records]

end Replay

/-! ### Passes -/

/-- The records of the choices that a running pass has made so far. -/
def Pass.made (p : Pass) : List Record := p.trace.visited.filterMap p.trace.arena.record?

/-- The place at which a pass over the trace comes to a halt. -/
def Trace.haltsAt (t : Trace) (fixed : Bool) (s : Session) : Place :=
  let out := t.program.halt Pass.player (t.opening fixed s)
  ⟨out.1, out.2.sites, out.2.made⟩

theorem Replay.Follows.made_eq {t : Trace} {p : Pass} {ρ : Replay} (h : Follows t p ρ) :
    p.made = ρ.records := by
  obtain ⟨b, ⟨-, rfl⟩, ht, -, hm⟩ := h
  have hv : p.trace.visited = p.plain.trace.order.toList :=
    (Trace.toList_order_forgetRest p.trace).symm
  have hid := congrArg (List.filterMap id) hm.visited
  rw [List.filterMap_map, List.filterMap_map] at hid
  rw [Pass.made, hv]
  exact hid.trans List.filterMap_some

namespace Trace

variable {t u : Trace} {fixed fixed' : Bool} {s s' : Session} {e : Error} {ρ : Replay}

/-- A pass and its replay come to a halt at the same place. -/
theorem WellFormed.haltsAt_eq (h : t.WellFormed) (hs : s.active = none) (fixed : Bool) :
    t.haltsAt fixed s = Replay.haltsAt t.limits t.record? t.program
      { generator := t.generator, session := s.quiet } := by
  obtain ⟨hrest, hf⟩ := Program.halt_simulates (Replay.pass_simulates h) t.program
    (Replay.follows_opening h hs fixed)
  have hsites := hf
  obtain ⟨b, ⟨-, rfl⟩, -, -, hm⟩ := hsites
  rw [haltsAt, Replay.haltsAt, hrest, hf.made_eq, hm.sites]
  rfl

theorem Aborted.carried (h : Aborted t ρ u) : Replay.Carried t.record? u.record? ρ :=
  ⟨h.made, h.refused, h.unreached⟩

end Trace

/-- **A pass over a straight program that has failed fails again**, with the same error at the same
place and under either flag, exactly when no record that it refused is settled on the request that
it was refused for.  Otherwise the choice that failed is accepted. -/
theorem Reachable.update_recurs_iff {t : Trace} (h : Reachable t) (hp : t.program.Straight)
    (fixed fixed' : Bool) (s s' : Session) {e : Error} (hs : s.active = none)
    (he : (t.update fixed s).1 = .error (.error e)) (hs' : s'.active = none)
    (hm : s'.enumerating = s.enumerating) :
    (((t.update fixed s).2.1.update fixed' s').1 = .error (.error e) ∧
        (t.update fixed s).2.1.haltsAt fixed' s' = t.haltsAt fixed s) ↔
      ∀ q next, (t.haltsAt fixed s).rest = .choose q next →
        ∀ r ∈ (t.replayed s).2.refused, ¬ r.Settles q := by
  have hw := h.wellFormed
  have hr : (t.replayed s).1 = .error (.error e) := (hw.update_mirrors hs fixed).1.symm.trans he
  have ha := hw.aborted_update fixed hs hr
  have hstart : Replay.Abreast { generator := t.generator, session := s.quiet }
      { generator := (t.update fixed s).2.1.generator, session := s'.quiet } :=
    ⟨rfl, rfl, hm⟩
  have hrecurs := hstart.recurs hw.address_record? hp (Replay.faithful_start _ _ _) rfl hr
    ha.carried
  rw [hw.haltsAt_eq hs, ha.wellFormed.haltsAt_eq hs', (ha.wellFormed.update_mirrors hs' fixed').1,
    ← hr, Trace.replayed, ha.program, ha.limits]
  exact hrecurs

/-! ### A failure that recurs, and one that does not -/

/-- Makes a choice that is true at first, and one with a mean below zero when it is not. -/
def negativeMean : Program :=
  (do
    let x ← Computation.structural .flip [1.0]
    if x = Value.bool true then pure x else Computation.sample .poisson [-1.0]).program

/-- Makes a choice that is true at first, and observes a flip that has no probability when it is
not. -/
def doubtfulFlip : Program :=
  (do
    let x ← Computation.structural .flip [1.0]
    Computation.observe .flip [if x = Value.bool true then 1.0 else 2.0] (.bool true)).program

theorem program_turnedOver {program : Program} {v : Value}
    (h : ((Trace.unstarted 0 program {} (.ofSeed 0)).update false {}).1 = .ok v) :
    (turnedOver program).program = program :=
  (Trace.program_withValue _ _ _).trans (program_observedOnce h)

theorem straight_negativeMean : negativeMean.Straight := by
  refine ⟨fun v => ?_, fun e => rfl⟩
  simp only
  split
  · trivial
  · exact ⟨fun _ => trivial, fun _ => rfl⟩

theorem straight_doubtfulFlip : doubtfulFlip.Straight :=
  ⟨fun _ => ⟨fun _ => trivial, fun _ => rfl⟩, fun _ => rfl⟩

theorem update_recurs_negativeMean :
    ((turnedOver negativeMean).update false {}).1 =
        Fault.lift (Family.poisson.invalid Family.badParameters) ∧
      (((turnedOver negativeMean).update false {}).2.1.update true {}).1 =
        Fault.lift (Family.poisson.invalid Family.badParameters) ∧
      ((turnedOver negativeMean).update false {}).2.1.haltsAt true {} =
        (turnedOver negativeMean).haltsAt false {} := by
  have hv : ((Trace.unstarted 0 negativeMean {} (.ofSeed 0)).update false {}).1 =
      .ok (.bool true) := by
    decide +kernel
  have he : ((turnedOver negativeMean).update false {}).1 =
      Fault.lift (Family.poisson.invalid Family.badParameters) := by
    decide +kernel
  have hp : (turnedOver negativeMean).program.Straight := by
    rw [program_turnedOver hv]
    exact straight_negativeMean
  have hnone : ((turnedOver negativeMean).replayed {}).2.refused = [] := by
    decide +kernel
  obtain ⟨ha, hh⟩ := (Reachable.update_recurs_iff (reachable_turnedOver hv) hp false true {} {} rfl
    he rfl rfl).mpr fun _ _ _ r hr => by
      rw [hnone] at hr
      cases hr
  exact ⟨he, ha, hh⟩

/-- **The aborted pass turns an invalid choice into an accepted one**: the observation that failed
for its parameter is completed by the next pass, under that parameter. -/
theorem update_ne_doubtfulFlip :
    Reachable (turnedOver doubtfulFlip) ∧ (turnedOver doubtfulFlip).program.Straight ∧
      ((turnedOver doubtfulFlip).update false {}).1 =
        Fault.lift (Family.flip.invalid Family.badParameters) ∧
      (((turnedOver doubtfulFlip).update false {}).2.1.update false {}).1 = .ok (.bool true) ∧
      (((turnedOver doubtfulFlip).update false {}).2.1.update false {}).2.1.records.map (·.params) =
        [[1.0], [2.0]] := by
  have hv : ((Trace.unstarted 0 doubtfulFlip {} (.ofSeed 0)).update false {}).1 =
      .ok (.bool true) := by
    decide +kernel
  refine ⟨reachable_turnedOver hv, ?_, by decide +kernel, by decide +kernel, by decide +kernel⟩
  rw [program_turnedOver hv]
  exact straight_doubtfulFlip

end ProbTrace
