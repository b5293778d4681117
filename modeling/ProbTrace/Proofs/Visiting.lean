import ProbTrace.Proofs.Turning
import ProbTrace.Search

/-!
# Proofs — Visiting: an enumerating pass that comes to a world

If what a trace stores supplies the choices of a world, an enumerating pass makes these choices:
each is served by the record stored at its address, or created at the beginning of its domain
(`Replay.choose_of_supplied`).  So the pass goes down the tree of the program to that world and
completes (`Program.Enumerable.play`), and the trace that it leaves holds the world
(`Trace.Poised.pass`).

A choice that is observed to have a value equal to the one stored keeps what is stored.  There the
program goes on from another value than the world has, but to the same worlds.
-/

namespace ProbTrace

/-! ### Choices that are supplied -/

namespace Record

variable {r : Record} {q : Request}

/-- A scored record is refreshed without an error for a request that is accepted. -/
theorem Scored.exists_refreshed (hr : r.Scored) (hq : q.Accepted)
    (hfit : r.fits q.family q.structural = true) : ∃ s, r.refreshed q = (.ok (), s) := by
  have hfam := family_of_fits hfit
  have hvalue : q.family.checkValue (r.withRequest q).value = .ok () := by
    show q.family.checkValue (r.valueFor q).1 = .ok ()
    rw [valueFor]
    cases ho : q.observed with
    | none => exact hfam ▸ hr.check.1
    | some v =>
        simp only
        split
        · exact hfam ▸ hr.check.1
        · exact hq.value v ho
  have hparams : q.family.check (r.withRequest q).params = .ok () := by
    show q.family.check (r.paramsFor q).1 = .ok ()
    rw [paramsFor]
    split
    · exact hfam ▸ hr.check.2
    · exact hq.params
  obtain ⟨lp, hlp⟩ := Family.exists_logDensity _ hvalue hparams
  have hrefreshes := r.refreshes q
  generalize r.refreshed q = out at hrefreshes ⊢
  cases hrefreshes with
  | same => exact ⟨_, rfl⟩
  | rescored => exact ⟨_, rfl⟩
  | refused he =>
      rw [hfam, hlp] at he
      cases he

end Record

namespace Choice

variable {k : Choice}

/-- The value of a choice that is created while enumerating. -/
theorem First.newValue (h : k.First) (hk : k.value ∈ k.request.values) (g : Generator) :
    Trace.newValue k.request true g = .ok (k.value, g) := by
  rw [Trace.newValue]
  cases ho : k.request.observed with
  | some v =>
      rw [Request.Grantable.values_of_observed ho, List.mem_singleton] at hk
      rw [hk]
  | none =>
      obtain ⟨d, n, hw⟩ := h ho
      simp only [hw.support, hw.sized.first_eq, hw.value]
      rfl

/-- The value of a choice is one that the family can score. -/
theorem checkValue (hq : k.request.Grantable) (hk : k.value ∈ k.request.values) :
    k.request.family.checkValue k.value = .ok () := by
  rcases hq.wheel_or_observed k.address hk with ho | ⟨d, n, i, hw⟩
  · exact hq.scorable _ ho
  · rw [show k.value = d.element i from hw.value, ← Domain.family_of_support hw.support]
    exact d.checkValue_element i

end Choice

namespace Replay

variable {limits : Limits} {stored : Address → Option Record} {ws : List World} {k : Choice}
  {ρ : Replay}

/-- **A choice that is supplied succeeds**, and its record is that of the choice. -/
theorem choose_of_supplied (hst : ∀ {x r}, stored x = some r → r.address = x)
    (hk : k.Supplied ws stored) (hx : k.address = ρ.sites.claim.1.address)
    (hq : k.request.Grantable) (hv : k.value ∈ k.request.values)
    (ho : k.request.observed = some k.value →
      World.Observe ws k.address k.request.family k.request.structural k.value)
    (he : ρ.session.enumerating = true) (hb : ρ.spent limits = false) :
    ∃ r created g, r.Embodies ws k ∧ ρ.choose limits stored k.request = (.ok r.value,
      { ρ with sites := ρ.sites.claim.2, generator := g }.note (.made k.request r created)) := by
  have hobs : ∀ v, k.request.observed = some v → v = k.value := fun v hv' => by
    rw [Request.Grantable.values_of_observed hv', List.mem_singleton] at hv
    exact hv.symm
  by_cases hex : ∃ r₀, stored k.address = some r₀ ∧
      r₀.fits k.request.family k.request.structural = true
  · obtain ⟨r₀, hs, hfit⟩ := hex
    have hserves := hk.ready r₀ hs hfit
    obtain ⟨r, hr⟩ := hserves.scored.exists_refreshed hq.isAccepted hfit
    have hrx : r.address = k.address := by
      have hx' := r₀.address_refreshed k.request
      rw [hr] at hx'
      exact hx'.trans (hst hs)
    refine ⟨r, false, ρ.generator, ⟨hrx, ?_, ?_⟩, ?_⟩
    · exact (Record.Served.reused (hrx ▸ hs) hfit hr).settles
    · refine ⟨hserves.scored.refreshed hr, fun hn => ?_, fun hsome => ?_⟩
      · have hval := Record.value_refreshed hn r₀
        rw [hr] at hval
        exact hval.trans (hserves.free hn)
      · obtain ⟨v, hsome'⟩ := Option.isSome_iff_exists.mp hsome
        have hval := Record.value_refreshed_of_observed hsome' r₀
        rw [hr] at hval
        simp only at hval
        split at hval
        · exact hval ▸ hserves.observed hsome
        · have hvk := hobs v hsome'
          exact (hval.trans hvk) ▸ ho (hvk ▸ hsome')
    · rw [choose_of_stored hb (hx ▸ hs) hfit, reuse, hr]
  · have hn : ∀ r₀, stored k.address = some r₀ →
        r₀.fits k.request.family k.request.structural = false := fun r₀ hs =>
      Bool.eq_false_iff.mpr fun hfit => hex ⟨r₀, hs, hfit⟩
    obtain ⟨lp, hlp⟩ := Family.exists_logDensity _ (Choice.checkValue hq hv) hq.accepted
    have hnew := (hk.fresh hn).newValue hv ρ.generator
    refine ⟨.ofRequest k.address k.request k.value lp, true, ρ.generator, ⟨rfl, ?_, ?_⟩, ?_⟩
    · exact (Record.Served.created hn hlp rfl fun v hv' => (hobs v hv').symm).settles
    · exact ⟨hlp, fun _ => rfl, fun hsome => by
        obtain ⟨v, hsome⟩ := Option.isSome_iff_exists.mp hsome
        exact ho (hobs v hsome ▸ hsome)⟩
    · rw [choose_of_absent hb (hx ▸ hn), create]
      simp only [he, hnew, hlp, hx]
      rfl

/-- The run over the stored records comes to the world. -/
structure Visits (limits : Limits) (stored : Address → Option Record) (ws : List World)
    (p : Program) (ρ : Replay) (w : World) : Prop where
  answer    : (p.play (player limits stored) ρ).1 = .ok w.returned
  records   : ∃ rs, (p.play (player limits stored) ρ).2.records = ρ.records ++ rs ∧
    List.Forall₂ (Record.Embodies ws) rs w.choices
  satisfied : (p.play (player limits stored) ρ).2.satisfied = (ρ.satisfied && w.satisfied)

/-- A request that makes no choice and demands nothing comes before what the run comes to. -/
theorem Visits.step {ws : List World} {w : World} {p p' : Program} {ρ' : Replay}
    (h : Visits limits stored ws p' ρ' w) (hs : (player limits stored).Step p ρ p' ρ')
    (hrecords : ρ'.records = ρ.records) (hsat : ρ'.satisfied = ρ.satisfied) :
    Visits limits stored ws p ρ w where
  answer := hs.play_eq ▸ h.answer
  records := by
    rw [hs.play_eq, ← hrecords]
    exact h.records
  satisfied := by rw [hs.play_eq, h.satisfied, hsat]

end Replay

/-! ### The way to a world -/

namespace World

/-- What is observed in the world is observed in one of the worlds. -/
def Observed (ws : List World) (w : World) : Prop :=
  ∀ k ∈ w.choices, k.request.observed = some k.value →
    Observe ws k.address k.request.family k.request.structural k.value

/-- What is stored supplies every choice of the world. -/
def Supplied (ws : List World) (stored : Address → Option Record) (w : World) : Prop :=
  ∀ k ∈ w.choices, k.Supplied ws stored

theorem observed_of_mem {ws : List World} {w : World} (h : w ∈ ws) : w.Observed ws :=
  fun k hk ho => ⟨w, h, k, hk, rfl, rfl, rfl, ho⟩

end World

namespace Program

open Replay (Visits player)

variable {limits : Limits} {stored : Address → Option Record} {ws : List World} {w : World}

/-- From the value that the record of a choice has the program goes on to the same worlds as from
the value of the choice. -/
theorem Enumerable.go_on {q : Request} {next : Except Error Value → Program} {c : CallSites}
    {made : Nat} (h : (choose q next).Enumerable limits ws c made) {v : Value} (hv : v ∈ q.values)
    (hw : w ∈ (next (.ok v)).worlds c.claim.2) {r : Record}
    (hr : r.Embodies ws ⟨c.claim.1.address, q, v⟩) :
    (next (.ok r.value)).Enumerable limits ws c.claim.2 (made + 1) ∧
      w ∈ (next (.ok r.value)).worlds c.claim.2 := by
  obtain ⟨-, -, hnext, hobs⟩ := h
  cases ho : q.observed with
  | none =>
      rw [hr.serves.free ho]
      exact ⟨hnext v hv, hw⟩
  | some u =>
      rw [Request.Grantable.values_of_observed ho, List.mem_singleton] at hv
      subst hv
      rcases hr.settles.like_observed ho with hsame | hsame
      · rw [← hsame]
        exact ⟨hnext v (by rw [Request.Grantable.values_of_observed ho]; exact .head _), hw⟩
      · have hsome : q.observed.isSome = true := by rw [ho]; rfl
        obtain ⟨henum, hworlds⟩ := hobs v r.value ho hsame (hr.serves.observed hsome)
        exact ⟨henum, hworlds ▸ hw⟩

/-- **Where what is stored supplies a world, the run comes to it.** -/
theorem Enumerable.play (hst : ∀ {x r}, stored x = some r → r.address = x) :
    ∀ {p : Program} {c : CallSites} {made : Nat} {w : World} {ρ : Replay},
      p.Enumerable limits ws c made → w ∈ p.worlds c → w.Observed ws → w.Supplied ws stored →
      ρ.sites = c → ρ.records.length = made → ρ.session.enumerating = true →
      Visits limits stored ws p ρ w
  | .done v, _, _, w, ρ, _, hw, _, _, _, _, _ => by
      rw [List.mem_singleton.mp hw]
      exact ⟨rfl, ⟨[], (List.append_nil _).symm, .nil⟩, (Bool.and_true _).symm⟩
  | .fail _, _, _, _, _, h, _, _, _, _, _, _ => h.elim
  | .choose q next, c, made, w, ρ, h, hw, ho, hs, hc, hm, he => by
      subst hc
      obtain ⟨v, hv, hw⟩ := List.mem_flatMap.mp hw
      obtain ⟨w, hw', rfl⟩ := List.mem_map.mp hw
      have hb : ρ.spent limits = false := (Replay.not_spent_iff he).mpr (hm ▸ h.1)
      obtain ⟨r, created, g, hr, hchoose⟩ := Replay.choose_of_supplied hst (hs _ (.head _)) rfl
        h.2.1 hv (ho _ (.head _)) he hb
      obtain ⟨henum, hw⟩ := h.go_on hv hw' hr
      have hplay : (Program.choose q next).play (player limits stored) ρ =
          (next (.ok r.value)).play (player limits stored)
            ({ ρ with sites := ρ.sites.claim.2, generator := g }.note (.made q r created)) :=
        Player.Step.play_eq (.choose hchoose)
      have hrecords := Replay.records_note { ρ with sites := ρ.sites.claim.2, generator := g }
        (.made q r created)
      have ih := play hst henum hw (fun k hk => ho k (.tail _ hk)) (fun k hk => hs k (.tail _ hk))
        (ρ := { ρ with sites := ρ.sites.claim.2, generator := g }.note (.made q r created)) rfl
        (by rw [hrecords, List.length_append, ← hm]; rfl) he
      obtain ⟨rs, hrs, hall⟩ := ih.records
      refine ⟨?_, ⟨r :: rs, ?_, .cons hr hall⟩, ?_⟩
      · rw [hplay]
        exact ih.answer
      · rw [hplay, hrs, hrecords, List.append_assoc]
        rfl
      · rw [hplay]
        exact ih.satisfied
  | .enter id next, c, made, w, ρ, h, hw, ho, hs, hc, hm, he => by
      subst hc
      exact (play hst h.2 hw ho hs (ρ := { ρ with sites := ρ.sites.enter id }) rfl hm he).step
        (Replay.step_enter fun _ => h.1) rfl rfl
  | .leave id next, c, made, w, ρ, h, hw, ho, hs, hc, hm, he => by
      subst hc
      obtain ⟨c', hl, h⟩ := h
      rw [worlds, hl] at hw
      exact (play (p := next ()) hst h hw ho hs (ρ := { ρ with sites := c' }) rfl hm he).step
        (Replay.step_leave hl) rfl rfl
  | .factor x next, c, made, w, ρ, h, hw, ho, hs, hc, hm, he => by
      have hrecords := ρ.records_note_factor x
      exact (play (p := next ()) hst h hw ho hs (ρ := ρ.note (.factor x)) hc
        (hrecords.symm ▸ hm) he).step .factor hrecords rfl
  | .condition b next, c, made, w, ρ, h, hw, ho, hs, hc, hm, he => by
      obtain ⟨w, hw', rfl⟩ := List.mem_map.mp hw
      have ih := play (p := next ()) hst h hw' ho hs (ρ := { ρ with satisfied := ρ.satisfied && b })
        hc hm he
      exact ⟨ih.answer, ih.records, ih.satisfied.trans (Bool.and_assoc _ _ _)⟩
  | .isActive next, c, made, w, ρ, h, hw, ho, hs, hc, hm, he => by
      exact (play (p := next true) hst h hw ho hs hc hm he).step .isActive rfl rfl
  | .depth next, c, made, w, ρ, h, hw, ho, hs, hc, hm, he => by
      subst hc
      exact (play (p := next ρ.sites.depth) hst h hw ho hs rfl hm he).step .depth rfl rfl
  | .isEnumerating _, _, _, _, _, h, _, _, _, _, _, _ => h.elim
  | .read _ _, _, _, _, _, h, _, _, _, _, _, _ => h.elim
  | .write cell v next, c, made, w, ρ, h, hw, ho, hs, hc, hm, he => by
      exact (play (p := next ()) hst h hw ho hs
        (ρ := { ρ with session := ρ.session.writeCell cell v }) hc hm he).step .write rfl rfl
  | .nested fixed inner next, c, made, w, ρ, h, hw, ho, hs, hc, hm, he => by
      exact (play (p := next (.error .reentrant)) hst h hw ho hs
        (ρ := { ρ with session := ρ.session.freshId.2 }) hc hm he).step (.nested rfl) rfl
        rfl

end Program

/-! ### Passes that come to a world -/

/-- The flags of the session stay as they are while a program runs. -/
theorem Replay.keeps_flags (limits : Limits) (stored : Address → Option Record)
    (active : Option Nat) (enumerating : Bool) : (player limits stored).Keeps fun ρ =>
      ρ.session.active = active ∧ ρ.session.enumerating = enumerating where
  choose {ρ} q h := by
    show (ρ.choose limits stored q).2.session.active = _ ∧
      (ρ.choose limits stored q).2.session.enumerating = _
    have hout := chooses limits stored q ρ
    generalize ρ.choose limits stored q = out at hout ⊢
    cases hout <;> exact h
  enter {ρ} id h := by
    obtain ⟨_, he, -⟩ := enter_state limits id ρ
    show (ρ.enter limits id).2.session.active = _ ∧ (ρ.enter limits id).2.session.enumerating = _
    rw [he]
    exact h
  leave {ρ ρ'} id h hl := by
    obtain ⟨_, -, rfl⟩ := leave_eq_ok_iff.mp hl
    exact h
  factor _ h := h
  condition _ h := h
  write _ _ h := h
  nested _ _ h := h

namespace Trace

variable {ws : List World} {t : Trace} {s : Session} {w : World}

/-- The trace holds the world: its records are those of the choices, one by one. -/
structure Holds (ws : List World) (t : Trace) (w : World) : Prop where
  choices   : List.Forall₂ (Record.Embodies ws) t.records w.choices
  returned  : t.returned = some w.returned
  satisfied : t.satisfied = w.satisfied

/-- What holds of the trace and the session between the passes of an enumeration. -/
structure Poised (program : Program) (limits : Limits) (t : Trace) (s : Session) : Prop where
  wellFormed  : t.WellFormed
  program     : t.program = program
  limits      : t.limits = limits
  idle        : s.active = none
  enumerating : s.enumerating = true

/-- **A pass that completes leaves a trace that is poised again**, with the records of the choices
made. -/
theorem Poised.completes {program : Program} {limits : Limits} (h : Poised program limits t s)
    {v : Value} (hv : (t.replayed s).1 = .ok v) :
    ∃ u s', Search.pass t s = (.ok (), u, s') ∧ Poised program limits u s' ∧
      u.records = (t.replayed s).2.records ∧ u.returned = some v ∧
      u.satisfied = (t.replayed s).2.satisfied := by
  obtain ⟨hwf, rfl, rfl, hi, he⟩ := h
  have hv : (t.update false s).1 = .ok v := (hwf.update_mirrors hi false).1.trans hv
  obtain ⟨-, hq, ha, hret⟩ := hwf.agrees_update hv
  obtain ⟨hprogram, hlimits⟩ := hwf.constants_update hv
  have hu := hwf.update_ok hv
  have hflags := (Replay.keeps_flags t.limits t.record? none true).play t.program
    (a := { generator := t.generator, session := s.quiet }) ⟨hi, he⟩
  rw [Search.pass]
  generalize t.update false s = out at hv hq ha hret hprogram hlimits hu ⊢
  obtain ⟨answer, u, s'⟩ := out
  cases hv
  refine ⟨u, s', rfl, ⟨hu, hprogram, hlimits, ?_, ?_⟩, ha.records, hret, ha.satisfied⟩
  · show s'.quiet.active = none
    rw [hq]
    exact hflags.1
  · show s'.quiet.enumerating = true
    rw [hq]
    exact hflags.2

/-- **A pass over a trace that supplies a world completes**, and leaves a trace that holds it. -/
theorem Poised.pass {program : Program} {limits : Limits} (h : Poised program limits t s)
    (hp : program.Enumerable limits ws .empty 0) (hw : w ∈ program.worlds .empty)
    (ho : w.Observed ws) (hs : w.Supplied ws t.record?) :
    ∃ u s', Search.pass t s = (.ok (), u, s') ∧ Poised program limits u s' ∧ u.Holds ws w := by
  have hvisits : Replay.Visits t.limits t.record? ws t.program
      { generator := t.generator, session := s.quiet } w := by
    obtain ⟨hwf, rfl, rfl, -, he⟩ := h
    exact hp.play hwf.address_record? hw ho hs rfl rfl he
  obtain ⟨rs, hrs, hall⟩ := hvisits.records
  obtain ⟨u, s', hpass, hpoised, hrecords, hret, hsat⟩ := h.completes hvisits.answer
  refine ⟨u, s', hpass, hpoised, ?_, hret, ?_⟩
  · rw [hrecords, replayed, hrs]
    exact hall
  · rw [hsat, replayed, hvisits.satisfied]
    exact Bool.true_and _

end Trace

end ProbTrace
