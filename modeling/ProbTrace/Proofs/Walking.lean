import ProbTrace.Proofs.Moving

/-!
# Proofs — Walking: programs that read nothing but their choices

A program is strict if it asks for nothing that its choices do not decide, and fails once one of its
requests is refused (`Program.Strict`).  A completed run of a strict program is a walk down its
tree: the choices in order, each with the record that serves it (`Program.Walk`).  The replay of a
completed pass is such a walk (`Strict.exists_walk`), and a walk goes the same way as long as the
same values come back.

A record that has served a request serves it again without a change (`Record.Settles`).  So a pass
over a trace that a completed pass has left (`SettledIn`) repeats that pass up to the first record
that was changed in between (`Walk.along`).
-/

namespace ProbTrace

/-! ### Strict programs -/

namespace Program

/-- The program fails, whatever the answers are. -/
def Doomed : Program → Prop
  | .done _            => False
  | .fail _            => True
  | .choose _ next     => ∀ answer, (next answer).Doomed
  | .enter _ next      => ∀ answer, (next answer).Doomed
  | .leave _ next      => (next ()).Doomed
  | .factor _ next     => (next ()).Doomed
  | .condition _ next  => (next ()).Doomed
  | .isActive next     => ∀ b, (next b).Doomed
  | .depth next        => ∀ n, (next n).Doomed
  | .isEnumerating next => ∀ b, (next b).Doomed
  | .read _ next       => ∀ v, (next v).Doomed
  | .write _ _ next    => (next ()).Doomed
  | .nested _ _ next   => ∀ answer, (next answer).Doomed

/-- The program depends on nothing but the values of its choices, and catches no error: it does not
ask whether choices are enumerated and reads no cell, and after a refusal it can only fail.  In a
pass a trace is always being populated, and a nested pass is always refused. -/
def Strict : Program → Prop
  | .done _            => True
  | .fail _            => True
  | .choose _ next     => (∀ v, (next (.ok v)).Strict) ∧ ∀ e, (next (.error e)).Doomed
  | .enter _ next      => (next (.ok ())).Strict ∧ ∀ e, (next (.error e)).Doomed
  | .leave _ next      => (next ()).Strict
  | .factor _ next     => (next ()).Strict
  | .condition _ next  => (next ()).Strict
  | .isActive next     => (next true).Strict
  | .depth next        => ∀ n, (next n).Strict
  | .isEnumerating _   => False
  | .read _ _          => False
  | .write _ _ next    => (next ()).Strict
  | .nested _ _ next   => ∀ e, (next (.error e)).Doomed

/-- A doomed program has no value. -/
theorem Doomed.play_ne_ok {σ : Type} (H : Player σ) :
    ∀ {p : Program}, p.Doomed → ∀ (a : σ) (v : Value), (p.play H a).1 ≠ .ok v
  | .done _, hp, _, _ => hp.elim
  | .fail _, _, _, _ => by simp [play]
  | .choose q next, hp, a, v => by
      rw [play]
      rcases H.choose q a with ⟨(e | d | _) | w, b⟩
      · exact play_ne_ok H (hp (.error e)) b v
      · simp only [reduceCtorEq, not_false_eq_true, ne_eq]
      · simp only [reduceCtorEq, not_false_eq_true, ne_eq]
      · exact play_ne_ok H (hp (.ok w)) b v
  | .enter id next, hp, a, v => play_ne_ok H (hp (H.enter id a).1) _ v
  | .leave id next, hp, a, v => by
      rw [play]
      cases H.leave id a with
      | error fault => simp only [reduceCtorEq, not_false_eq_true, ne_eq]
      | ok b => exact play_ne_ok H (p := next ()) hp b v
  | .factor w next, hp, a, v => play_ne_ok H (p := next ()) hp (H.factor w a) v
  | .condition b next, hp, a, v => play_ne_ok H (p := next ()) hp (H.condition b a) v
  | .isActive next, hp, a, v => play_ne_ok H (hp (H.isActive a)) a v
  | .depth next, hp, a, v => play_ne_ok H (hp (H.depth a)) a v
  | .isEnumerating next, hp, a, v => play_ne_ok H (hp (H.isEnumerating a)) a v
  | .read cell next, hp, a, v => play_ne_ok H (hp (H.read cell a)) a v
  | .write cell w next, hp, a, v => play_ne_ok H (p := next ()) hp (H.write cell w a) v
  | .nested fixed inner next, hp, a, v => by
      rw [play]
      rcases H.nested fixed inner a with ⟨(e | d | _) | w, b⟩
      · exact play_ne_ok H (hp (.error e)) b v
      · simp only [reduceCtorEq, not_false_eq_true, ne_eq]
      · simp only [reduceCtorEq, not_false_eq_true, ne_eq]
      · exact play_ne_ok H (hp (.ok w)) b v

end Program

/-! ### Records that a request leaves alone -/

namespace Record

variable {r r₀ m : Record} {q : Request}

/-- The record serves the request, and is as the request asks for it. -/
def Settles (q : Request) (r : Record) : Prop :=
  r.fits q.family q.structural = true ∧ r.refreshed q = (.ok (), r)

/-- How a record comes to serve a request in a pass over stored records. -/
inductive Served (stored : Address → Option Record) (q : Request) (r : Record) : Prop where
  | reused {r₀ : Record} (hs : stored r.address = some r₀)
      (hfit : r₀.fits q.family q.structural = true) (hr : r₀.refreshed q = (.ok (), r))
  | created (hs : ∀ r₀, stored r.address = some r₀ → r₀.fits q.family q.structural = false)
      (hlp : q.family.logDensity r.value q.params = .ok r.logDensity)
      (he : r = .ofRequest r.address q r.value r.logDensity)
      (ho : ∀ v, q.observed = some v → r.value = v)

theorem withRequest_eq_self (hp : (r.paramsFor q).1 = r.params) (hv : (r.valueFor q).1 = r.value)
    (hc : r.conditioned = q.observed.isSome) : r.withRequest q = r := by
  rw [withRequest, hp, hv, ← hc]

theorem refreshed_of_same (hp : (r.paramsFor q).2 = false) (hv : (r.valueFor q).2 = false) :
    r.refreshed q = (.ok (), r.withRequest q) := by
  rw [refreshed]
  simp only [hp, hv]
  rfl

/-- A scored record that is as the request asks for it stays as it is. -/
theorem refreshed_of_scored (hr : r.Scored) (h : r.withRequest q = r) :
    r.refreshed q = (.ok (), r) := by
  have hq := r.refreshes q
  generalize r.refreshed q = out at hq
  cases hq with
  | same => rw [h]
  | rescored hlp =>
      rw [h, hr] at hlp
      rw [h, ← Except.ok.inj hlp]
  | refused he =>
      rw [h, hr] at he
      cases he

theorem conditioned_refreshed (r : Record) (q : Request) :
    (r.refreshed q).2.conditioned = q.observed.isSome := by
  have hq := r.refreshes q
  generalize r.refreshed q = out at hq
  cases hq <;> rfl

/-- The parameters a record takes are those it takes again. -/
theorem paramsFor_withRequest (r : Record) (q : Request) :
    ((r.withRequest q).paramsFor q).1 = (r.withRequest q).params := by
  have h : (r.withRequest q).params = (r.paramsFor q).1 := rfl
  by_cases hs : sameParams r.params q.params = true
  · have hp : (r.withRequest q).params = r.params := by rw [h, paramsFor, if_pos hs]
    rw [paramsFor, hp, if_pos hs]
  · have hp : (r.withRequest q).params = q.params := by rw [h, paramsFor, if_neg hs]
    rw [paramsFor, hp]
    split <;> rfl

/-- The value a record takes is the one it takes again. -/
theorem valueFor_withRequest (r : Record) (q : Request) :
    ((r.withRequest q).valueFor q).1 = (r.withRequest q).value := by
  have h : (r.withRequest q).value = (r.valueFor q).1 := rfl
  rw [valueFor] at h ⊢
  cases ho : q.observed with
  | none => rfl
  | some v =>
      simp only [ho] at h ⊢
      by_cases hs : v.same r.value = true
      · have hv : (r.withRequest q).value = r.value := by rw [h, if_pos hs]
        rw [hv, if_pos hs]
      · have hv : (r.withRequest q).value = v := by rw [h, if_neg hs]
        rw [hv]
        split <;> rfl

/-- **A record that has served a request is settled on it.** -/
theorem Served.settles {stored : Address → Option Record} (h : Served stored q r) :
    Settles q r := by
  cases h with
  | created hs hlp he ho =>
      have hfit : r.fits q.family q.structural = true := by
        rw [he]
        exact fits_iff.mpr ⟨rfl, rfl⟩
      have hparams : r.params = q.params := congrArg params he
      have hscored : r.Scored := by
        rw [Scored, family_of_fits hfit, hparams, hlp]
      refine ⟨hfit, refreshed_of_scored hscored (withRequest_eq_self ?_ ?_ ?_)⟩
      · rw [paramsFor, hparams]
        split <;> rfl
      · rw [valueFor]
        cases hq : q.observed with
        | none => rfl
        | some v =>
            rw [ho v hq]
            simp only
            split <;> rfl
      · exact congrArg conditioned he
  | @reused r₀ hs hfit hr =>
      have hq := r₀.refreshes q
      rw [hr] at hq
      obtain ⟨hfam, hstr⟩ := fits_iff.mp hfit
      cases hq with
      | same hp hv =>
          refine ⟨fits_iff.mpr ⟨hfam, hstr⟩, ?_⟩
          have hparams : ((r₀.withRequest q).paramsFor q).2 = false := by
            show (paramsFor { r₀ with params := (r₀.paramsFor q).1 } q).2 = false
            rw [paramsFor_of_same hp]
            exact hp
          have hvalue : ((r₀.withRequest q).valueFor q).2 = false := by
            show (valueFor { r₀ with value := (r₀.valueFor q).1 } q).2 = false
            rw [valueFor_of_same hv]
            exact hv
          rw [refreshed_of_same hparams hvalue, withRequest_eq_self (paramsFor_withRequest r₀ q)
            (valueFor_withRequest r₀ q) rfl]
      | @rescored lp hlp =>
          refine ⟨fits_iff.mpr ⟨hfam, hstr⟩, refreshed_of_scored hlp ?_⟩
          exact withRequest_eq_self (paramsFor_withRequest r₀ q) (valueFor_withRequest r₀ q) rfl

/-- A stored record that is settled on the request serves it as it is. -/
theorem Served.eq_of_settles {stored : Address → Option Record} (h : Served stored q r)
    (hs : stored r.address = some r₀) (h₀ : Settles q r₀) : r = r₀ := by
  cases h with
  | reused hs' hfit hr =>
      rw [hs] at hs'
      cases hs'
      rw [h₀.2] at hr
      exact (congrArg Prod.snd hr).symm
  | created hs' =>
      have hfit := h₀.1
      rw [hs' r₀ hs] at hfit
      cases hfit

/-- A free record that has been moved is settled where it was before. -/
theorem RevaluedTo.settles (hm : r.RevaluedTo m) (h : Settles q r) (hfree : r.conditioned = false) :
    Settles q m := by
  obtain ⟨hfit, hr⟩ := h
  have hcond := r.conditioned_refreshed q
  rw [hr, hfree] at hcond
  have ho : q.observed = none := by simpa using hcond.symm
  have hvalue : ∀ s : Record, s.valueFor q = (s.value, false) := fun s => by rw [valueFor, ho]
  have hpm : m.paramsFor q = r.paramsFor q := by rw [paramsFor, paramsFor, hm.params]
  have hparams : (r.paramsFor q).1 = r.params := by
    have hq := r.refreshes q
    rw [hr] at hq
    generalize hs : (Except.ok () , r) = out at hq
    cases hq with
    | same => exact (congrArg (fun o => o.2.params) hs).symm
    | rescored => exact (congrArg (fun o => o.2.params) hs).symm
    | refused => cases hs
  have hself : m.withRequest q = m := by
    refine withRequest_eq_self ?_ ?_ ?_
    · rw [hpm, hparams, hm.params]
    · rw [hvalue]
    · rw [hm.conditioned, hfree, ho]
      rfl
  refine ⟨?_, refreshed_of_scored ?_ hself⟩
  · rw [fits, hm.family, hm.structural]
    exact hfit
  · rw [Scored, hm.family, hm.params]
    exact hm.scored

end Record

/-! ### Walks -/

namespace Program

/-- A request that is no choice is answered. -/
inductive Silent : Program → CallSites → Program → CallSites → Prop where
  | enter {id next c} : Silent (.enter id next) c (next (.ok ())) (c.enter id)
  | leave {id next c c'} (h : c.leave? id = some c') : Silent (.leave id next) c (next ()) c'
  | factor {w next c} : Silent (.factor w next) c (next ()) c
  | condition {b next c} : Silent (.condition b next) c (next ()) c
  | isActive {next c} : Silent (.isActive next) c (next true) c
  | depth {next c} : Silent (.depth next) c (next c.depth) c
  | write {cell v next c} : Silent (.write cell v next) c (next ()) c

/-- A completed run down the tree of a program, in which nothing is refused: the choices in order,
each at the address that is next, with the record that serves it. -/
inductive Walk (A : Request → Record → Prop) :
    Program → CallSites → List (Request × Record) → Prop where
  | done {v c} : Walk A (.done v) c []
  | silent {p c p' c' es} (h : Silent p c p' c') (w : Walk A p' c' es) : Walk A p c es
  | choose {q next c r es} (hx : r.address = c.claim.1.address) (ha : A q r)
      (w : Walk A (next (.ok r.value)) c.claim.2 es) : Walk A (.choose q next) c ((q, r) :: es)

variable {A B : Request → Record → Prop} {p p' p'' : Program} {c c' c'' : CallSites}
  {q : Request} {r m : Record} {es es' pre post : List (Request × Record)}
  {stored : Address → Option Record}

theorem Silent.unique (h : Silent p c p' c') (h' : Silent p c p'' c'') : p' = p'' ∧ c' = c'' := by
  cases h with
  | leave h =>
      cases h' with
      | leave h' => exact ⟨rfl, Option.some.inj (h.symm.trans h')⟩
  | _ =>
      cases h'
      exact ⟨rfl, rfl⟩

theorem Walk.imp (h : ∀ q r, A q r → B q r) (w : Walk A p c es) : Walk B p c es := by
  induction w with
  | done => exact .done
  | silent hs _ ih => exact .silent hs ih
  | choose hx ha _ ih => exact .choose hx (h _ _ ha) ih

theorem Walk.of_mem (w : Walk A p c es) {e : Request × Record} (he : e ∈ es) : A e.1 e.2 := by
  induction w with
  | done => cases he
  | silent _ _ ih => exact ih he
  | choose _ ha _ ih =>
      cases he with
      | head => exact ha
      | tail _ he => exact ih he

/-- After a request that is no choice there is one way to go on. -/
theorem Walk.of_silent (h : Silent p c p' c') (w : Walk A p c es) : Walk A p' c' es := by
  cases w with
  | done => cases h
  | silent h' w =>
      obtain ⟨rfl, rfl⟩ := h.unique h'
      exact w
  | choose => cases h

/-- **As long as the records of a walk are stored as they are, another run goes the same way.**  At
the first record that was replaced, by one that is settled on the same request, the other run finds
the new record. -/
theorem Walk.along (w : Walk Record.Settles p c (pre ++ (q, r) :: post))
    (w' : Walk (Record.Served stored) p c es')
    (hpre : ∀ e ∈ pre, stored e.2.address = some e.2) (hm : stored r.address = some m)
    (hq : Record.Settles q m) (hx : m.address = r.address) :
    ∃ post', es' = pre ++ (q, m) :: post' := by
  generalize hes : pre ++ (q, r) :: post = es at w
  induction w generalizing pre es' with
  | done => simp at hes
  | silent hs _ ih => exact ih (w'.of_silent hs) hpre hes
  | @choose q₀ next c r₀ es hx₀ ha₀ w ih =>
      cases w' with
      | silent hs => cases hs
      | @choose _ _ _ r' es' hx' ha' w' =>
          have hr' : r'.address = r₀.address := hx'.trans hx₀.symm
          cases pre with
          | nil =>
              cases hes
              have hrm : r' = m := ha'.eq_of_settles (hr' ▸ hm) hq
              subst hrm
              exact ⟨_, rfl⟩
          | cons e pre =>
              cases hes
              have hrr : r' = r₀ := ha'.eq_of_settles (hr' ▸ hpre _ (.head _)) ha₀
              subst hrr
              obtain ⟨post', rfl⟩ := ih w' (fun e he => hpre e (.tail _ he)) rfl
              exact ⟨post', rfl⟩

end Program

namespace Replay

variable {limits : Limits} {stored : Address → Option Record} {q : Request} {r : Record}
  {ρ ρ' : Replay} {v : Value}

/-- What has been written down stays. -/
theorem keeps_written (limits : Limits) (stored : Address → Option Record) (rs : List Record) :
    (player limits stored).Keeps fun ρ => rs <+: ρ.records where
  choose {ρ} q h := by
    show rs <+: (ρ.choose limits stored q).2.records
    have hout := chooses limits stored q ρ
    generalize ρ.choose limits stored q = out at hout ⊢
    cases hout with
    | reused | created =>
        rw [records_note]
        exact h.trans (List.prefix_append _ _)
    | spent | refused | undrawn | unscored => exact h
  enter {ρ} id h := by
    obtain ⟨_, he, -⟩ := enter_state limits id ρ
    show rs <+: (ρ.enter limits id).2.records
    rw [he]
    exact h
  leave {ρ ρ'} id h hl := by
    obtain ⟨_, -, rfl⟩ := leave_eq_ok_iff.mp hl
    exact h
  factor {ρ} w h := by
    show rs <+: (ρ.note (.factor w)).records
    rw [records_note_factor]
    exact h
  condition _ h := h
  write _ _ h := h
  nested _ _ h := h

/-- A choice that succeeds is served by a record, which is written down. -/
theorem choose_eq_ok (hst : ∀ {x r}, stored x = some r → r.address = x)
    (h : ρ.choose limits stored q = (.ok v, ρ')) :
    ∃ r created generator, r.address = ρ.sites.claim.1.address ∧ r.value = v ∧
      Record.Served stored q r ∧
      ρ' = { ρ with sites := ρ.sites.claim.2, generator }.note (.made q r created) := by
  have hout := chooses limits stored q ρ
  rw [h] at hout
  cases hout with
  | @reused r₀ r _ hs hfit hr =>
      have hx := r₀.address_refreshed q
      rw [hr] at hx
      have hx' : r.address = ρ.sites.claim.1.address := hx.trans (hst hs)
      exact ⟨r, _, _, hx', rfl, .reused (hx' ▸ hs) hfit hr, rfl⟩
  | created _ hn hv hlp =>
      refine ⟨_, _, _, rfl, rfl, .created hn hlp rfl fun u hu => ?_, rfl⟩
      rw [Trace.newValue, hu] at hv
      cases hv
      rfl

/-- A stored record that is settled on the request serves it, and stays as it is. -/
theorem choose_of_settles (hb : ρ.spent limits = false)
    (hs : stored ρ.sites.claim.1.address = some r) (hr : r.Settles q) :
    ρ.choose limits stored q =
      (.ok r.value, { ρ with sites := ρ.sites.claim.2 }.note (.made q r false)) := by
  rw [choose_of_stored hb hs hr.1, reuse, hr.2]

/-- **A choice that succeeds succeeds again** at the same place, over whatever stores the record
that it has made, and reuses that record. -/
theorem choose_again (hst : ∀ {x r}, stored x = some r → r.address = x)
    (h : ρ.choose limits stored q = (.ok v, ρ')) {limits' : Limits}
    {stored' : Address → Option Record} {σ : Replay} (hs : σ.sites = ρ.sites)
    (hb : σ.spent limits' = false) (hm : ∀ r ∈ ρ'.records, stored' r.address = some r) :
    ∃ r created generator,
      ρ' = { ρ with sites := ρ.sites.claim.2, generator }.note (.made q r created) ∧
      σ.choose limits' stored' q =
        (.ok v, { σ with sites := σ.sites.claim.2 }.note (.made q r false)) := by
  obtain ⟨r, created, generator, hx, rfl, hserved, rfl⟩ := choose_eq_ok hst h
  refine ⟨r, created, generator, rfl, choose_of_settles hb ?_ hserved.settles⟩
  rw [hs, ← hx]
  exact hm r (by rw [records_note]; exact List.mem_append_right _ (.head _))

end Replay

/-! ### A completed run is a walk -/

namespace Program.Strict

variable {limits : Limits} {stored : Address → Option Record} {ρ : Replay} {v : Value}

/-- **A completed replay of a strict program is a walk.** -/
theorem exists_walk (hst : ∀ {x r}, stored x = some r → r.address = x) :
    ∀ {p : Program}, p.Strict → ∀ {ρ : Replay},
      (p.play (Replay.player limits stored) ρ).1 = .ok v →
      ∃ es, Walk (Record.Served stored) p ρ.sites es ∧
        (p.play (Replay.player limits stored) ρ).2.records = ρ.records ++ es.map (·.2)
  | .done _, _, ρ, _ => ⟨[], .done, (List.append_nil _).symm⟩
  | .fail _, _, _, h => by cases h
  | .choose q next, hp, ρ, h => by
      rcases hc : (Replay.player limits stored).choose q ρ with ⟨(e | d | _) | w, ρ'⟩
      · rw [play, hc] at h
        exact absurd h ((hp.2 e).play_ne_ok _ ρ' v)
      · rw [play, hc] at h
        cases h
      · rw [play, hc] at h
        cases h
      · have hs : (Replay.player limits stored).Step (.choose q next) ρ (next (.ok w)) ρ' :=
          .choose hc
        rw [hs.play_eq] at h ⊢
        obtain ⟨r, created, g, hx, rfl, hr, rfl⟩ := Replay.choose_eq_ok hst hc
        obtain ⟨es, w, he⟩ := exists_walk hst (hp.1 r.value) h
        refine ⟨(q, r) :: es, .choose hx hr w, ?_⟩
        rw [he, Replay.records_note, List.append_assoc]
        rfl
  | .enter id next, hp, ρ, h => by
      rcases Replay.deep_or_shallow limits ρ with ⟨he, hd⟩ | hd
      · rw [(Replay.step_deep he hd).play_eq] at h
        exact absurd h ((hp.2 _).play_ne_ok _ _ v)
      · rw [(Replay.step_enter hd).play_eq] at h ⊢
        obtain ⟨es, w, he⟩ := exists_walk hst hp.1 h
        exact ⟨es, .silent .enter w, he⟩
  | .leave id next, hp, ρ, h => by
      cases hl : ρ.sites.leave? id with
      | none =>
          rw [play, Replay.leave_of_mismatch hl] at h
          cases h
      | some sites =>
          rw [(Replay.step_leave hl).play_eq] at h ⊢
          obtain ⟨es, w, he⟩ := exists_walk hst (p := next ()) hp h
          exact ⟨es, .silent (.leave hl) w, he⟩
  | .factor w next, hp, ρ, h => by
      obtain ⟨es, walk, he⟩ := exists_walk hst (p := next ()) hp h
      exact ⟨es, .silent .factor walk, he.trans (by rw [Replay.player, Replay.records_note_factor])⟩
  | .condition b next, hp, ρ, h => by
      obtain ⟨es, w, he⟩ := exists_walk hst (p := next ()) hp h
      exact ⟨es, .silent .condition w, he⟩
  | .isActive next, hp, ρ, h => by
      obtain ⟨es, w, he⟩ := exists_walk hst (p := next true) hp h
      exact ⟨es, .silent .isActive w, he⟩
  | .depth next, hp, ρ, h => by
      obtain ⟨es, w, he⟩ := exists_walk hst (hp ρ.sites.depth) h
      exact ⟨es, .silent .depth w, he⟩
  | .isEnumerating _, hp, _, _ => hp.elim
  | .read _ _, hp, _, _ => hp.elim
  | .write cell w next, hp, ρ, h => by
      obtain ⟨es, walk, he⟩ := exists_walk hst (p := next ()) hp h
      exact ⟨es, .silent .write walk, he⟩
  | .nested _ _ next, hp, ρ, h => by
      rw [play] at h
      exact absurd h ((hp .reentrant).play_ne_ok _ _ v)

end Program.Strict

/-! ### Traces that a completed pass has left -/

namespace Trace

variable {t : Trace} {fixed : Bool} {s : Session} {v : Value}

/-- A completed pass keeps the program and the budgets. -/
theorem WellFormed.constants_update (h : t.WellFormed) (hv : (t.update fixed s).1 = .ok v) :
    (t.update fixed s).2.1.program = t.program ∧ (t.update fixed s).2.1.limits = t.limits := by
  have hs : s.active = none := idle_of_ok hv
  obtain ⟨ha, -, p, ht, hm, hclose⟩ := h.update_mirrors hs fixed
  rw [hclose (.ok v) (ha.symm.trans hv)]
  show (p.trace.complete v).program = t.program ∧ (p.trace.complete v).limits = t.limits
  rw [(pruned_complete ht.layout v).frame, hm.frame]
  exact ⟨rfl, rfl⟩

theorem WellFormed.program_update (h : t.WellFormed) (hv : (t.update fixed s).1 = .ok v) :
    (t.update fixed s).2.1.program = t.program := (h.constants_update hv).1

/-- The records are those of a run of the program that would leave every one of them as it is. -/
def Walked (t : Trace) : Prop :=
  ∃ es, t.program.Walk Record.Settles .empty es ∧ t.records = es.map (·.2)

/-- The choices of a completed pass of a strict program. -/
theorem WellFormed.exists_walk (h : t.WellFormed) (hp : t.program.Strict)
    (hv : (t.update fixed s).1 = .ok v) :
    ∃ es, t.program.Walk (Record.Served t.record?) .empty es ∧
      (t.update fixed s).2.1.records = es.map (·.2) := by
  obtain ⟨hr, -, ha, -⟩ := h.agrees_update hv
  obtain ⟨es, w, he⟩ := hp.exists_walk h.address_record? hr
  exact ⟨es, w, ha.records.trans he⟩

theorem WellFormed.walked_update (h : t.WellFormed) (hp : t.program.Strict)
    (hv : (t.update fixed s).1 = .ok v) : (t.update fixed s).2.1.Walked := by
  obtain ⟨es, w, he⟩ := h.exists_walk hp hv
  rw [Walked, h.program_update hv]
  exact ⟨es, w.imp fun _ _ hr => hr.settles, he⟩

namespace Proposed

variable {x : Address} {r : Record} {proposal : Proposal} {m : Proposal.Move} {c : Trace}

theorem program_eq (h : t.Proposed x proposal r m c) : proposal.trace.program = t.program := by
  obtain ⟨fixed, s, v, hv, hu⟩ := h.completed
  rw [hu, h.moved.wellFormed.program_update hv, h.moved.program]

/-- The candidate is the end of a walk over the copy. -/
theorem exists_walk (h : t.Proposed x proposal r m c) (hp : t.program.Strict) :
    ∃ es, t.program.Walk (Record.Served c.record?) .empty es ∧
      proposal.trace.records = es.map (·.2) := by
  obtain ⟨fixed, s, v, hv, hu⟩ := h.completed
  obtain ⟨es, w, he⟩ := h.moved.wellFormed.exists_walk (h.moved.program ▸ hp) hv
  rw [h.moved.program] at w
  rw [hu]
  exact ⟨es, w, he⟩

theorem walked (h : t.Proposed x proposal r m c) (hp : t.program.Strict) :
    proposal.trace.Walked := by
  obtain ⟨es, w, he⟩ := h.exists_walk hp
  rw [Walked, h.program_eq]
  exact ⟨es, w.imp fun _ _ hr => hr.settles, he⟩

end Proposed

end Trace

/-- A completed pass has left the trace, after a history each of whose passes satisfied `P`, and no
value has been set since. -/
inductive SettledIn (P : Trace → Session → Prop) : Trace → Prop where
  | update {t : Trace} {v : Value} (fixed : Bool) (s : Session) (h : ReachableIn P t) (hp : P t s)
      (hv : (t.update fixed s).1 = .ok v) : SettledIn P (t.update fixed s).2.1
  | candidate {t : Trace} {x : Address} {fixed : Bool} {s : Session} {proposal : Proposal}
      (h : ReachableIn P t) (hc : (t.propose x fixed s).1 = .ok proposal) :
      SettledIn P proposal.trace
  | source {t : Trace} (x : Address) (fixed : Bool) (s : Session) (h : SettledIn P t) :
      SettledIn P (t.propose x fixed s).2.1
  | copyAs {t : Trace} (id : Nat) (h : SettledIn P t) : SettledIn P (t.copyAs id)
  | addFactor {t : Trace} (w : Float) (h : SettledIn P t) : SettledIn P (t.addFactor w)
  | demand {t : Trace} (b : Bool) (h : SettledIn P t) : SettledIn P (t.demand b)

/-- A completed pass has left the trace, and no value has been set since. -/
abbrev Settled : Trace → Prop := SettledIn fun _ _ => True

namespace SettledIn

variable {P : Trace → Session → Prop} {t : Trace}

theorem reachableIn (h : SettledIn P t) : ReachableIn P t := by
  induction h with
  | update fixed s h hp hv => exact h.update fixed s hp ⟨.ok _, hv⟩
  | candidate h hc => exact h.candidate hc
  | source x fixed s _ ih => exact ih.source x fixed s
  | copyAs id _ ih => exact ih.copyAs id
  | addFactor w _ ih => exact ih.addFactor w
  | demand b _ ih => exact ih.demand b

theorem wellFormed (h : SettledIn P t) : t.WellFormed := h.reachableIn.wellFormed

/-- **The records of a settled trace are those of a run that repeats itself.** -/
theorem walked (h : SettledIn P t) (hp : t.program.Strict) : t.Walked := by
  induction h with
  | @update t v fixed s h _ hv =>
      rw [h.wellFormed.program_update hv] at hp
      exact h.wellFormed.walked_update hp hv
  | @candidate t x fixed s proposal h hc =>
      obtain ⟨r, m, c, hprop⟩ := h.wellFormed.exists_proposed hc
      exact hprop.walked (hprop.program_eq ▸ hp)
  | @source t x fixed s _ ih =>
      obtain ⟨generator, hg⟩ := t.propose_source x fixed s
      rw [hg] at hp ⊢
      exact ih hp
  | copyAs _ _ ih => exact ih hp
  | addFactor _ _ ih => exact ih hp
  | demand _ _ ih => exact ih hp

end SettledIn

/-! ### The trace after one pass -/

section

variable {program : Program} {v : Value}

theorem settledIn_observedOnce {P : Trace → Session → Prop}
    (hp : P (.unstarted 0 program {} (.ofSeed 0)) {})
    (hv : ((Trace.unstarted 0 program {} (.ofSeed 0)).update false {}).1 = .ok v) :
    SettledIn P (observedOnce program) :=
  .update false {} (.unstarted 0 program {} (.ofSeed 0)) hp hv

theorem program_observedOnce
    (hv : ((Trace.unstarted 0 program {} (.ofSeed 0)).update false {}).1 = .ok v) :
    (observedOnce program).program = program :=
  (Trace.WellFormed.of_empty rfl rfl rfl).program_update hv

end

end ProbTrace
