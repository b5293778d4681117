import ProbTrace.Proofs.Enduring
import ProbTrace.Proofs.Restarting
import ProbTrace.Proofs.Scheduling

/-!
# Proofs — Containing: a hybrid search outlives what goes over a budget

A round of a hybrid search begins with a trace that is ready: but for its records it is the one of
the beginning, and the records are allowed (`Search.Ready`).  If the program endures what is
allowed, an enumerating step fails only late, after a request was refused because of a budget
(`Ready.enumerationStep`), and a fresh pass does not fail at all, whatever the trace holds
(`Waiting.freshPass`).  If being late means that the error is that of the budget, the fresh pass
that takes the place of the step leaves the trace ready again, and the search goes on until it is
satisfied or its attempts are used up (`Search.hybrid_contains`).

What is asked of the program is needed (`hybrid_fails`): a choice that has become free keeps a value
that was observed at its address, though it could not come by it; an observed choice keeps an equal
zero of the other sign; and a program may answer the error of a budget with one of its own.
-/

namespace ProbTrace

/-! ### The search -/

namespace Search

variable {A : Choice → Prop} {late : Error → Prop} {t₀ t : Trace} {s : Session}

/-- The trace is `t₀` but for what it holds, and no pass is running. -/
structure Waiting (t₀ t : Trace) (s : Session) : Prop where
  id_eq   : t.id = t₀.id
  program : t.program = t₀.program
  limits  : t.limits = t₀.limits
  idle    : s.active = none

/-- Besides, its records are allowed. -/
structure Ready (A : Choice → Prop) (t₀ t : Trace) (s : Session) : Prop
    extends Waiting t₀ t s where
  wellFormed : t.WellFormed
  keeps      : t.Keeps A

/-- How a step of a search ends: it succeeds and `G` holds, or it fails with an error and `B` holds,
or something ends it that is no error. -/
inductive Ends {α : Type} (G : Trace → Session → Prop) (B : Error → Trace → Session → Prop) :
    SearchStep α → Prop where
  | ok {a : α} {t : Trace} {s : Session} (h : G t s) : Ends G B (.ok a, t, s)
  | error {e : Error} {t : Trace} {s : Session} (h : B e t s) : Ends G B (.error (.error e), t, s)
  | grave {fault : Fault} {t : Trace} {s : Session} (h : fault.Grave) :
      Ends G B (.error fault, t, s)

theorem Waiting.flag (h : Waiting t₀ t s) (enumerating : Bool) :
    Waiting t₀ t { s with enumerating } := ⟨h.id_eq, h.program, h.limits, h.idle⟩

theorem Waiting.report (h : Waiting t₀ t s) (e : Event) : Waiting t₀ t (s.report e) := by
  refine ⟨h.id_eq, h.program, h.limits, ?_⟩
  rw [Session.report]
  split <;> exact h.idle

theorem Waiting.reset (h : Waiting t₀ t s) : Ready A t₀ t.reset s where
  id_eq := h.id_eq
  program := h.program
  limits := h.limits
  idle := h.idle
  wellFormed := .of_empty rfl rfl rfl
  keeps := Trace.keeps_of_empty rfl

theorem Waiting.update (h : Waiting t₀ t s) (hw : t.WellFormed) (fixed : Bool)
    (ha : Ended (t.update fixed s).1) :
    Waiting t₀ (t.update fixed s).2.1 (t.update fixed s).2.2 := by
  obtain ⟨hp, hl⟩ := hw.constants_of_ended ha
  have hstart : Under t₀.id s.settings t s := ⟨h.id_eq, rfl⟩
  have hunder := Trace.under_update hstart fixed
  have hactive := congrArg Settings.active hunder.settings
  exact ⟨hunder.id_eq, hp.trans h.program, hl.trans h.limits, hactive.trans h.idle⟩

/-- **A pass leaves the trace ready, or has gone over a budget while enumerating.** -/
theorem Ready.pass (hA : Choice.Lasting A) (hp : t₀.program.Endures A late false .empty)
    (h : Ready A t₀ t s) : Ends (Ready A t₀)
      (fun e u s' => late e ∧ s.enumerating = true ∧ Waiting t₀ u s') (pass t s) := by
  obtain ⟨hok, herr⟩ := h.keeps.update hA h.wellFormed (h.program.symm ▸ hp) h.idle false
  have hwait := h.toWaiting.update h.wellFormed false
  have hwf : Ended (t.update false s).1 → (t.update false s).2.1.WellFormed :=
    fun ⟨_, ha⟩ => h.wellFormed.update false s ha
  rw [Search.pass]
  generalize t.update false s = out at hok herr hwait hwf ⊢
  obtain ⟨(e | d | _) | v, u, s'⟩ := out
  · obtain ⟨hlate, hflag⟩ := herr e rfl
    exact .error ⟨hlate, hflag, hwait (ended_error e)⟩
  · exact .grave trivial
  · exact .grave trivial
  · exact .ok ⟨hwait (ended_ok v), hwf (ended_ok v), hok v rfl⟩

/-- The two ends of a step are as good as those under another flag. -/
theorem Ends.guarded {on : Bool} {step : Trace → Session → SearchStep Unit}
    {G G' : Trace → Session → Prop} {B B' : Error → Trace → Session → Prop}
    (h : Ends G B (step t { s with enumerating := on }))
    (hG : ∀ {u s'}, G u s' → G' u { s' with enumerating := s.enumerating })
    (hB : ∀ {e u s'}, B e u s' → B' e u { s' with enumerating := s.enumerating }) :
    Ends G' B' (Search.guarded on step t s) := by
  have hdef : Search.guarded on step t s =
      ((step t { s with enumerating := on }).1, (step t { s with enumerating := on }).2.1,
        { (step t { s with enumerating := on }).2.2 with enumerating := s.enumerating }) := rfl
  rw [hdef]
  generalize step t { s with enumerating := on } = out at h ⊢
  cases h with
  | ok h => exact .ok (hG h)
  | error h => exact .error (hB h)
  | grave h => exact .grave h

theorem Ready.flag (h : Ready A t₀ t s) (enumerating : Bool) :
    Ready A t₀ t { s with enumerating } :=
  { h.toWaiting.flag enumerating with wellFormed := h.wellFormed, keeps := h.keeps }

/-- **A fresh pass does not fail**, whatever the trace holds. -/
theorem Waiting.freshPass (hA : Choice.Lasting A) (hp : t₀.program.Endures A late false .empty)
    (h : Waiting t₀ t s) : Ends (Ready A t₀) (fun _ _ _ => False) (freshPass t s) := by
  refine Ends.guarded ((h.flag false).reset.pass hA hp) (fun hu => hu.flag _) ?_
  rintro e u s' ⟨-, hflag, -⟩
  cases hflag

/-- **An enumerating step fails because of a budget only.** -/
theorem Ready.enumerationStep (hA : Choice.Lasting A)
    (hp : t₀.program.Endures A late false .empty) (h : Ready A t₀ t s) :
    Ends (Ready A t₀) (fun e u s' => late e ∧ Waiting t₀ u s') (enumerationStep t s) := by
  obtain ⟨hmove, hfail⟩ := h.keeps.advance h.wellFormed
  have hadvance : Waiting t₀ t.advance.2 { s with enumerating := true } :=
    ⟨Trace.advance_keeps (I := fun u => u.id = t₀.id) (fun h _ _ => h) h.id_eq,
      Trace.advance_keeps (I := fun u => u.program = t₀.program) (fun h _ _ => h) h.program,
      Trace.advance_keeps (I := fun u => u.limits = t₀.limits) (fun h _ _ => h) h.limits, h.idle⟩
  have hwf : t.advance.2.WellFormed :=
    Trace.advance_keeps (I := Trace.WellFormed) (fun h hi hr => h.rescore hi hr) h.wellFormed
  refine Ends.guarded (G := Ready A t₀)
    (B := fun e u s' => late e ∧ true = true ∧ Waiting t₀ u s') ?_ (fun hu => hu.flag _)
    fun ⟨hlate, _, hu⟩ => ⟨hlate, hu.flag _⟩
  generalize t.advance = out at hmove hfail hadvance hwf ⊢
  obtain ⟨(e | d | _) | (_ | _), u⟩ := out
  · exact absurd rfl (hfail e)
  · exact .grave trivial
  · exact .grave trivial
  · exact hadvance.reset.pass hA hp
  · exact Ready.pass hA hp { hadvance with wellFormed := hwf, keeps := hmove true rfl }

end Search

/-- The error is that a pass has gone over a budget. -/
def Error.OverBudget (e : Error) : Prop := ∃ depth choices, e = .divergent depth choices

namespace Search

variable {A : Choice → Prop} {t₀ t : Trace} {s : Session}

/-- **A step of a hybrid search does not fail**: where an enumeration goes over a budget, a fresh
pass takes its place. -/
theorem Ready.hybridStep (hA : Choice.Lasting A)
    (hp : t₀.program.Endures A Error.OverBudget false .empty) (h : Ready A t₀ t s) (c : Schedule) :
    Ends (Ready A t₀) (fun _ _ _ => False) (hybridStep c t s) := by
  rw [Search.hybridStep]
  split
  · exact h.toWaiting.freshPass hA hp
  have hstep := h.enumerationStep hA hp
  rw [containedStep]
  generalize Search.enumerationStep t s = out at hstep ⊢
  cases hstep with
  | ok hu => exact .ok hu
  | error hu =>
      obtain ⟨⟨depth, choices, rfl⟩, hu⟩ := hu
      exact (hu.report _).freshPass hA hp
  | @grave fault u s' hfault =>
      cases fault with
      | error e => exact hfault.elim
      | defect d => exact .grave trivial
      | unfinished => exact .grave trivial

/-- A step that does not fail. -/
theorem Ends.ne_error {G : Trace → Session → Prop} {out : SearchStep Unit}
    (h : Ends G (fun _ _ _ => False) out) (e : Error) : out.1 ≠ .error (.error e) := by
  intro he
  cases h with
  | ok => cases he
  | error h => exact h
  | grave h =>
      cases he
      exact h

/-- **Where an enumeration goes over a budget, the step comes to what a pass of an unstarted trace
comes to.** -/
theorem Ready.hybridStep_of_divergent (hA : Choice.Lasting A)
    (hp : t₀.program.Endures A Error.OverBudget false .empty) (h : Ready A t₀ t s) {c : Schedule}
    (hc : c.isRestart = false) {depth choices : Nat} {u : Trace} {s' : Session}
    (hdiverges : Search.enumerationStep t s =
      (.error (.error (.divergent depth choices)), u, s'))
    (id : Nat) :
    let fresh := (Trace.unstarted id t₀.program t₀.limits u.generator).update false
      (s'.report (.enumerationDiverged (.divergent depth choices))).unflagged
    let out := Search.hybridStep c t s
    (∀ e, fresh.1 ≠ .error (.error e)) ∧ out.1 = fresh.1.map (fun _ => ()) ∧
      (∀ v, fresh.1 = .ok v → out.2.1 = { fresh.2.1 with id := t₀.id }) ∧
      out.2.2 = { fresh.2.2 with enumerating := s.enumerating } := by
  intro fresh out
  have hwait : Waiting t₀ u s' := by
    have hstep := h.enumerationStep hA hp
    rw [hdiverges] at hstep
    cases hstep with
    | error hu => exact hu.2
    | grave hfault => exact hfault.elim
  have hout : out = freshPass u (s'.report (.enumerationDiverged (.divergent depth choices))) := by
    show Search.hybridStep _ _ _ = _
    rw [Search.hybridStep, hc, if_neg Bool.false_ne_true, containedStep, hdiverges]
  obtain ⟨hanswer, htrace, hsession⟩ :=
    freshPass_attempt id u (s'.report (.enumerationDiverged (.divergent depth choices)))
  rw [hwait.program, hwait.limits, ← hout] at hanswer hsession
  rw [hwait.program, hwait.limits, hwait.id_eq, ← hout] at htrace
  -- both the step that went over the budget and the fresh pass have restored the flag
  have hflag : out.2.2.enumerating = s.enumerating := by
    have hu : s'.enumerating = s.enumerating :=
      congrArg (fun out : SearchStep Unit => out.2.2.enumerating) hdiverges.symm
    rw [hout]
    exact (congrArg Settings.enumerating (s'.settings_report _)).trans hu
  refine ⟨fun e he => ?_, hanswer, htrace, ?_⟩
  · have hfails : out.1 = .error (.error e) := hanswer.trans (congrArg (Except.map _) he)
    exact (h.hybridStep hA hp c).ne_error e hfails
  · calc out.2.2
        = { out.2.2.unflagged with enumerating := out.2.2.enumerating } := rfl
      _ = { fresh.2.2 with enumerating := s.enumerating } := by rw [hsession, hflag]; rfl

/-- The search fails because of its attempts only, and each of its rounds begins with a trace that
is ready. -/
structure Contained (A : Choice → Prop) (t₀ : Trace) (out : Journaled SearchEnd) : Prop where
  answer : ∀ e, out.1.1 = .error (.error e) → ∃ n, e = .attemptsExhausted n
  rounds : ∀ r ∈ roundsOf out.2, Ready A t₀ r.trace r.session

namespace Contained

theorem of_grave {fault : Fault} {es : List Entry} (t' : Trace) (s : Session) (h : fault.Grave)
    (hrs : ∀ r ∈ roundsOf es, Ready A t₀ r.trace r.session) :
    Contained A t₀ ((.error fault, t', s), es) where
  answer e he := by
    cases he
    exact h.elim
  rounds := hrs

theorem of_attempts {passes : Nat} {fault : Fault} (t' : Trace) (s : Session)
    (h : checkAttempts t passes = .error fault) :
    Contained A t₀ (.still (.error fault, t', s)) where
  answer e he := by
    cases he
    cases checkAttempts_eq_error h
    exact ⟨passes, rfl⟩
  rounds _ hr := absurd hr List.not_mem_nil

theorem after {es : List Entry} {out : Journaled SearchEnd}
    (hrs : ∀ r ∈ roundsOf es, Ready A t₀ r.trace r.session) (h : Contained A t₀ out) :
    Contained A t₀ (out.after es) where
  answer := h.answer
  rounds r hr := by
    rw [Journaled.snd_after, roundsOf_append] at hr
    rcases List.mem_append.mp hr with hr | hr
    · exact hrs r hr
    · exact h.rounds r hr

end Contained

theorem contained_hybridFrom (hA : Choice.Lasting A)
    (hp : t₀.program.Endures A Error.OverBudget false .empty) : ∀ (fuel passes : Nat)
    (c : Schedule) {t : Trace} {s : Session}, Ready A t₀ t s →
      Contained A t₀ (Journaled.hybridFrom fuel passes c t s)
  | 0, _, _, _, _, _ => ⟨fun _ he => (by cases he), fun _ hr => absurd hr List.not_mem_nil⟩
  | fuel + 1, passes, c, t, s, h => by
      have hstep := h.hybridStep hA hp c
      have hround := roundsOf_hybridStep c t s
      rw [Journaled.hybridFrom]
      split
      · exact ⟨fun _ he => (by cases he), fun _ hr => absurd hr List.not_mem_nil⟩
      cases hcap : checkAttempts t passes with
      | error fault => exact .of_attempts t s hcap
      | ok _ =>
          simp only
          rw [← Journaled.fst_hybridStep] at hstep
          generalize Journaled.hybridStep c t s = out at hstep hround ⊢
          obtain ⟨out, es⟩ := out
          have hready : ∀ r ∈ roundsOf es, Ready A t₀ r.trace r.session := by
            rw [hround]
            exact List.forall_mem_singleton.mpr h
          cases hstep with
          | ok hu => exact .after hready (contained_hybridFrom hA hp fuel (passes + 1) c.next hu)
          | error hu => exact hu.elim
          | grave hfault => exact .of_grave _ _ hfault hready

theorem contained_search (hA : Choice.Lasting A)
    (hp : t.program.Endures A Error.OverBudget false .empty) (hs : s.active = none) (fuel : Nat) :
    Contained A t (Journaled.search t .hybrid fuel s) := by
  have hwait : Waiting t t s := ⟨rfl, rfl, rfl, hs⟩
  have hfresh := hwait.freshPass hA hp
  show Contained A t (Journaled.beginning _ _ t s)
  rw [Journaled.beginning]
  cases hcap : checkAttempts t 0 with
  | error fault => exact .of_attempts t s hcap
  | ok _ =>
      simp only
      rw [← Journaled.fst_freshPass .fresh] at hfresh
      have hround := roundsOf_freshPass .fresh t s
      generalize Journaled.freshPass .fresh t s = out at hfresh hround ⊢
      obtain ⟨out, es⟩ := out
      have hready : ∀ r ∈ roundsOf es, Ready A t r.trace r.session := by
        rw [hround]
        exact fun _ hr => absurd hr List.not_mem_nil
      cases hfresh with
      | ok hu => exact .after hready (contained_hybridFrom hA hp fuel 1 {} hu)
      | error hu => exact hu.elim
      | grave hfault => exact .of_grave _ _ hfault hready

/-- **A hybrid search contains what goes over a budget.**  It fails because of its attempts only.
Where an enumerating step goes over a budget, the round comes to what a pass of an unstarted trace
comes to, with the generator as it is then and the flag not set; this does not fail.  Nothing is
left of the enumeration but the id of the trace and the flag as it was before. -/
theorem hybrid_contains (hA : Choice.Lasting A)
    (hp : t.program.Endures A Error.OverBudget false .empty) (hs : s.active = none) (fuel : Nat) :
    (∀ e, (t.search .hybrid fuel s).1 = .error (.error e) → ∃ n, e = .attemptsExhausted n) ∧
    (hybridLogged fuel t s).1 = t.search .hybrid fuel s ∧
    ∀ r ∈ (hybridLogged fuel t s).2, r.restarts = false → ∀ depth choices u s',
      enumerationStep r.trace r.session = (.error (.error (.divergent depth choices)), u, s') →
      ∀ id,
        let fresh := (Trace.unstarted id t.program t.limits u.generator).update false
          (s'.report (.enumerationDiverged (.divergent depth choices))).unflagged
        let out := hybridStep r.schedule r.trace r.session
        (∀ e, fresh.1 ≠ .error (.error e)) ∧ out.1 = fresh.1.map (fun _ => ()) ∧
          (∀ v, fresh.1 = .ok v → out.2.1 = { fresh.2.1 with id := t.id }) ∧
          out.2.2 = { fresh.2.2 with enumerating := r.session.enumerating } := by
  have hcontained := contained_search hA hp hs fuel
  have hlog := fst_hybridLogged fuel t s
  exact ⟨fun e he => hcontained.answer e (hlog ▸ he), hlog,
    fun r hr hrestarts _ _ _ _ hdiverges id =>
      (hcontained.rounds r hr).hybridStep_of_divergent hA hp hrestarts hdiverges id⟩

end Search

/-! ### Two flips where one choice is allowed -/

/-- Two flips, and a demand that nothing meets. -/
def twoFlips : Program :=
  (do
    let x ← Computation.sample .flip [0.5]
    let _ ← Computation.sample .flip [0.5]
    Computation.condition false
    pure x).program

/-- A trace of the two flips that has a budget of one choice. -/
def twoFlipsTrace : Trace :=
  .unstarted 0 twoFlips { maxChoices := 1, maxAttempts := some 3 } (.ofSeed 0)

example : (twoFlipsTrace.search .hybrid 3 {}).1 = .error (.error (.attemptsExhausted 3)) := by
  decide +kernel

/-- A flip with even chances is accepted, structural or not. -/
theorem accepted_evenFlip (structural : Bool) :
    Request.Accepted { family := .flip, params := [0.5], structural } := by
  have hcheck : Family.flip.check [0.5] = .ok () := by decide +kernel
  exact ⟨hcheck, nofun⟩

theorem endures_twoFlips : twoFlips.Endures (fun _ => True) Error.OverBudget false .empty := by
  have hflip := accepted_evenFlip false
  refine Program.endures_choose nofun hflip (fun _ _ => trivial) (fun _ _ => ?_)
    fun made => ⟨rfl, _, made, rfl⟩
  exact Program.endures_choose nofun hflip (fun _ _ => trivial) (fun _ _ => trivial)
    fun made => ⟨rfl, _, made, rfl⟩

/-- The second round of the search goes over the budget, and a fresh pass takes its place. -/
theorem hybrid_contains_twoFlips :
    ∃ r u s', (Search.hybridLogged 3 twoFlipsTrace {}).2[1]? = some r ∧
      Search.enumerationStep r.trace r.session = (.error (.error (.divergent 0 1)), u, s') ∧
      let fresh := (Trace.unstarted 1 twoFlips twoFlipsTrace.limits u.generator).update false
        (s'.report (.enumerationDiverged (.divergent 0 1))).unflagged
      (Search.hybridStep r.schedule r.trace r.session).1 = fresh.1.map (fun _ => ()) ∧
        ∀ e, fresh.1 ≠ .error (.error e) := by
  have hround : (Search.hybridLogged 3 twoFlipsTrace {}).2[1]?.map (fun r =>
      (r.restarts, (Search.enumerationStep r.trace r.session).1)) =
        some (false, .error (.error (.divergent 0 1))) := by decide +kernel
  obtain ⟨r, hr, hround⟩ := Option.map_eq_some_iff.mp hround
  obtain ⟨hrestarts, hdiverges⟩ := Prod.mk.inj hround
  obtain ⟨-, -, hcontained⟩ := Search.hybrid_contains (t := twoFlipsTrace)
    (fun _ _ _ _ _ _ => trivial) endures_twoFlips (s := {}) rfl 3
  refine ⟨r, (Search.enumerationStep r.trace r.session).2.1,
    (Search.enumerationStep r.trace r.session).2.2, hr, Prod.ext hdiverges rfl, ?_⟩
  obtain ⟨hfails, hanswer, -⟩ := hcontained r (List.mem_of_getElem? hr) hrestarts 0 1 _ _
    (Prod.ext hdiverges rfl) 1
  exact ⟨hanswer, hfails⟩

/-! ### Programs that fail in no world -/

/-- An index that is free if a flip is true and observed otherwise; a free one must not be seven, of
which it has no mass. -/
def lateIndex : Program :=
  (do
    let x ← Computation.structural .flip [0.5]
    if x = Value.bool true then
      let y ← Computation.sample .categorical [1.0, 1.0]
      if y = Value.int 7 then throw (.failure "no such index")
    else
      let _ ← Computation.observe .categorical [1.0, 1.0] (.int 7)
    Computation.condition false
    pure x : Computation Value).program

theorem sealed_lateIndex : lateIndex.Sealed := by
  refine Program.sealed_choose nofun (fun _ => rfl) fun x => ?_
  by_cases hx : x = Value.bool true
  · simp only [if_pos hx]
    refine Program.sealed_choose nofun (fun _ => rfl) fun y => ?_
    by_cases hy : y = Value.int 7
    · simp only [if_pos hy]
      trivial
    · simp only [if_neg hy]
      trivial
  · simp only [if_neg hx]
    exact Program.sealed_choose nofun (fun _ => rfl) fun _ => trivial

theorem endures_lateIndex : lateIndex.Endures Choice.Given (fun _ => True) false .empty := by
  refine Program.endures_choose nofun (accepted_evenFlip true) (fun _ => id) (fun x _ => ?_)
    fun _ => ⟨rfl, trivial⟩
  have hmasses : Family.categorical.check [1.0, 1.0] = .ok () := by decide +kernel
  by_cases hx : x = Value.bool true
  · simp only [if_pos hx]
    refine Program.endures_choose nofun ⟨hmasses, nofun⟩ (fun _ => id) (fun y hy => ?_)
      fun _ => ⟨rfl, trivial⟩
    have hlt := hy.position_lt rfl rfl
    have hne : y ≠ .int 7 := fun h => by
      subst h
      revert hlt
      decide
    simp only [if_neg hne]
    trivial
  · simp only [if_neg hx]
    exact Program.endures_choose nofun ⟨hmasses, fun _ hv => by cases hv; rfl⟩ (fun _ => id)
      (fun _ _ => trivial) fun _ => ⟨rfl, trivial⟩

/-- Observes a zero whose sign depends on a flip; if the flip is true, the zero has to be
negative. -/
def lateSign : Program :=
  (do
    let x ← Computation.structural .flip [0.5]
    let v ← Computation.observe .beta [1.0, 1.0]
      (.float (if x = Value.bool true then -0.0 else 0.0))
    if x = Value.bool true && 0.0 < 1.0 / v.asFloat.getD 1.0 then throw (.failure "positive")
    Computation.condition false
    pure x : Computation Value).program

theorem sealed_lateSign : lateSign.Sealed := by
  refine Program.sealed_choose nofun (fun _ => rfl) fun x => ?_
  refine Program.sealed_choose nofun (fun _ => rfl) fun v => ?_
  by_cases hsign : (decide (x = Value.bool true) && decide (0.0 < 1.0 / v.asFloat.getD 1.0)) = true
  · simp only [if_pos hsign]
    trivial
  · simp only [if_neg hsign]
    trivial

theorem endures_lateSign : lateSign.Endures Choice.Given (fun _ => True) false .empty := by
  have hbeta : Family.beta.check [1.0, 1.0] = .ok () := by decide +kernel
  refine Program.endures_choose nofun (accepted_evenFlip true) (fun _ => id) (fun x _ => ?_)
    fun _ => ⟨rfl, trivial⟩
  refine Program.endures_choose nofun ⟨hbeta, fun _ hv => by cases hv; rfl⟩ (fun _ => id)
    (fun v hv => ?_) fun _ => ⟨rfl, trivial⟩
  -- the zero that is observed is negative if the flip is true
  obtain rfl := hv.eq_of_observed rfl
  have hsign : ¬ (decide (x = Value.bool true) && decide (0.0 < 1.0 /
      (Value.float (if x = Value.bool true then -0.0 else 0.0)).asFloat.getD 1.0)) = true := by
    by_cases hx : x = Value.bool true
    · rw [if_pos hx, decide_eq_true hx]
      decide +kernel
    · rw [decide_eq_false hx]
      exact Bool.false_ne_true
  simp only [if_neg hsign]
  trivial

/-- Two flips and a demand that nothing meets; whatever error there is, the program fails with one
of its own. -/
def renamedError : Program :=
  (tryCatch (do
      let _ ← Computation.sample .flip [0.5]
      let _ ← Computation.sample .flip [0.5]
      Computation.condition false
      pure (Value.bool true))
    fun _ => throw (.failure "gave up") : Computation Value).program

theorem sealed_renamedError : renamedError.Sealed := by
  refine ⟨Request.steady_of_ne_binomial nofun, ?_, fun _ _ => Program.leadsAs_fail⟩
  rintro (e | x)
  · trivial
  refine ⟨Request.steady_of_ne_binomial nofun, ?_, fun _ _ => Program.leadsAs_fail⟩
  rintro (e | y) <;> trivial

theorem endures_renamedError :
    renamedError.Endures Choice.Given (fun _ => True) false .empty := by
  have hflip := accepted_evenFlip false
  refine Program.endures_choose nofun hflip (fun _ => id) (fun _ _ => ?_) fun _ => ⟨rfl, trivial⟩
  exact Program.endures_choose nofun hflip (fun _ => id) (fun _ _ => trivial)
    fun _ => ⟨rfl, trivial⟩

/-- Each of the programs depends on nothing but its choices, and fails, budgets apart, for no values
that these come by; and a hybrid search of it fails with an error of its own. -/
theorem hybrid_fails :
    (lateIndex.Sealed ∧ lateIndex.Endures Choice.Given (fun _ => True) false .empty ∧
      ((Trace.unstarted 0 lateIndex { maxAttempts := some 3 } (.ofSeed 0)).search .hybrid 3 {}).1 =
        .error (.error (.failure "no such index"))) ∧
    (lateSign.Sealed ∧ lateSign.Endures Choice.Given (fun _ => True) false .empty ∧
      ((Trace.unstarted 0 lateSign { maxAttempts := some 3 } (.ofSeed 0)).search .hybrid 3 {}).1 =
        .error (.error (.failure "positive"))) ∧
    renamedError.Sealed ∧ renamedError.Endures Choice.Given (fun _ => True) false .empty ∧
      ((Trace.unstarted 0 renamedError { maxChoices := 1, maxAttempts := some 3 }
        (.ofSeed 0)).search .hybrid 3 {}).1 = .error (.error (.failure "gave up")) :=
  ⟨⟨sealed_lateIndex, endures_lateIndex, by decide +kernel⟩,
    ⟨sealed_lateSign, endures_lateSign, by decide +kernel⟩,
    sealed_renamedError, endures_renamedError, by decide +kernel⟩

end ProbTrace
