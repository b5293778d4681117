import ProbTrace.Proofs.Closing
import ProbTrace.Proofs.FastPath

/-!
# Proofs — Passing: a whole pass over a trace

An update opens a pass, runs the program in it and closes the trace, unless another pass is running
and it is refused.  `update_eq_play` puts the parts together: from a well-formed trace the program
is in effect played by address alone, whether or not the structure is fixed, and the trace is closed
from its layout.  So an update keeps traces well formed (`WellFormed.update`) and does not depend on
the flag (`update_eq_of_fixed`).
-/

namespace ProbTrace

namespace Trace

variable {t : Trace} {s : Session}

/-- The pass that an update opens. -/
def opening (t : Trace) (fixed : Bool) (s : Session) : Pass :=
  ⟨t.start fixed, .empty, { s with active := some t.id }⟩

/-- What becomes of the trace when the program has ended. -/
def close : Except Error Value → Trace → Trace
  | .ok v,    t => t.complete v
  | .error _, t => t.abandon

/-- What an update comes to whose run of the program comes to this: the trace is closed, and none is
marked any more. -/
def concluded (out : Except Fault Value × Pass) : Except Fault Value × Trace × Session :=
  ((conclude out).1, (conclude out).2.1, { (conclude out).2.2 with active := none })

/-! ### Opening and closing -/

/-- **A pass plays the program from its opening**, in whatever way, unless another pass is
running. -/
theorem passWith_eq (run : Pass → Except Fault Value × Pass) (t : Trace) (fixed : Bool)
    (s : Session) : t.passWith run fixed s =
      if s.active.isSome then (.error (.error .reentrant), t, s)
      else concluded (run (t.opening fixed s)) := by
  obtain ⟨_ | id, enumerating, nextId, cells, recording, events⟩ := s <;> rfl

theorem update_eq (t : Trace) (fixed : Bool) (s : Session) : t.update fixed s =
    if s.active.isSome then (.error (.error .reentrant), t, s)
    else concluded (t.program.play Pass.player (t.opening fixed s)) := by
  rw [← t.program.run_eq_play]
  exact passWith_eq _ t fixed s

theorem update_of_busy (h : s.active.isSome = true) (t : Trace) (fixed : Bool) :
    t.update fixed s = (.error (.error .reentrant), t, s) :=
  (passWith_eq _ t fixed s).trans (if_pos h)

theorem passWith_of_idle (h : s.active = none) (run : Pass → Except Fault Value × Pass)
    (t : Trace) (fixed : Bool) : t.passWith run fixed s = concluded (run (t.opening fixed s)) :=
  (passWith_eq run t fixed s).trans (if_neg (by rw [h]; exact Bool.false_ne_true))

theorem update_of_idle (h : s.active = none) (t : Trace) (fixed : Bool) :
    t.update fixed s = ((conclude (t.program.run (t.opening fixed s))).1,
      (conclude (t.program.run (t.opening fixed s))).2.1,
      { (conclude (t.program.run (t.opening fixed s))).2.2 with active := none }) :=
  passWith_of_idle h t.program.run t fixed

/-- A pass that is completed was not refused. -/
theorem idle_of_ok {fixed : Bool} {v : Value} (h : (t.update fixed s).1 = .ok v) :
    s.active = none := by
  cases hs : s.active with
  | none => rfl
  | some id =>
      rw [update_of_busy (by simp [hs])] at h
      cases h

theorem running_opening (h : t.WellFormed) (fixed : Bool) (s : Session) :
    (t.opening fixed s).Running :=
  ⟨h.layout_start fixed, rfl⟩

/-- What has not been visited yet of the previous order is all that the flag makes a difference
to. -/
theorem plain_opening (t : Trace) (fixed : Bool) (s : Session) :
    (t.opening fixed s).plain = (t.opening false s).plain := by
  simp [opening, Pass.plain, forgetRest, start]

theorem forgetRest_forgetRest (t : Trace) : t.forgetRest.forgetRest = t.forgetRest := by
  simp [forgetRest]

/-- Closing a trace does not look at the rest of the previous order. -/
theorem close_forgetRest (answer : Except Error Value) (t : Trace) :
    t.forgetRest.close answer = t.close answer := by
  cases answer with
  | error e => rfl
  | ok v =>
      -- pruning forgets the rest of the order before it does anything else
      have hf := forgetRest_forgetRest { t with returned := some v }
      show (List.range t.arena.slots.size).foldl pruneSlot
        { t with returned := some v }.forgetRest.forgetRest = _
      rw [hf]
      rfl

theorem wellFormed_close {c : CallSites} (h : t.Layout c) (answer : Except Error Value) :
    (t.close answer).WellFormed := by
  cases answer with
  | error e => exact wellFormed_abandon h
  | ok v => exact wellFormed_complete h v

/-! ### Concluding -/

theorem fst_conclude (answer : Except Fault Value) (p : Pass) :
    (conclude (answer, p)).1 = answer := by
  rcases answer with (e | d | _) | v <;> rfl

theorem conclude_lift (answer : Except Error Value) (p : Pass) :
    (conclude (Fault.lift answer, p)).2.1 = p.trace.close answer := by
  cases answer <;> rfl

theorem quiet_conclude (answer : Except Fault Value) (p : Pass) :
    (conclude (answer, p)).2.2.quiet = p.session.quiet := by
  rcases answer with (e | d | _) | v
  · exact Session.quiet_report _ _
  · rfl
  · rfl
  · exact Session.quiet_report _ _

/-- **An update plays the program by address alone**, and closes the trace that this leaves. -/
theorem update_eq_play (h : t.WellFormed) (hs : s.active = none) (fixed : Bool) :
    let out := t.program.play Pass.byAddress (t.opening false s).plain
    (t.update fixed s).1 = out.1 ∧
      (∀ answer, out.1 = Fault.lift answer →
        (t.update fixed s).2.1 = out.2.trace.close answer) ∧
      (t.update fixed s).2.2.quiet = { out.2.session with active := none } ∧
      out.2.trace.Layout out.2.sites := by
  -- from here on the flag is gone: the two openings differ in what `plain` forgets
  obtain ⟨ha, hr, hp⟩ := Pass.run_eq_play_byAddress (running_opening h fixed s) t.program
  rw [plain_opening] at ha hp
  intro out
  rw [update_of_idle hs]
  rcases hrun : t.program.run (t.opening fixed s) with ⟨answer, p⟩
  rw [hrun] at ha hr hp
  have hout : out.2.trace = p.trace.forgetRest := (congrArg Pass.trace hp).symm
  have hses : out.2.session = p.session.quiet := (congrArg Pass.session hp).symm
  have hsites : out.2.sites = p.sites := (congrArg Pass.sites hp).symm
  refine ⟨(fst_conclude answer p).trans ha, fun answer' he => ?_, ?_, ?_⟩
  · have he' : answer = Fault.lift answer' := ha.trans he
    rw [hout, he', close_forgetRest]
    exact conclude_lift answer' p
  · rw [hses, ← quiet_conclude answer p]
    rfl
  · rw [hout, hsites]
    exact hr.layout.forgetRest

/-- **The flag is never observed**: an update with fixed structure and one without give the same
answer and, when the program has ended, the same trace; the sessions differ in events only. -/
theorem update_eq_of_fixed (h : t.WellFormed) (s : Session) :
    (t.update true s).1 = (t.update false s).1 ∧
      (∀ answer, (t.update false s).1 = Fault.lift answer →
        (t.update true s).2.1 = (t.update false s).2.1) ∧
      (t.update true s).2.2.quiet = (t.update false s).2.2.quiet := by
  cases hs : s.active with
  | some id =>
      have hb : s.active.isSome = true := by simp [hs]
      rw [update_of_busy hb, update_of_busy hb]
      exact ⟨rfl, fun _ _ => rfl, rfl⟩
  | none =>
      obtain ⟨ha, ht, hq, -⟩ := update_eq_play h hs true
      obtain ⟨ha', ht', hq', -⟩ := update_eq_play h hs false
      refine ⟨ha.trans ha'.symm, fun answer he => ?_, hq.trans hq'.symm⟩
      have he := ha'.symm.trans he
      exact (ht answer he).trans (ht' answer he).symm

/-- **An update whose program ends keeps the trace well formed**, and so does a refused one. -/
theorem WellFormed.update (h : t.WellFormed) (fixed : Bool) (s : Session)
    {answer : Except Error Value} (ha : (t.update fixed s).1 = Fault.lift answer) :
    (t.update fixed s).2.1.WellFormed := by
  cases hs : s.active with
  | some id =>
      rw [update_of_busy (by simp [hs])]
      exact h
  | none =>
      obtain ⟨ha', ht, -, hl⟩ := update_eq_play h hs fixed
      rw [ht answer (ha'.symm.trans ha)]
      exact wellFormed_close hl answer

end Trace

end ProbTrace
