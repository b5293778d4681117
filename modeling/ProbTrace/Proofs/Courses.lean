import ProbTrace.Proofs.Enumerating
import ProbTrace.Proofs.Inheriting

/-!
# Proofs — Courses: the runs of an enumeration, one after the other

Over the same holdings a program with finite domains has one run at most (`RunsOver.unique`).  A
completed pass over scored records is such a run, and the trace that it leaves shows it
(`Poised.pass_runs`, `Poised.pass_of_runsOver`).

What the next pass finds is settled by the run before (`World.Leaves`): the odometer has moved the
choices of the run on, or it has come round, there is a choice to draw afresh, and nothing is held.
`Program.Course` is a sequence of runs of which each is over what the one before has left.  The log
of an enumeration shows a course, whatever the trace that it began with (`Search.coursed_logged`).
If the enumeration ends exhausted, the last run closes the course (`World.Closes`): the odometer has
come round in it, and it has no choice to draw afresh.  A course that closes is one that the search
runs to its end (`Search.exhausted_of_course`).
-/

namespace ProbTrace

/-! ### Runs over what is held -/

namespace Choice

variable {held : Address → Option Holding} {k k' : Choice}

/-- Two choices of one request that begin have the same value, unless it has to be drawn. -/
theorem Fresh.value_eq (h : k.Fresh) (h' : k'.Fresh) (hq : k'.request = k.request)
    (hl : ¬ k.Loose) : k'.value = k.value := by
  cases ho : k.request.observed with
  | some v => exact (h'.observed v (hq ▸ ho)).trans (h.observed v ho).symm
  | none =>
      obtain ⟨d, hd⟩ :=
        Family.isEnumerable_iff.mp (Bool.eq_true_of_not_eq_false fun hf => hl ⟨ho, hf⟩)
      have hfirst := h'.first d (hq ▸ ho) (hq ▸ hd)
      rw [hq, h.first d ho hd] at hfirst
      exact (Except.ok.inj hfirst).symm

/-- Two choices of one request at one address inherit the same value. -/
theorem Inherits.value_eq (h : k.Inherits held) (h' : k'.Inherits held)
    (hx : k'.address = k.address) (hq : k'.request = k.request) (hl : ¬ k.Loose) :
    k'.value = k.value := by
  by_cases hex : ∃ m, held k.address = some m ∧ m.Fits k.request
  · obtain ⟨m, hm, hfit⟩ := hex
    rw [h.kept m hm hfit, h'.kept m (hx ▸ hm) (hq ▸ hfit), hq]
  · have hfresh := h.fresh fun m hm hfit => hex ⟨m, hm, hfit⟩
    exact hfresh.value_eq (h'.fresh fun m hm hfit => hex ⟨m, hx ▸ hm, hq ▸ hfit⟩) hq hl

end Choice

/-- The world is a run of the program over what is held. -/
def Program.RunsOver (limits : Limits) (p : Program) (held : Address → Option Holding)
    (w : World) : Prop :=
  p.Leads limits (Choice.Made held) .empty 0 w

/-- **Over the same holdings a program with finite domains has one run at most.** -/
theorem Program.RunsOver.unique {limits : Limits} {p : Program} {held : Address → Option Holding}
    {w w' : World} (hw : p.RunsOver limits held w) (hw' : p.RunsOver limits held w')
    (hp : p.Sealed) (hc : p.Countable) : w' = w := by
  rcases hw.eq_or_partAt hw' hp with h | ⟨pre, k, k', hpart⟩
  · exact h
  · obtain ⟨-, hk⟩ := hw.of_mem k hpart.mem_left
    obtain ⟨-, hk'⟩ := hw'.of_mem k' hpart.mem_right
    exact absurd (hk.2.value_eq hk'.2 hpart.address hpart.request
      (hw.not_loose hc k hpart.mem_left)) hpart.value

/-! ### Traces that show a run -/

namespace Trace

variable {program : Program} {limits : Limits} {t u : Trace} {s s' : Session} {w : World}
  {ks : List Choice} {x : Address} {r : Record}

/-- The trace is what the run has left: its records are those of the choices, one by one. -/
structure Shows (t : Trace) (w : World) : Prop where
  choices   : List.Forall₂ Record.Bears t.records w.choices
  returned  : t.returned = some w.returned
  satisfied : t.satisfied = w.satisfied

/-- The record at an address is the first one listed that has it. -/
theorem WellFormed.record?_eq_find? (h : t.WellFormed) (x : Address) :
    t.record? x = t.records.find? fun r => r.address == x := by
  cases hf : t.records.find? fun r => r.address == x with
  | some r =>
      have hx : r.address = x := by simpa using List.find?_some hf
      rw [← hx]
      exact h.record?_of_mem (List.mem_of_find?_eq_some hf)
  | none =>
      rw [Option.eq_none_iff_forall_ne_some]
      intro r hr
      have hne := List.find?_eq_none.mp hf r (h.mem_of_record? hr)
      exact hne (beq_iff_eq.mpr (h.address_record? hr))

/-- What a trace holds is what the choices of its records leave. -/
theorem WellFormed.held_eq (h : t.WellFormed) (hr : List.Forall₂ Record.Bears t.records ks) :
    t.held = Choice.held ks := by
  funext x
  rw [held, holdingIn, Choice.held, h.record?_eq_find? x]
  generalize t.records = rs at hr
  induction hr with
  | nil => rfl
  | cons hb _ ih =>
      rw [List.find?_cons, List.find?_cons, hb.address]
      split
      · exact congrArg some hb.holding_eq
      · exact ih

theorem WellFormed.scored_of_bears (h : t.WellFormed)
    (hr : List.Forall₂ Record.Bears t.records ks) : t.Scored := by
  intro i r hi
  obtain ⟨k, -, hb⟩ := exists_of_forall₂ hr r (h.mem_records.mpr ⟨i, hi⟩)
  exact hb.scored

/-- Nothing is held after a reset. -/
theorem held_of_empty (h : t.arena = {}) : t.held = fun _ => none := by
  funext x
  simp [held, holdingIn, record?, h, Arena.lookup?, Arena.slotOf?]

theorem Poised.reset (h : Poised program limits t s) : Poised program limits t.reset s where
  wellFormed := .of_empty rfl rfl rfl
  program := h.program
  limits := h.limits
  idle := h.idle
  enumerating := h.enumerating

/-- Where the replay comes to a run, so does the pass. -/
theorem Poised.pass_of_makes (h : Poised program limits t s)
    (hm : Replay.Makes t.limits t.record? t.program
      { generator := t.generator, session := s.quiet } w) :
    ∃ u s', Search.pass t s = (.ok (), u, s') ∧ Poised program limits u s' ∧ u.Shows w := by
  obtain ⟨rs, hrs, hall⟩ := hm.records
  obtain ⟨u, s', hpass, hpoised, hrecords, hret, hsat⟩ := h.completes hm.answer
  refine ⟨u, s', hpass, hpoised, ?_, hret, ?_⟩
  · rw [hrecords, replayed, hrs]
    exact hall
  · rw [hsat, replayed, hm.satisfied]
    exact Bool.true_and _

/-- **A completed pass is a run over what the trace has held**, and leaves a trace that shows the
run. -/
theorem Poised.pass_runs (h : Poised program limits t s) (hsc : t.Scored) (hp : program.Sealed)
    (hpass : Search.pass t s = (.ok (), u, s')) :
    Poised program limits u s' ∧ ∃ w, program.RunsOver limits t.held w ∧ u.Shows w := by
  obtain ⟨v, hv⟩ : ∃ v, (t.update false s).1 = .ok v := by
    rw [Search.pass] at hpass
    generalize t.update false s = out at hpass ⊢
    obtain ⟨fault | v, u', s''⟩ := out
    · cases hpass
    · exact ⟨v, rfl⟩
  have hv : (t.replayed s).1 = .ok v := (h.wellFormed.update_mirrors h.idle false).1.symm.trans hv
  have hsealed : t.program.Sealed := h.program.symm ▸ hp
  obtain ⟨w, hw, hm⟩ := hsealed.leads h.wellFormed.address_record? hsc.stored
    (ρ := { generator := t.generator, session := s.quiet }) h.enumerating hv
  obtain ⟨u', s'', hpass', hpoised, hshows⟩ := h.pass_of_makes hm
  rw [hpass] at hpass'
  cases hpass'
  refine ⟨hpoised, w, ?_, hshows⟩
  rw [Program.RunsOver, ← h.program, ← h.limits]
  exact hw

/-- **A program with finite domains makes the run over what the trace holds.** -/
theorem Poised.pass_of_runsOver (h : Poised program limits t s) (hsc : t.Scored)
    (hp : program.Sealed) (hc : program.Countable) (hw : program.RunsOver limits t.held w) :
    ∃ u s', Search.pass t s = (.ok (), u, s') ∧ Poised program limits u s' ∧ u.Shows w := by
  refine h.pass_of_makes (Program.Sealed.makes h.wellFormed.address_record? hsc.stored
    (h.program.symm ▸ hp) (h.program.symm ▸ hc) h.enumerating ?_)
  rw [h.program, h.limits]
  exact hw

end Trace

/-! ### Courses -/

/-- What a run in vain leaves for the next one to find. -/
inductive World.Leaves (w : World) : (Address → Option Holding) → Prop where
  /-- The odometer has moved on. -/
  | advanced {ks} (h : Choice.wind w.choices = .ok (ks, false)) : Leaves w (Choice.held ks)
  /-- The odometer has come round, and there is a choice to draw afresh. -/
  | restarted {ks} (h : Choice.wind w.choices = .ok (ks, true)) (hl : ∃ k ∈ w.choices, k.Loose) :
      Leaves w fun _ => none

/-- After the run the enumeration ends in vain. -/
structure World.Closes (w : World) : Prop where
  unsatisfied : w.satisfied = false
  round       : ∃ ks, Choice.wind w.choices = .ok (ks, true)
  tight       : ∀ k ∈ w.choices, ¬ k.Loose

/-- The worlds are runs of the program.  The first is over what is held, each of the others over
what the one before has left in vain, and the last is as `E` says. -/
inductive Program.Course (limits : Limits) (E : World → Prop) (p : Program) :
    (Address → Option Holding) → List World → Prop where
  | last {held w} (hw : p.RunsOver limits held w) (hE : E w) : Course limits E p held [w]
  | cons {held held' w ws} (hw : p.RunsOver limits held w) (hs : w.satisfied = false)
      (hl : w.Leaves held') (h : Course limits E p held' ws) : Course limits E p held (w :: ws)

namespace Program.Course

variable {limits : Limits} {E F : World → Prop} {p : Program}
  {held held' : Address → Option Holding}
  {w : World} {ws : List World}

theorem exists_cons (h : p.Course limits E held ws) :
    ∃ w rest, ws = w :: rest ∧ p.RunsOver limits held w := by
  cases h with
  | last hw _ => exact ⟨_, _, rfl, hw⟩
  | cons hw _ _ _ => exact ⟨_, _, rfl, hw⟩

theorem unsatisfied (h : p.Course limits World.Closes held ws) :
    ∀ w ∈ ws, w.satisfied = false := by
  induction h with
  | last _ hE => exact List.forall_mem_singleton.mpr hE.unsatisfied
  | cons _ hs _ _ ih => exact List.forall_mem_cons.mpr ⟨hs, ih⟩

theorem runsOver (h : p.Course limits E held ws) : ∀ w ∈ ws, ∃ held, p.RunsOver limits held w := by
  induction h with
  | last hw _ => exact List.forall_mem_singleton.mpr ⟨_, hw⟩
  | cons hw _ _ _ ih => exact List.forall_mem_cons.mpr ⟨⟨_, hw⟩, ih⟩

theorem exists_last (h : p.Course limits E held ws) : ∃ runs w, ws = runs ++ [w] ∧ E w := by
  induction h with
  | @last _ w _ hE => exact ⟨[], w, rfl, hE⟩
  | @cons _ _ v _ _ _ _ _ ih =>
      obtain ⟨runs, w, rfl, hE⟩ := ih
      exact ⟨v :: runs, w, rfl, hE⟩

/-- The course from one of its runs on, whatever that run is over. -/
theorem drop (h : p.Course limits E held ws) (hmem : w ∈ ws) (hw : p.RunsOver limits held' w) :
    ∃ rest, p.Course limits E held' (w :: rest) := by
  induction h with
  | last _ hE =>
      cases List.mem_singleton.mp hmem
      exact ⟨_, .last hw hE⟩
  | cons _ hs hl h ih =>
      rcases List.mem_cons.mp hmem with rfl | hmem
      · exact ⟨_, .cons hw hs hl h⟩
      · exact ih hmem

/-- A course goes on like another one that begins with one of its runs. -/
theorem join (h : p.Course limits E held ws) (hmem : w ∈ ws)
    (h' : p.Course limits F held' (w :: rest)) : ∃ ws', p.Course limits F held ws' := by
  induction h with
  | last hw _ =>
      cases List.mem_singleton.mp hmem
      cases h' with
      | last _ hF => exact ⟨_, .last hw hF⟩
      | cons _ hs hl h' => exact ⟨_, .cons hw hs hl h'⟩
  | cons hw hs hl _ ih =>
      rcases List.mem_cons.mp hmem with rfl | hmem
      · cases h' with
        | last _ hF => exact ⟨_, .last hw hF⟩
        | cons _ hs' hl' h' => exact ⟨_, .cons hw hs' hl' h'⟩
      · obtain ⟨ws', h⟩ := ih hmem
        exact ⟨_, .cons hw hs hl h⟩

end Program.Course

/-! ### The log of an enumeration shows a course -/

namespace Trace

variable {program : Program} {limits : Limits} {t u : Trace} {s s' : Session} {w : World}
  {held : Address → Option Holding} {worlds : Nat}

/-- After a run in vain the enumeration ends, or the trace holds what the run has left. -/
inductive GoesOn (program : Program) (limits : Limits) (w : World) (s : Session) (worlds : Nat) :
    SearchStep Search.Onward → Prop where
  | failed {fault : Fault} {u : Trace} (h : Choice.wind w.choices = .error fault) :
      GoesOn program limits w s worlds (.error fault, u, s)
  | ended {u : Trace} (h : ∃ ks, Choice.wind w.choices = .ok (ks, true))
      (ht : ∀ k ∈ w.choices, ¬ k.Loose) :
      GoesOn program limits w s worlds (.ok .ended, u, s)
  | advanced {ks : List Choice} {u : Trace} (h : Choice.wind w.choices = .ok (ks, false))
      (hu : Poised program limits u s) (hsc : u.Scored) (hh : u.held = Choice.held ks) :
      GoesOn program limits w s worlds (.ok .advanced, u, s)
  | restarted {ks : List Choice} {u : Trace} (h : Choice.wind w.choices = .ok (ks, true))
      (hl : ∃ k ∈ w.choices, k.Loose)
      (hu : Poised program limits u (s.report (.odometerWrapped worlds))) (hsc : u.Scored)
      (hh : u.held = fun _ => none) :
      GoesOn program limits w s worlds (.ok .restarted, u, s.report (.odometerWrapped worlds))

/-- The rewound choices of a run are as loose as those of the run. -/
theorem exists_loose_iff {ks ks' : List Choice} {carry : Bool}
    (h : Choice.wind ks = .ok (ks', carry)) : (∃ k ∈ ks', k.Loose) ↔ ∃ k ∈ ks, k.Loose := by
  have hall := Choice.forall₂_wind h
  clear h
  induction hall with
  | nil => exact Iff.rfl
  | cons hk _ ih =>
      obtain ⟨v, rfl⟩ := hk
      rw [List.exists_mem_cons_iff, List.exists_mem_cons_iff]
      exact or_congr Iff.rfl ih

theorem Poised.report (h : Poised program limits t s) (e : Event) :
    Poised program limits t (s.report e) := by
  obtain ⟨hwf, hprogram, hlimits, hi, he⟩ := h
  refine ⟨hwf, hprogram, hlimits, ?_, ?_⟩
  · rw [Session.report]
    split
    · exact hi
    · exact hi
  · rw [Session.report]
    split
    · exact he
    · exact he

/-- **What an enumeration does after a run in vain is settled by the run.** -/
theorem Poised.goesOn (h : Poised program limits t s) (hw : t.Shows w) (worlds : Nat) :
    GoesOn program limits w s worlds (Search.onward worlds t s) := by
  obtain ⟨hfail, hmove⟩ := h.wellFormed.advance_wind hw.choices
  have hadvance := h.advance
  rw [Search.onward]
  cases hwind : Choice.wind w.choices with
  | error fault =>
      have hf := hfail fault hwind
      generalize t.advance = out at hf ⊢
      obtain ⟨answer, u⟩ := out
      cases hf
      exact .failed hwind
  | ok out =>
      obtain ⟨ks, carry⟩ := out
      obtain ⟨hans, hrecords⟩ := hmove ks carry hwind
      generalize t.advance = out at hans hrecords hadvance ⊢
      obtain ⟨answer, u⟩ := out
      cases hans
      cases carry with
      | false =>
          exact .advanced hwind hadvance (hadvance.wellFormed.scored_of_bears hrecords)
            (hadvance.wellFormed.held_eq hrecords)
      | true =>
          have hloose := hasLoose_eq_false_iff hrecords
          simp only [Bool.not_true]
          cases hb : u.hasLoose with
          | true =>
              refine .restarted hwind ((exists_loose_iff hwind).mp ?_) (hadvance.reset.report _)
                (scored_of_empty rfl) (held_of_empty rfl)
              by_contra hno
              rw [hloose.mpr fun k hk hl => hno ⟨k, hk, hl⟩] at hb
              cases hb
          | false =>
              refine .ended ⟨ks, hwind⟩ fun k hk hl => ?_
              obtain ⟨k', hk', hl'⟩ := (exists_loose_iff hwind).mpr ⟨k, hk, hl⟩
              exact hloose.mp hb k' hk' hl'

end Trace

namespace Search

variable {program : Program} {limits : Limits} {t : Trace} {s : Session} {w : World}
  {held : Address → Option Holding} {out : SearchStep SearchEnd × List Trace}

/-- The log is empty or shows a course, which closes if the search has ended exhausted. -/
structure Coursed (limits : Limits) (program : Program) (held : Address → Option Holding)
    (out : SearchStep SearchEnd × List Trace) : Prop where
  course    : out.2 = [] ∨ ∃ runs, program.Course limits (fun _ => True) held runs ∧
    List.Forall₂ Trace.Shows out.2 runs
  exhausted : ∀ n, out.1.1 = .ok (.exhausted n) →
    ∃ runs, program.Course limits World.Closes held runs ∧ List.Forall₂ Trace.Shows out.2 runs

namespace Coursed

/-- The search stops after the run. -/
theorem stop {answer : Except Fault SearchEnd} (hw : program.RunsOver limits held w)
    (ht : t.Shows w) (h : ∀ n, answer ≠ .ok (.exhausted n)) (u : Trace) (s : Session) :
    Coursed limits program held ((answer, u, s), [t]) where
  course := .inr ⟨[w], .last hw trivial, .cons ht .nil⟩
  exhausted n hn := absurd hn (h n)

/-- The search fails before the first run. -/
theorem unrun (fault : Fault) (u : Trace) (s : Session) :
    Coursed limits program held ((.error fault, u, s), []) where
  course := .inl rfl
  exhausted _ hn := by cases hn

/-- The search fails after the run. -/
theorem failed (hw : program.RunsOver limits held w) (ht : t.Shows w) (fault : Fault) (u : Trace)
    (s : Session) : Coursed limits program held ((.error fault, u, s), [t]) :=
  .stop hw ht (fun _ hn => by cases hn) u s

/-- The search ends exhausted after the run. -/
theorem close {answer : Except Fault SearchEnd} (hw : program.RunsOver limits held w)
    (ht : t.Shows w) (h : w.Closes) (u : Trace) (s : Session) :
    Coursed limits program held ((answer, u, s), [t]) where
  course := .inr ⟨[w], .last hw trivial, .cons ht .nil⟩
  exhausted _ _ := ⟨[w], .last hw h, .cons ht .nil⟩

/-- The search goes on after the run. -/
theorem cons {held' : Address → Option Holding} (hw : program.RunsOver limits held w)
    (ht : t.Shows w) (hs : w.satisfied = false) (hl : w.Leaves held')
    (h : Coursed limits program held' out) :
    Coursed limits program held (out.map id (t :: ·)) where
  course := by
    rcases h.course with hnil | ⟨runs, hruns, hshows⟩
    · exact .inr ⟨[w], .last hw trivial, .cons ht (by rw [hnil]; exact .nil)⟩
    · exact .inr ⟨w :: runs, .cons hw hs hl hruns, .cons ht hshows⟩
  exhausted n hn := by
    obtain ⟨runs, hruns, hshows⟩ := h.exhausted n hn
    exact ⟨w :: runs, .cons hw hs hl hruns, .cons ht hshows⟩

end Coursed

/-- **From a run on the log shows a course.** -/
theorem coursed_enumerationFrom (hp : program.Sealed) : ∀ (fuel passes worlds : Nat) {t : Trace}
    {s : Session} {w : World} {held : Address → Option Holding}, Trace.Poised program limits t s →
      program.RunsOver limits held w → t.Shows w →
      Coursed limits program held
        ((Journaled.enumerationFrom fuel passes worlds t s).reading (tracesFrom t))
  | 0, _, _, _, _, _, _, _, hw, ht => .failed hw ht _ _ _
  | fuel + 1, passes, worlds, t, s, w, held, h, hw, ht => by
      rw [Journaled.enumerationFrom]
      split
      · exact .stop hw ht (fun _ hn => by cases hn) _ _
      rename_i hsat
      have hs : w.satisfied = false := ht.satisfied ▸ Bool.eq_false_of_not_eq_true hsat
      generalize checkAttempts t passes = attempts
      obtain fault | _ := attempts
      · exact .failed hw ht _ _ _
      have hgo := h.goesOn ht worlds
      simp only
      generalize onward worlds t s = out at hgo ⊢
      -- the next pass fails, or is a run over what this one has left
      have hnext : ∀ {u s'} (worlds' : Nat), w.Leaves u.held → Trace.Poised program limits u s' →
          u.Scored → Coursed limits program held
            (((Journaled.pass .enumerating u s').andThen fun _ =>
              Journaled.enumerationFrom fuel (passes + 1) worlds').reading (tracesFrom t)) := by
        intro u s' worlds' hl hu hsc
        rw [reading_tracesFrom]
        cases hpass : pass u s' with
        | mk answer out =>
            obtain ⟨u', s''⟩ := out
            cases answer with
            | error fault =>
                rw [reading_of_pass_error hpass]
                exact .failed hw ht _ _ _
            | ok _ =>
                obtain ⟨hpoised, w', hw', ht'⟩ := hu.pass_runs hsc hp hpass
                rw [reading_of_pass_ok hpass]
                exact .cons hw ht hs hl (coursed_enumerationFrom hp fuel _ _ hpoised hw' ht')
      cases hgo with
      | failed => exact .failed hw ht _ _ _
      | ended hr htight => exact .close hw ht ⟨hs, hr, htight⟩ _ _
      | advanced hwind hu hsc hh => exact hnext (worlds + 1) (hh ▸ .advanced hwind) hu hsc
      | restarted hwind hl hu hsc hh => exact hnext worlds (hh ▸ .restarted hwind hl) hu hsc

/-- An enumeration begins with the enumeration flag set. -/
theorem poised_start (h : t.WellFormed) (hs : s.active = none) :
    Trace.Poised t.program t.limits t (s.setEnumerating true).2 :=
  ⟨h, rfl, rfl, hs, rfl⟩

/-- A pass is completed only if none is active. -/
theorem idle_of_pass {u : Trace} {s' : Session} (h : pass t s = (.ok (), u, s')) :
    s.active = none := by
  have hidle : ∀ v, (t.update false s).1 = .ok v → s.active = none :=
    fun _ hv => Trace.idle_of_ok hv
  rw [pass] at h
  generalize t.update false s = out at h hidle
  obtain ⟨fault | v, u', s''⟩ := out
  · cases h
  · exact hidle v rfl

/-- **The log of an enumeration shows a course** over what the trace has held, if the records of the
trace are scored. -/
theorem coursed_logged (hp : t.program.Sealed) (h : t.WellFormed) (hsc : t.Scored) (fuel : Nat)
    (s : Session) : Coursed t.limits t.program t.held (logged fuel t s) := by
  -- the guard changes neither the answer nor the journal
  suffices hall : Coursed t.limits t.program t.held
      ((Journaled.beginning (Journaled.pass .enumerating) (Journaled.enumerationFrom fuel 1 1) t
        (s.setEnumerating true).2).reading tracesOf) from ⟨hall.course, hall.exhausted⟩
  rw [Journaled.beginning]
  generalize checkAttempts t 0 = attempts
  obtain fault | _ := attempts
  · exact .unrun _ _ _
  simp only
  cases hpass : pass t (s.setEnumerating true).2 with
  | mk answer out =>
      obtain ⟨u, s'⟩ := out
      cases answer with
      | error fault =>
          rw [reading_of_pass_error hpass]
          exact .unrun _ _ _
      | ok _ =>
          have hstart := poised_start h (idle_of_pass hpass)
          obtain ⟨hpoised, w, hw, ht⟩ := hstart.pass_runs hsc hp hpass
          rw [reading_of_pass_ok hpass]
          exact coursed_enumerationFrom hp fuel 1 1 hpoised hw ht

/-- From its first run on a course that closes is run to its end. -/
theorem exhausted_from (hp : program.Sealed) (hc : program.Countable)
    (ha : limits.maxAttempts = none) : ∀ (rest : List World) {w : World}
    {held : Address → Option Holding}, program.Course limits World.Closes held (w :: rest) →
      ∀ (passes worlds : Nat) {t : Trace} {s : Session} {fuel : Nat},
        Trace.Poised program limits t s → t.Shows w → rest.length < fuel →
        (enumerationFrom fuel passes worlds t s).1 = .ok (.exhausted (worlds + rest.length))
  | _, _, _, _, _, _, _, _, 0, _, _, hf => absurd hf (Nat.not_lt_zero _)
  | rest, w, held, hcourse, passes, worlds, t, s, fuel + 1, h, ht, hf => by
      have hs : w.satisfied = false := hcourse.unsatisfied w (.head _)
      have hattempts : checkAttempts t passes = .ok () :=
        checkAttempts_eq_ok_iff.mpr fun most hm => by
          rw [h.limits, ha] at hm
          cases hm
      rw [enumerationFrom, if_neg (by rw [ht.satisfied, hs]; exact Bool.false_ne_true), hattempts]
      have hgo := h.goesOn ht worlds
      simp only
      generalize onward worlds t s = out at hgo ⊢
      cases hcourse with
      | last _ hE =>
          obtain ⟨-, ⟨ks, hround⟩, htight⟩ := hE
          cases hgo with
          | failed hwind | advanced hwind => cases hround.symm.trans hwind
          | ended => rfl
          | restarted _ hl =>
              obtain ⟨k, hk, hl⟩ := hl
              exact absurd hl (htight k hk)
      | cons hw _ hl hcourse =>
          cases hl with
          | restarted _ hl =>
              obtain ⟨k, hk, hl⟩ := hl
              exact absurd hl (hw.not_loose hc k hk)
          | @advanced ks hwind =>
              cases hgo with
              | failed hwind' => cases hwind.symm.trans hwind'
              | ended hround =>
                  obtain ⟨_, hround⟩ := hround
                  cases hwind.symm.trans hround
              | restarted hround => cases hwind.symm.trans hround
              | advanced hwind' hu hsc hh =>
                  cases hwind.symm.trans hwind'
                  obtain ⟨w', rest, rfl, hw'⟩ := hcourse.exists_cons
                  obtain ⟨u', s', hpass, hpoised, ht'⟩ := hu.pass_of_runsOver hsc hp hc (hh ▸ hw')
                  simp only [hpass]
                  rw [exhausted_from hp hc ha rest hcourse (passes + 1) (worlds + 1) hpoised ht'
                    (Nat.lt_of_succ_lt_succ hf), List.length_cons, Nat.add_right_comm,
                    Nat.add_assoc]

/-- **A course that closes is one that the search runs to its end**, if the attempts are not
bounded. -/
theorem exhausted_of_course (hp : t.program.Sealed) (hc : t.program.Countable)
    (ha : t.limits.maxAttempts = none) (h : t.WellFormed) (hsc : t.Scored) (hs : s.active = none)
    {runs : List World} (hcourse : t.program.Course t.limits World.Closes t.held runs) {fuel : Nat}
    (hf : runs.length ≤ fuel) :
    (t.search .enumeration fuel s).1 = .ok (.exhausted runs.length) := by
  obtain ⟨w, rest, rfl, hw⟩ := hcourse.exists_cons
  obtain ⟨u, s', hpass, hpoised, ht⟩ := (poised_start h hs).pass_of_runsOver hsc hp hc hw
  have hattempts : checkAttempts t 0 = .ok () := checkAttempts_eq_ok_iff.mpr fun most hm => by
    rw [ha] at hm
    cases hm
  show (enumerationAll fuel t (s.setEnumerating true).2).1 = _
  rw [enumerationAll, hattempts]
  simp only [hpass]
  rw [exhausted_from hp hc ha rest hcourse 1 1 hpoised ht hf, List.length_cons, Nat.add_comm]

end Search

end ProbTrace
