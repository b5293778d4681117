import ProbTrace.Proofs.Missing

/-!
# Proofs — Resuming: an enumeration over a trace with a past

An enumeration does not reset the trace that it is given.  Its first run takes what the trace holds
(`Program.RunsOver`), and the odometer goes on from there: nothing that comes before that run is
ever run (`ReachableIn.exhausted_after`).

The first run is all that the past of the trace decides, since a run settles what the next one finds
(`World.Leaves.unique`).  If the first run is one of those that an enumeration over nothing makes,
the two searches go on alike from there, and the one ends exhausted if the other does
(`Search.Joins.exhausted_iff`).
-/

namespace ProbTrace

variable {limits : Limits} {p : Program} {E : World → Prop} {held held' : Address → Option Holding}
  {w w' : World} {t : Trace} {runs runs' : List World}

/-! ### Values tell runs apart -/

/-- Worlds that part do not have the same values. -/
theorem World.PartAt.values_ne {pre : List Choice} {k k' : Choice} (h : PartAt pre k k' w w') :
    w'.choices.map (·.value) ≠ w.choices.map (·.value) := by
  obtain ⟨post, hleft⟩ := h.left
  obtain ⟨post', hright⟩ := h.right
  intro he
  rw [hleft, hright, List.map_append, List.map_append] at he
  exact h.value (List.cons.inj (List.append_cancel_left he)).1

/-- **Runs of a program with the same values are the same.** -/
theorem Program.RunsOver.eq_of_values (hw : p.RunsOver limits held w)
    (hw' : p.RunsOver limits held' w') (hp : p.Sealed)
    (h : w'.choices.map (·.value) = w.choices.map (·.value)) : w' = w := by
  rcases hw.eq_or_partAt hw' hp with heq | ⟨pre, k, k', hpart⟩
  · exact heq
  · exact absurd h hpart.values_ne

/-- A trace has the values of the run that it shows. -/
theorem Trace.Shows.values_eq (h : t.Shows w) :
    t.records.map (·.value) = w.choices.map (·.value) := by
  have hall := h.choices
  generalize t.records = rs at hall
  generalize w.choices = ks at hall
  induction hall with
  | nil => rfl
  | cons hb _ ih => rw [List.map_cons, List.map_cons, hb.value, ih]

/-! ### Courses that meet go on alike -/

/-- What the next run finds is settled by the one before. -/
theorem World.Leaves.unique (h : w.Leaves held) (h' : w.Leaves held') : held' = held := by
  cases h with
  | advanced hw =>
      cases h' with
      | advanced hw' => cases hw.symm.trans hw'; rfl
      | restarted hw' => cases hw.symm.trans hw'
  | restarted hw =>
      cases h' with
      | advanced hw' => cases hw.symm.trans hw'
      | restarted hw' => rfl

theorem World.Closes.not_leaves (h : w.Closes) : ¬ w.Leaves held := by
  obtain ⟨-, ⟨ks, hround⟩, htight⟩ := h
  intro hl
  cases hl with
  | advanced hw => cases hround.symm.trans hw
  | restarted _ hloose =>
      obtain ⟨k, hk, hl⟩ := hloose
      exact htight k hk hl

/-- A course that closes has the runs of every other one over the same holdings. -/
theorem Program.Course.mem_of_closes (h : p.Course limits E held runs) (hp : p.Sealed)
    (hc : p.Countable) (h' : p.Course limits World.Closes held runs') : ∀ w ∈ runs, w ∈ runs' := by
  induction h generalizing runs' with
  | last hw _ =>
      obtain ⟨w', rest, rfl, hw'⟩ := h'.exists_cons
      rw [hw.unique hw' hp hc]
      exact List.forall_mem_singleton.mpr (.head _)
  | cons hw _ hl _ ih =>
      cases h' with
      | last hw' hE =>
          cases hw.unique hw' hp hc
          exact absurd hl hE.not_leaves
      | cons hw' _ hl' h' =>
          cases hw.unique hw' hp hc
          cases hl.unique hl'
          exact List.forall_mem_cons.mpr ⟨.head _, fun v hv => .tail _ (ih h' v hv)⟩

/-! ### Enumerations over traces with a past -/

namespace Search

variable {s s' : Session}

/-- The first pass of an enumeration over the trace leaves the values that some pass of one over
nothing leaves. -/
def Joins (t : Trace) (s : Session) (id : Nat) (generator : Generator) (s' : Session) : Prop :=
  ∃ fuel fuel' u u', (logged fuel t s).2.head? = some u ∧
    u' ∈ (logged fuel' (.unstarted id t.program t.limits generator) s').2 ∧
    u'.records.map (·.value) = u.records.map (·.value)

/-- The first run over the trace is one of a course over nothing. -/
theorem Joins.exists_course {id : Nat} {generator : Generator} (h : Joins t s id generator s')
    (hp : t.program.Sealed) (hwf : t.WellFormed) (hsc : t.Scored) :
    ∃ w runs, t.program.RunsOver t.limits t.held w ∧
      t.program.Course t.limits (fun _ => True) (fun _ => none) runs ∧ w ∈ runs := by
  obtain ⟨fuel, fuel', u, u', hu, hu', hvalues⟩ := h
  -- neither log is empty
  have hcoursed := (coursed_logged hp hwf hsc fuel s).course
  have hcoursed' := (coursed_logged (t := .unstarted id t.program t.limits generator) hp
    (.of_empty rfl rfl rfl) (Trace.scored_of_empty rfl) fuel' s').course
  rw [Trace.held_of_empty rfl] at hcoursed'
  rcases hcoursed with hnil | ⟨runs, hcourse, hlog⟩
  · rw [hnil] at hu
    cases hu
  rcases hcoursed' with hnil | ⟨runs', hcourse', hlog'⟩
  · rw [hnil] at hu'
    cases hu'
  obtain ⟨w, rest, rfl, hw⟩ := hcourse.exists_cons
  obtain ⟨w', hw', hshows'⟩ := exists_of_forall₂ hlog' u' hu'
  obtain ⟨held', hrun⟩ := hcourse'.runsOver w' hw'
  have hshows : u.Shows w := by
    generalize (logged fuel t s).2 = log at hu hlog
    cases hlog with
    | cons h _ =>
        cases hu
        exact h
  have he : w' = w := hw.eq_of_values hrun hp
    (hshows'.values_eq.symm.trans (hvalues.trans hshows.values_eq))
  exact ⟨w, runs', hw, hcourse', he ▸ hw'⟩

/-- **Where the first run joins an enumeration over nothing, the two end exhausted alike.** -/
theorem Joins.exhausted_iff {id : Nat} {generator : Generator} (h : Joins t s id generator s')
    (hp : t.program.Sealed) (hc : t.program.Countable) (hwf : t.WellFormed) (hsc : t.Scored)
    (ha : t.limits.maxAttempts = none) (hs : s.active = none) (hs' : s'.active = none) :
    (∃ fuel n, (t.search .enumeration fuel s).1 = .ok (.exhausted n)) ↔
      ∃ fuel n, ((Trace.unstarted id t.program t.limits generator).search .enumeration fuel s').1 =
        .ok (.exhausted n) := by
  obtain ⟨w, runs, hw, hcourse, hmem⟩ := h.exists_course hp hwf hsc
  have hempty : (Trace.unstarted id t.program t.limits generator).held = fun _ => none :=
    Trace.held_of_empty rfl
  constructor
  · rintro ⟨fuel, n, hn⟩
    obtain ⟨runs', hcourse', -⟩ := Search.exists_course hp hwf hsc hn
    obtain ⟨w', rest, rfl, hw'⟩ := hcourse'.exists_cons
    cases hw.unique hw' hp hc
    obtain ⟨ws, hall⟩ := hcourse.join hmem hcourse'
    exact ⟨_, _, exhausted_of_course (t := .unstarted id t.program t.limits generator) hp hc ha
      (.of_empty rfl rfl rfl) (Trace.scored_of_empty rfl) hs' (hempty ▸ hall) (Nat.le_refl _)⟩
  · rintro ⟨fuel, n, hn⟩
    obtain ⟨runs', hcourse', -⟩ := Search.exists_course
      (t := .unstarted id t.program t.limits generator) hp (.of_empty rfl rfl rfl)
      (Trace.scored_of_empty rfl) hn
    rw [hempty] at hcourse'
    obtain ⟨rest, hrest⟩ := hcourse'.drop (hcourse.mem_of_closes hp hc hcourse' w hmem) hw
    exact ⟨_, _, exhausted_of_course hp hc ha hwf hsc hs hrest (Nat.le_refl _)⟩

end Search

/-- **An enumeration begins with the run that the past of the trace gives it.**  Let the program of
a trace be sealed, its free choices have finite domains, and the records of the trace be scored.  If
an enumeration ends exhausted, the log shows runs in vain, the first one over what the trace has
held, and a satisfied world of the program comes before this first run, or it was missed on the way.
And if the attempts are not bounded and the first pass leaves the values that some pass of an
enumeration over nothing leaves, the one ends exhausted exactly when the other does. -/
theorem ReachableIn.exhausted_after {t : Trace} (h : ReachableIn Trace.FailsClean t)
    (hp : t.program.Sealed) (hc : t.program.Countable) :
    (∀ fuel s n, (t.search .enumeration fuel s).1 = .ok (.exhausted n) →
      ∃ runs, t.program.Course t.limits World.Closes t.held runs ∧
        List.Forall₂ Trace.Shows (Search.logged fuel t s).2 runs ∧
        (∀ w ∈ runs, w.satisfied = false) ∧
        ∀ v, t.program.Offers t.limits v → v.satisfied = true →
          (∃ w ∈ runs.head?, v.Before w) ∨ World.Missed runs v) ∧
      ∀ id generator s s', t.limits.maxAttempts = none → s.active = none → s'.active = none →
        Search.Joins t s id generator s' →
        ((∃ fuel n, (t.search .enumeration fuel s).1 = .ok (.exhausted n)) ↔
          ∃ fuel n, ((Trace.unstarted id t.program t.limits generator).search .enumeration fuel
            s').1 = .ok (.exhausted n)) := by
  refine ⟨fun fuel s n hn => ?_, fun id generator s s' ha hs hs' hj =>
    hj.exhausted_iff hp hc h.wellFormed h.trace_scored ha hs hs'⟩
  obtain ⟨runs, hcourse, hlog⟩ := Search.exists_course hp h.wellFormed h.trace_scored hn
  exact ⟨runs, hcourse, hlog, hcourse.unsatisfied, fun v hv hs =>
    hcourse.before_or_missed hp hc hv hs⟩

/-! ### Traces with a past -/

/-- A demand for a flip to be false that a draw makes true. -/
def trueFlip : Program :=
  (do
    let x ← Computation.structural .flip [1.0]
    Computation.condition (x = Value.bool false)
    pure x).program

/-- **After a pass that drew the last value the enumeration ends exhausted**, although it is
satisfied in its first run over a trace that has never run the program. -/
theorem exhausted_trueFlip : Reachable (observedOnce trueFlip) ∧
    ((observedOnce trueFlip).search .enumeration 5 {}).1 = .ok (.exhausted 1) ∧
    ((Trace.unstarted 0 trueFlip {} (.ofSeed 0)).search .enumeration 5 {}).1 =
      .ok (.satisfied 1) :=
  ⟨.update false {} (.unstarted 0 trueFlip {} (.ofSeed 0)) trivial
    ⟨.ok (.bool true), by decide +kernel⟩, by decide +kernel, by decide +kernel⟩

/-- A trace of the freed flip after a pass that drew both flips, and the second one set to true. -/
def settledFlips : Trace := (observedOnce freedFlip).withValue (.atSite "" 1) (.bool true)

example : settledFlips.records.map (·.value) = [.bool true, .bool true] := by
  decide +kernel

theorem update_freedFlip :
    ((Trace.unstarted 0 freedFlip {} (.ofSeed 0)).update false {}).1 = .ok (.bool false) := by
  decide +kernel

theorem reachableIn_settledFlips : ReachableIn Trace.FailsClean settledFlips :=
  ReachableIn.withValue (.update false {} (.unstarted 0 freedFlip {} (.ofSeed 0))
    (Trace.WellFormed.failsClean_of_ok (.of_empty rfl rfl rfl) update_freedFlip)
    ⟨.ok (.bool false), update_freedFlip⟩) _ _

theorem program_settledFlips : settledFlips.program = freedFlip := by
  rw [settledFlips, Trace.program_withValue]
  exact (Trace.WellFormed.of_empty rfl rfl rfl).program_update update_freedFlip

theorem limits_settledFlips : settledFlips.limits = {} := by
  decide +kernel

/-- The first pass over the trace leaves the values that the second one over nothing leaves. -/
theorem joins_settledFlips : Search.Joins settledFlips {} 0 (.ofSeed 0) {} := by
  have hlog : (Search.logged 5 settledFlips {}).2.map (fun u => u.records.map (·.value)) =
      [[.bool true, .bool true]] := by decide +kernel
  have hlog' : (Search.logged 5 (.unstarted 0 settledFlips.program settledFlips.limits
      (.ofSeed 0)) {}).2.map (fun u => u.records.map (·.value)) =
      [[.bool false, .bool true], [.bool true, .bool true]] := by decide +kernel
  obtain ⟨u, us, hu, hvalues, -⟩ := List.map_eq_cons_iff.mp hlog
  obtain ⟨_, us', hlog', -, hus'⟩ := List.map_eq_cons_iff.mp hlog'
  obtain ⟨u', _, rfl, hvalues', -⟩ := List.map_eq_cons_iff.mp hus'
  exact ⟨5, 5, u, u', by rw [hu]; rfl, hlog' ▸ .tail _ (.head _), hvalues'.trans hvalues.symm⟩

/-- Both searches end exhausted.  The one over the trace begins with the second run of the other,
and so it has no run before the satisfied world. -/
theorem exhausted_settledFlips :
    (∃ runs v, List.Forall₂ Trace.Shows (Search.logged 5 settledFlips {}).2 runs ∧
      settledFlips.program.Offers settledFlips.limits v ∧ v.satisfied = true ∧
      ((∃ w ∈ runs.head?, v.Before w) ∨ World.Missed runs v)) ∧
      ((∃ fuel n, (settledFlips.search .enumeration fuel {}).1 = .ok (.exhausted n)) ↔
        ∃ fuel n, ((Trace.unstarted 0 settledFlips.program settledFlips.limits
          (.ofSeed 0)).search .enumeration fuel {}).1 = .ok (.exhausted n)) := by
  obtain ⟨hruns, hiff⟩ := ReachableIn.exhausted_after reachableIn_settledFlips
    (program_settledFlips ▸ sealed_freedFlip) (program_settledFlips ▸ countable_freedFlip)
  refine ⟨?_, hiff 0 (.ofSeed 0) {} {} (by decide +kernel) rfl rfl joins_settledFlips⟩
  obtain ⟨v, hv, hs⟩ := offers_freedFlip
  have hv : settledFlips.program.Offers settledFlips.limits v := by
    rw [program_settledFlips, limits_settledFlips]
    exact hv
  obtain ⟨runs, -, hlog, -, hmissed⟩ := hruns 5 {} 1 (by decide +kernel)
  exact ⟨runs, v, hlog, hv, hs, hmissed v hv hs⟩

end ProbTrace
