import ProbTrace.Proofs.Journal
import ProbTrace.Proofs.Visiting

/-!
# Proofs — Enumerating: every world in turn

An enumeration over a program whose worlds can be listed (`Program.Listable`) runs them in the order
of the list.  Its first pass comes to the first world, because nothing is stored and every choice
begins.  After a pass in vain the odometer stops at the successor of the world that the trace holds,
and the next pass comes to it (`Poised.onward_of_next`); after the last world it comes round
(`Poised.onward_of_last`).  So by induction on the worlds that are left the search stops at the
first one that is satisfied, and when there is none it has run every one of them
(`Search.sweeps_enumerationFrom`).

The search does not say which worlds it has run.  `Search.logged` is the same search
(`Search.fst_logged`) with the traces that the passes of its journal leave.
-/

namespace ProbTrace

/-! ### The search with a log -/

namespace Search

/-- The trace that the pass leaves if it is completed. -/
def Begun.left? (b : Begun) : Option Trace :=
  match b.outcome with
  | (.ok _, t, _)    => some t
  | (.error _, _, _) => none

/-- The traces that the passes of a journal leave. -/
def tracesOf (entries : List Entry) : List Trace := (passesOf entries).filterMap Begun.left?

/-- The same, after the trace that the search has begun with. -/
def tracesFrom (t : Trace) (entries : List Entry) : List Trace := t :: tracesOf entries

/-- Every assignment in turn, until one is satisfied, with a log of the traces that the passes
leave. -/
def logged (fuel : Nat) (t : Trace) (s : Session) : SearchStep SearchEnd × List Trace :=
  (Journaled.search t .enumeration fuel s).reading tracesOf

/-- **The search with a log is the search.** -/
theorem fst_logged (fuel : Nat) (t : Trace) (s : Session) :
    (logged fuel t s).1 = t.search .enumeration fuel s :=
  Journaled.fst_search t .enumeration fuel s

section Reading

theorem reading_tracesFrom (t : Trace) (out : Journaled SearchEnd) :
    out.reading (tracesFrom t) = (out.reading tracesOf).map id (t :: ·) := rfl

variable {cause : Cause} {t u : Trace} {s s' : Session} {fault : Fault}
  {next : Unit → Trace → Session → Journaled SearchEnd}

/-- The trace that a completed pass leaves is logged before those of the passes that follow. -/
theorem reading_of_pass_ok (h : pass t s = (.ok (), u, s')) :
    ((Journaled.pass cause t s).andThen next).reading tracesOf =
      (next () u s').reading (tracesFrom u) := by
  have hlog : tracesOf (Journaled.pass cause t s).2 = [u] := by
    show List.filterMap Begun.left? [⟨cause, t, s⟩] = [u]
    simp [Begun.left?, Begun.outcome, h]
  have hfirst : (Journaled.pass cause t s).1 = (.ok (), u, s') := h
  rw [Journaled.andThen_ok hfirst]
  refine Prod.ext rfl ?_
  show List.filterMap Begun.left? (passesOf (_ ++ _)) = _
  rw [passesOf_append, List.filterMap_append]
  exact congrArg (· ++ tracesOf (next () u s').2) hlog

/-- A pass that fails ends the search, and nothing is logged. -/
theorem reading_of_pass_error (h : pass t s = (.error fault, u, s')) :
    ((Journaled.pass cause t s).andThen next).reading tracesOf = ((.error fault, u, s'), []) := by
  have hlog : tracesOf (Journaled.pass cause t s).2 = [] := by
    show List.filterMap Begun.left? [⟨cause, t, s⟩] = []
    simp [Begun.left?, Begun.outcome, h]
  have hfirst : (Journaled.pass cause t s).1 = (.error fault, u, s') := h
  rw [Journaled.andThen_error hfirst]
  exact congrArg (Prod.mk _) hlog

end Reading

end Search

/-! ### Programs whose worlds can be listed -/

/-- The worlds of the program can be listed: it can be enumerated, and each address is observed in
every world or free in every world. -/
structure Program.Listable (limits : Limits) (p : Program) : Prop where
  enumerable : p.Enumerable limits (p.worlds .empty) .empty 0
  sorted     : ∃ observed : Address → Bool, ∀ w ∈ p.worlds .empty, ∀ k ∈ w.choices,
    k.request.observed.isSome = observed k.address

namespace Trace

variable {program : Program} {limits : Limits} {t : Trace} {s : Session} {w w' : World}

theorem Poised.advance (h : Poised program limits t s) : Poised program limits t.advance.2 s where
  wellFormed := advance_keeps (I := WellFormed) (fun h hi hr => h.rescore hi hr) h.wellFormed
  program := advance_keeps (I := fun u => u.program = program) (fun h _ _ => h) h.program
  limits := advance_keeps (I := fun u => u.limits = limits) (fun h _ _ => h) h.limits
  idle := h.idle
  enumerating := h.enumerating

/-- **After a pass in vain the trace supplies the next world.** -/
theorem Poised.onward_of_next (h : Poised program limits t s) (hp : program.Listable limits)
    (ht : t.Holds (program.worlds .empty) w) (hw : w ∈ program.worlds .empty)
    (hw' : w' ∈ program.worlds .empty) (hn : w.Next w') (worlds : Nat) :
    ∃ u, Search.onward worlds t s = (.ok .advanced, u, s) ∧ Poised program limits u s ∧
      w'.Supplied (program.worlds .empty) u.record? := by
  obtain ⟨observed, hsorted⟩ := hp.sorted
  obtain ⟨u, hu, hs⟩ := h.wellFormed.advance_of_next ht.choices hn
    (Program.nodup_of_mem_worlds hw).1 (Program.nodup_of_mem_worlds hw').1
    fun k' hk' k hk hx => by rw [hsorted w' hw' k' hk', hsorted w hw k hk, hx]
  have hpoised := h.advance
  rw [hu] at hpoised
  exact ⟨u, by rw [Search.onward, hu], hpoised, hs⟩

/-- **After the last world the enumeration ends.** -/
theorem Poised.onward_of_last (h : Poised program limits t s) {ws : List World}
    (ht : t.Holds ws w) (hlast : ∀ k ∈ w.choices, k.Last) (worlds : Nat) :
    ∃ u, Search.onward worlds t s = (.ok .ended, u, s) := by
  obtain ⟨u, hu, hloose⟩ := h.wellFormed.advance_of_last ht.choices hlast
  exact ⟨u, by rw [Search.onward, hu]; simp only [hloose]; rfl⟩

end Trace

/-! ### Sweeps -/

namespace Search

/-- An enumeration has run the worlds `rest`, one after the other, up to the first one that is
satisfied, after so many worlds before them. -/
structure Sweeps (ws rest : List World) (before : Nat) (out : SearchStep SearchEnd × List Trace) :
    Prop where
  log       : List.Forall₂ (Trace.Holds ws) out.2 (rest.take (rest.findIdx World.satisfied + 1))
  satisfied : ∀ w, rest[rest.findIdx World.satisfied]? = some w → out.1.2.1.Holds ws w ∧
    out.1.1 = .ok (.satisfied (before + rest.findIdx World.satisfied + 1))
  exhausted : rest[rest.findIdx World.satisfied]? = none →
    out.1.1 = .ok (.exhausted (before + rest.length))

variable {program : Program} {limits : Limits} {t u : Trace} {s : Session} {w : World}
  {ws rest : List World} {before : Nat} {out : SearchStep SearchEnd × List Trace}

namespace Sweeps

theorem findIdx_of_satisfied (h : w.satisfied = true) :
    (w :: rest).findIdx World.satisfied = 0 := by
  rw [List.findIdx_cons, h]
  rfl

theorem findIdx_of_unsatisfied (h : w.satisfied = false) :
    (w :: rest).findIdx World.satisfied = rest.findIdx World.satisfied + 1 := by
  rw [List.findIdx_cons, h]
  rfl

/-- The search stops at a world that is satisfied. -/
theorem stop (ht : t.Holds ws w) (h : w.satisfied = true) (s : Session) :
    Sweeps ws (w :: rest) before ((.ok (.satisfied (before + 1)), t, s), [t]) where
  log := by
    rw [findIdx_of_satisfied h]
    exact .cons ht .nil
  satisfied v hv := by
    rw [findIdx_of_satisfied h] at hv ⊢
    cases hv
    exact ⟨ht, rfl⟩
  exhausted hn := by
    rw [findIdx_of_satisfied h] at hn
    cases hn

/-- The search ends after the last world if that is not satisfied. -/
theorem exhaust (ht : t.Holds ws w) (h : w.satisfied = false) (u : Trace) (s : Session) :
    Sweeps ws [w] before ((.ok (.exhausted (before + 1)), u, s), [t]) where
  log := by
    rw [findIdx_of_unsatisfied h]
    exact .cons ht .nil
  satisfied v hv := by
    rw [findIdx_of_unsatisfied h] at hv
    cases hv
  exhausted _ := rfl

/-- The search goes on after a world that is not satisfied. -/
theorem cons (ht : t.Holds ws w) (h : w.satisfied = false)
    (hrest : Sweeps ws rest (before + 1) out) :
    Sweeps ws (w :: rest) before (out.map id (t :: ·)) where
  log := by
    rw [findIdx_of_unsatisfied h]
    exact .cons ht hrest.log
  satisfied v hv := by
    rw [findIdx_of_unsatisfied h] at hv ⊢
    obtain ⟨hholds, hans⟩ := hrest.satisfied v hv
    refine ⟨hholds, hans.trans ?_⟩
    rw [Nat.add_right_comm before 1, Nat.add_assoc before]
  exhausted hn := by
    rw [findIdx_of_unsatisfied h] at hn
    refine (hrest.exhausted hn).trans ?_
    rw [List.length_cons, Nat.add_right_comm, Nat.add_assoc]

end Sweeps

/-- **The worlds that are left are run in turn**, up to the first one that is satisfied. -/
theorem sweeps_enumerationFrom (hp : program.Listable limits) : ∀ (rest : List World) (before : Nat)
    {w : World} {t : Trace} {s : Session} {fuel : Nat}, Trace.Poised program limits t s →
      t.Holds (program.worlds .empty) w → (∀ v ∈ w :: rest, v ∈ program.worlds .empty) →
      (w :: rest).IsChain World.Next →
      (∀ v ∈ (w :: rest).getLast?, ∀ k ∈ v.choices, k.Last) →
      (w :: rest).findIdx World.satisfied < fuel →
      (∀ most, limits.maxAttempts = some most →
        before + (w :: rest).findIdx World.satisfied < most) →
      Sweeps (program.worlds .empty) (w :: rest) before
        ((Journaled.enumerationFrom fuel (before + 1) (before + 1) t s).reading (tracesFrom t))
  | _, _, _, _, _, 0, _, _, _, _, _, hf, _ => absurd hf (Nat.not_lt_zero _)
  | rest, before, w, t, s, fuel + 1, h, ht, hmem, hchain, hlast, hf, ha => by
      rw [Journaled.enumerationFrom]
      cases hsat : w.satisfied with
      | true =>
          rw [if_pos (ht.satisfied.trans hsat)]
          exact .stop ht hsat _
      | false =>
          rw [Sweeps.findIdx_of_unsatisfied hsat] at hf ha
          have hattempts : checkAttempts t (before + 1) = .ok () :=
            checkAttempts_eq_ok_iff.mpr fun most hm => by
              have := ha most (h.limits ▸ hm)
              omega
          rw [if_neg (by rw [ht.satisfied, hsat]; exact Bool.false_ne_true), hattempts]
          cases rest with
          | nil =>
              obtain ⟨u, hu⟩ := h.onward_of_last ht (hlast w rfl) (before + 1)
              simp only [hu]
              exact .exhaust ht hsat u _
          | cons w' rest =>
              have hw' := hmem w' (.tail _ (.head _))
              obtain ⟨u, hu, hpoised, hs⟩ := h.onward_of_next hp ht (hmem w (.head _)) hw'
                hchain.rel (before + 1)
              obtain ⟨t', s', hpass, hpoised', ht'⟩ := hpoised.pass hp.enumerable hw'
                (World.observed_of_mem hw') hs
              simp only [hu]
              rw [reading_tracesFrom, reading_of_pass_ok hpass]
              refine .cons ht hsat (sweeps_enumerationFrom hp rest (before + 1) hpoised' ht'
                (fun v hv => hmem v (.tail _ hv)) hchain.tail ?_ (Nat.lt_of_succ_lt_succ hf)
                fun most hm => ?_)
              · rwa [List.getLast?_cons_cons] at hlast
              · have := ha most hm
                omega

/-- The first pass comes to the first world, and the others follow. -/
theorem sweeps_logged (hp : program.Listable limits) (id : Nat) (generator : Generator)
    (hs : s.active = none) {fuel : Nat}
    (hf : (program.worlds .empty).findIdx World.satisfied < fuel)
    (ha : ∀ most, limits.maxAttempts = some most →
      (program.worlds .empty).findIdx World.satisfied < most) :
    Sweeps (program.worlds .empty) (program.worlds .empty) 0
      (logged fuel (.unstarted id program limits generator) s) := by
  have hcounts := hp.enumerable.counts
  obtain ⟨w, rest, hworlds⟩ := List.exists_cons_of_ne_nil hcounts.nonempty
  have hw : w ∈ program.worlds .empty := hworlds ▸ .head _
  have hstart : Trace.Poised program limits (.unstarted id program limits generator)
      (s.setEnumerating true).2 := ⟨.of_empty rfl rfl rfl, rfl, rfl, hs, rfl⟩
  -- nothing is stored, and every choice of the first world begins
  have hnone : ∀ x, (Trace.unstarted id program limits generator).record? x = none := fun x => by
    simp [Trace.record?, Trace.unstarted, Arena.lookup?, Arena.slotOf?]
  have hsupplied : w.Supplied (program.worlds .empty)
      (Trace.unstarted id program limits generator).record? := fun k hk =>
    ⟨fun r hr => absurd ((hnone _).symm.trans hr) (Option.some_ne_none r).symm,
      fun _ => hcounts.first w (by rw [hworlds]; rfl) k hk⟩
  obtain ⟨t, s', hpass, hpoised, ht⟩ := hstart.pass hp.enumerable hw (World.observed_of_mem hw)
    hsupplied
  have hattempts : checkAttempts (.unstarted id program limits generator) 0 = .ok () :=
    checkAttempts_eq_ok_iff.mpr fun most hm => Nat.lt_of_le_of_lt (Nat.zero_le _) (ha most hm)
  have hsweeps := sweeps_enumerationFrom hp rest 0 hpoised ht (fun v hv => hworlds ▸ hv)
    (hworlds ▸ hcounts.chain) (hworlds ▸ hcounts.last) (hworlds ▸ hf) fun most hm => by
      rw [Nat.zero_add]
      exact hworlds ▸ ha most hm
  have hlogged : (Journaled.beginning (Journaled.pass .enumerating)
      (Journaled.enumerationFrom fuel 1 1) (.unstarted id program limits generator)
      (s.setEnumerating true).2).reading tracesOf =
        (Journaled.enumerationFrom fuel 1 1 t s').reading (tracesFrom t) := by
    rw [Journaled.beginning, hattempts]
    exact reading_of_pass_ok hpass
  rw [hworlds] at hsweeps ⊢
  rw [← hlogged] at hsweeps
  -- the guard changes neither the answer nor the journal
  exact ⟨hsweeps.log, hsweeps.satisfied, hsweeps.exhausted⟩

/-- **Every world in turn.**  Let the worlds of a program be listed, and let the budgets and the
fuel reach as far as the first satisfied one, or as far as there are worlds.  Then the worlds stand
in lexicographic order of their positions, and an enumeration over a trace that has never run the
program runs them in this order up to the first one that is satisfied, which the trace then holds;
it ends exhausted, after all of them, exactly when none is satisfied. -/
theorem enumeration_sweeps (hp : program.Listable limits) (id : Nat) (generator : Generator)
    (hs : s.active = none) {fuel : Nat}
    (hf : (program.worlds .empty).findIdx World.satisfied < fuel)
    (ha : ∀ most, limits.maxAttempts = some most →
      (program.worlds .empty).findIdx World.satisfied < most) :
    (program.worlds .empty).Pairwise (fun w w' => w.positions < w'.positions) ∧
      (logged fuel (.unstarted id program limits generator) s).1 =
        (Trace.unstarted id program limits generator).search .enumeration fuel s ∧
      Sweeps (program.worlds .empty) (program.worlds .empty) 0
        (logged fuel (.unstarted id program limits generator) s) ∧
      ((∃ worlds, ((Trace.unstarted id program limits generator).search .enumeration fuel s).1 =
          .ok (.exhausted worlds)) ↔ ∀ w ∈ program.worlds .empty, w.satisfied = false) := by
  have hsweeps := sweeps_logged hp id generator hs hf ha
  refine ⟨hp.enumerable.pairwise_worlds, fst_logged _ _ _, hsweeps, ?_⟩
  rw [← fst_logged]
  constructor
  · rintro ⟨worlds, hex⟩ w hw
    by_contra hsat
    have hlt := List.findIdx_lt_length_of_exists ⟨w, hw, Bool.eq_true_of_not_eq_false hsat⟩
    obtain ⟨-, hfound⟩ := hsweeps.satisfied _ (List.getElem?_eq_getElem hlt)
    rw [hex] at hfound
    cases hfound
  · intro hnone
    refine ⟨_, hsweeps.exhausted (List.getElem?_eq_none ?_)⟩
    rw [List.findIdx_eq_length.mpr hnone]

end Search

/-! ### Worlds that depend on the choices before -/

/-- A choice of three, made only if a first choice is true, and a demand for the last of the
three. -/
def lastOfThree : Program :=
  (do
    let x ← Computation.structural .flip [1.0]
    if x = Value.bool true then
      let y ← Computation.sample .categorical [1.0, 1.0, 1.0]
      Computation.condition (y = Value.int 2)
      pure y
    else
      Computation.condition false
      pure x).program

theorem grantable_flip {p : Float} {structural : Bool} (hp : Family.flip.check [p] = .ok ()) :
    Request.Grantable { family := .flip, params := [p], structural } where
  accepted := hp
  scorable := nofun
  finite _ := ⟨.flip, rfl, fun n hn => by cases hn; decide⟩

theorem values_flip (p : Float) (structural : Bool) :
    Request.values { family := .flip, params := [p], structural } = [.bool false, .bool true] := rfl

theorem listable_lastOfThree : lastOfThree.Listable {} where
  enumerable := by
    refine ⟨by decide, grantable_flip (by decide +kernel), fun v hv => ?_, nofun⟩
    rw [values_flip] at hv
    rcases List.mem_cons.mp hv with rfl | hv
    · trivial
    · rw [List.mem_singleton.mp hv]
      refine ⟨by decide, ⟨by decide +kernel, nofun, fun _ => ⟨.categorical, rfl, fun n hn => ?_⟩⟩,
        fun _ _ => trivial, nofun⟩
      cases hn
      decide
  sorted := ⟨fun _ => false, by decide +kernel⟩

theorem enumeration_sweeps_lastOfThree :
    (lastOfThree.worlds .empty).map World.positions = [[0], [1, 0], [1, 1], [1, 2]] ∧
      ((Trace.unstarted 0 lastOfThree {} (.ofSeed 0)).search .enumeration 4 {}).1 =
        .ok (.satisfied 4) ∧
      ∃ w ∈ lastOfThree.worlds .empty, w.positions = [1, 2] ∧
        ((Trace.unstarted 0 lastOfThree {} (.ofSeed 0)).search .enumeration 4 {}).2.1.Holds
          (lastOfThree.worlds .empty) w := by
  have hidx : (lastOfThree.worlds .empty).findIdx World.satisfied = 3 := by decide +kernel
  have hpos : ((lastOfThree.worlds .empty)[3]?).map World.positions = some [1, 2] := by
    decide +kernel
  obtain ⟨-, hlogged, hsweeps, -⟩ := Search.enumeration_sweeps listable_lastOfThree 0 (.ofSeed 0)
    (s := {}) rfl (show _ < 4 by rw [hidx]; decide) nofun
  obtain ⟨w, hw, hpos⟩ := Option.map_eq_some_iff.mp hpos
  obtain ⟨hholds, hans⟩ := hsweeps.satisfied w (hidx ▸ hw)
  rw [hlogged] at hholds hans
  rw [hidx] at hans
  exact ⟨by decide +kernel, hans, w, List.mem_of_getElem? hw, hpos, hholds⟩

/-! ### An observation that differs in the sign of zero -/

/-- Observes a zero whose sign depends on a choice, and makes another choice if the zero is
positive. -/
def signOfZero : Program :=
  (do
    let x ← Computation.structural .flip [0.5]
    let v ← Computation.observe .beta [1.0, 1.0]
      (.float (if x = Value.bool true then -0.0 else 0.0))
    if 0.0 < 1.0 / v.asFloat.getD 1.0 then
      let y ← Computation.sample .flip [0.5]
      Computation.condition false
      pure y
    else
      Computation.condition false
      pure x).program

/-- Without regard to equal observations the program can be enumerated.  It has three worlds, and
the search runs four: with the second value of the first choice the record of the observation keeps
the zero of the other sign. -/
theorem exhausted_signOfZero :
    signOfZero.Enumerable {} [] .empty 0 ∧
      (∀ w ∈ signOfZero.worlds .empty, ∀ k ∈ w.choices,
        k.request.observed.isSome = (k.address == .atSite "" 1)) ∧
      (signOfZero.worlds .empty).length = 3 ∧
      (∀ w ∈ signOfZero.worlds .empty, w.satisfied = false) ∧
      ((Trace.unstarted 0 signOfZero {} (.ofSeed 0)).search .enumeration 5 {}).1 =
        .ok (.exhausted 4) := by
  refine ⟨?_, by decide +kernel, by decide +kernel, by decide +kernel, by decide +kernel⟩
  have hobserved : ∀ {x family structural v}, ¬ World.Observe [] x family structural v :=
    fun ⟨w, hw, _⟩ => List.not_mem_nil hw
  refine ⟨by decide, grantable_flip (by decide +kernel), fun x _ => ⟨by decide, ?_, fun v _ => ?_,
    fun _ _ _ _ h => absurd h hobserved⟩, nofun⟩
  · have hbeta : Family.beta.check [1.0, 1.0] = .ok () := by decide +kernel
    exact ⟨hbeta, fun _ hv => by cases hv; rfl, nofun⟩
  · -- whatever the sign, there is one more choice at most
    by_cases hsign : 0.0 < 1.0 / v.asFloat.getD 1.0
    · simp only [if_pos hsign]
      exact ⟨by decide, grantable_flip (by decide +kernel), fun _ _ => trivial, nofun⟩
    · simp only [if_neg hsign]
      trivial

end ProbTrace
