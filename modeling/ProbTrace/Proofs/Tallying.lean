import ProbTrace.Proofs.Aborting
import ProbTrace.Proofs.Journal
import ProbTrace.Proofs.Upkeep

/-!
# Proofs — Tallying: how often a search runs the program

A search counts its passes, and the bound on its attempts is on that count.  `Search.tallied` is the
same search (`Search.fst_tallied`) with the tally of its journal (`Search.Tally.of`): what each pass
has answered in which the program was run, and how many of them were fallbacks.  A fallback is the
fresh pass that follows an enumerating one that went over a budget, within one step of the hybrid
search.

* `Search.Tally.Tells`: a step that ends has run the program once, and once more for a fallback.
* `Search.Counts`: so the passes that a search counts are the runs less the fallbacks, and the bound
  is on that number (`Reachable.search_counts`).
-/

namespace ProbTrace

/-! ### What the odometer may fail on -/

theorem Record.raises_turn (r : Record) (d : Domain) : Raises Fault.OfChoice (r.turn d) := by
  have hrescored : ∀ v, Raises Fault.OfChoice (Fault.lift (r.rescored v)) := fun v fault h => by
    have hraises : Raises Error.OfFamily (r.rescored v) :=
      (r.family.raises_logDensity _ v).bind fun _ => raises_ok _
    exact .inl (Domain.raises_lift hraises fault h)
  refine Raises.bind (fun fault h => .inl (d.raises_next _ _ fault h)) fun o => ?_
  cases o with
  | some v => exact (hrescored v).bind fun _ => raises_ok _
  | none =>
      exact (d.raises_first r.params).bind fun v => (hrescored v).bind fun _ => raises_ok _

namespace Trace

/-- The odometer fails as a choice does, or on a slot that is empty. -/
theorem raises_advanceSlots : ∀ (is : List Nat) (t : Trace),
    Raises (fun fault => fault.OfChoice ∨ ∃ i, fault = .error (dangling i)) (t.advanceSlots is).1
  | [], _ => raises_ok _
  | i :: is, t => by
      rw [advanceSlots]
      cases t.arena.record? i with
      | none => exact raises_error (.inr ⟨i, rfl⟩)
      | some r =>
          simp only
          cases r.family.support with
          | continuous | discrete => exact raises_advanceSlots is t
          | enumerable d =>
              have hturn := r.raises_turn d
              simp only
              generalize r.turn d = answer at hturn ⊢
              obtain fault | ⟨m, _ | _⟩ := answer
              · exact raises_error (.inl (hturn fault rfl))
              · exact raises_ok _
              · exact raises_advanceSlots is _

/-- A pass that ends keeps the program and the budgets. -/
theorem WellFormed.constants_of_ended {t : Trace} {fixed : Bool} {s : Session} (h : t.WellFormed)
    (ha : Ended (t.update fixed s).1) :
    (t.update fixed s).2.1.program = t.program ∧ (t.update fixed s).2.1.limits = t.limits := by
  cases hs : s.active with
  | some id =>
      rw [update_of_busy (by rw [hs]; rfl)]
      exact ⟨rfl, rfl⟩
  | none =>
      obtain ⟨answer, ha⟩ := ha
      obtain ⟨hr, -, p, ht, hm, hclose⟩ := h.update_mirrors hs fixed
      rw [hclose answer (hr.symm.trans ha)]
      cases answer with
      | ok v =>
          show (p.trace.complete v).program = _ ∧ (p.trace.complete v).limits = _
          rw [(pruned_complete ht.layout v).frame, hm.frame]
          exact ⟨rfl, rfl⟩
      | error e =>
          show p.trace.abandon.program = _ ∧ p.trace.abandon.limits = _
          rw [frame_abandon ht.layout.arena, hm.frame]
          exact ⟨rfl, rfl⟩

theorem WellFormed.limits_update {t : Trace} {fixed : Bool} {s : Session} (h : t.WellFormed)
    (ha : Ended (t.update fixed s).1) : (t.update fixed s).2.1.limits = t.limits :=
  (h.constants_of_ended ha).2

end Trace

namespace Search

/-! ### The tally of a journal -/

/-- The passes in which a search has run the program: their answers, in order, and how many of them
were fallbacks. -/
structure Tally where
  answers   : List (Except Fault Unit) := []
  fallbacks : Nat := 0

/-- Whether the program is run in the pass.  The pass is refused while another one is running. -/
def Begun.runs (b : Begun) : Bool := b.session.active.isNone

namespace Tally

variable {t : Trace} {s : Session} {step : Journaled Unit}

/-- How often the program was run. -/
def runs (a : Tally) : Nat := a.answers.length

/-- The tally of the passes of a journal. -/
def of (entries : List Entry) : Tally where
  answers   := ((passesOf entries).filter Begun.runs).map fun b => b.outcome.1
  fallbacks := (passesOf entries).countP Begun.isFallback

theorem answers_append (es es' : List Entry) :
    (of (es ++ es')).answers = (of es).answers ++ (of es').answers := by
  simp only [of, passesOf_append, List.filter_append, List.map_append]

theorem runs_append (es es' : List Entry) :
    (of (es ++ es')).runs = (of es).runs + (of es').runs := by
  rw [runs, answers_append, List.length_append]
  rfl

theorem fallbacks_append (es es' : List Entry) :
    (of (es ++ es')).fallbacks = (of es).fallbacks + (of es').fallbacks := by
  simp only [of, passesOf_append, List.countP_append]

/-- The answers that a step gives only if the program was run. -/
def Telling : Except Fault Unit → Prop
  | .ok ()                                    => True
  | .error (.error (.divergent _ _))          => True
  | .error (.error (.attemptsExhausted _))    => True
  | _                                         => False

/-- The step runs the program once at most; if its answer tells of a run, that is the answer of the
pass. -/
structure Single (step : Journaled Unit) : Prop where
  answers : Telling step.1.1 → (of step.2).answers = [step.1.1]
  runs_le : (of step.2).runs ≤ 1

/-- The step runs the program once, and once more for a fallback, unless it fails before. -/
structure Tells (step : Journaled Unit) : Prop where
  ran          : Telling step.1.1 →
    step.1.1 ∈ (of step.2).answers ∧ (of step.2).runs = (of step.2).fallbacks + 1
  runs_le      : (of step.2).runs ≤ (of step.2).fallbacks + 1
  fallbacks_le : (of step.2).fallbacks ≤ 1

namespace Single

theorem tells (h : Single step) (hf : (of step.2).fallbacks = 0) : Tells step where
  ran htell := by
    have ha := h.answers htell
    rw [runs, ha, hf]
    exact ⟨.head _, rfl⟩
  runs_le := by
    rw [hf]
    exact h.runs_le
  fallbacks_le := by
    rw [hf]
    exact Nat.zero_le 1

theorem guarded {on : Bool} {step : Trace → Session → Journaled Unit}
    (h : Single (step t (s.setEnumerating on).2)) : Single (Journaled.guarded on step t s) :=
  ⟨h.answers, h.runs_le⟩

theorem pass (cause : Cause) (t : Trace) (s : Session) : Single (Journaled.pass cause t s) := by
  cases hs : s.active with
  | none =>
      have ha : (of (Journaled.pass cause t s).2).answers = [(Search.pass t s).1] := by
        simp [of, Journaled.pass, Begun.runs, Begun.outcome, hs]
      exact ⟨fun _ => ha, Nat.le_of_eq (congrArg List.length ha)⟩
  | some running =>
      have ha : (of (Journaled.pass cause t s).2).answers = [] := by
        simp [of, Journaled.pass, Begun.runs, hs]
      have hrefused : ¬ Telling (Journaled.pass cause t s).1.1 := by
        rw [Journaled.pass, Search.pass, Trace.update_of_busy (by rw [hs]; rfl)]
        exact id
      exact ⟨fun htell => absurd htell hrefused,
        Nat.le_trans (Nat.le_of_eq (congrArg List.length ha)) (Nat.zero_le 1)⟩

theorem freshPass (cause : Cause) (t : Trace) (s : Session) :
    Single (Journaled.freshPass cause t s) :=
  guarded (pass _ _ _)

end Single

/-- The odometer does not fail as the program may. -/
theorem not_telling_of_advance {fault : Fault} {u : Trace} (h : t.advance = (.error fault, u)) :
    ¬ Telling (.error fault) := by
  have hraises := Trace.raises_advanceSlots (t.freeSlots true true).reverse t fault
    (congrArg Prod.fst h)
  intro htell
  rcases hraises with (hfamily | rfl) | ⟨i, rfl⟩
  · cases fault with
    | defect | unfinished => exact htell
    | error e =>
        cases e with
        | divergent | attemptsExhausted => exact hfamily
        | _ => exact htell
  · exact htell
  · exact htell

theorem not_telling_of_onward {worlds : Nat} {fault : Fault} {u : Trace} {s' : Session}
    (h : onward worlds t s = (.error fault, u, s')) : ¬ Telling (.error fault) := by
  have hodometer : ∀ fault u, t.advance = (.error fault, u) → ¬ Telling (.error fault) :=
    fun _ _ => not_telling_of_advance
  rw [onward] at h
  generalize t.advance = out at h hodometer
  obtain ⟨fault' | _ | _, u'⟩ := out
  · cases h
    exact hodometer fault u rfl
  · simp only at h
    split at h
    · cases h
    · cases h
  · cases h

theorem Single.enumerationStep (t : Trace) (s : Session) :
    Single (Journaled.enumerationStep t s) := by
  refine guarded ?_
  have hodometer : ∀ fault u, t.advance = (.error fault, u) → ¬ Telling (.error fault) :=
    fun _ _ => not_telling_of_advance
  generalize t.advance = out at hodometer ⊢
  obtain ⟨fault | _ | _, u⟩ := out
  · exact ⟨fun h => absurd h (hodometer fault u rfl), Nat.zero_le 1⟩
  · exact pass _ _ _
  · exact pass _ _ _

theorem fallbacks_enumerationStep (t : Trace) (s : Session) :
    (of (Journaled.enumerationStep t s).2).fallbacks = 0 := by
  rw [Journaled.enumerationStep, Journaled.guarded]
  simp only
  obtain ⟨fault | _ | _, u⟩ := t.advance <;> rfl

namespace Tells

theorem freshPass (t : Trace) (s : Session) : Tells (Journaled.freshPass .fresh t s) :=
  (Single.freshPass .fresh t s).tells rfl

/-- A pass that has run the program, and the fallback. -/
theorem fallback {es : List Entry} {answer : Except Fault Unit} (ha : (of es).answers = [answer])
    (hf : (of es).fallbacks = 0) (t : Trace) (s : Session) :
    Tells ((Journaled.freshPass .fallback t s).after es) := by
  have hb := Single.freshPass .fallback t s
  have hone : (of (Journaled.freshPass .fallback t s).2).fallbacks = 1 := rfl
  have hruns : (of es).runs = 1 := congrArg List.length ha
  have hsum : (of ((Journaled.freshPass .fallback t s).after es).2).runs =
      (of es).runs + (of (Journaled.freshPass .fallback t s).2).runs := runs_append _ _
  have hsum' : (of ((Journaled.freshPass .fallback t s).after es).2).fallbacks =
      (of es).fallbacks + (of (Journaled.freshPass .fallback t s).2).fallbacks :=
    fallbacks_append _ _
  have hle := hb.runs_le
  refine ⟨fun htell => ?_, by omega, by omega⟩
  have hanswers := hb.answers htell
  have hruns' : (of (Journaled.freshPass .fallback t s).2).runs = 1 :=
    congrArg List.length hanswers
  refine ⟨?_, by omega⟩
  show _ ∈ (of (es ++ (Journaled.freshPass .fallback t s).2)).answers
  rw [answers_append, hanswers]
  exact List.mem_append_right _ (.head _)

/-- **A step runs the program once, and once more for a fallback.** -/
theorem containedStep (t : Trace) (s : Session) : Tells (Journaled.containedStep t s) := by
  have h := Single.enumerationStep t s
  have hf := fallbacks_enumerationStep t s
  rw [Journaled.containedStep]
  generalize Journaled.enumerationStep t s = out at h hf ⊢
  split
  · exact fallback (h.answers trivial) hf _ _
  · exact h.tells hf

theorem hybridStep (c : Schedule) (t : Trace) (s : Session) :
    Tells (Journaled.hybridStep c t s) := by
  -- the entry of the round is not one of a pass
  have hround : ∀ {step : Journaled Unit}, Tells step → Tells (step.after [.round ⟨c, t, s⟩]) :=
    fun h => ⟨h.ran, h.runs_le, h.fallbacks_le⟩
  refine hround ?_
  split
  · exact freshPass t s
  · exact containedStep t s

end Tells

end Tally

/-! ### What is counted -/

/-- The search from so many passes on counts its runs less the fallbacks, and `cap` bounds that
number.  Where `contains` is false there are no fallbacks. -/
structure Counts (contains : Bool) (cap : Option Nat) (passes : Nat)
    (out : Journaled SearchEnd) : Prop where
  satisfied : ∀ k, out.1.1 = .ok (.satisfied k) →
    passes + (Tally.of out.2).runs = k + (Tally.of out.2).fallbacks
  capped    : ∀ k, out.1.1 = .error (.error (.attemptsExhausted k)) →
    .error (.error (.attemptsExhausted k)) ∈ (Tally.of out.2).answers ∨
      cap = some k ∧ passes + (Tally.of out.2).runs = k + (Tally.of out.2).fallbacks
  bounded   : ∀ n, cap = some n →
    passes + (Tally.of out.2).runs ≤ n + (Tally.of out.2).fallbacks ∧
      passes + (Tally.of out.2).fallbacks ≤ n
  contained : contains = false → (Tally.of out.2).fallbacks = 0

namespace Counts

variable {contains : Bool} {cap : Option Nat} {passes : Nat} {t : Trace} {s : Session}
  {first : Journaled Unit} {next : Unit → Trace → Session → Journaled SearchEnd}

/-- The search ends before another pass. -/
theorem stop {answer : Except Fault SearchEnd} (hp : ∀ n, cap = some n → passes ≤ n)
    (hs : ∀ k, answer = .ok (.satisfied k) → k = passes)
    (hc : ∀ k, answer = .error (.error (.attemptsExhausted k)) → cap = some k ∧ k = passes) :
    Counts contains cap passes (.still (answer, t, s)) where
  satisfied k hk := (hs k hk).symm
  capped k hk := .inr ⟨(hc k hk).1, (hc k hk).2.symm⟩
  bounded n hn := ⟨hp n hn, hp n hn⟩
  contained _ := rfl

/-- The search ends satisfied before another pass. -/
theorem done (hp : ∀ n, cap = some n → passes ≤ n) :
    Counts contains cap passes (.still (.ok (.satisfied passes), t, s)) :=
  .stop hp (fun k hk => by cases hk; rfl) (fun k hk => by cases hk)

/-- The search gives up before another pass. -/
theorem spent (hcap : cap = some passes) :
    Counts contains cap passes
      (.still (.error (.error (.attemptsExhausted passes)), t, s)) := by
  refine .stop (fun n hn => ?_) (fun k hk => by cases hk) fun k hk => ?_
  · rw [hcap] at hn
    exact Nat.le_of_eq (Option.some.inj hn)
  · cases hk
    exact ⟨hcap, rfl⟩

/-- The search ends because a pass has failed, or goes on after it. -/
theorem andThen (hp : ∀ n, cap = some n → passes < n) (ha : Tally.Tells first)
    (hc : contains = false → (Tally.of first.2).fallbacks = 0)
    (hnext : ∀ u s', first.1 = (.ok (), u, s') → Counts contains cap (passes + 1) (next () u s')) :
    Counts contains cap passes (first.andThen next) := by
  obtain ⟨⟨fault | _, u, s'⟩, es⟩ := first
  all_goals
    have hfallbacks : (Tally.of es).fallbacks ≤ 1 := ha.fallbacks_le
    have hle : (Tally.of es).runs ≤ (Tally.of es).fallbacks + 1 := ha.runs_le
  · refine ⟨nofun, fun k hk => ?_, fun n hn => ?_, hc⟩
    · cases hk
      exact .inl (ha.ran trivial).1
    · have hlt := hp n hn
      constructor
      · show passes + (Tally.of es).runs ≤ n + (Tally.of es).fallbacks
        omega
      · show passes + (Tally.of es).fallbacks ≤ n
        omega
  have h := hnext u s' rfl
  have hruns : (Tally.of es).runs = (Tally.of es).fallbacks + 1 := (ha.ran trivial).2
  rw [Journaled.andThen_ok rfl]
  generalize next () u s' = out at h ⊢
  have hsum : (Tally.of (es ++ out.2)).runs = (Tally.of es).runs + (Tally.of out.2).runs :=
    Tally.runs_append es out.2
  have hsum' : (Tally.of (es ++ out.2)).fallbacks =
      (Tally.of es).fallbacks + (Tally.of out.2).fallbacks := Tally.fallbacks_append es out.2
  refine ⟨fun k hk => ?_, fun k hk => ?_, fun n hn => ?_, fun hf => ?_⟩
  · have hsat := h.satisfied k hk
    show passes + (Tally.of (es ++ out.2)).runs = k + (Tally.of (es ++ out.2)).fallbacks
    omega
  · rcases h.capped k hk with hmem | ⟨hcap, hk⟩
    · refine .inl ?_
      show _ ∈ (Tally.of (es ++ out.2)).answers
      rw [Tally.answers_append]
      exact List.mem_append_right _ hmem
    · refine .inr ⟨hcap, ?_⟩
      show passes + (Tally.of (es ++ out.2)).runs = k + (Tally.of (es ++ out.2)).fallbacks
      omega
  · obtain ⟨hle, hle'⟩ := h.bounded n hn
    constructor
    · show passes + (Tally.of (es ++ out.2)).runs ≤ n + (Tally.of (es ++ out.2)).fallbacks
      omega
    · show passes + (Tally.of (es ++ out.2)).fallbacks ≤ n
      omega
  · have ha₀ : (Tally.of es).fallbacks = 0 := hc hf
    have hout := h.contained hf
    show (Tally.of (es ++ out.2)).fallbacks = 0
    omega

end Counts

/-- The bound on the attempts is reached, or it is not. -/
theorem checkAttempts_cases {t : Trace} {cap : Option Nat} {passes : Nat}
    (ht : t.limits.maxAttempts = cap) (hp : ∀ n, cap = some n → passes ≤ n) :
    checkAttempts t passes = .error (.error (.attemptsExhausted passes)) ∧ cap = some passes ∨
      checkAttempts t passes = .ok () ∧ ∀ n, cap = some n → passes < n := by
  rw [checkAttempts, ht]
  cases cap with
  | none => exact .inr ⟨rfl, fun n hn => by cases hn⟩
  | some most =>
      have hle := hp most rfl
      by_cases hm : most ≤ passes
      · obtain rfl := Nat.le_antisymm hm hle
        exact .inl ⟨if_pos (Nat.le_refl _), rfl⟩
      · refine .inr ⟨if_neg hm, fun n hn => ?_⟩
        cases hn
        exact Nat.not_le.mp hm

/-- Between its passes a search keeps the trace well formed, and its bound. -/
def Bounded (cap : Option Nat) (t : Trace) (_ : Session) : Prop :=
  t.WellFormed ∧ t.limits.maxAttempts = cap

theorem invariant_bounded (cap : Option Nat) : Invariant (Bounded cap) where
  update h ha := by
    obtain ⟨answer, he⟩ := ha
    exact ⟨h.1.update false _ he, by rw [h.1.limits_update ⟨answer, he⟩, h.2]⟩
  reset h := ⟨.of_empty rfl rfl rfl, h.2⟩
  advance h := ⟨Trace.advance_keeps (I := Trace.WellFormed) (fun h hi hr => h.rescore hi hr) h.1,
    Trace.advance_keeps (I := fun u => u.limits.maxAttempts = cap) (fun h _ _ => h) h.2⟩
  report _ h := h
  flag _ h := h

section Loops

variable {cap : Option Nat}

theorem counts_rejectionFrom : ∀ (fuel : Nat) {passes : Nat} {t : Trace} {s : Session},
    Bounded cap t s → (∀ n, cap = some n → passes ≤ n) →
      Counts false cap passes (Journaled.rejectionFrom fuel passes t s)
  | 0, _, _, _, _, hp => .stop hp (by nofun) (by nofun)
  | fuel + 1, passes, t, s, h, hp => by
      rw [Journaled.rejectionFrom]
      rcases checkAttempts_cases h.2 hp with ⟨hcheck, hcap⟩ | ⟨hcheck, hlt⟩
      · rw [hcheck]
        exact .spent hcap
      rw [hcheck]
      have hleads := (invariant_bounded cap).leads_freshPass h
      refine .andThen hlt (.freshPass t s) (fun _ => rfl) fun u s' hu => ?_
      have hfirst : freshPass t s = (.ok (), u, s') := hu
      rw [hfirst] at hleads
      split
      · exact .done hlt
      · exact counts_rejectionFrom fuel (hleads.kept (ended_ok ())) hlt

theorem counts_enumerationFrom : ∀ (fuel worlds : Nat) {passes : Nat} {t : Trace} {s : Session},
    Bounded cap t s → (∀ n, cap = some n → passes ≤ n) →
      Counts false cap passes (Journaled.enumerationFrom fuel passes worlds t s)
  | 0, _, _, _, _, _, hp => .stop hp (by nofun) (by nofun)
  | fuel + 1, worlds, passes, t, s, h, hp => by
      rw [Journaled.enumerationFrom]
      split
      · exact .done hp
      rcases checkAttempts_cases h.2 hp with ⟨hcheck, hcap⟩ | ⟨hcheck, hlt⟩
      · rw [hcheck]
        exact .spent hcap
      rw [hcheck]
      have hu := (invariant_bounded cap).of_onward h worlds
      have hodometer : ∀ fault u s', onward worlds t s = (.error fault, u, s') →
          ¬ Tally.Telling (.error fault) := fun _ _ _ => Tally.not_telling_of_onward
      simp only
      generalize onward worlds t s = out at hu hodometer ⊢
      obtain ⟨fault | way, u, s'⟩ := out
      · exact .stop hp (fun k hk => by cases hk) fun k hk => by
          cases hk
          exact absurd trivial (hodometer _ u s' rfl)
      have hleads := (invariant_bounded cap).leads_pass hu
      cases way with
      | ended => exact .stop hp (fun k hk => by cases hk) (fun k hk => by cases hk)
      | advanced | restarted =>
          refine .andThen hlt ((Tally.Single.pass _ u s').tells rfl) (fun _ => rfl)
            fun u' s'' hpass => ?_
          have hfirst : pass u s' = (.ok (), u', s'') := hpass
          rw [hfirst] at hleads
          exact counts_enumerationFrom fuel _ (hleads.kept (ended_ok ())) hlt

theorem counts_hybridFrom : ∀ (fuel : Nat) (c : Schedule) {passes : Nat} {t : Trace}
    {s : Session}, Bounded cap t s → (∀ n, cap = some n → passes ≤ n) →
      Counts true cap passes (Journaled.hybridFrom fuel passes c t s)
  | 0, _, _, _, _, _, hp => .stop hp (by nofun) (by nofun)
  | fuel + 1, c, passes, t, s, h, hp => by
      rw [Journaled.hybridFrom]
      split
      · exact .done hp
      rcases checkAttempts_cases h.2 hp with ⟨hcheck, hcap⟩ | ⟨hcheck, hlt⟩
      · rw [hcheck]
        exact .spent hcap
      rw [hcheck]
      have hleads := (invariant_bounded cap).leads_hybridStep h c
      refine .andThen hlt (.hybridStep c t s) (fun h => by cases h) fun u s' hu => ?_
      rw [← Journaled.fst_hybridStep, hu] at hleads
      exact counts_hybridFrom fuel c.next (hleads.kept (ended_ok ())) hlt

/-- A search that begins with a pass counts that pass. -/
theorem counts_beginning {contains : Bool} {first : Trace → Session → Journaled Unit}
    {rest : Trace → Session → Journaled SearchEnd} {t : Trace} {s : Session}
    (ht : t.limits.maxAttempts = cap) (hfirst : Tally.Tells (first t s))
    (hzero : (Tally.of (first t s).2).fallbacks = 0)
    (hleads : Leads (Bounded cap) (first t s).1)
    (hrest : ∀ {u s'}, Bounded cap u s' → (∀ n, cap = some n → 1 ≤ n) →
      Counts contains cap 1 (rest u s')) :
    Counts contains cap 0 (Journaled.beginning first rest t s) := by
  rw [Journaled.beginning]
  have hnone : ∀ n, cap = some n → 0 ≤ n := fun n _ => Nat.zero_le n
  rcases checkAttempts_cases ht hnone with ⟨hcheck, hcap⟩ | ⟨hcheck, hlt⟩
  · rw [hcheck]
    exact .spent hcap
  rw [hcheck]
  refine .andThen hlt hfirst (fun _ => hzero) fun u s' hu => ?_
  rw [hu] at hleads
  exact hrest (hleads.kept (ended_ok ())) hlt

end Loops

/-- **Every search counts its runs less the fallbacks.** -/
theorem counts_search {t : Trace} (h : t.WellFormed) (strategy : Strategy) (fuel : Nat)
    (s : Session) : Counts (strategy == .hybrid) t.limits.maxAttempts 0
      (Journaled.search t strategy fuel s) := by
  have hb : ∀ s, Bounded t.limits.maxAttempts t s := fun _ => ⟨h, rfl⟩
  cases strategy with
  | rejection => exact counts_rejectionFrom fuel (hb s) fun n _ => Nat.zero_le n
  | enumeration =>
      have hall : Counts false t.limits.maxAttempts 0
          (Journaled.beginning (Journaled.pass .enumerating) (Journaled.enumerationFrom fuel 1 1) t
            (s.setEnumerating true).2) :=
        counts_beginning rfl ((Tally.Single.pass .enumerating _ _).tells rfl) rfl
          ((invariant_bounded _).leads_pass (hb _)) fun hu => counts_enumerationFrom fuel 1 hu
      -- the guard changes neither the answer nor the journal
      exact ⟨hall.satisfied, hall.capped, hall.bounded, hall.contained⟩
  | hybrid =>
      exact counts_beginning rfl (.freshPass t s) rfl ((invariant_bounded _).leads_freshPass (hb s))
        fun hu => counts_hybridFrom fuel {} hu

/-- A search, whatever its strategy, with its tally. -/
def tallied (t : Trace) (strategy : Strategy) (fuel : Nat) (s : Session) :
    SearchStep SearchEnd × Tally :=
  (Journaled.search t strategy fuel s).reading Tally.of

theorem fst_tallied (t : Trace) (strategy : Strategy) (fuel : Nat) (s : Session) :
    (tallied t strategy fuel s).1 = t.search strategy fuel s :=
  Journaled.fst_search t strategy fuel s

end Search

/-- **The passes that a search counts are the runs of the program less the fallbacks**, whatever its
strategy and over every trace with a history.  So many it reports when it ends satisfied.  When it
gives up after as many as its bound allows, that is how many there were, unless the program itself
has failed with this error.  It never runs the program more often than the bound and the fallbacks
allow, and there are no more fallbacks than the bound.  Rejection and enumeration have no
fallbacks. -/
theorem Reachable.search_counts {t : Trace} (h : Reachable t) (strategy : Strategy) (fuel : Nat)
    (s : Session) : ∃ tally : Search.Tally,
    Search.tallied t strategy fuel s = (t.search strategy fuel s, tally) ∧
      (∀ k, (t.search strategy fuel s).1 = .ok (.satisfied k) →
        tally.runs = k + tally.fallbacks) ∧
      (∀ k, (t.search strategy fuel s).1 = .error (.error (.attemptsExhausted k)) →
        .error (.error (.attemptsExhausted k)) ∈ tally.answers ∨
          t.limits.maxAttempts = some k ∧ tally.runs = k + tally.fallbacks) ∧
      (∀ n, t.limits.maxAttempts = some n →
        tally.runs ≤ n + tally.fallbacks ∧ tally.fallbacks ≤ n) ∧
      (strategy ≠ .hybrid → tally.fallbacks = 0) := by
  have hcounts := Search.counts_search h.wellFormed strategy fuel s
  have hsearch := Search.fst_tallied t strategy fuel s
  refine ⟨(Search.tallied t strategy fuel s).2, Prod.ext hsearch rfl, fun k hk => ?_,
    fun k hk => ?_, fun n hn => ?_, fun hne => hcounts.contained (beq_eq_false_iff_ne.mpr hne)⟩
  · exact (Nat.zero_add _).symm.trans (hcounts.satisfied k (hsearch ▸ hk))
  · rcases hcounts.capped k (hsearch ▸ hk) with hmem | ⟨hcap, hruns⟩
    · exact .inl hmem
    · exact .inr ⟨hcap, (Nat.zero_add _).symm.trans hruns⟩
  · obtain ⟨hruns, hfallbacks⟩ := hcounts.bounded n hn
    rw [Nat.zero_add] at hruns hfallbacks
    exact ⟨hruns, hfallbacks⟩

/-! ### A fallback that is not counted -/

/-- Counts its runs in a cell, enters a call site, and demands to be run a fourth time. -/
def fourthCall : Program :=
  (do
    let n ← Computation.read "n"
    let m := match n with
      | some (.int k) => k + 1
      | _             => 1
    Computation.write "n" (.int m)
    Computation.condition (4 ≤ m)
    Computation.call "deep" (pure (Value.int m))).program

/-- A trace in which no enumerating pass may enter a call site. -/
def shallowCall (maxAttempts : Option Nat) : Trace :=
  .unstarted 0 fourthCall { maxDepth := 0, maxAttempts } (.ofSeed 0)

/-- **The program was run four times, and the search reports three passes**, also if three is as
many as it may spend. -/
theorem satisfied_shallowCall :
    ((shallowCall none).search .hybrid 5 {}).1 = .ok (.satisfied 3) ∧
      ((shallowCall none).search .hybrid 5 {}).2.2.readCell "n" = some (.int 4) ∧
      ((shallowCall (some 3)).search .hybrid 5 {}).1 = .ok (.satisfied 3) ∧
      ((shallowCall (some 3)).search .hybrid 5 {}).2.2.readCell "n" = some (.int 4) := by
  decide +kernel

/-- One of the four runs was a fallback. -/
theorem search_counts_shallowCall : ∃ tally : Search.Tally,
    Search.tallied (shallowCall (some 3)) .hybrid 5 {} =
        ((shallowCall (some 3)).search .hybrid 5 {}, tally) ∧
      tally.runs = 3 + tally.fallbacks ∧ tally.runs ≤ 3 + tally.fallbacks ∧
      tally.fallbacks = 1 := by
  obtain ⟨tally, htally, hsat, -, hbound, -⟩ := Reachable.search_counts
    (t := shallowCall (some 3)) (.unstarted _ _ _ _) .hybrid 5 {}
  have hone : (Search.tallied (shallowCall (some 3)) .hybrid 5 {}).2.fallbacks = 1 := by
    decide +kernel
  rw [htally] at hone
  exact ⟨tally, htally, hsat 3 (by decide +kernel), (hbound 3 rfl).1, hone⟩

end ProbTrace
