import Mathlib.Data.List.Chain
import ProbTrace.Proofs.Journal

/-!
# Proofs — Scheduling: the rounds of a hybrid search

After its first pass a hybrid search goes on in rounds, each of them a scheduled restart or an
enumerating step.  `Search.hybridLogged` is the search with the rounds that it begins
(`fst_hybridLogged`), and `Round.gaps` is how many enumerating rounds lie between one restart and
the next.

The period grows by ten at each restart, but the step counter is never set back.  At a restart the
two are equal, and ten steps later they are equal again (`Schedule.isRestart_ofRound`).  So every
tenth round is a restart (`Scheduled.restarts_eq`), nine enumerating rounds lie between any two of
them, and the runs of enumeration do not grow (`Search.runs_level`).
-/

namespace ProbTrace.Search

/-! ### The schedule in closed form -/

namespace Schedule

/-- The schedule of a round, by the number of the rounds before it. -/
def ofRound (n : Nat) : Schedule where
  step   := n + 1
  period := (n + 9) / 10 * 10 + 1

/-- **The step number comes up to the period at every tenth round**, and stays below it until
then. -/
theorem isRestart_ofRound (n : Nat) : (ofRound n).isRestart = decide (n % 10 = 0) := by
  rw [isRestart, ofRound]
  by_cases hn : n % 10 = 0
  · have hperiod : (n + 9) / 10 * 10 + 1 = n + 1 := by omega
    rw [hperiod, Nat.mod_self, decide_eq_true hn]
    rfl
  · have hlt : n + 1 < (n + 9) / 10 * 10 + 1 := by omega
    rw [Nat.mod_eq_of_lt hlt, decide_eq_false hn]
    rfl

/-- The first number that a signed word of 32 bits does not hold. -/
def capacity : Nat := 2147483648

/-- Neither count of a round is far from the number of the rounds before it. -/
theorem ofRound_le (n : Nat) : (ofRound n).step ≤ n + 1 ∧ (ofRound n).period ≤ n + 10 := by
  have hperiod : (n + 9) / 10 * 10 + 1 ≤ n + 10 := by omega
  exact ⟨Nat.le_refl _, hperiod⟩

theorem next_ofRound (n : Nat) : (ofRound n).next = ofRound (n + 1) := by
  have hperiod : (ofRound n).next.period = (n + 1 + 9) / 10 * 10 + 1 := by
    rw [next, isRestart_ofRound]
    by_cases hn : n % 10 = 0
    · have hsum : (n + 9) / 10 * 10 + 1 + 10 = (n + 1 + 9) / 10 * 10 + 1 := by omega
      rw [decide_eq_true hn]
      exact hsum
    · have hsame : (n + 9) / 10 * 10 + 1 = (n + 1 + 9) / 10 * 10 + 1 := by omega
      rw [decide_eq_false hn]
      exact hsame
  exact congrArg (Schedule.mk (n + 2)) hperiod

end Schedule

/-! ### A search with its rounds -/

namespace Round

/-- Whether the round is a scheduled restart; if not it enumerates. -/
def restarts (r : Round) : Bool := r.schedule.isRestart

/-- The lengths of the runs of enumeration that a restart has ended, after `n` rounds of the
first one. -/
def runs : Nat → List Round → List Nat
  | _, []      => []
  | n, r :: rs => if r.restarts then n :: runs 0 rs else runs (n + 1) rs

/-- How many enumerating rounds lie between each restart and the next. -/
def gaps (rs : List Round) : List Nat := (runs 0 rs).tail

end Round

/-- The hybrid search, with the rounds that it begins. -/
def hybridLogged (fuel : Nat) (t : Trace) (s : Session) : SearchStep SearchEnd × List Round :=
  (Journaled.search t .hybrid fuel s).reading roundsOf

theorem fst_hybridLogged (fuel : Nat) (t : Trace) (s : Session) :
    (hybridLogged fuel t s).1 = t.search .hybrid fuel s :=
  Journaled.fst_search t .hybrid fuel s

/-- A pass is no round. -/
theorem roundsOf_freshPass (cause : Cause) (t : Trace) (s : Session) :
    roundsOf (Journaled.freshPass cause t s).2 = [] := rfl

theorem roundsOf_enumerationStep (t : Trace) (s : Session) :
    roundsOf (Journaled.enumerationStep t s).2 = [] := by
  rw [Journaled.enumerationStep, Journaled.guarded]
  simp only
  obtain ⟨fault | _ | _, u⟩ := t.advance <;> rfl

theorem roundsOf_containedStep (t : Trace) (s : Session) :
    roundsOf (Journaled.containedStep t s).2 = [] := by
  have h := roundsOf_enumerationStep t s
  rw [Journaled.containedStep]
  generalize Journaled.enumerationStep t s = out at h ⊢
  split
  · rw [Journaled.snd_after, roundsOf_append, h, roundsOf_freshPass]
    rfl
  · exact h

/-- A step of the search is one round. -/
theorem roundsOf_hybridStep (c : Schedule) (t : Trace) (s : Session) :
    roundsOf (Journaled.hybridStep c t s).2 = [⟨c, t, s⟩] := by
  rw [Journaled.hybridStep, Journaled.snd_after, roundsOf_append]
  split
  · rfl
  · rw [roundsOf_containedStep]
    rfl

/-! ### Which rounds are restarts -/

/-- The rounds after the first `n` of a search follow the schedule. -/
def Scheduled (n : Nat) (rs : List Round) : Prop :=
  ∀ i (h : i < rs.length), rs[i].schedule = .ofRound (n + i)

namespace Scheduled

variable {n : Nat} {r : Round} {rs : List Round}

theorem nil (n : Nat) : Scheduled n [] := fun _ h => absurd h (Nat.not_lt_zero _)

theorem cons (hr : r.schedule = .ofRound n) (h : Scheduled (n + 1) rs) :
    Scheduled n (r :: rs)
  | 0, _ => hr
  | i + 1, hi => by
      have hlt : i < rs.length := Nat.lt_of_succ_lt_succ hi
      have hsum : n + (i + 1) = n + 1 + i := by omega
      rw [hsum]
      exact h i hlt

theorem head (h : Scheduled n (r :: rs)) : r.restarts = decide (n % 10 = 0) := by
  have hr : r.schedule = .ofRound n := h 0 (Nat.zero_lt_succ _)
  rw [Round.restarts, hr, Schedule.isRestart_ofRound]

theorem tail (h : Scheduled n (r :: rs)) : Scheduled (n + 1) rs := fun i hi => by
  have hsum : n + (i + 1) = n + 1 + i := by omega
  exact hsum ▸ h (i + 1) (Nat.succ_lt_succ hi)

theorem restarts_eq (h : Scheduled n rs) (i : Nat) (hi : i < rs.length) :
    rs[i].restarts = decide ((n + i) % 10 = 0) := by
  rw [Round.restarts, h i hi, Schedule.isRestart_ofRound]

theorem drop {pre : List Round} (h : Scheduled n (pre ++ rs)) : Scheduled (n + pre.length) rs := by
  induction pre generalizing n with
  | nil => exact h
  | cons r pre ih =>
      have hsum : n + (r :: pre).length = n + 1 + pre.length := by
        rw [List.length_cons]
        omega
      exact hsum ▸ ih h.tail

theorem take {post : List Round} (h : Scheduled n (rs ++ post)) : Scheduled n rs := by
  intro i hi
  have hlt : i < (rs ++ post).length := by
    rw [List.length_append]
    omega
  rw [← h i hlt, List.getElem_append_left hi]

/-- **A signed word of 32 bits holds the counts** of a search of fewer than `2 ^ 31 - 10` rounds,
also after the last one. -/
theorem next_lt (h : Scheduled 0 rs) (hlen : rs.length + 10 < Schedule.capacity) : ∀ r ∈ rs,
    r.schedule.next.step < Schedule.capacity ∧ r.schedule.next.period < Schedule.capacity := by
  intro r hr
  obtain ⟨i, hi, rfl⟩ := List.mem_iff_getElem.mp hr
  have hnext : rs[i].schedule.next = .ofRound (i + 1) := by
    rw [h i hi, Nat.zero_add, Schedule.next_ofRound]
  obtain ⟨hstep, hperiod⟩ := Schedule.ofRound_le (i + 1)
  rw [hnext]
  exact ⟨by omega, by omega⟩

/-- One of ten rounds that follow each other is a restart. -/
theorem length_le (h : Scheduled n rs) (hr : ∀ r ∈ rs, r.restarts = false) : rs.length ≤ 9 := by
  by_contra hlen
  have hi : (10 - n % 10) % 10 < rs.length := by omega
  have hround := hr _ (List.getElem_mem hi)
  rw [h.restarts_eq _ hi] at hround
  have hten : (n + (10 - n % 10) % 10) % 10 = 0 := by omega
  rw [decide_eq_true hten] at hround
  cases hround

/-- **Every run of enumeration that a restart ends has nine rounds**; the one that the rounds begin
in has had `(n + 9) % 10` of them before. -/
theorem runs_eq (h : Scheduled n rs) :
    Round.runs ((n + 9) % 10) rs =
      List.replicate ((n + 9 + rs.length) / 10 - (n + 9) / 10) 9 := by
  induction rs generalizing n with
  | nil =>
      rw [List.length_nil, Nat.add_zero, Nat.sub_self]
      rfl
  | cons r rs ih =>
      have ih := ih h.tail
      have hlen : n + 9 + (r :: rs).length = n + 1 + 9 + rs.length := by
        rw [List.length_cons]
        omega
      rw [Round.runs, h.head, hlen]
      by_cases hn : n % 10 = 0
      · have hbefore : (n + 9) % 10 = 9 := by omega
        have hafter : (n + 1 + 9) % 10 = 0 := by omega
        have hmore : (n + 1 + 9 + rs.length) / 10 - (n + 9) / 10 =
            (n + 1 + 9 + rs.length) / 10 - (n + 1 + 9) / 10 + 1 := by omega
        rw [hafter] at ih
        rw [decide_eq_true hn, if_pos rfl, hbefore, ih, hmore, List.replicate_succ]
      · have hbefore : (n + 9) % 10 + 1 = (n + 1 + 9) % 10 := by omega
        have hsame : (n + 9) / 10 = (n + 1 + 9) / 10 := by omega
        rw [decide_eq_false hn, if_neg Bool.false_ne_true, hbefore, ih, hsame]

theorem gaps_eq (h : Scheduled 0 rs) :
    Round.gaps rs = List.replicate ((rs.length - 1) / 10) 9 := by
  cases rs with
  | nil => rfl
  | cons r rs =>
      -- the first round is a restart, which no enumeration precedes
      have hfirst : Round.runs 0 (r :: rs) = 0 :: Round.runs 0 rs := by
        rw [Round.runs, h.head]
        rfl
      have hruns := h.tail.runs_eq
      rw [Round.gaps, hfirst, List.tail_cons, hruns]
      congr 1
      rw [List.length_cons]
      omega

end Scheduled

theorem scheduled_hybridFrom : ∀ (fuel passes n : Nat) (t : Trace) (s : Session),
    Scheduled n (roundsOf (Journaled.hybridFrom fuel passes (.ofRound n) t s).2)
  | 0, _, n, _, _ => .nil n
  | fuel + 1, passes, n, t, s => by
      rw [Journaled.hybridFrom]
      split
      · exact .nil n
      cases checkAttempts t passes with
      | error fault => exact .nil n
      | ok _ =>
          simp only [Schedule.next_ofRound]
          rw [Journaled.snd_andThen, roundsOf_append, roundsOf_hybridStep]
          refine .cons rfl ?_
          obtain ⟨fault | _, u, s'⟩ := (Journaled.hybridStep (.ofRound n) t s).1
          · exact .nil (n + 1)
          · exact scheduled_hybridFrom fuel (passes + 1) (n + 1) u s'

theorem scheduled_hybridLogged (fuel : Nat) (t : Trace) (s : Session) :
    Scheduled 0 (hybridLogged fuel t s).2 := by
  show Scheduled 0 (roundsOf (Journaled.beginning _ _ t s).2)
  rw [Journaled.beginning]
  cases checkAttempts t 0 with
  | error fault => exact .nil 0
  | ok _ =>
      simp only
      rw [Journaled.snd_andThen, roundsOf_append, roundsOf_freshPass, List.nil_append]
      obtain ⟨fault | _, u, s'⟩ := (Journaled.freshPass .fresh t s).1
      · exact .nil 0
      · exact scheduled_hybridFrom fuel 1 0 u s'

/-- The lengths are equal, so they grow only where there are fewer than two. -/
theorem isChain_lt_replicate_iff (n m : Nat) :
    (List.replicate n m).IsChain (· < ·) ↔ n ≤ 1 := by
  match n with
  | 0 => simp
  | 1 => simp
  | n + 2 => simp [List.replicate_succ]

/-- **The runs of enumeration do not grow.**  Whatever the program, every tenth round is a restart,
beginning with the first, and exactly nine enumerating rounds lie between each restart and the next;
so the lengths of the runs grow only as long as there are fewer than two.  No run of enumeration,
also not the last one, is longer than nine.  The counts of the schedule have no bound here; with
counts of 32 bits the rounds are the same as long as there are no more of them than
`Scheduled.next_lt` allows. -/
theorem runs_level (t : Trace) (fuel : Nat) (s : Session) :
    (hybridLogged fuel t s).1 = t.search .hybrid fuel s ∧
    (∀ i (h : i < (hybridLogged fuel t s).2.length),
      (hybridLogged fuel t s).2[i].restarts = decide (i % 10 = 0)) ∧
    Round.gaps (hybridLogged fuel t s).2 =
      List.replicate (((hybridLogged fuel t s).2.length - 1) / 10) 9 ∧
    ((Round.gaps (hybridLogged fuel t s).2).IsChain (· < ·) ↔
      (hybridLogged fuel t s).2.length ≤ 20) ∧
    ∀ pre run post, (hybridLogged fuel t s).2 = pre ++ run ++ post →
      (∀ r ∈ run, r.restarts = false) → run.length ≤ 9 := by
  have h := scheduled_hybridLogged fuel t s
  refine ⟨fst_hybridLogged fuel t s, fun i hi => ?_, h.gaps_eq, ?_, fun pre run post he hrun => ?_⟩
  · rw [h.restarts_eq i hi, Nat.zero_add]
  · rw [h.gaps_eq, isChain_lt_replicate_iff]
    omega
  · rw [he, List.append_assoc] at h
    exact h.drop.take.length_le hrun

/-! ### Waiting for a tenth enumerating pass -/

/-- Counts the enumerating passes that follow each other, and demands ten of them. -/
def tenInARow : Program :=
  (do
    let on ← Computation.isEnumerating
    let before ← Computation.read "n"
    let n := if on then (before.bind Value.asInt).getD 0 + 1 else 0
    Computation.write "n" (.int n)
    Computation.condition (9 < n)
    pure (Value.int n)).program

/-- The trace of the program, with as many attempts as three runs of enumeration that do not grow
and a good part of a fourth take. -/
def tenInARowTrace : Trace := .unstarted 0 tenInARow { maxAttempts := some 40 } (.ofSeed 0)

/-- **The run of enumeration after the second restart is no longer than the one before it**, and no
later one is: what the program waits for never happens. -/
theorem gaps_tenInARow :
    (tenInARowTrace.search .hybrid 40 {}).1 = .error (.error (.attemptsExhausted 40)) ∧
      Round.gaps (hybridLogged 40 tenInARowTrace {}).2 = [9, 9, 9] ∧
      ¬ (Round.gaps (hybridLogged 40 tenInARowTrace {}).2).IsChain (· < ·) := by
  have hgaps : Round.gaps (hybridLogged 40 tenInARowTrace {}).2 = [9, 9, 9] := by decide +kernel
  refine ⟨by decide +kernel, hgaps, ?_⟩
  rw [hgaps]
  decide

end ProbTrace.Search
