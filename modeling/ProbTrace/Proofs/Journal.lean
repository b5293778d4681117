import ProbTrace.Search

/-!
# Proofs — Journal: searches that keep a journal

A search says how it has ended, and not which passes it has run.  `Journaled.search` is the same
search (`Journaled.fst_search`), which enters into a journal each pass that it begins and each round
of a hybrid search, in the order in which they begin.  An entry is the trace and the session that
the pass or the round begins with, so what comes of it is a function of the entry
(`Begun.outcome`).

What is proved about the passes and the rounds of a search is proved about this one journal, by way
of a reading of it (`Journaled.reading`): the passes (`passesOf`), the rounds (`roundsOf`), and what
later modules make of them.  One step after another either goes on (`Journaled.andThen_ok`) or fails
(`Journaled.andThen_error`).
-/

namespace ProbTrace.Search

/-- The search goes on while its passes are below the bound, if there is one. -/
theorem checkAttempts_eq_ok_iff {t : Trace} {passes : Nat} : checkAttempts t passes = .ok () ↔
    ∀ most, t.limits.maxAttempts = some most → passes < most := by
  rw [checkAttempts]
  split
  · rename_i most hm
    split
    · rename_i hle
      refine ⟨fun h => (by cases h), fun h => absurd (h most hm) (Nat.not_lt.mpr hle)⟩
    · rename_i hlt
      refine ⟨fun _ n hn => ?_, fun _ => rfl⟩
      cases hm.symm.trans hn
      exact Nat.lt_of_not_le hlt
  · rename_i hm
    exact ⟨fun _ n hn => absurd (hm.symm.trans hn) (Option.some_ne_none n).symm, fun _ => rfl⟩

/-- The only error that a check of the attempts gives. -/
theorem checkAttempts_eq_error {t : Trace} {passes : Nat} {fault : Fault}
    (h : checkAttempts t passes = .error fault) : fault = .error (.attemptsExhausted passes) := by
  rw [checkAttempts] at h
  split at h
  · split at h
    · cases h
      rfl
    · cases h
  · cases h

/-! ### Entries -/

/-- A round of a hybrid search: its place in the schedule, and what it begins with. -/
structure Round where
  schedule : Schedule
  trace    : Trace
  session  : Session

/-- Why a search begins a pass. -/
inductive Cause where
  /-- Every choice is to be drawn. -/
  | fresh
  /-- It is the enumeration that goes on, or the enumerating step of a hybrid search. -/
  | enumerating
  /-- Every choice is to be drawn because an enumerating pass went over a budget. -/
  | fallback
deriving DecidableEq

/-- A pass that a search begins. -/
structure Begun where
  cause   : Cause
  trace   : Trace
  session : Session

namespace Begun

/-- Whether it is the enumeration that begins it, or the enumerating step of a hybrid search. -/
def enumerates (b : Begun) : Bool := b.cause == .enumerating

/-- Whether it takes the place of one that went over a budget. -/
def isFallback (b : Begun) : Bool := b.cause == .fallback

/-- What the pass comes to. -/
def outcome (b : Begun) : SearchStep Unit := pass b.trace b.session

end Begun

/-- What a search enters into its journal. -/
inductive Entry where
  | round (r : Round)
  | pass (b : Begun)

namespace Entry

def round? : Entry → Option Round
  | .round r => some r
  | .pass _  => none

def begun? : Entry → Option Begun
  | .round _ => none
  | .pass b  => some b

end Entry

/-- The rounds of a journal. -/
def roundsOf (entries : List Entry) : List Round := entries.filterMap Entry.round?

/-- The passes of a journal. -/
def passesOf (entries : List Entry) : List Begun := entries.filterMap Entry.begun?

section Readings

variable {es es' : List Entry} {r : Round} {b : Begun}

@[simp] theorem roundsOf_nil : roundsOf [] = [] := rfl

@[simp] theorem roundsOf_round : roundsOf (.round r :: es) = r :: roundsOf es := rfl

@[simp] theorem roundsOf_pass : roundsOf (.pass b :: es) = roundsOf es := rfl

@[simp] theorem roundsOf_append : roundsOf (es ++ es') = roundsOf es ++ roundsOf es' :=
  List.filterMap_append

@[simp] theorem passesOf_nil : passesOf [] = [] := rfl

@[simp] theorem passesOf_round : passesOf (.round r :: es) = passesOf es := rfl

@[simp] theorem passesOf_pass : passesOf (.pass b :: es) = b :: passesOf es := rfl

@[simp] theorem passesOf_append : passesOf (es ++ es') = passesOf es ++ passesOf es' :=
  List.filterMap_append

end Readings

/-! ### Searches with a journal -/

/-- A step of a search, and what it enters into the journal. -/
abbrev Journaled (α : Type) := SearchStep α × List Entry

namespace Journaled

variable {α β : Type}

/-- A step that enters nothing. -/
def still (out : SearchStep α) : Journaled α := (out, [])

/-- A step, with a reading of what it enters. -/
def reading {γ : Type} (f : List Entry → γ) (step : Journaled α) : SearchStep α × γ :=
  step.map id f

/-- A step with some entries before its own. -/
def after (entries : List Entry) (step : Journaled α) : Journaled α := step.reading (entries ++ ·)

/-- A pass, entered in the journal. -/
def pass (cause : Cause) (t : Trace) (s : Session) : Journaled Unit :=
  (Search.pass t s, [.pass ⟨cause, t, s⟩])

/-- One step after another, unless the first one fails. -/
def andThen (first : Journaled α) (next : α → Trace → Session → Journaled β) : Journaled β :=
  match first with
  | ((.error fault, t, s), entries) => ((.error fault, t, s), entries)
  | ((.ok a, t, s), entries)        => (next a t s).after entries

/-- A step with the enumeration flag set, which is then restored. -/
def guarded (on : Bool) (step : Trace → Session → Journaled α) (t : Trace) (s : Session) :
    Journaled α :=
  (Search.guarded on (fun t s => (step t s).1) t s, (step t (s.setEnumerating on).2).2)

/-- A fresh pass. -/
def freshPass (cause : Cause) (t : Trace) (s : Session) : Journaled Unit :=
  guarded false (fun t s => pass cause t.reset s) t s

/-- The enumerating step of a hybrid search. -/
def enumerationStep (t : Trace) (s : Session) : Journaled Unit :=
  guarded true (fun t s =>
    match t.advance with
    | (.error fault, t) => still (.error fault, t, s)
    | (.ok true, t)     => pass .enumerating t s
    | (.ok false, t)    => pass .enumerating t.reset s) t s

/-- An enumerating step; should it go over a budget, a fresh pass as well. -/
def containedStep (t : Trace) (s : Session) : Journaled Unit :=
  match enumerationStep t s with
  | ((.error (.error (.divergent depth choices)), t, s), entries) =>
    (freshPass .fallback t (s.report (.enumerationDiverged (.divergent depth choices)))).after
      entries
  | outcome => outcome

/-- The step that the schedule demands, in a round of its own. -/
def hybridStep (c : Schedule) (t : Trace) (s : Session) : Journaled Unit :=
  (if c.isRestart then freshPass .fresh t s else containedStep t s).after [.round ⟨c, t, s⟩]

/-- Rejection after so many passes. -/
def rejectionFrom : Nat → Nat → Trace → Session → Journaled SearchEnd
  | 0,        _,      t, s => still (.error .unfinished, t, s)
  | fuel + 1, passes, t, s =>
    match checkAttempts t passes with
    | .error fault => still (.error fault, t, s)
    | .ok ()       =>
      (freshPass .fresh t s).andThen fun _ t s =>
        if t.satisfied then
          still (.ok (.satisfied (passes + 1)), t, s.report (.rejectionDone (passes + 1)))
        else rejectionFrom fuel (passes + 1) t s

/-- Enumeration after so many passes, over so many worlds. -/
def enumerationFrom : Nat → Nat → Nat → Trace → Session → Journaled SearchEnd
  | 0,        _,      _,      t, s => still (.error .unfinished, t, s)
  | fuel + 1, passes, worlds, t, s =>
    if t.satisfied then
      still (.ok (.satisfied passes), t, s.report (.enumerationDone worlds passes))
    else
      match checkAttempts t passes with
      | .error fault => still (.error fault, t, s)
      | .ok ()       =>
        match onward worlds t s with
        | (.error fault, t, s) => still (.error fault, t, s)
        | (.ok .ended, t, s)   =>
          still (.ok (.exhausted worlds), t, s.report (.enumerationExhausted worlds passes))
        | (.ok way, t, s)      =>
          let worlds := match way with
            | .advanced => worlds + 1
            | _         => worlds
          (pass .enumerating t s).andThen fun _ t s =>
            enumerationFrom fuel (passes + 1) worlds t s

/-- The hybrid search after so many passes. -/
def hybridFrom : Nat → Nat → Schedule → Trace → Session → Journaled SearchEnd
  | 0,        _,      _, t, s => still (.error .unfinished, t, s)
  | fuel + 1, passes, c, t, s =>
    if t.satisfied then still (.ok (.satisfied passes), t, s.report (.hybridDone passes))
    else
      match checkAttempts t passes with
      | .error fault => still (.error fault, t, s)
      | .ok ()       =>
        (hybridStep c t s).andThen fun _ t s => hybridFrom fuel (passes + 1) c.next t s

/-- A search that begins with a pass. -/
def beginning (first : Trace → Session → Journaled Unit)
    (rest : Trace → Session → Journaled SearchEnd) (t : Trace) (s : Session) :
    Journaled SearchEnd :=
  match checkAttempts t 0 with
  | .error fault => still (.error fault, t, s)
  | .ok ()       => (first t s).andThen fun _ => rest

/-- A search, whatever its strategy. -/
def search (t : Trace) (strategy : Strategy) (fuel : Nat) (s : Session) : Journaled SearchEnd :=
  match strategy with
  | .rejection   => rejectionFrom fuel 0 t s
  | .enumeration => guarded true (beginning (pass .enumerating) (enumerationFrom fuel 1 1)) t s
  | .hybrid      => beginning (freshPass .fresh) (hybridFrom fuel 1 {}) t s

/-! ### The journal changes nothing -/

variable {fault : Fault} {a : α} {t u : Trace} {s s' : Session} {first : Journaled α}
  {next : α → Trace → Session → Journaled β}

@[simp] theorem fst_after (entries : List Entry) (step : Journaled α) :
    (step.after entries).1 = step.1 := rfl

@[simp] theorem snd_after (entries : List Entry) (step : Journaled α) :
    (step.after entries).2 = entries ++ step.2 := rfl

theorem andThen_error (h : first.1 = (.error fault, u, s')) :
    first.andThen next = ((.error fault, u, s'), first.2) := by
  obtain ⟨out, entries⟩ := first
  cases h
  rfl

theorem andThen_ok (h : first.1 = (.ok a, u, s')) :
    first.andThen next = (next a u s').after first.2 := by
  obtain ⟨out, entries⟩ := first
  cases h
  rfl

theorem fst_andThen (first : Journaled α) (next : α → Trace → Session → Journaled β) :
    (first.andThen next).1 =
      match first.1 with
      | (.error fault, t, s) => (.error fault, t, s)
      | (.ok a, t, s)        => (next a t s).1 := by
  obtain ⟨⟨fault | a, t, s⟩, entries⟩ := first <;> rfl

theorem snd_andThen (first : Journaled α) (next : α → Trace → Session → Journaled β) :
    (first.andThen next).2 = first.2 ++
      match first.1 with
      | (.error _, _) => []
      | (.ok a, t, s) => (next a t s).2 := by
  obtain ⟨⟨fault | a, t, s⟩, entries⟩ := first
  · exact (List.append_nil entries).symm
  · rfl

theorem fst_guarded {on : Bool} {step : Trace → Session → Journaled α}
    {plain : Trace → Session → SearchStep α} (h : ∀ t s, (step t s).1 = plain t s) (t : Trace)
    (s : Session) : (guarded on step t s).1 = Search.guarded on plain t s :=
  congrArg (Search.guarded on · t s) (funext fun t => funext (h t))

theorem fst_freshPass (cause : Cause) (t : Trace) (s : Session) :
    (freshPass cause t s).1 = Search.freshPass t s := rfl

theorem fst_enumerationStep (t : Trace) (s : Session) :
    (enumerationStep t s).1 = Search.enumerationStep t s := by
  refine fst_guarded (fun t s => ?_) t s
  obtain ⟨fault | _ | _, u⟩ := t.advance <;> rfl

theorem fst_containedStep (t : Trace) (s : Session) :
    (containedStep t s).1 = Search.containedStep t s := by
  rw [containedStep, Search.containedStep, ← fst_enumerationStep]
  obtain ⟨⟨(e | d | _) | _, u, s'⟩, entries⟩ := enumerationStep t s
  · cases e <;> rfl
  · rfl
  · rfl
  · rfl

theorem fst_hybridStep (c : Schedule) (t : Trace) (s : Session) :
    (hybridStep c t s).1 = Search.hybridStep c t s := by
  show (if c.isRestart then freshPass .fresh t s else containedStep t s).1 = _
  rw [Search.hybridStep]
  split
  · rfl
  · exact fst_containedStep t s

theorem fst_rejectionFrom : ∀ (fuel passes : Nat) (t : Trace) (s : Session),
    (rejectionFrom fuel passes t s).1 = Search.rejectionFrom fuel passes t s
  | 0, _, _, _ => rfl
  | fuel + 1, passes, t, s => by
      rw [rejectionFrom, Search.rejectionFrom]
      obtain fault | _ := checkAttempts t passes
      · rfl
      simp only [fst_andThen, fst_freshPass]
      obtain ⟨fault | _, u, s'⟩ := Search.freshPass t s
      · rfl
      simp only
      split
      · rfl
      · exact fst_rejectionFrom fuel (passes + 1) u s'

theorem fst_enumerationFrom : ∀ (fuel passes worlds : Nat) (t : Trace) (s : Session),
    (enumerationFrom fuel passes worlds t s).1 = Search.enumerationFrom fuel passes worlds t s
  | 0, _, _, _, _ => rfl
  | fuel + 1, passes, worlds, t, s => by
      rw [enumerationFrom, Search.enumerationFrom]
      cases t.satisfied with
      | true => rfl
      | false =>
          simp only [Bool.false_eq_true, if_false]
          obtain fault | _ := checkAttempts t passes
          · rfl
          obtain ⟨fault | way, u, s'⟩ := onward worlds t s
          · rfl
          cases way with
          | ended => rfl
          | advanced | restarted =>
              simp only [fst_andThen, pass]
              obtain ⟨fault | _, u, s'⟩ := Search.pass u s'
              · rfl
              · exact fst_enumerationFrom fuel (passes + 1) _ u s'

theorem fst_hybridFrom : ∀ (fuel passes : Nat) (c : Schedule) (t : Trace) (s : Session),
    (hybridFrom fuel passes c t s).1 = Search.hybridFrom fuel passes c t s
  | 0, _, _, _, _ => rfl
  | fuel + 1, passes, c, t, s => by
      rw [hybridFrom, Search.hybridFrom]
      cases t.satisfied with
      | true => rfl
      | false =>
          simp only [Bool.false_eq_true, if_false]
          obtain fault | _ := checkAttempts t passes
          · rfl
          simp only [fst_andThen, fst_hybridStep]
          obtain ⟨fault | _, u, s'⟩ := Search.hybridStep c t s
          · rfl
          · exact fst_hybridFrom fuel (passes + 1) c.next u s'

/-- **The journal changes nothing about the search.** -/
theorem fst_search (t : Trace) (strategy : Strategy) (fuel : Nat) (s : Session) :
    (search t strategy fuel s).1 = t.search strategy fuel s := by
  cases strategy with
  | rejection => exact fst_rejectionFrom fuel 0 t s
  | enumeration =>
      show _ = Search.guarded true (enumerationAll fuel) t s
      refine fst_guarded (fun t s => ?_) t s
      rw [beginning, enumerationAll]
      obtain fault | _ := checkAttempts t 0
      · rfl
      simp only [fst_andThen, pass]
      obtain ⟨fault | _, u, s'⟩ := Search.pass t s
      · rfl
      · exact fst_enumerationFrom fuel 1 1 u s'
  | hybrid =>
      show (beginning _ _ t s).1 = hybrid fuel t s
      rw [beginning, hybrid]
      obtain fault | _ := checkAttempts t 0
      · rfl
      simp only [fst_andThen, fst_freshPass]
      obtain ⟨fault | _, u, s'⟩ := Search.freshPass t s
      · rfl
      · exact fst_hybridFrom fuel 1 {} u s'

end Journaled

end ProbTrace.Search
