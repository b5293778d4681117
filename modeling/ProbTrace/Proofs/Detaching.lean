import ProbTrace.Detached
import ProbTrace.Proofs.Rerunning

/-!
# Proofs — Detaching: the first pass of a trace and a run without one

A run without a trace draws its choices and does nothing else.  The first pass of a trace, which
does not enumerate, names every choice, looks for a record to reuse, creates one and scores it; but
nothing is stored, every choice has an address of its own, and scoring draws nothing.  So where no
choice of the pass fails, a program that cannot tell which of the two it is run by comes to the same
in both (`Program.Unaware.detached_agrees`).

* `Player.logging` is a player that also keeps a log of the choices.  It answers as before
  (`logging_simulates`), and players that answer alike keep the same log (`Simulates.logging`).
* `Player.Shadows`: what the one player answers without a failure, the other one answers too.  The
  steps are proved request by request, against the naive reader of a program over no records
  (`Replay.shadows_detached`), and the run by recursion on the program (`Shadows.play`).
* `Recorded` says which records a trace has for a log.

The two runs are at the same call sites all along.  Only the pass counts the choices at each path:
a run without a trace names none of its choices.
-/

namespace ProbTrace

/-! ### The choices of a run -/

/-- A choice as a program makes it: inside which call sites, what it asks for, and the value that it
gets. -/
structure Outcome where
  path    : String
  request : Request
  value   : Value

/-- The number of choices that were made at a path. -/
def Outcome.timesAt (path : String) (log : List Outcome) : Nat :=
  log.countP fun o => o.path == path

theorem Outcome.timesAt_append_singleton (path : String) (log : List Outcome) (o : Outcome) :
    timesAt path (log ++ [o]) = timesAt path log + if o.path = path then 1 else 0 := by
  simp [timesAt, List.countP_append, List.countP_singleton]

/-- The records are those of the choices, in their order: each is stored under its path and the
number of choices made there before it, as it was asked for and with its value, and is scored. -/
inductive Recorded : List Outcome → List Record → Prop where
  | nil : Recorded [] []
  | snoc {log rs o lp} (h : Recorded log rs)
      (hlp : o.request.family.logDensity o.value o.request.params = .ok lp) :
      Recorded (log ++ [o])
        (rs ++ [.ofRequest (.atSite o.path (Outcome.timesAt o.path log)) o.request o.value lp])

namespace Player

variable {σ τ : Type} {H : Player σ} {K : Player τ} {R : σ → τ → Prop}

/-- The player that also keeps a log of the choices that succeed; `place` tells the path that it is
at. -/
def logging (H : Player σ) (place : σ → String) : Player (σ × List Outcome) where
  choose q a :=
    match H.choose q a.1 with
    | (.ok v, b)        => (.ok v, b, a.2 ++ [⟨place a.1, q, v⟩])
    | (.error fault, b) => (.error fault, b, a.2)
  enter id a := ((H.enter id a.1).1, (H.enter id a.1).2, a.2)
  leave id a := (H.leave id a.1).map fun b => (b, a.2)
  factor w a := (H.factor w a.1, a.2)
  condition holds a := (H.condition holds a.1, a.2)
  isActive a := H.isActive a.1
  depth a := H.depth a.1
  isEnumerating a := H.isEnumerating a.1
  read cell a := H.read cell a.1
  write cell v a := (H.write cell v a.1, a.2)
  nested fixed inner a := ((H.nested fixed inner a.1).1, (H.nested fixed inner a.1).2, a.2)

theorem choose_logging_of_ok {place : σ → String} {q : Request} {a : σ × List Outcome} {b : σ}
    {v : Value} (h : H.choose q a.1 = (.ok v, b)) :
    (H.logging place).choose q a = (.ok v, b, a.2 ++ [⟨place a.1, q, v⟩]) := by
  simp only [logging, h]

theorem choose_logging_of_error {place : σ → String} {q : Request} {a : σ × List Outcome} {b : σ}
    {fault : Fault} (h : H.choose q a.1 = (.error fault, b)) :
    (H.logging place).choose q a = (.error fault, b, a.2) := by
  simp only [logging, h]

/-- Keeping a log changes no answer. -/
theorem logging_simulates (H : Player σ) (place : σ → String) :
    (H.logging place).Simulates H fun a b => a.1 = b where
  choose := by
    rintro a _ q rfl
    rcases h : H.choose q a.1 with ⟨fault | v, b⟩
    · rw [choose_logging_of_error h]
      exact ⟨rfl, rfl⟩
    · rw [choose_logging_of_ok h]
      exact ⟨rfl, rfl⟩
  enter := by rintro a _ id rfl; exact ⟨rfl, rfl⟩
  leave := by
    rintro a _ id rfl
    cases h : H.leave id a.1 with
    | error fault => exact .inl ⟨fault, by simp only [logging, h, Except.map], rfl⟩
    | ok b => exact .inr ⟨(b, a.2), b, by simp only [logging, h, Except.map], rfl, rfl⟩
  factor := by rintro a _ w rfl; rfl
  condition := by rintro a _ holds rfl; rfl
  isActive := by rintro a _ rfl; rfl
  depth := by rintro a _ rfl; rfl
  isEnumerating := by rintro a _ rfl; rfl
  read := by rintro a _ cell rfl; rfl
  write := by rintro a _ cell v rfl; rfl
  nested := by rintro a _ fixed inner rfl; exact ⟨rfl, rfl⟩

/-- **Players that answer alike, from the same places, keep the same log.** -/
theorem Simulates.logging (h : H.Simulates K R) {place : σ → String} {place' : τ → String}
    (hp : ∀ {a b}, R a b → place a = place' b) :
    (H.logging place).Simulates (K.logging place') fun a b => R a.1 b.1 ∧ a.2 = b.2 where
  choose := by
    rintro ⟨a, log⟩ ⟨b, _⟩ q ⟨hR, rfl⟩
    obtain ⟨ha, hR'⟩ := h.choose q hR
    rcases hH : H.choose q a with ⟨answer, a'⟩
    rcases hK : K.choose q b with ⟨answer', b'⟩
    rw [hH, hK] at ha hR'
    obtain rfl : answer = answer' := ha
    cases answer with
    | error fault =>
        rw [choose_logging_of_error hH, choose_logging_of_error hK]
        exact ⟨rfl, hR', rfl⟩
    | ok v =>
        rw [choose_logging_of_ok hH, choose_logging_of_ok hK, hp hR]
        exact ⟨rfl, hR', rfl⟩
  enter := by
    rintro ⟨a, log⟩ ⟨b, _⟩ id ⟨hR, rfl⟩
    exact ⟨(h.enter id hR).1, (h.enter id hR).2, rfl⟩
  leave := by
    rintro ⟨a, log⟩ ⟨b, _⟩ id ⟨hR, rfl⟩
    rcases h.leave id hR with ⟨fault, ha, hb⟩ | ⟨a', b', ha, hb, hR'⟩
    · exact .inl ⟨fault, by simp only [Player.logging, ha, Except.map],
        by simp only [Player.logging, hb, Except.map]⟩
    · exact .inr ⟨(a', log), (b', log), by simp only [Player.logging, ha, Except.map],
        by simp only [Player.logging, hb, Except.map], hR', rfl⟩
  factor := by rintro ⟨a, log⟩ ⟨b, _⟩ w ⟨hR, rfl⟩; exact ⟨h.factor w hR, rfl⟩
  condition := by rintro ⟨a, log⟩ ⟨b, _⟩ holds ⟨hR, rfl⟩; exact ⟨h.condition holds hR, rfl⟩
  isActive := by rintro ⟨a, log⟩ ⟨b, _⟩ ⟨hR, rfl⟩; exact h.isActive hR
  depth := by rintro ⟨a, log⟩ ⟨b, _⟩ ⟨hR, rfl⟩; exact h.depth hR
  isEnumerating := by rintro ⟨a, log⟩ ⟨b, _⟩ ⟨hR, rfl⟩; exact h.isEnumerating hR
  read := by rintro ⟨a, log⟩ ⟨b, _⟩ cell ⟨hR, rfl⟩; exact h.read cell hR
  write := by rintro ⟨a, log⟩ ⟨b, _⟩ cell v ⟨hR, rfl⟩; exact ⟨h.write cell v hR, rfl⟩
  nested := by
    rintro ⟨a, log⟩ ⟨b, _⟩ fixed inner ⟨hR, rfl⟩
    exact ⟨(h.nested fixed inner hR).1, (h.nested fixed inner hR).2, rfl⟩

end Player

namespace Program

variable {σ τ : Type} (H : Player σ) (place : σ → String) (program : Program) (a : σ)

/-- The choices of a run, in order. -/
def outcomes : List Outcome := (program.play (H.logging place) (a, [])).2.2

/-- A run that keeps a log is the run without it, and the log. -/
theorem play_logging : program.play (H.logging place) (a, []) =
    ((program.play H a).1, (program.play H a).2, program.outcomes H place a) := by
  obtain ⟨hanswer, hstate⟩ :=
    Player.play_simulates (H.logging_simulates place) program (a := (a, [])) rfl
  exact Prod.ext hanswer (Prod.ext hstate rfl)

theorem unfailing_logging :
    program.unfailing (H.logging place) (a, []) = program.unfailing H a :=
  unfailing_simulates (H.logging_simulates place) program rfl

/-- Players that answer alike, from the same places, make the same choices. -/
theorem outcomes_simulates {H : Player σ} {K : Player τ} {R : σ → τ → Prop} (h : H.Simulates K R)
    {place : σ → String} {place' : τ → String} (hp : ∀ a b, R a b → place a = place' b) {a : σ}
    {b : τ} (hR : R a b) : program.outcomes H place a = program.outcomes K place' b :=
  (Player.play_simulates (h.logging fun {a b} => hp a b) program (a := (a, [])) (b := (b, []))
    ⟨hR, rfl⟩).2.2

end Program

/-! ### Programs that cannot tell by whom they are run -/

/-- As long as its choices succeed, the program makes choices, enters and leaves call sites, adds
factors and demands conditions.  It may ask how deep it is and set cells, but for nothing that could
tell it whether a trace is being populated, and it runs no program of its own, which a pass would
refuse. -/
def Program.Unaware : Program → Prop
  | .done _            => True
  | .fail _            => True
  | .choose _ next     => ∀ v, (next (.ok v)).Unaware
  | .enter _ next      => (next (.ok ())).Unaware
  | .leave _ next      => (next ()).Unaware
  | .factor _ next     => (next ()).Unaware
  | .condition _ next  => (next ()).Unaware
  | .isActive _        => False
  | .depth next        => ∀ n, (next n).Unaware
  | .isEnumerating _   => False
  | .read _ _          => False
  | .write _ _ next    => (next ()).Unaware
  | .nested _ _ _      => False

namespace Player

variable {σ τ : Type} {H : Player σ} {K : Player τ} {R : σ → τ → Prop}

/-- What the first player answers without a failure, the second one answers alike.  The first one
lets every call site be entered. -/
structure Shadows (H : Player σ) (K : Player τ) (R : σ → τ → Prop) : Prop where
  choose    : ∀ {a b} q {v a'}, R a b → H.choose q a = (.ok v, a') →
    ∃ b', K.choose q b = (.ok v, b') ∧ R a' b'
  enter     : ∀ {a b} id, R a b →
    ∃ a' b', H.enter id a = (.ok (), a') ∧ K.enter id b = (.ok (), b') ∧ R a' b'
  leave     : ∀ {a b} id {a'}, R a b → H.leave id a = .ok a' →
    ∃ b', K.leave id b = .ok b' ∧ R a' b'
  factor    : ∀ {a b} w, R a b → R (H.factor w a) (K.factor w b)
  condition : ∀ {a b} holds, R a b → R (H.condition holds a) (K.condition holds b)
  depth     : ∀ {a b}, R a b → H.depth a = K.depth b
  write     : ∀ {a b} cell v, R a b → R (H.write cell v a) (K.write cell v b)

/-- **A run of the first player that is completed, and in which no choice fails, is one of the
second player.** -/
theorem Shadows.play (h : H.Shadows K R) : ∀ {p : Program} {a : σ} {b : τ} {v : Value},
    p.Unaware → R a b → (p.play H a).1 = .ok v → p.unfailing H a = true →
      Alike R (p.play H a) (p.play K b)
  | .done _, _, _, _, _, hR, _, _ => ⟨rfl, hR⟩
  | .fail _, _, _, _, _, _, hv, _ => by cases hv
  | .choose q next, a, b, v, hp, hR, hv, hn => by
      rcases hH : H.choose q a with ⟨fault | w, a'⟩
      · rw [Program.unfailing, hH] at hn
        cases hn
      · obtain ⟨b', hK, hR'⟩ := h.choose q hR hH
        rw [Program.unfailing, hH] at hn
        rw [Program.play, hH] at hv
        rw [Program.play, Program.play, hH, hK]
        exact play h (hp w) hR' hv hn
  | .enter id next, a, b, v, hp, hR, hv, hn => by
      obtain ⟨a', b', hH, hK, hR'⟩ := h.enter id hR
      rw [Program.unfailing, hH] at hn
      rw [Program.play, hH] at hv
      rw [Program.play, Program.play, hH, hK]
      exact play h (p := next (.ok ())) hp hR' hv hn
  | .leave id next, a, b, v, hp, hR, hv, hn => by
      cases hH : H.leave id a with
      | error fault =>
          rw [Program.play, hH] at hv
          cases hv
      | ok a' =>
          obtain ⟨b', hK, hR'⟩ := h.leave id hR hH
          rw [Program.unfailing, hH] at hn
          rw [Program.play, hH] at hv
          rw [Program.play, Program.play, hH, hK]
          exact play h (p := next ()) hp hR' hv hn
  | .factor w next, _, _, _, hp, hR, hv, hn =>
      play h (p := next ()) hp (h.factor w hR) hv hn
  | .condition holds next, _, _, _, hp, hR, hv, hn =>
      play h (p := next ()) hp (h.condition holds hR) hv hn
  | .isActive _, _, _, _, hp, _, _, _ => hp.elim
  | .depth next, a, b, v, hp, hR, hv, hn => by
      have hd := h.depth hR
      rw [Program.play, Program.play, ← hd]
      exact play h (hp (H.depth a)) hR hv hn
  | .isEnumerating _, _, _, _, hp, _, _, _ => hp.elim
  | .read _ _, _, _, _, hp, _, _, _ => hp.elim
  | .write cell w next, _, _, _, hp, hR, hv, hn =>
      play h (p := next ()) hp (h.write cell w hR) hv hn
  | .nested _ _ _, _, _, _, hp, _, _, _ => hp.elim

end Player

/-! ### A run without a trace -/

namespace Detached

/-- The answers of a run without a trace. -/
def player : Player Detached where
  choose := choose
  enter id d := (.ok (), { d with sites := d.sites.enter id })
  leave id d :=
    match d.sites.leave? id with
    | some sites => .ok { d with sites }
    | none       => .error (.defect (.siteMismatch d.sites.path id))
  factor _ d := d
  condition _ d := d
  isActive _ := false
  depth d := d.sites.depth
  isEnumerating d := d.session.enumerating
  read cell d := d.session.readCell cell
  write cell v d := { d with session := d.session.writeCell cell v }
  nested fixed inner d :=
    let (u, s) := d.session.newTrace inner {} (.ofSeed nestedSeed)
    match u.update fixed s with
    | (answer, _, s) => (answer, { d with session := s })

/-- A choice takes the value that a new record would have, and leaves the generator as creating one
would. -/
theorem choose_of_newValue {d : Detached} {q : Request} {v : Value} {g : Generator}
    (h : Trace.newValue q false d.generator = .ok (v, g)) :
    d.choose q = (.ok v, { d with generator := g }) := by
  obtain ⟨g₀, sites, s⟩ := d
  rw [Trace.newValue] at h
  rw [choose]
  cases ho : q.observed with
  | some w =>
      rw [ho] at h
      cases h
      rfl
  | none =>
      have hs : q.family.sample q.params g₀ = .ok (v, g) := by
        rw [ho] at h
        simp only [Bool.false_eq_true, ↓reduceIte] at h
        split at h <;> exact h
      simp only [hs]

end Detached

/-- Running a program without a trace plays it. -/
theorem Program.runDetached_eq_play : ∀ (program : Program) (d : Detached),
    program.runDetached d = program.play Detached.player d
  | .done _, _ => rfl
  | .fail _, _ => rfl
  | .choose q next, d => by
      rw [runDetached, play]
      simp only [Detached.player]
      rcases d.choose q with ⟨(e | d | _) | v, d'⟩
      · exact runDetached_eq_play _ _
      · rfl
      · rfl
      · exact runDetached_eq_play _ _
  | .enter id next, ⟨g, sites, s⟩ => runDetached_eq_play (next (.ok ())) _
  | .leave id next, ⟨g, sites, s⟩ => by
      rw [runDetached, play]
      simp only [Detached.player]
      cases sites.leave? id with
      | none => rfl
      | some sites => exact runDetached_eq_play _ _
  | .factor w next, d => runDetached_eq_play (next ()) d
  | .condition b next, d => runDetached_eq_play (next ()) d
  | .isActive next, d => runDetached_eq_play (next false) d
  | .depth next, d => runDetached_eq_play (next d.sites.depth) d
  | .isEnumerating next, d => runDetached_eq_play (next d.session.enumerating) d
  | .read cell next, d => runDetached_eq_play (next (d.session.readCell cell)) d
  | .write cell v next, ⟨g, sites, s⟩ => runDetached_eq_play (next ()) _
  | .nested fixed inner next, ⟨g, sites, s⟩ => by
      rw [runDetached, play]
      simp only [Detached.player]
      rcases (s.newTrace inner {} (.ofSeed nestedSeed)).1.update fixed
        (s.newTrace inner {} (.ofSeed nestedSeed)).2 with ⟨(e | d | _) | v, u, s'⟩
      · exact runDetached_eq_play _ _
      · rfl
      · rfl
      · exact runDetached_eq_play _ _

/-! ### The naive reader over no records -/

namespace CallSites

/-- The same open call sites, with no choice counted. -/
def uncounted (c : CallSites) : CallSites := { c with counters := {} }

/-- What leaving a call site does is a matter of the open call sites. -/
theorem leave?_uncounted (c : CallSites) (id : String) :
    c.uncounted.leave? id = (c.leave? id).map uncounted := by
  have hp : c.uncounted.path = c.path := rfl
  rw [leave?, leave?, hp]
  split <;> rfl

/-- Leaving a call site counts nothing. -/
theorem counted_of_leave {c c' : CallSites} {id : String} (h : c.leave? id = some c')
    (path : String) : c'.counted path = c.counted path := by
  rw [leave?] at h
  split at h
  · cases h
    rfl
  · cases h

end CallSites

namespace Replay

variable {limits : Limits} {stored : Address → Option Record} {ρ : Replay} {q : Request}
  {v : Value}

/-- The naive reader, who does not enumerate, and a run without a trace are at the same place, with
the same choices behind them.  Only the reader has counted them. -/
structure Beside (a : Replay × List Outcome) (b : Detached × List Outcome) : Prop where
  log       : b.2 = a.2
  generator : b.1.generator = a.1.generator
  sites     : b.1.sites = a.1.sites.uncounted
  plain     : a.1.session.enumerating = false
  counted   : ∀ path, a.1.sites.counted path = Outcome.timesAt path a.2
  recorded  : Recorded a.2 a.1.records

/-- Where nothing is stored, a choice that succeeds has created a record. -/
theorem choose_of_nothing (hst : ∀ x, stored x = none) {ρ' : Replay}
    (h : ρ.choose limits stored q = (.ok v, ρ')) :
    ∃ g lp, Trace.newValue q ρ.session.enumerating ρ.generator = .ok (v, g) ∧
      q.family.logDensity v q.params = .ok lp ∧
      ρ' = { ρ with sites := ρ.sites.claim.2, generator := g }.note
        (.made q (.ofRequest ρ.sites.claim.1.address q v lp) true) := by
  have hout := chooses limits stored q ρ
  rw [h] at hout
  cases hout with
  | reused _ hs => exact absurd ((hst _).symm.trans hs) (by simp)
  | created _ _ hv hlp => exact ⟨_, _, hv, hlp, rfl⟩

theorem Beside.choose {a : Replay × List Outcome} {b : Detached × List Outcome} (h : Beside a b)
    (hst : ∀ x, stored x = none) {ρ' : Replay}
    (hc : a.1.choose limits stored q = (.ok v, ρ')) :
    ∃ d', b.1.choose q = (.ok v, d') ∧
      Beside (ρ', a.2 ++ [⟨a.1.sites.path, q, v⟩]) (d', b.2 ++ [⟨b.1.sites.path, q, v⟩]) := by
  -- the record that is created takes the value that a draw without a trace has
  obtain ⟨g, lp, hv, hlp, rfl⟩ := choose_of_nothing hst hc
  rw [h.plain, ← h.generator] at hv
  refine ⟨_, Detached.choose_of_newValue hv, ?_⟩
  exact
    { log := by rw [h.log, h.sites]; rfl
      generator := rfl
      sites := h.sites
      plain := h.plain
      counted := fun path => by
        rw [Outcome.timesAt_append_singleton, ← h.counted path]
        exact a.1.sites.counted_claim path
      recorded := by
        have hr := h.recorded.snoc (o := ⟨a.1.sites.path, q, v⟩) hlp
        rw [← h.counted] at hr
        rw [records_note]
        exact hr }

/-- **Over no records, what the naive reader answers without a failure is what a run without a
trace answers.** -/
theorem shadows_detached (hst : ∀ x, stored x = none) :
    ((player limits stored).logging (·.sites.path)).Shadows
      (Detached.player.logging (·.sites.path)) Beside where
  choose {a b} q {v a'} h hc := by
    rcases hH : a.1.choose limits stored q with ⟨fault | w, ρ'⟩
    · rw [Player.choose_logging_of_error (H := player limits stored) hH] at hc
      cases hc
    · rw [Player.choose_logging_of_ok (H := player limits stored) hH] at hc
      cases hc
      obtain ⟨d', hK, h'⟩ := h.choose hst hH
      exact ⟨_, Player.choose_logging_of_ok (H := Detached.player) hK, h'⟩
  enter {a b} id h := by
    have hH : a.1.enter limits id = (.ok (), { a.1 with sites := a.1.sites.enter id }) :=
      if_neg (by rw [h.plain, Bool.false_and]; exact Bool.false_ne_true)
    have henter : ((player limits stored).logging (·.sites.path)).enter id a =
        (.ok (), { a.1 with sites := a.1.sites.enter id }, a.2) := by
      simp only [Player.logging, player, hH]
    exact ⟨_, _, henter, rfl, { h with sites := congrArg (fun c => c.enter id) h.sites }⟩
  leave {a b} id {a'} h hl := by
    cases hH : a.1.sites.leave? id with
    | none =>
        simp only [Player.logging, player, hH, Except.map] at hl
        cases hl
    | some c =>
        simp only [Player.logging, player, hH, Except.map] at hl
        cases hl
        have hK : b.1.sites.leave? id = some c.uncounted := by
          rw [h.sites, CallSites.leave?_uncounted, hH]
          rfl
        have hcounted : ∀ path, c.counted path = Outcome.timesAt path a.2 := fun path => by
          rw [CallSites.counted_of_leave hH]
          exact h.counted path
        refine ⟨_, by simp only [Player.logging, Detached.player, hK, Except.map]; rfl, ?_⟩
        exact { h with sites := rfl, counted := hcounted }
  factor {a b} w h :=
    { h with
      recorded := by
        show Recorded a.2 (a.1.note (.factor w)).records
        rw [records_note_factor]
        exact h.recorded }
  condition holds h := { h with }
  depth h := (congrArg CallSites.depth h.sites).symm
  write cell v h := { h with }

/-- **A completed replay over no records in which no choice fails, and a run without a trace**, are
beside each other in the end. -/
theorem beside_play {program : Program} (hp : program.Unaware) (hst : ∀ x, stored x = none)
    {d : Detached} (hg : d.generator = ρ.generator) (hs : d.sites = .empty)
    (hρ : ρ.sites = .empty) (hr : ρ.records = []) (he : ρ.session.enumerating = false)
    (hv : (program.play (player limits stored) ρ).1 = .ok v)
    (hn : program.unfailing (player limits stored) ρ = true) :
    (program.play Detached.player d).1 = .ok v ∧
      Beside ((program.play (player limits stored) ρ).2,
          program.outcomes (player limits stored) (·.sites.path) ρ)
        ((program.play Detached.player d).2,
          program.outcomes Detached.player (·.sites.path) d) := by
  have hstart : Beside (ρ, []) (d, []) :=
    { log := rfl, generator := hg, sites := by rw [hs, hρ]; rfl, plain := he
      counted := fun path => by rw [hρ]; rfl
      recorded := by rw [hr]; exact .nil }
  rw [← Program.unfailing_logging _ (·.sites.path)] at hn
  obtain ⟨hsame, hend⟩ := (shadows_detached hst).play hp hstart
    ((congrArg Prod.fst (program.play_logging _ _ ρ)).trans hv) hn
  rw [Program.play_logging, Program.play_logging] at hsame hend
  exact ⟨hsame.symm.trans hv, hend⟩

end Replay

/-! ### The first pass of a trace -/

namespace Trace

variable {t : Trace} {s : Session}

/-- The pass when the program has ended. -/
def ending (t : Trace) (fixed : Bool) (s : Session) : Pass :=
  (t.program.run (t.opening fixed s)).2

/-- The choices of a pass, in order. -/
def outcomes (t : Trace) (fixed : Bool) (s : Session) : List Outcome :=
  t.program.outcomes Pass.player (·.sites.path) (t.opening fixed s)

/-- A pass and its replay end at the same call sites, with the same choices behind them. -/
theorem WellFormed.outcomes_eq (h : t.WellFormed) (hs : s.active = none) (fixed : Bool) :
    (t.ending fixed s).sites = (t.replayed s).2.sites ∧
      t.outcomes fixed s = t.program.outcomes (Replay.player t.limits t.record?) (·.sites.path)
        { generator := t.generator, session := s.quiet } := by
  have hsites : ∀ p ρ, Replay.Follows t p ρ → p.sites = ρ.sites := by
    rintro _ ρ ⟨b, ⟨-, rfl⟩, -, -, hm⟩
    exact hm.sites.symm
  have hstart := Replay.follows_opening h hs fixed
  refine ⟨?_, Program.outcomes_simulates t.program (Replay.pass_simulates h)
    (fun p ρ hf => congrArg CallSites.path (hsites p ρ hf)) hstart⟩
  rw [ending, Program.run_eq_play]
  exact hsites _ _ (Player.play_simulates (Replay.pass_simulates h) t.program hstart).2

/-- A trace that has never run its program has no records. -/
theorem record?_unstarted (id : Nat) (program : Program) (limits : Limits) (g : Generator)
    (x : Address) : (unstarted id program limits g).record? x = none := by
  simp [record?, unstarted, Arena.lookup?, Arena.slotOf?]

end Trace

/-- **A run without a trace agrees with the first pass of one.**  Let the first pass of an unstarted
trace, which does not enumerate, complete with a value, and let no choice fail in it.  If the
program cannot tell by whom it is run, then a run without a trace over the same generator returns
that value, leaves the generator as the trace has it, and makes the same choices at the same paths,
with the same values and in the same order: they are the records of the trace.  It ends inside the
same call sites; the pass has counted its choices at each path, and the run, which names none, has
counted nothing. -/
theorem Program.Unaware.detached_agrees {program : Program} (hp : program.Unaware) (id : Nat)
    (limits : Limits) (g : Generator) {fixed : Bool} {s : Session} (he : s.enumerating = false)
    {v : Value} (hv : ((Trace.unstarted id program limits g).update fixed s).1 = .ok v)
    (hn : (Trace.unstarted id program limits g).unfailing fixed s = true) (s' : Session) :
    let t := Trace.unstarted id program limits g
    let u := (t.update fixed s).2.1
    let sites := (t.ending fixed s).sites
    let out := program.runDetached ⟨g, .empty, s'⟩
    let log := program.outcomes Detached.player (·.sites.path) ⟨g, .empty, s'⟩
    out.1 = .ok v ∧ out.2.generator = u.generator ∧
      t.outcomes fixed s = log ∧ Recorded log u.records ∧
      out.2.sites = sites.uncounted ∧
      ∀ path, sites.counted path = Outcome.timesAt path log := by
  intro t u sites out log
  have hw : t.WellFormed := .of_empty rfl rfl rfl
  have hs := Trace.idle_of_ok hv
  obtain ⟨hr, -, ha, -⟩ := hw.agrees_update hv
  obtain ⟨hsites, hlog⟩ := hw.outcomes_eq hs fixed
  -- the pass answers as its replay, and the replay finds nothing stored
  rw [Trace.unfailing, Program.unfailing_simulates (Replay.pass_simulates hw) t.program
    (Replay.follows_opening hw hs fixed)] at hn
  obtain ⟨hout, hend⟩ := Replay.beside_play (d := ⟨g, .empty, s'⟩) hp
    (Trace.record?_unstarted id program limits g) rfl rfl rfl rfl he hr hn
  rw [← Program.runDetached_eq_play] at hout hend
  refine ⟨hout, hend.generator.trans ha.generator.symm, hlog.trans hend.log.symm, ?_,
    hend.sites.trans (congrArg CallSites.uncounted hsites.symm), fun path => ?_⟩
  · show Recorded log (t.update fixed s).2.1.records
    rw [ha.records, show log = _ from hend.log]
    exact hend.recorded
  · show (t.ending fixed s).sites.counted path = Outcome.timesAt path log
    rw [hsites, show log = _ from hend.log]
    exact hend.counted path

/-- Draws inside a call site, observes what it has drawn, and draws again inside another one that it
does not leave. -/
def openDraw : Program :=
  (do
    let x ← Computation.call "f" (Computation.sample .flip [0.5])
    Computation.factor 0.5
    let y ← Computation.observe .flip [0.5] x
    Computation.condition (y = x)
    Computation.enter "g"
    Computation.sample .flip [0.5]).program

theorem unaware_openDraw : openDraw.Unaware := fun _ _ _ => trivial

theorem detached_openDraw :
    let t := Trace.unstarted 0 openDraw {} (.ofSeed 0)
    (t.update false {}).1 = .ok (.bool false) ∧ t.unfailing false {} = true ∧
      (t.ending false {}).sites.paths = [":g"] ∧
      (openDraw.runDetached ⟨.ofSeed 0, .empty, {}⟩).1 = .ok (.bool false) ∧
      (openDraw.runDetached ⟨.ofSeed 0, .empty, {}⟩).2.generator =
        (t.update false {}).2.1.generator ∧
      (openDraw.runDetached ⟨.ofSeed 0, .empty, {}⟩).2.sites.paths = [":g"] := by
  have hv : ((Trace.unstarted 0 openDraw {} (.ofSeed 0)).update false {}).1 =
      .ok (.bool false) := by
    decide +kernel
  have hn : (Trace.unstarted 0 openDraw {} (.ofSeed 0)).unfailing false {} = true := by
    decide +kernel
  have hsites : ((Trace.unstarted 0 openDraw {} (.ofSeed 0)).ending false {}).sites.paths =
      [":g"] := by
    decide +kernel
  obtain ⟨hout, hgenerator, -, -, hends, -⟩ :=
    unaware_openDraw.detached_agrees 0 {} (.ofSeed 0) rfl hv hn {}
  exact ⟨hv, hn, hsites, hout, hgenerator, (congrArg CallSites.paths hends).trans hsites⟩

/-- **The two do not end with the same counts.**  The pass has counted the last draw, so another one
would be the second of the call site that is open; the run without a trace would name it the
first. -/
theorem sites_ne_openDraw :
    let t := Trace.unstarted 0 openDraw {} (.ofSeed 0)
    let ended := (t.ending false {}).sites
    let detached := (openDraw.runDetached ⟨.ofSeed 0, .empty, {}⟩).2.sites
    openDraw.Unaware ∧ (t.update false {}).1 = .ok (.bool false) ∧
      t.unfailing false {} = true ∧
      ended.claim.1.address = .atSite ":g" 1 ∧ detached.claim.1.address = .atSite ":g" 0 ∧
      detached ≠ ended := by
  intro t ended detached
  have hended : ended.claim.1.address = .atSite ":g" 1 := by decide +kernel
  have hdetached : detached.claim.1.address = .atSite ":g" 0 := by decide +kernel
  refine ⟨unaware_openDraw, by decide +kernel, by decide +kernel, hended, hdetached, fun h => ?_⟩
  rw [h, hended] at hdetached
  exact absurd hdetached (by decide)

end ProbTrace
