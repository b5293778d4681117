import ProbTrace.Proofs.Detaching
import ProbTrace.Proofs.Restarting

/-!
# Proofs — Budgets: what the budgets of a pass change

`Pass.unbounded` is a pass without budgets: it makes every choice and enters every call site.  A
request exceeds the budgets (`Program.Exceeds`) if it is a choice when as many as allowed are
recorded, or an entering when as many call sites as allowed are open.  The number of the choices is
taken from the log of the run, and not from the cursor of the trace.

* `Player.play_congr`: two players that answer alike at every moment of a run run the program alike,
  and `Player.Steps.stepsWhile_or` finds the first moment of a run at which something fails to hold.
* `Pass.Counted` is what holds at every moment of an unbounded run in which no choice fails: the
  cursor is the number of choices in the log (`Counted.step`).  So an enumerating pass refuses a
  request exactly where it exceeds the budgets (`Counted.agreeAt`, `Counted.refuses`).
* `Pass.Within.step`: as long as nothing exceeds the budgets, there are no more choices and no more
  open call sites than they allow.  So what first exceeds them does so by one.

`Trace.budgets_exact` puts the two together for a whole pass.
-/

namespace ProbTrace

/-! ### Moments of a run -/

namespace Player

variable {σ : Type} {H K : Player σ} {P : Program → σ → Prop} {p p' : Program} {a a' : σ}

/-- Any number of requests are answered, and `P` holds before each of them. -/
inductive StepsWhile (H : Player σ) (P : Program → σ → Prop) :
    Program → σ → Program → σ → Prop where
  | refl {p : Program} {a : σ} : StepsWhile H P p a p a
  | more {p p₁ p' : Program} {a a₁ a' : σ} (hp : P p a) (h : Step H p a p₁ a₁)
      (t : StepsWhile H P p₁ a₁ p' a') : StepsWhile H P p a p' a'

theorem StepsWhile.steps (h : StepsWhile H P p a p' a') : Steps H p a p' a' := by
  induction h with
  | refl => exact .refl
  | more _ h _ ih => exact .more h ih

/-- Either `P` holds before every request of the run, or there is a first one before which it does
not. -/
theorem Steps.stepsWhile_or (h : Steps H p a p' a') :
    StepsWhile H P p a p' a' ∨ ∃ q b, StepsWhile H P p a q b ∧ ¬ P q b := by
  induction h with
  | refl => exact .inl .refl
  | @more p a p₁ a₁ p' a' h _ ih =>
      by_cases hp : P p a
      · rcases ih with hall | ⟨q, b, hb, hq⟩
        · exact .inl (.more hp h hall)
        · exact .inr ⟨q, b, .more hp h hb, hq⟩
      · exact .inr ⟨p, a, .refl, hp⟩

/-- The two players answer what the program asks next alike. -/
def AgreeAt (H K : Player σ) : Program → σ → Prop
  | .done _, _              => True
  | .fail _, _              => True
  | .choose q _, a          => H.choose q a = K.choose q a
  | .enter id _, a          => H.enter id a = K.enter id a
  | .leave id _, a          => H.leave id a = K.leave id a
  | .factor w _, a          => H.factor w a = K.factor w a
  | .condition holds _, a   => H.condition holds a = K.condition holds a
  | .isActive _, a          => H.isActive a = K.isActive a
  | .depth _, a             => H.depth a = K.depth a
  | .isEnumerating _, a     => H.isEnumerating a = K.isEnumerating a
  | .read cell _, a         => H.read cell a = K.read cell a
  | .write cell v _, a      => H.write cell v a = K.write cell v a
  | .nested fixed inner _, a => H.nested fixed inner a = K.nested fixed inner a

/-- A step of the one player is a step of the other, where they agree. -/
theorem Step.of_agreeAt (hs : Step K p a p' a') (h : AgreeAt H K p a) : Step H p a p' a' := by
  cases hs with
  | choose hc => exact .choose (h.trans hc)
  | @enter id next a =>
      have he : H.enter id a = K.enter id a := h
      rw [← he]
      exact .enter
  | leave hl => exact .leave (h.trans hl)
  | @factor w next a =>
      have hf : H.factor w a = K.factor w a := h
      rw [← hf]
      exact .factor
  | @condition holds next a =>
      have hc : H.condition holds a = K.condition holds a := h
      rw [← hc]
      exact .condition
  | @isActive next a =>
      have hi : H.isActive a = K.isActive a := h
      rw [← hi]
      exact .isActive
  | @depth next a =>
      have hd : H.depth a = K.depth a := h
      rw [← hd]
      exact .depth
  | @isEnumerating next a =>
      have hi : H.isEnumerating a = K.isEnumerating a := h
      rw [← hi]
      exact .isEnumerating
  | @read cell next a =>
      have hr : H.read cell a = K.read cell a := h
      rw [← hr]
      exact .read
  | @write cell v next a =>
      have hw : H.write cell v a = K.write cell v a := h
      rw [← hw]
      exact .write
  | nested hn => exact .nested (h.trans hn)

/-- **Players that agree at every moment of a run run the program alike.** -/
theorem play_congr : ∀ (p : Program) {a : σ},
    (∀ q b, Steps K p a q b → AgreeAt H K q b) → p.play H a = p.play K a
  | .done _, _, _ => rfl
  | .fail _, _, _ => rfl
  | .choose q next, a, h => by
      have hc : H.choose q a = K.choose q a := h _ _ .refl
      rw [Program.play, Program.play, hc]
      rcases hK : K.choose q a with ⟨(e | d | _) | v, b⟩
      · have hstep : K.Step (.choose q next) a (next (.error e)) b := .choose hK
        exact play_congr (next (.error e)) fun q' b' hs => h q' b' (.more hstep hs)
      · rfl
      · rfl
      · have hstep : K.Step (.choose q next) a (next (.ok v)) b := .choose hK
        exact play_congr (next (.ok v)) fun q' b' hs => h q' b' (.more hstep hs)
  | .enter id next, a, h => by
      have he : H.enter id a = K.enter id a := h _ _ .refl
      rw [Program.play, Program.play, he]
      exact play_congr (next _) fun q b hs => h q b (.more .enter hs)
  | .leave id next, a, h => by
      have hl : H.leave id a = K.leave id a := h _ _ .refl
      rw [Program.play, Program.play, hl]
      cases hK : K.leave id a with
      | error fault => rfl
      | ok b => exact play_congr (next ()) fun q b' hs => h q b' (.more (.leave hK) hs)
  | .factor w next, a, h => by
      have hf : H.factor w a = K.factor w a := h _ _ .refl
      rw [Program.play, Program.play, hf]
      exact play_congr (next ()) fun q b hs => h q b (.more .factor hs)
  | .condition holds next, a, h => by
      have hc : H.condition holds a = K.condition holds a := h _ _ .refl
      rw [Program.play, Program.play, hc]
      exact play_congr (next ()) fun q b hs => h q b (.more .condition hs)
  | .isActive next, a, h => by
      have hi : H.isActive a = K.isActive a := h _ _ .refl
      rw [Program.play, Program.play, hi]
      exact play_congr (next _) fun q b hs => h q b (.more .isActive hs)
  | .depth next, a, h => by
      have hd : H.depth a = K.depth a := h _ _ .refl
      rw [Program.play, Program.play, hd]
      exact play_congr (next _) fun q b hs => h q b (.more .depth hs)
  | .isEnumerating next, a, h => by
      have hi : H.isEnumerating a = K.isEnumerating a := h _ _ .refl
      rw [Program.play, Program.play, hi]
      exact play_congr (next _) fun q b hs => h q b (.more .isEnumerating hs)
  | .read cell next, a, h => by
      have hr : H.read cell a = K.read cell a := h _ _ .refl
      rw [Program.play, Program.play, hr]
      exact play_congr (next _) fun q b hs => h q b (.more .read hs)
  | .write cell v next, a, h => by
      have hw : H.write cell v a = K.write cell v a := h _ _ .refl
      rw [Program.play, Program.play, hw]
      exact play_congr (next ()) fun q b hs => h q b (.more .write hs)
  | .nested fixed inner next, a, h => by
      have hn : H.nested fixed inner a = K.nested fixed inner a := h _ _ .refl
      rw [Program.play, Program.play, hn]
      rcases hK : K.nested fixed inner a with ⟨(e | d | _) | v, b⟩
      · have hstep : K.Step (.nested fixed inner next) a (next (.error e)) b := .nested hK
        exact play_congr (next (.error e)) fun q b' hs => h q b' (.more hstep hs)
      · rfl
      · rfl
      · have hstep : K.Step (.nested fixed inner next) a (next (.ok v)) b := .nested hK
        exact play_congr (next (.ok v)) fun q b' hs => h q b' (.more hstep hs)

end Player

/-! ### A pass without budgets -/

namespace Pass

/-- The answers of a running pass that has no budgets. -/
def unbounded : Player Pass :=
  { player with
    choose := fun q p => chooseAt p.sites.claim.1 q p.trace p.sites.claim.2 p.session
    enter := fun id p => (.ok (), { p with sites := p.sites.enter id }) }

variable {p : Pass} {i : Nat} {enumerating : Bool} {limits : Limits}

theorem keeps_bounded_unbounded (i : Nat) (enumerating : Bool) (limits : Limits) :
    unbounded.Keeps (Bounded i enumerating limits) :=
  { keeps_bounded i enumerating limits with
    choose := fun q h =>
      ⟨under_chooseAt h.under _ q _, (limits_chooseAt h.under _ q _).trans h.limits⟩
    enter := fun _ h => ⟨h.under, h.limits⟩ }

/-- **Without budgets a pass does not look at the limits of its trace.** -/
theorem unbounded_relabels (l : Trace.Label) (i : Nat) (enumerating : Bool) (limits : Limits) :
    unbounded.Simulates unbounded fun p p' =>
      Bounded i enumerating limits p ∧ p' = p.relabel l :=
  simulates_relabel l (keeps_bounded_unbounded i enumerating limits)
    (fun {p} q _ => chooseAt_relabel l p.sites.claim.1 q p.trace p.sites.claim.2 p.session)
    fun _ _ => rfl

theorem choose_unbounded (h : p.spent = false) (q : Request) :
    player.choose q p = unbounded.choose q p :=
  choose_of_not_spent h q

theorem enter_unbounded (h : p.deep = false) (id : String) :
    player.enter id p = unbounded.enter id p :=
  enter_of_not_deep h id

/-! ### The cursor and the open call sites -/

section Choosing

variable {t : Trace} {s : Session} {sites : CallSites} {x : Address} {q : Request} {v : Value}

theorem cursor_settle {out : Except Error Unit × Trace} {j : Nat}
    (h : (settle j out sites s).1 = .ok v) :
    (settle j out sites s).2.trace.cursor = out.2.cursor + 1 := by
  obtain ⟨e | ⟨⟩, u⟩ := out
  · cases h
  · show (u.arrive j).2.cursor = u.cursor + 1
    rw [Trace.arrive]
    split <;> rfl

theorem cursor_chooseNew (h : (chooseNew x q t sites s).1 = .ok v) :
    (chooseNew x q t sites s).2.trace.cursor = t.cursor + 1 := by
  have hcreate : (t.create x q s.enumerating).2.cursor = t.cursor := by
    rw [Trace.create]
    split
    · rfl
    · split <;> rfl
  rw [chooseNew] at h ⊢
  generalize t.create x q s.enumerating = out at h hcreate ⊢
  obtain ⟨fault | ⟨j, r⟩, u⟩ := out
  · cases h
  · exact (cursor_settle h).trans (congrArg (· + 1) hcreate)

theorem cursor_refresh (t : Trace) (j : Nat) (q : Request) :
    (t.refresh j q).2.cursor = t.cursor := by
  rw [Trace.refresh]
  split <;> rfl

theorem cursor_chooseByAddress (h : (chooseByAddress x q t sites s).1 = .ok v) :
    (chooseByAddress x q t sites s).2.trace.cursor = t.cursor + 1 := by
  rw [chooseByAddress] at h ⊢
  split at h
  · exact cursor_chooseNew h
  · exact cursor_chooseNew h
  · rename_i j _
    have hrefresh := cursor_refresh t j q
    generalize t.refresh j q = out at h hrefresh ⊢
    obtain ⟨e | ⟨⟩, u⟩ := out
    · cases h
    · exact (cursor_settle h).trans (congrArg (· + 1) hrefresh)

/-- **A choice that succeeds moves the cursor on by one.** -/
theorem cursor_chooseAt {site : Site} (h : (chooseAt site q t sites s).1 = .ok v) :
    (chooseAt site q t sites s).2.trace.cursor = t.cursor + 1 := by
  rw [chooseAt] at h ⊢
  split at h
  · exact (cursor_settle h).trans (congrArg (· + 1) (cursor_refresh t _ q))
  · by_cases hl : t.isListed = true
    · rw [if_pos hl] at h ⊢
      exact cursor_chooseByAddress (t := t.forgetRest) h
    · rw [if_neg hl] at h ⊢
      exact cursor_chooseByAddress h

theorem sites_settle (j : Nat) (out : Except Error Unit × Trace) :
    (settle j out sites s).2.sites = sites := by
  obtain ⟨e | ⟨⟩, u⟩ := out <;> rfl

theorem sites_chooseNew (x : Address) (q : Request) (t : Trace) (s : Session) :
    (chooseNew x q t sites s).2.sites = sites := by
  rw [chooseNew]
  split
  · rfl
  · exact sites_settle _ _

theorem sites_chooseByAddress (x : Address) (q : Request) (t : Trace) (s : Session) :
    (chooseByAddress x q t sites s).2.sites = sites := by
  rw [chooseByAddress]
  split
  · exact sites_chooseNew x q t s
  · exact sites_chooseNew x q t _
  · split
    · rfl
    · exact sites_settle _ _

theorem sites_chooseAt (site : Site) (q : Request) (t : Trace) (s : Session) :
    (chooseAt site q t sites s).2.sites = sites := by
  rw [chooseAt]
  split
  · exact sites_settle _ _
  · split
    · exact sites_chooseByAddress _ q _ _
    · exact sites_chooseByAddress _ q t s

end Choosing

theorem depth_choose_unbounded (p : Pass) (q : Request) :
    (unbounded.choose q p).2.sites.depth = p.sites.depth := by
  show (chooseAt _ q p.trace _ p.session).2.sites.depth = _
  rw [sites_chooseAt, CallSites.depth_claim]

/-- Leaving opens no call site. -/
theorem depth_leave {p' : Pass} {id : String} (h : unbounded.leave id p = .ok p') :
    p'.sites.depth ≤ p.sites.depth := by
  simp only [unbounded, player] at h
  split at h
  · rename_i sites hl
    cases h
    rw [CallSites.leave?] at hl
    split at hl
    · cases hl
      show p.sites.paths.tail.length ≤ p.sites.paths.length
      rw [List.length_tail]
      omega
    · cases hl
  · cases h

end Pass

/-! ### Requests that exceed the budgets -/

/-- The next request exceeds the budgets, when so many call sites are open and so many choices have
been recorded. -/
def Program.Exceeds (l : Limits) (depth choices : Nat) : Program → Prop
  | .choose _ _ => l.maxChoices ≤ choices
  | .enter _ _  => l.maxDepth ≤ depth
  | _           => False

namespace Pass

/-- A pass that keeps a log of its choices. -/
abbrev Logged := Pass × List Outcome

/-- A player of passes that also keeps the log of the choices. -/
def logged (H : Player Pass) : Player Logged := H.logging fun p => p.sites.path

/-- The next request exceeds the budgets, by the log. -/
def Exceeds (l : Limits) (program : Program) (a : Logged) : Prop :=
  program.Exceeds l a.1.sites.depth a.2.length

/-- There are no more choices and no more open call sites than the budgets allow. -/
structure Within (l : Limits) (a : Logged) : Prop where
  choices : a.2.length ≤ l.maxChoices
  depth   : a.1.sites.depth ≤ l.maxDepth

/-- What holds at every moment of an enumerating pass in which no choice has failed: the choices in
the log are counted by the cursor, and no choice of the rest of the program is going to fail. -/
structure Counted (i : Nat) (l : Limits) (program : Program) (a : Logged) : Prop where
  bounded   : a.1.Bounded i true l
  cursor    : a.1.trace.cursor = a.2.length
  unfailing : program.unfailing unbounded a.1 = true

variable {i : Nat} {l : Limits} {program program' : Program} {a a' : Logged} {q : Request}
  {next : Except Error Value → Program}

namespace Counted

/-- A choice succeeds, and the log grows by it. -/
theorem exists_choice (h : Counted i l (.choose q next) a) : ∃ v p o,
    (logged unbounded).choose q a = (.ok v, p, a.2 ++ [o]) ∧
      Counted i l (next (.ok v)) (p, a.2 ++ [o]) := by
  have hn := h.unfailing
  rw [Program.unfailing] at hn
  rcases hc : unbounded.choose q a.1 with ⟨fault | v, p⟩
  · rw [hc] at hn
    cases hn
  rw [hc] at hn
  have hbounded := (keeps_bounded_unbounded i true l).choose q h.bounded
  rw [hc] at hbounded
  have hcursor : p.trace.cursor = a.1.trace.cursor + 1 := by
    have hp : chooseAt a.1.sites.claim.1 q a.1.trace a.1.sites.claim.2 a.1.session = (.ok v, p) :=
      hc
    have hmoved := cursor_chooseAt (congrArg (·.1) hp)
    rwa [hp] at hmoved
  refine ⟨v, p, _, Player.choose_logging_of_ok hc, hbounded, ?_, hn⟩
  rw [hcursor, h.cursor, List.length_append]
  rfl

/-- What the next request comes to is the same again. -/
theorem step (h : Counted i l program a)
    (hs : (logged unbounded).Step program a program' a') : Counted i l program' a' := by
  have hk := keeps_bounded_unbounded i true l
  obtain ⟨hbounded, hcursor, hn⟩ := h
  cases hs with
  | @choose q next _ answer _ hc =>
      have h : Counted i l (.choose q next) a := ⟨hbounded, hcursor, hn⟩
      obtain ⟨v, p, o, hc', hcounted⟩ := h.exists_choice
      rw [hc'] at hc
      cases answer with
      | error e => cases hc
      | ok w =>
          cases hc
          exact hcounted
  | @enter id => exact ⟨hk.enter id hbounded, hcursor, hn⟩
  | @leave id next _ _ hl =>
      rcases hu : unbounded.leave id a.1 with fault | p
      · simp only [logged, Player.logging, hu, Except.map] at hl
        cases hl
      · simp only [logged, Player.logging, hu, Except.map] at hl
        cases hl
        rw [Program.unfailing, hu] at hn
        refine ⟨hk.leave id hbounded hu, ?_, hn⟩
        simp only [unbounded, player] at hu
        split at hu
        · cases hu
          exact hcursor
        · cases hu
  | @factor w => exact ⟨hk.factor w hbounded, hcursor, hn⟩
  | @condition holds => exact ⟨hk.condition holds hbounded, hcursor, hn⟩
  | isActive => exact ⟨hbounded, hcursor, hn⟩
  | depth => exact ⟨hbounded, hcursor, hn⟩
  | isEnumerating => exact ⟨hbounded, hcursor, hn⟩
  | read => exact ⟨hbounded, hcursor, hn⟩
  | @write cell v => exact ⟨hk.write cell v hbounded, hcursor, hn⟩
  | @nested fixed inner next _ answer _ hc =>
      have hactive : a.1.session.active = some i :=
        congrArg Settings.active hbounded.under.settings
      have hu : unbounded.nested fixed inner a.1 = _ :=
        nested_eq (p := a.1) (by rw [hactive]; rfl) fixed inner
      have hkept := hk.nested fixed inner hbounded
      simp only [logged, Player.logging, hu] at hc
      rw [Program.unfailing, hu] at hn
      rw [hu] at hkept
      cases answer with
      | ok v => cases hc
      | error e =>
          cases hc
          exact ⟨hkept, hcursor, hn⟩

theorem steps (h : Counted i l program a)
    (hs : (logged unbounded).Steps program a program' a') : Counted i l program' a' := by
  induction hs with
  | refl => exact h
  | more hs _ ih => exact ih (h.step hs)

theorem spent_iff (h : Counted i l program a) :
    a.1.spent = true ↔ l.maxChoices ≤ a.2.length := by
  have hflag : a.1.session.enumerating = true :=
    congrArg Settings.enumerating h.bounded.under.settings
  rw [spent, hflag, h.bounded.limits, h.cursor, Bool.true_and, decide_eq_true_iff]

theorem deep_iff (h : Counted i l program a) :
    a.1.deep = true ↔ l.maxDepth ≤ a.1.sites.depth := by
  have hflag : a.1.session.enumerating = true :=
    congrArg Settings.enumerating h.bounded.under.settings
  rw [deep, hflag, h.bounded.limits, Bool.true_and, decide_eq_true_iff]

/-- **What does not exceed the budgets is answered as without them.** -/
theorem agreeAt (h : Counted i l program a) (he : ¬ Exceeds l program a) :
    Player.AgreeAt (logged player) (logged unbounded) program a := by
  cases program with
  | choose q next =>
      have hspent : a.1.spent = false := by
        rw [← Bool.not_eq_true, h.spent_iff]
        exact he
      show Player.choose (player.logging _) q a = Player.choose (unbounded.logging _) q a
      simp only [Player.logging, choose_unbounded hspent]
  | enter id next =>
      have hdeep : a.1.deep = false := by
        rw [← Bool.not_eq_true, h.deep_iff]
        exact he
      show Player.enter (player.logging _) id a = Player.enter (unbounded.logging _) id a
      simp only [Player.logging, enter_unbounded hdeep]
  | done | fail | leave | factor | condition | isActive | depth | isEnumerating | read | write
  | nested => trivial

end Counted

namespace Within

/-- As long as nothing exceeds the budgets, there are no more choices and no more open call sites
than they allow. -/
theorem step (h : Within l a) (hs : (logged unbounded).Step program a program' a')
    (he : ¬ Exceeds l program a) : Within l a' := by
  obtain ⟨hchoices, hdepth⟩ := h
  cases hs with
  | @choose q next _ answer _ hc =>
      have hlt : a.2.length < l.maxChoices := Nat.not_le.mp he
      have hsites := depth_choose_unbounded a.1 q
      rcases hu : unbounded.choose q a.1 with ⟨fault | v, p⟩
      · rw [hu] at hsites
        have hc := (congrArg (·.2) hc).symm.trans
          (congrArg (·.2) (Player.choose_logging_of_error hu))
        cases hc
        exact ⟨hchoices, Nat.le_trans (Nat.le_of_eq hsites) hdepth⟩
      · rw [hu] at hsites
        have hc := (congrArg (·.2) hc).symm.trans
          (congrArg (·.2) (Player.choose_logging_of_ok hu))
        cases hc
        refine ⟨?_, Nat.le_trans (Nat.le_of_eq hsites) hdepth⟩
        show (a.2 ++ [_]).length ≤ l.maxChoices
        rw [List.length_append]
        exact hlt
  | @enter id =>
      have hlt : a.1.sites.depth < l.maxDepth := Nat.not_le.mp he
      exact ⟨hchoices, hlt⟩
  | @leave id next _ _ hl =>
      rcases hu : unbounded.leave id a.1 with fault | p
      · simp only [logged, Player.logging, hu, Except.map] at hl
        cases hl
      · simp only [logged, Player.logging, hu, Except.map] at hl
        cases hl
        exact ⟨hchoices, Nat.le_trans (depth_leave hu) hdepth⟩
  | factor => exact ⟨hchoices, hdepth⟩
  | condition => exact ⟨hchoices, hdepth⟩
  | isActive => exact ⟨hchoices, hdepth⟩
  | depth => exact ⟨hchoices, hdepth⟩
  | isEnumerating => exact ⟨hchoices, hdepth⟩
  | read => exact ⟨hchoices, hdepth⟩
  | write => exact ⟨hchoices, hdepth⟩
  | nested hc =>
      have hc := congrArg (·.2) hc
      cases hc
      exact ⟨hchoices, hdepth⟩

theorem stepsWhile (h : Within l a)
    (hs : (logged unbounded).StepsWhile (fun q b => ¬ Exceeds l q b) program a program' a') :
    Within l a' := by
  induction hs with
  | refl => exact h
  | more he hs _ ih => exact ih (h.step hs he)

end Within

/-- The pass refuses the next request, which goes beyond the budgets by one.  The error tells how
many call sites are open and how many choices have been recorded, and nothing in the pass has
changed. -/
inductive Refuses (l : Limits) (a : Logged) : Program → Prop where
  | choice {q : Request} {next : Except Error Value → Program} (hn : a.2.length = l.maxChoices)
      (h : player.choose q a.1 =
        (.error (.error (.divergent a.1.sites.depth a.2.length)), a.1)) :
      Refuses l a (.choose q next)
  | entry {id : String} {next : Except Error Unit → Program}
      (hn : a.1.sites.depth = l.maxDepth)
      (h : player.enter id a.1 = (.error (.divergent a.1.sites.depth a.2.length), a.1)) :
      Refuses l a (.enter id next)

namespace Counted

/-- **What exceeds the budgets is refused.** -/
theorem refuses (h : Counted i l program a) (hw : Within l a) (he : Exceeds l program a) :
    Refuses l a program := by
  cases program with
  | choose q next =>
      have hspent := choose_of_spent (h.spent_iff.mpr he) q
      rw [h.cursor] at hspent
      exact .choice (Nat.le_antisymm hw.choices he) hspent
  | enter id next =>
      have hdeep := enter_of_deep (h.deep_iff.mpr he) id
      rw [h.cursor] at hdeep
      exact .entry (Nat.le_antisymm hw.depth he) hdeep
  | done | fail | leave | factor | condition | isActive | depth | isEnumerating | read | write
  | nested => exact he.elim

/-- Without budgets, what exceeds them leads to a moment that is not within them. -/
theorem exists_beyond (h : Counted i l program a) (he : Exceeds l program a) :
    ∃ program' a', (logged unbounded).Step program a program' a' ∧ ¬ Within l a' := by
  cases program with
  | choose q next =>
      obtain ⟨v, p, o, hc, -⟩ := h.exists_choice
      have hstep : (logged unbounded).Step (.choose q next) a (next (.ok v)) (p, a.2 ++ [o]) :=
        .choose hc
      refine ⟨_, _, hstep, fun hw => ?_⟩
      have hle : (a.2 ++ [o]).length ≤ l.maxChoices := hw.choices
      have he : l.maxChoices ≤ a.2.length := he
      rw [List.length_append, List.length_singleton] at hle
      omega
  | enter id next =>
      refine ⟨_, _, .enter, fun hw => ?_⟩
      have hle : a.1.sites.depth + 1 ≤ l.maxDepth := hw.depth
      have he : l.maxDepth ≤ a.1.sites.depth := he
      omega
  | done | fail | leave | factor | condition | isActive | depth | isEnumerating | read | write
  | nested => exact he.elim

/-- A run up to the first request that exceeds the budgets is the same with and without them. -/
theorem stepsWhile_player (h : Counted i l program a)
    (hs : (logged unbounded).StepsWhile (fun q b => ¬ Exceeds l q b) program a program' a') :
    (logged player).StepsWhile (fun q b => ¬ Exceeds l q b) program a program' a' := by
  induction hs with
  | refl => exact .refl
  | more he hs _ ih => exact .more he (hs.of_agreeAt (h.agreeAt he)) (ih (h.step hs))

end Counted

end Pass

/-! ### A whole pass -/

namespace Trace

/-- An update without budgets. -/
def updateUnbounded (t : Trace) (fixed : Bool) (s : Session) :
    Except Fault Value × Trace × Session :=
  t.passWith (t.program.play Pass.unbounded) fixed s

/-- The pass that an update opens, with an empty log. -/
def beginning (t : Trace) (fixed : Bool) (s : Session) : Pass.Logged := (t.opening fixed s, [])

/-- Without budgets, the pass never makes more choices and never has more call sites open than the
limits allow. -/
def Fits (t : Trace) (fixed : Bool) (s : Session) : Prop :=
  ∀ program a, (Pass.logged Pass.unbounded).Steps t.program (t.beginning fixed s) program a →
    Pass.Within t.limits a

variable {t : Trace} {fixed : Bool} {s : Session}

/-- Two ways to play the program that come to the same make the same update. -/
theorem passWith_congr {run run' : Pass → Except Fault Value × Pass}
    (h : run (t.opening fixed s) = run' (t.opening fixed s)) :
    t.passWith run fixed s = t.passWith run' fixed s := by
  rw [passWith_eq, passWith_eq, h]

theorem update_eq_updateUnbounded (h : t.program.play Pass.player (t.opening fixed s) =
    t.program.play Pass.unbounded (t.opening fixed s)) :
    t.update fixed s = t.updateUnbounded fixed s :=
  passWith_congr ((t.program.run_eq_play _).trans h)

/-- **A pass that does not enumerate has no budgets.** -/
theorem update_of_plain (h : s.enumerating = false) :
    t.update fixed s = t.updateUnbounded fixed s := by
  refine update_eq_updateUnbounded (Player.play_congr t.program fun program p hs => ?_)
  have hopen : (t.opening fixed s).Bounded t.id s.enumerating t.limits :=
    ⟨t.under_opening fixed s, rfl⟩
  have hflag : p.session.enumerating = false := by
    have hbounded := (Pass.keeps_bounded_unbounded t.id s.enumerating t.limits).steps hs hopen
    exact (congrArg Settings.enumerating hbounded.under.settings).trans h
  cases program with
  | choose q next => exact Pass.choose_unbounded (by rw [Pass.spent, hflag]; rfl) q
  | enter id next => exact Pass.enter_unbounded (by rw [Pass.deep, hflag]; rfl) id
  | done | fail | leave | factor | condition | isActive | depth | isEnumerating | read | write
  | nested => trivial

theorem counted_beginning (he : s.enumerating = true)
    (hn : t.program.unfailing Pass.unbounded (t.opening fixed s) = true) :
    Pass.Counted t.id t.limits t.program (t.beginning fixed s) where
  bounded := ⟨he ▸ t.under_opening fixed s, rfl⟩
  cursor := rfl
  unfailing := hn

/-- **An enumerating pass whose unbounded run fits the budgets does not notice them.** -/
theorem Fits.update_eq (h : t.Fits fixed s)
    (hc : Pass.Counted t.id t.limits t.program (t.beginning fixed s)) :
    t.update fixed s = t.updateUnbounded fixed s := by
  have hplay : t.program.play (Pass.logged Pass.player) (t.beginning fixed s) =
      t.program.play (Pass.logged Pass.unbounded) (t.beginning fixed s) := by
    refine Player.play_congr t.program fun program a hs => (hc.steps hs).agreeAt fun hex => ?_
    obtain ⟨program', a', hstep, hbeyond⟩ := (hc.steps hs).exists_beyond hex
    exact hbeyond (h program' a' (hs.trans (.more hstep .refl)))
  have hlogged : ∀ H : Player Pass, t.program.play (Pass.logged H) (t.beginning fixed s) = _ :=
    fun H => t.program.play_logging H (fun p => p.sites.path) (t.opening fixed s)
  rw [hlogged, hlogged] at hplay
  refine update_eq_updateUnbounded (Prod.ext (congrArg (·.1) hplay) ?_)
  exact congrArg (fun out : Except Fault Value × Pass.Logged => out.2.1) hplay

/-- **Where the unbounded run does not fit the budgets there is a first request that exceeds them**,
and the pass refuses it. -/
theorem exists_refuses (hc : Pass.Counted t.id t.limits t.program (t.beginning fixed s))
    (h : ¬ t.Fits fixed s) : ∃ program a,
      (Pass.logged Pass.unbounded).StepsWhile (fun q b => ¬ Pass.Exceeds t.limits q b)
        t.program (t.beginning fixed s) program a ∧ Pass.Refuses t.limits a program := by
  have hwithin : Pass.Within t.limits (t.beginning fixed s) := ⟨Nat.zero_le _, Nat.zero_le _⟩
  obtain ⟨program', a', hs, hbeyond⟩ : ∃ program a,
      (Pass.logged Pass.unbounded).Steps t.program (t.beginning fixed s) program a ∧
        ¬ Pass.Within t.limits a := by
    simpa [Fits] using h
  obtain hall | ⟨program, a, hwhile, hex⟩ := hs.stepsWhile_or
    (P := fun q b => ¬ Pass.Exceeds t.limits q b)
  · exact absurd (hwithin.stepsWhile hall) hbeyond
  · refine ⟨program, a, hwhile, ?_⟩
    exact (hc.steps hwhile.steps).refuses (hwithin.stepsWhile hwhile) (not_not.mp hex)

/-- An unbounded run under another label is the same run under that label. -/
theorem play_unbounded_relabel (t : Trace) (fixed : Bool) (s : Session) (returned : Option Value)
    (limits : Limits) :
    t.program.play Pass.unbounded ((t.opening fixed s).relabel ⟨t.id, returned, limits⟩) =
      ((t.program.play Pass.unbounded (t.opening fixed s)).1,
        (t.program.play Pass.unbounded (t.opening fixed s)).2.relabel
          ⟨t.id, returned, limits⟩) := by
  have hopen : (t.opening fixed s).Bounded t.id s.enumerating t.limits :=
    ⟨t.under_opening fixed s, rfl⟩
  obtain ⟨hanswer, -, hend⟩ := Player.play_simulates
    (Pass.unbounded_relabels ⟨t.id, returned, limits⟩ t.id s.enumerating t.limits) t.program
    ⟨hopen, rfl⟩
  exact Prod.ext hanswer.symm hend

/-- A trace under its own label, but for the limits. -/
theorem relabel_limits {u : Trace} {l : Label} (h : u = u.relabel l) (limits : Limits) :
    u.relabel { l with limits } = { u with limits } := by
  conv_rhs => rw [h]
  rfl

/-- **Without budgets the limits of the trace are only carried along.** -/
theorem updateUnbounded_limits (t : Trace) (fixed : Bool) (s : Session) (limits : Limits) :
    { t with limits }.updateUnbounded fixed s =
      ((t.updateUnbounded fixed s).1, { (t.updateUnbounded fixed s).2.1 with limits },
        (t.updateUnbounded fixed s).2.2) := by
  cases hs : s.active with
  | some id =>
      obtain ⟨active, enumerating, nextId, cells, recording, events⟩ := s
      cases hs
      rfl
  | none =>
      have hown := t.play_unbounded_relabel fixed s t.returned t.limits
      have hopen : (t.opening fixed s).relabel ⟨t.id, t.returned, t.limits⟩ =
        t.opening fixed s := rfl
      rw [hopen] at hown
      have hother := t.play_unbounded_relabel fixed s t.returned limits
      have hopen : { t with limits }.opening fixed s =
        (t.opening fixed s).relabel ⟨t.id, t.returned, limits⟩ := rfl
      rw [← hopen] at hother
      rw [updateUnbounded, updateUnbounded, passWith_of_idle hs, passWith_of_idle hs, hother]
      generalize t.program.play Pass.unbounded (t.opening fixed s) = out at hown ⊢
      obtain ⟨answer, p⟩ := out
      -- the trace that the pass leaves is under the label that it had in the pass
      have hp : p = p.relabel ⟨t.id, t.returned, t.limits⟩ := congrArg (·.2) hown
      have hend := conclude_relabel answer p ⟨t.id, t.returned, t.limits⟩
      rw [← hp] at hend
      have hu := relabel_limits (congrArg (·.2.1) hend) limits
      have hafter : Label.after ⟨t.id, t.returned, limits⟩ answer =
          { Label.after ⟨t.id, t.returned, t.limits⟩ answer with limits } := by
        cases answer <;> rfl
      rw [concluded, conclude_relabel, hafter]
      exact Prod.ext rfl (Prod.ext hu rfl)

/-- **The budgets of a pass are exact, and otherwise invisible.**  With budgets and without, an update
that is not refused is the run from its opening, concluded, and the run with a log is this run.
Without budgets an update depends on the limits of the trace in nothing, and a pass that does not
enumerate is one without budgets.
So is an enumerating pass in which no choice fails and which, run without budgets, makes no more
choices and never has more call sites open than the limits allow.  Otherwise the pass and the one
without budgets are the same up to the first choice after as many recorded ones as are allowed, or
the first call site entered while as many as are allowed are open.  This request the pass refuses:
the error tells the number of open call sites and of recorded choices, and neither the call sites
nor the trace have changed. -/
theorem budgets_exact (t : Trace) (fixed : Bool) (s : Session) :
    (t.update fixed s = (if s.active.isSome then (.error (.error .reentrant), t, s)
      else concluded (t.program.play Pass.player (t.opening fixed s))) ∧
    t.updateUnbounded fixed s = (if s.active.isSome then (.error (.error .reentrant), t, s)
      else concluded (t.program.play Pass.unbounded (t.opening fixed s))) ∧
    ∀ H, t.program.play (Pass.logged H) (t.beginning fixed s) =
      ((t.program.play H (t.opening fixed s)).1, (t.program.play H (t.opening fixed s)).2,
        t.program.outcomes H (fun p => p.sites.path) (t.opening fixed s))) ∧
    (∀ limits, { t with limits }.updateUnbounded fixed s =
      ((t.updateUnbounded fixed s).1, { (t.updateUnbounded fixed s).2.1 with limits },
        (t.updateUnbounded fixed s).2.2)) ∧
    (s.enumerating = false → t.update fixed s = t.updateUnbounded fixed s) ∧
    (s.enumerating = true → t.program.unfailing Pass.unbounded (t.opening fixed s) = true →
      (t.Fits fixed s → t.update fixed s = t.updateUnbounded fixed s) ∧
      (¬ t.Fits fixed s → ∃ program a,
        (Pass.logged Pass.player).StepsWhile (fun q b => ¬ Pass.Exceeds t.limits q b)
          t.program (t.beginning fixed s) program a ∧
        (Pass.logged Pass.unbounded).StepsWhile (fun q b => ¬ Pass.Exceeds t.limits q b)
          t.program (t.beginning fixed s) program a ∧
        Pass.Refuses t.limits a program)) := by
  refine ⟨⟨t.update_eq fixed s, passWith_eq _ t fixed s,
    fun H => t.program.play_logging H (fun p => p.sites.path) (t.opening fixed s)⟩,
    t.updateUnbounded_limits fixed s, update_of_plain, fun he hn => ?_⟩
  have hc := counted_beginning he hn
  refine ⟨fun hfits => hfits.update_eq hc, fun hfits => ?_⟩
  obtain ⟨program, a, hs, hrefuses⟩ := exists_refuses hc hfits
  exact ⟨program, a, hc.stepsWhile_player hs, hs, hrefuses⟩

end Trace

/-! ### A choice inside a call site -/

/-- A flip inside a call site. -/
def calledFlip : Program :=
  (Computation.call "a" (Computation.sample .flip [1.0])).program

/-- A trace of the program whose passes may have so many call sites open. -/
def calledFlipTrace (maxDepth : Nat) : Trace :=
  .unstarted 0 calledFlip { maxDepth, maxChoices := 1 } (.ofSeed 0)

theorem fits_calledFlipTrace : (calledFlipTrace 1).Fits false { enumerating := true } := by
  intro program a hs
  have h : Pass.Within (calledFlipTrace 1).limits
      ((calledFlipTrace 1).beginning false { enumerating := true }) := ⟨by decide, by decide⟩
  have hfree : ¬ 1 ≤ 0 := by decide
  -- the call site is entered, the choice is made, and the call site is left
  cases hs with
  | refl => exact h
  | more hstep hs =>
      have h := h.step hstep fun he => hfree he
      cases hstep
      cases hs with
      | refl => exact h
      | more hstep hs =>
          have h := h.step hstep fun he => hfree he
          cases hstep with
          | @choose q next _ answer b hchoose =>
              cases hs with
              | refl => exact h
              | more hstep hs =>
                  have h := h.step hstep id
                  cases hstep with
                  | leave hleave =>
                      rcases answer with e | v
                      · cases hs with
                        | refl => exact h
                        | more hstep => cases hstep
                      · cases hs with
                        | refl => exact h
                        | more hstep => cases hstep

theorem not_fits_calledFlipTrace :
    ¬ (calledFlipTrace 0).Fits false { enumerating := true } := by
  intro h
  have hwithin := h _ _ (.more .enter .refl)
  exact absurd hwithin.depth (by decide)

/-- With one open call site allowed the pass is one without budgets, and with none it is refused
the first one. -/
theorem budgets_exact_calledFlipTrace :
    (∀ d ≤ 1, (calledFlipTrace d).program.unfailing Pass.unbounded
      ((calledFlipTrace d).opening false { enumerating := true }) = true) ∧
    (calledFlipTrace 1).Fits false { enumerating := true } ∧
    (calledFlipTrace 1).update false { enumerating := true } =
      (calledFlipTrace 1).updateUnbounded false { enumerating := true } ∧
    ¬ (calledFlipTrace 0).Fits false { enumerating := true } ∧
    ∃ program a,
      (Pass.logged Pass.player).StepsWhile
        (fun q b => ¬ Pass.Exceeds (calledFlipTrace 0).limits q b) (calledFlipTrace 0).program
        ((calledFlipTrace 0).beginning false { enumerating := true }) program a ∧
      Pass.Refuses (calledFlipTrace 0).limits a program := by
  have hn : ∀ d ≤ 1, (calledFlipTrace d).program.unfailing Pass.unbounded
      ((calledFlipTrace d).opening false { enumerating := true }) = true := by
    decide +kernel
  obtain ⟨-, -, -, hone⟩ := (calledFlipTrace 1).budgets_exact false { enumerating := true }
  obtain ⟨-, -, -, hzero⟩ := (calledFlipTrace 0).budgets_exact false { enumerating := true }
  obtain ⟨hone, -⟩ := hone rfl (hn 1 (by decide))
  obtain ⟨-, hzero⟩ := hzero rfl (hn 0 (by decide))
  obtain ⟨program, a, hs, -, hrefuses⟩ := hzero not_fits_calledFlipTrace
  exact ⟨hn, fits_calledFlipTrace, hone fits_calledFlipTrace, not_fits_calledFlipTrace,
    program, a, hs, hrefuses⟩

end ProbTrace
