import ProbTrace.Proofs.Guards
import ProbTrace.Proofs.Walking

/-!
# Proofs — Restarting: a rejection does not depend on the past

A fresh pass forgets the choices of its trace, and what it does not forget it does not look at: the
id of the trace and the value that the last pass returned.  Nor does a choice that is not refused
look at the budgets (`Pass.chooseAt_relabel`).  Two passes that differ in the id and the value alone
give the same answers and report the same events (`Pass.player_relabels`), so a fresh pass over any
trace comes to what the pass of an unstarted trace of the same program, budgets and generator comes
to (`Trace.update_congr`).

* `Search.rejection_alike`: two rejections over such traces come to the same, whether or not the
  enumeration flag was set.
* `Search.attempt` is one pass of each of a row of unstarted traces, each with the generator that
  the one before has left, and `Search.rejectionFrom_eq_ok_iff` says that the world a rejection
  leaves is that of the first attempt that is satisfied.
-/

namespace ProbTrace

/-! ### What a pass does not look at -/

namespace Session

/-- The session with the trace of this id marked as being populated. -/
def marked (s : Session) (id : Nat) : Session := { s with active := some id }

/-- The session with the enumeration flag off. -/
def unflagged (s : Session) : Session := { s with enumerating := false }

theorem report_marked (s : Session) (id : Nat) (e : Event) :
    (s.marked id).report e = (s.report e).marked id := by
  have hr : (s.marked id).recording = s.recording := rfl
  rw [report, report, hr]
  split <;> rfl

theorem report_unflagged (s : Session) (e : Event) :
    s.unflagged.report e = (s.report e).unflagged := by
  have hr : s.unflagged.recording = s.recording := rfl
  rw [report, report, hr]
  split <;> rfl

end Session

namespace Trace

/-- What a trace carries through its passes: its id, the value returned last, and the budgets. -/
structure Label where
  id       : Nat
  returned : Option Value
  limits   : Limits

/-- The trace under another label. -/
def relabel (t : Trace) (l : Label) : Trace :=
  { t with id := l.id, returned := l.returned, limits := l.limits }

variable (t : Trace) (l : Label)

@[simp] theorem arena_relabel : (t.relabel l).arena = t.arena := rfl

@[simp] theorem generator_relabel : (t.relabel l).generator = t.generator := rfl

@[simp] theorem cursor_relabel : (t.relabel l).cursor = t.cursor := rfl

@[simp] theorem isListed_relabel : (t.relabel l).isListed = t.isListed := rfl

@[simp] theorem atPosition_relabel (q : Request) (site : Site) :
    (t.relabel l).atPosition q site = t.atPosition q site := rfl

@[simp] theorem atAddress_relabel (q : Request) (x : Address) :
    (t.relabel l).atAddress q x = t.atAddress q x := rfl

theorem refresh_relabel (i : Nat) (q : Request) :
    (t.relabel l).refresh i q = ((t.refresh i q).1, (t.refresh i q).2.relabel l) := by
  rw [refresh, refresh, arena_relabel]
  cases t.arena.record? i <;> rfl

theorem create_relabel (x : Address) (q : Request) (enumerating : Bool) :
    (t.relabel l).create x q enumerating =
      ((t.create x q enumerating).1, (t.create x q enumerating).2.relabel l) := by
  rw [create, create, generator_relabel]
  obtain fault | ⟨w, g⟩ := newValue q enumerating t.generator
  · rfl
  · simp only
    cases q.family.logDensity w q.params <;> rfl

theorem arrive_relabel (i : Nat) :
    (t.relabel l).arrive i = ((t.arrive i).1, (t.arrive i).2.relabel l) := by
  simp only [arrive, arena_relabel]
  cases t.arena.record? i <;> rfl

end Trace

namespace Pass

/-- The pass with its trace under another label. -/
def relabel (p : Pass) (l : Trace.Label) : Pass :=
  ⟨p.trace.relabel l, p.sites, p.session.marked l.id⟩

variable (l : Trace.Label)

theorem settle_relabel (i : Nat) (out : Except Error Unit × Trace) (sites : CallSites)
    (s : Session) : settle i (out.1, out.2.relabel l) sites (s.marked l.id) =
      ((settle i out sites s).1, (settle i out sites s).2.relabel l) := by
  obtain ⟨e | ⟨⟩, t⟩ := out
  · rfl
  · simp only [settle, t.arrive_relabel l i]
    rfl

theorem chooseNew_relabel (x : Address) (q : Request) (t : Trace) (sites : CallSites)
    (s : Session) : chooseNew x q (t.relabel l) sites (s.marked l.id) =
      ((chooseNew x q t sites s).1, (chooseNew x q t sites s).2.relabel l) := by
  have hflag : (s.marked l.id).enumerating = s.enumerating := rfl
  rw [chooseNew, chooseNew, hflag, t.create_relabel l]
  obtain ⟨fault | ⟨i, r⟩, u⟩ := t.create x q s.enumerating
  · rfl
  · simp only [Session.report_marked]
    exact settle_relabel l i (.ok (), u.enlist i) sites _

theorem chooseByAddress_relabel (x : Address) (q : Request) (t : Trace) (sites : CallSites)
    (s : Session) : chooseByAddress x q (t.relabel l) sites (s.marked l.id) =
      ((chooseByAddress x q t sites s).1, (chooseByAddress x q t sites s).2.relabel l) := by
  rw [chooseByAddress, chooseByAddress, Trace.atAddress_relabel]
  cases t.atAddress q x with
  | nothing => exact chooseNew_relabel l x q t sites s
  | unfit r =>
      simp only [Session.report_marked]
      exact chooseNew_relabel l x q t sites _
  | reuse i =>
      simp only [t.refresh_relabel l]
      obtain ⟨e | ⟨⟩, u⟩ := t.refresh i q
      · rfl
      · exact settle_relabel l i (.ok (), u.enlist i) sites s

theorem chooseAt_relabel (site : Site) (q : Request) (t : Trace) (sites : CallSites)
    (s : Session) : chooseAt site q (t.relabel l) sites (s.marked l.id) =
      ((chooseAt site q t sites s).1, (chooseAt site q t sites s).2.relabel l) := by
  rw [chooseAt, chooseAt, Trace.atPosition_relabel]
  cases t.atPosition q site with
  | reuse i =>
      simp only [t.refresh_relabel l]
      exact settle_relabel l i (t.refresh i q) sites s
  | unfit | nothing =>
      simp only [Trace.isListed_relabel, Trace.cursor_relabel, Session.report_marked]
      split
      · exact chooseByAddress_relabel l _ q t.forgetRest sites _
      · exact chooseByAddress_relabel l _ q t sites s

/-- A choice looks at the label for the budgets only. -/
theorem choose_relabel {p : Pass} (hl : l.limits = p.trace.limits) (q : Request) :
    (p.relabel l).choose q = ((p.choose q).1, (p.choose q).2.relabel l) := by
  have hspent : (p.relabel l).spent = p.spent := by
    show (_ && decide (l.limits.maxChoices ≤ _)) = _
    rw [hl]
    rfl
  cases hb : p.spent with
  | true =>
      rw [choose_of_spent hb, choose_of_spent (hspent.trans hb)]
      rfl
  | false =>
      rw [choose_of_not_spent hb, choose_of_not_spent (hspent.trans hb)]
      exact chooseAt_relabel l _ q p.trace _ p.session

theorem enter_relabel {p : Pass} (hl : l.limits = p.trace.limits) (i : String) :
    (p.relabel l).enter i = ((p.enter i).1, (p.enter i).2.relabel l) := by
  have hdeep : (p.relabel l).deep = p.deep := by
    show (_ && decide (l.limits.maxDepth ≤ _)) = _
    rw [hl]
    rfl
  cases hb : p.deep with
  | true =>
      rw [enter_of_deep hb, enter_of_deep (hdeep.trans hb)]
      rfl
  | false =>
      rw [enter_of_not_deep hb, enter_of_not_deep (hdeep.trans hb)]
      rfl

/-- A choice of a running pass leaves the budgets as they are. -/
theorem limits_chooseAt {t : Trace} {s : Session} {i : Nat} {enumerating : Bool}
    (h : Under i ⟨some i, enumerating⟩ t s) (site : Site) (q : Request) (sites : CallSites) :
    (chooseAt site q t sites s).2.trace.limits = t.limits := by
  have hmarked : s.marked t.id = s := by
    obtain ⟨active, flag, nextId, cells, recording, events⟩ := s
    obtain ⟨rfl, hsettings⟩ := h
    cases hsettings
    rfl
  have hown := chooseAt_relabel ⟨t.id, t.returned, t.limits⟩ site q t sites s
  rw [hmarked] at hown
  exact congrArg (fun out : Except Fault Value × Pass => out.2.trace.limits) hown

/-- The pass runs over the trace of this id, under these budgets. -/
structure Bounded (i : Nat) (enumerating : Bool) (limits : Limits) (p : Pass) : Prop where
  under  : Under i ⟨some i, enumerating⟩ p.trace p.session
  limits : p.trace.limits = limits

/-- **Every answer of a running pass keeps the budgets.** -/
theorem keeps_bounded (i : Nat) (enumerating : Bool) (limits : Limits) :
    player.Keeps (Bounded i enumerating limits) where
  choose {p} q h := by
    refine ⟨(keeps_under i enumerating).choose q h.under, ?_⟩
    show (p.choose q).2.trace.limits = limits
    cases hb : p.spent with
    | true =>
        rw [choose_of_spent hb]
        exact h.limits
    | false =>
        rw [choose_of_not_spent hb]
        exact (limits_chooseAt h.under _ q _).trans h.limits
  enter {p} j h := by
    refine ⟨(keeps_under i enumerating).enter j h.under, ?_⟩
    obtain ⟨_, he, -⟩ := p.enter_state j
    show (p.enter j).2.trace.limits = limits
    rw [he]
    exact h.limits
  leave {p p'} j h hl := by
    refine ⟨(keeps_under i enumerating).leave j h.under hl, ?_⟩
    obtain ⟨_, -, rfl⟩ := leave_eq_ok_iff.mp hl
    exact h.limits
  factor w h := ⟨(keeps_under i enumerating).factor w h.under, h.limits⟩
  condition holds h := ⟨(keeps_under i enumerating).condition holds h.under, h.limits⟩
  write cell v h := ⟨(keeps_under i enumerating).write cell v h.under, h.limits⟩
  nested {p} fixed inner h := by
    refine ⟨(keeps_under i enumerating).nested fixed inner h.under, ?_⟩
    have hactive : p.session.active = some i := congrArg Settings.active h.under.settings
    rw [nested_eq (by rw [hactive]; rfl)]
    exact h.limits

/-- A pass that makes choices and enters call sites in whatever way, as long as it keeps the budgets
and looks at the label for nothing else. -/
theorem simulates_relabel {i : Nat} {enumerating : Bool} {limits : Limits}
    {choose : Request → Pass → Except Fault Value × Pass}
    {enter : String → Pass → Except Error Unit × Pass}
    (hk : Player.Keeps { player with choose, enter } (Bounded i enumerating limits))
    (hc : ∀ {p} q, Bounded i enumerating limits p →
      choose q (p.relabel l) = ((choose q p).1, (choose q p).2.relabel l))
    (he : ∀ {p} j, Bounded i enumerating limits p →
      enter j (p.relabel l) = ((enter j p).1, (enter j p).2.relabel l)) :
    Player.Simulates { player with choose, enter } { player with choose, enter } fun p p' =>
      Bounded i enumerating limits p ∧ p' = p.relabel l where
  choose := by
    rintro p _ q ⟨h, rfl⟩
    simp only [hc q h]
    exact ⟨rfl, hk.choose q h, rfl⟩
  enter := by
    rintro p _ j ⟨h, rfl⟩
    simp only [he j h]
    exact ⟨rfl, hk.enter j h, rfl⟩
  leave := by
    rintro p _ j ⟨h, rfl⟩
    cases hl : p.sites.leave? j with
    | none =>
        refine .inl ⟨.defect (.siteMismatch p.sites.path j), ?_, ?_⟩
        · simp only [player, hl]
        · simp only [player, relabel, hl]
    | some sites =>
        have hp : player.leave j p = .ok { p with sites } := by simp only [player, hl]
        refine .inr ⟨_, _, hp, ?_, hk.leave j h hp, rfl⟩
        simp only [player, relabel, hl]
  factor := by
    rintro p _ w ⟨h, rfl⟩
    exact ⟨hk.factor w h, rfl⟩
  condition := by
    rintro p _ holds ⟨h, rfl⟩
    exact ⟨hk.condition holds h, rfl⟩
  isActive _ := rfl
  depth := by
    rintro p _ ⟨-, rfl⟩
    rfl
  isEnumerating := by
    rintro p _ ⟨-, rfl⟩
    rfl
  read := by
    rintro p _ cell ⟨-, rfl⟩
    rfl
  write := by
    rintro p _ cell w ⟨h, rfl⟩
    exact ⟨hk.write cell w h, rfl⟩
  nested := by
    rintro p _ fixed inner ⟨h, rfl⟩
    have hk := (keeps_bounded i enumerating limits).nested fixed inner h
    have hactive : p.session.active = some i := congrArg Settings.active h.under.settings
    simp only [nested_eq (p := p) (by rw [hactive]; rfl)] at hk ⊢
    rw [nested_eq (p := p.relabel l) rfl]
    exact ⟨rfl, hk, rfl⟩

/-- **Two passes that differ in the id and the value returned last give the same answers.** -/
theorem player_relabels (i : Nat) (enumerating : Bool) :
    player.Simulates player fun p p' =>
      Bounded i enumerating l.limits p ∧ p' = p.relabel l :=
  simulates_relabel l (keeps_bounded i enumerating l.limits)
    (fun q h => choose_relabel l h.limits.symm q) (fun j h => enter_relabel l h.limits.symm j)

end Pass

namespace Trace

variable {t u : Trace} {s : Session}

/-! ### A whole pass -/

theorem foldl_relabel {f : Trace → Nat → Trace} {l : Label}
    (hf : ∀ t i, f (t.relabel l) i = (f t i).relabel l) :
    ∀ (is : List Nat) (t : Trace), is.foldl f (t.relabel l) = (is.foldl f t).relabel l
  | [], _ => rfl
  | i :: is, t => by
      rw [List.foldl_cons, hf, foldl_relabel hf is]
      rfl

theorem pruneSlot_relabel (t : Trace) (l : Label) (i : Nat) :
    pruneSlot (t.relabel l) i = (pruneSlot t i).relabel l := by
  rw [pruneSlot, pruneSlot, arena_relabel]
  cases t.arena.record? i with
  | none => rfl
  | some r =>
      simp only
      split <;> rfl

theorem salvageSlot_relabel (t : Trace) (l : Label) (i : Nat) :
    salvageSlot (t.relabel l) i = (salvageSlot t i).relabel l := by
  rw [salvageSlot, salvageSlot, arena_relabel]
  cases t.arena.record? i with
  | none => rfl
  | some r =>
      simp only
      split <;> rfl

/-- A completed pass leaves the value of the program in the label. -/
theorem complete_relabel (t : Trace) (l : Label) (w : Value) :
    (t.relabel l).complete w = (t.complete w).relabel { l with returned := some w } := by
  have h := foldl_relabel (l := { l with returned := some w }) (fun t => pruneSlot_relabel t _)
    (List.range t.arena.slots.size) { t with returned := some w }.forgetRest
  exact h

theorem abandon_relabel (t : Trace) (l : Label) :
    (t.relabel l).abandon = t.abandon.relabel l := by
  have h := foldl_relabel (l := l) (fun t => salvageSlot_relabel t l)
    (List.range t.arena.slots.size) { t with satisfied := false, order := #[], joint := 0.0 }
  exact congrArg (fun u : Trace => { u with cursor := u.order.size }) h

/-- Closing a trace keeps its id and its budgets, and completing it sets the value returned. -/
theorem label_complete (t : Trace) (w : Value) : (t.complete w).id = t.id ∧
    (t.complete w).returned = some w ∧ (t.complete w).limits = t.limits := by
  have h := complete_relabel t ⟨t.id, t.returned, t.limits⟩ w
  have hown : t.relabel ⟨t.id, t.returned, t.limits⟩ = t := rfl
  rw [hown] at h
  rw [h]
  exact ⟨rfl, rfl, rfl⟩

/-- The first trace is the second one but for its id, if the pass was completed, and the two
answers and sessions are the same. -/
structure SameEnd (id : Nat) (a b : Except Fault Value × Trace × Session) : Prop where
  answer  : a.1 = b.1
  trace   : ∀ v, b.1 = .ok v → a.2.1 = b.2.1.copyAs id
  session : a.2.2 = b.2.2

theorem SameEnd.of_fault (id : Nat) (fault : Fault) (t u : Trace) (s : Session) :
    SameEnd id (.error fault, t, s) (.error fault, u, s) :=
  ⟨rfl, fun _ h => (by cases h), rfl⟩

/-- What becomes of a label when the program has ended. -/
def Label.after (l : Label) : Except Fault Value → Label
  | .ok v    => { l with returned := some v }
  | .error _ => l

/-- **How a pass ends does not depend on the label of its trace.** -/
theorem conclude_relabel (answer : Except Fault Value) (p : Pass) (l : Label) :
    conclude (answer, p.relabel l) =
      ((conclude (answer, p)).1, (conclude (answer, p)).2.1.relabel (l.after answer),
        (conclude (answer, p)).2.2.marked l.id) := by
  obtain ⟨t, sites, s⟩ := p
  rcases answer with (e | d | _) | w
  · simp only [conclude, Pass.relabel, abandon_relabel, Session.report_marked]
    rfl
  · rfl
  · rfl
  · simp only [conclude, Pass.relabel, complete_relabel]
    rw [← Session.report_marked]
    rfl

/-- **A pass depends on what is left of its trace when it starts**, and not on the id or on what an
earlier pass has returned. -/
theorem update_congr {fixed : Bool} (hp : t.program = u.program)
    (hs : t.start fixed = (u.start fixed).relabel ⟨t.id, t.returned, u.limits⟩) (s : Session) :
    SameEnd t.id (t.update fixed s) (u.update fixed s) := by
  cases ha : s.active with
  | some other =>
      have hb : s.active.isSome = true := by rw [ha]; rfl
      rw [update_of_busy hb, update_of_busy hb]
      exact .of_fault t.id _ t u s
  | none =>
      have hopen :
          t.opening fixed s = (u.opening fixed s).relabel ⟨t.id, t.returned, u.limits⟩ := by
        rw [opening, hs]
        rfl
      have hbounded : (u.opening fixed s).Bounded u.id s.enumerating u.limits :=
        ⟨u.under_opening fixed s, rfl⟩
      obtain ⟨hanswer, hkept, hend⟩ := Player.play_simulates
        (Pass.player_relabels ⟨t.id, t.returned, u.limits⟩ u.id s.enumerating) u.program
        ⟨hbounded, rfl⟩
      rw [← u.program.run_eq_play] at hanswer hkept hend
      rw [← u.program.run_eq_play, ← hopen] at hanswer hend
      have hrun : t.program.run (t.opening fixed s) = ((u.program.run (u.opening fixed s)).1,
          (u.program.run (u.opening fixed s)).2.relabel ⟨t.id, t.returned, u.limits⟩) := by
        rw [hp]
        exact Prod.ext hanswer.symm hend
      rw [update_of_idle ha, update_of_idle ha, hrun, conclude_relabel]
      generalize u.program.run (u.opening fixed s) = out at hkept
      obtain ⟨answer, p⟩ := out
      refine ⟨rfl, fun v hv => ?_, rfl⟩
      cases (fst_conclude answer p).symm.trans hv
      -- the value returned and the budgets are those of the completed trace already
      obtain ⟨-, hreturned, hlimits⟩ := label_complete p.trace v
      have hlimits : (p.trace.complete v).limits = u.limits := hlimits.trans hkept.limits
      show { p.trace.complete v with id := t.id, returned := some v, limits := u.limits } = _
      rw [← hreturned, ← hlimits]
      rfl

/-- What a fresh pass keeps of its trace. -/
structure Kindred (t u : Trace) : Prop where
  program   : t.program = u.program
  limits    : t.limits = u.limits
  generator : t.generator = u.generator

theorem Kindred.start_reset (h : t.Kindred u) :
    t.reset.start false = (u.reset.start false).relabel ⟨t.id, t.returned, u.limits⟩ := by
  obtain ⟨hp, hl, hg⟩ := h
  simp only [start, reset, relabel, hp, hl, hg]

end Trace

namespace Search

variable {t u : Trace} {s s' : Session}

/-! ### Two rejections -/

/-- Two searches come to the same: they have the same answer, when they succeed the first one leaves
the trace that the second one leaves, but for its id, and they leave the same session, but for the
flag. -/
structure Alike {α : Type} (id : Nat) (a b : SearchStep α) : Prop where
  answer  : a.1 = b.1
  trace   : ∀ x, b.1 = .ok x → a.2.1 = b.2.1.copyAs id
  session : a.2.2.unflagged = b.2.2.unflagged

theorem Alike.of_fault {α : Type} {a b : SearchStep α} {id : Nat} {fault : Fault}
    (ha : a.1 = .error fault) (hb : b.1 = .error fault)
    (hs : a.2.2.unflagged = b.2.2.unflagged) : Alike id a b where
  answer := ha.trans hb.symm
  trace x hx := by cases hb.symm.trans hx
  session := hs

theorem alike_freshPass (h : t.Kindred u) (hs : s.unflagged = s'.unflagged) :
    Alike t.id (freshPass t s) (freshPass u s') := by
  have hu := Trace.update_congr (t := t.reset) (u := u.reset) h.program h.start_reset s.unflagged
  have hu' : Trace.SameEnd t.id (t.reset.update false s.unflagged)
      (u.reset.update false s'.unflagged) := hs ▸ hu
  have hpass : ∀ (t : Trace) (s : Session), freshPass t s =
      ((pass t.reset s.unflagged).1, (pass t.reset s.unflagged).2.1,
        { (pass t.reset s.unflagged).2.2 with enumerating := s.enumerating }) := fun _ _ => rfl
  rw [hpass, hpass, pass, pass]
  obtain ⟨ha, ht, hsession⟩ := hu'
  generalize t.reset.update false s.unflagged = a at ha ht hsession ⊢
  generalize u.reset.update false s'.unflagged = b at ha ht hsession ⊢
  obtain ⟨fault | v, t', s₁⟩ := a
  · obtain ⟨_, u', s₂⟩ := b
    cases ha
    cases hsession
    exact .of_fault rfl rfl rfl
  · obtain ⟨_, u', s₂⟩ := b
    cases ha
    cases hsession
    exact ⟨rfl, fun _ _ => ht v rfl, rfl⟩

/-- **Two rejections over kindred traces come to the same**, whatever the two traces hold. -/
theorem alike_rejectionFrom : ∀ (fuel passes : Nat) {t u : Trace} {s s' : Session},
    t.Kindred u → s.unflagged = s'.unflagged →
      Alike t.id (rejectionFrom fuel passes t s) (rejectionFrom fuel passes u s')
  | 0, _, _, _, _, _, _, hs => .of_fault rfl rfl hs
  | fuel + 1, passes, t, u, s, s', h, hs => by
      have hf := alike_freshPass h hs
      have hcap : checkAttempts t passes = checkAttempts u passes := by
        rw [checkAttempts, checkAttempts, h.limits]
      rw [rejectionFrom, rejectionFrom, hcap]
      obtain fault | _ := checkAttempts u passes
      · exact .of_fault rfl rfl hs
      simp only
      obtain ⟨ha, ht, hsession⟩ := hf
      generalize freshPass t s = a at ha ht hsession ⊢
      generalize freshPass u s' = b at ha ht hsession ⊢
      obtain ⟨fault | _, u', s₂⟩ := b
      · obtain ⟨_, t', s₁⟩ := a
        cases ha
        exact .of_fault rfl rfl hsession
      · obtain ⟨_, t', s₁⟩ := a
        cases ha
        obtain rfl : t' = u'.copyAs t.id := ht () rfl
        have hsat : (u'.copyAs t.id).satisfied = u'.satisfied := rfl
        simp only [hsat]
        split
        · refine ⟨rfl, fun _ _ => rfl, ?_⟩
          rw [← Session.report_unflagged, ← Session.report_unflagged]
          exact congrArg (Session.report · _) hsession
        · have hk : (u'.copyAs t.id).Kindred u' := ⟨rfl, rfl, rfl⟩
          exact alike_rejectionFrom fuel (passes + 1) hk hsession

/-! ### The first attempt that is satisfied -/

/-- One pass of each of a row of unstarted traces, each of which continues the generator, and the
session, that the one before has left: attempt number `k`, counted from zero. -/
def attempt (id : Nat) (program : Program) (limits : Limits) :
    Nat → Generator → Session → Except Fault Value × Trace × Session
  | 0,     g, s => (Trace.unstarted id program limits g).update false s.unflagged
  | k + 1, g, s =>
    let first := (Trace.unstarted id program limits g).update false s.unflagged
    attempt id program limits k first.2.1.generator first.2.2

/-- The attempt is completed, and its conditions hold or not. -/
def Completes (out : Except Fault Value × Trace × Session) (satisfied : Bool) : Prop :=
  (∃ v, out.1 = .ok v) ∧ out.2.1.satisfied = satisfied

/-- Attempt number `k` is the first one whose conditions hold, and the ones before are completed. -/
structure FirstSatisfied (id : Nat) (program : Program) (limits : Limits) (g : Generator)
    (s : Session) (k : Nat) : Prop where
  before : ∀ j < k, Completes (attempt id program limits j g s) false
  last   : Completes (attempt id program limits k g s) true

variable {id k : Nat} {program : Program} {limits : Limits} {g : Generator}

theorem firstSatisfied_zero_iff : FirstSatisfied id program limits g s 0 ↔
    Completes (attempt id program limits 0 g s) true :=
  ⟨fun h => h.last, fun h => ⟨fun _ hj => absurd hj (Nat.not_lt_zero _), h⟩⟩

/-- After a first attempt in vain it is up to the ones that continue it. -/
theorem firstSatisfied_succ_iff : FirstSatisfied id program limits g s (k + 1) ↔
    Completes (attempt id program limits 0 g s) false ∧
      FirstSatisfied id program limits (attempt id program limits 0 g s).2.1.generator
        (attempt id program limits 0 g s).2.2 k := by
  constructor
  · exact fun h => ⟨h.before 0 (Nat.succ_pos k),
      fun j hj => h.before (j + 1) (Nat.succ_lt_succ hj), h.last⟩
  · rintro ⟨hfirst, h⟩
    refine ⟨fun j hj => ?_, h.last⟩
    cases j with
    | zero => exact hfirst
    | succ j => exact h.before j (Nat.lt_of_succ_lt_succ hj)

/-- A fresh pass comes to what the next attempt comes to. -/
theorem freshPass_attempt (id : Nat) (t : Trace) (s : Session) :
    let first := attempt id t.program t.limits 0 t.generator s
    (freshPass t s).1 = first.1.map (fun _ => ()) ∧
      (∀ v, first.1 = .ok v → (freshPass t s).2.1 = first.2.1.copyAs t.id) ∧
      (freshPass t s).2.2.unflagged = first.2.2.unflagged := by
  intro first
  have hkin : t.Kindred (.unstarted id t.program t.limits t.generator) := ⟨rfl, rfl, rfl⟩
  obtain ⟨ha, ht, hs⟩ := alike_freshPass (s := s) hkin rfl
  have hfirst : freshPass (.unstarted id t.program t.limits t.generator) s =
      (first.1.map (fun _ => ()), first.2.1,
        { first.2.2 with enumerating := s.enumerating }) := by
    show ((pass (.unstarted id t.program t.limits t.generator) s.unflagged).1,
      (pass (.unstarted id t.program t.limits t.generator) s.unflagged).2.1,
      ({ (pass (.unstarted id t.program t.limits t.generator) s.unflagged).2.2 with
        enumerating := s.enumerating } : Session)) = _
    rw [pass]
    show _ = ((Trace.update _ false s.unflagged).1.map _, _, _)
    rcases hu : (Trace.unstarted id t.program t.limits t.generator).update false s.unflagged with
      ⟨fault | v, u, s'⟩ <;> simp only [first, attempt, hu] <;> rfl
  rw [hfirst] at ha ht hs
  refine ⟨ha, fun v hv => ht () ?_, hs⟩
  rw [hv]
  rfl

/-- The first attempt keeps the program and the budgets. -/
theorem constants_attempt {v : Value}
    (hv : (attempt id program limits 0 g s).1 = .ok v) :
    (attempt id program limits 0 g s).2.1.program = program ∧
      (attempt id program limits 0 g s).2.1.limits = limits :=
  (Trace.WellFormed.of_empty (t := .unstarted id program limits g) rfl rfl rfl).constants_update hv

theorem id_rejectionFrom (fuel passes : Nat) (t : Trace) (s : Session) :
    (rejectionFrom fuel passes t s).2.1.id = t.id := by
  have h : Restores t.id s.settings (fun _ => True) (Journaled.rejectionFrom fuel passes t s) :=
    .rejectionFrom trivial fuel passes ⟨rfl, rfl⟩
  rw [← Journaled.fst_rejectionFrom]
  exact h.under.id_eq

/-- One more round of a rejection that succeeds: the next attempt is satisfied, or it is in vain and
the rest of the rounds succeed. -/
theorem rejectionFrom_succ_eq_ok_iff {first : Except Fault Value × Trace × Session}
    (hfirst : attempt id t.program t.limits 0 t.generator s = first) (fuel passes : Nat)
    (e : SearchEnd) (w : Trace) :
    (rejectionFrom (fuel + 1) passes t s).1 = .ok e ∧
        (rejectionFrom (fuel + 1) passes t s).2.1 = w ↔
      (∀ most, t.limits.maxAttempts = some most → passes < most) ∧
        (Completes first true ∧ e = .satisfied (passes + 1) ∧ w = first.2.1.copyAs t.id ∨
          Completes first false ∧
            (rejectionFrom fuel (passes + 1) (first.2.1.copyAs t.id) first.2.2).1 = .ok e ∧
            (rejectionFrom fuel (passes + 1) (first.2.1.copyAs t.id) first.2.2).2.1 = w) := by
  obtain ⟨ha, ht, hs⟩ := freshPass_attempt id t s
  rw [hfirst] at ha ht hs
  rw [← checkAttempts_eq_ok_iff, rejectionFrom]
  obtain fault | ⟨⟩ := checkAttempts t passes
  · exact ⟨fun h => (by cases h.1), fun h => (by cases h.1)⟩
  simp only [true_and]
  generalize freshPass t s = out at ha ht hs ⊢
  obtain ⟨_, t', s₁⟩ := out
  obtain ⟨fault | v, u, s₂⟩ := first
  · cases ha
    refine ⟨fun h => (by cases h.1), ?_⟩
    rintro (⟨⟨⟨v, hv⟩, -⟩, -⟩ | ⟨⟨⟨v, hv⟩, -⟩, -⟩) <;> cases hv
  · cases ha
    obtain rfl : t' = u.copyAs t.id := ht v rfl
    have hsat : (u.copyAs t.id).satisfied = u.satisfied := rfl
    simp only [hsat]
    cases hu : u.satisfied with
    | true =>
        rw [if_pos rfl]
        constructor
        · rintro ⟨he, rfl⟩
          exact .inl ⟨⟨⟨v, rfl⟩, hu⟩, (Except.ok.inj he).symm, rfl⟩
        · rintro (⟨-, rfl, rfl⟩ | ⟨⟨-, hf⟩, -⟩)
          · exact ⟨rfl, rfl⟩
          · cases hu.symm.trans hf
    | false =>
        rw [if_neg Bool.false_ne_true]
        -- the sessions differ in the flag at most
        have hk : (u.copyAs t.id).Kindred (u.copyAs t.id) := ⟨rfl, rfl, rfl⟩
        obtain ⟨hanswer, htrace, -⟩ := alike_rejectionFrom fuel (passes + 1) hk hs
        have hid := id_rejectionFrom fuel (passes + 1) (u.copyAs t.id) s₂
        have hsame : (rejectionFrom fuel (passes + 1) (u.copyAs t.id) s₂).1 = .ok e →
            (rejectionFrom fuel (passes + 1) (u.copyAs t.id) s₁).2.1 =
              (rejectionFrom fuel (passes + 1) (u.copyAs t.id) s₂).2.1 := fun he =>
          (htrace e he).trans (by rw [← hid]; rfl)
        constructor
        · rintro ⟨he, hw⟩
          have he' := hanswer.symm.trans he
          exact .inr ⟨⟨⟨v, rfl⟩, hu⟩, he', (hsame he').symm.trans hw⟩
        · rintro (⟨⟨-, hf⟩, -⟩ | ⟨-, he, hw⟩)
          · cases hu.symm.trans hf
          · exact ⟨hanswer.trans he, (hsame he).trans hw⟩

/-- A rejection over `t` that has run so many passes ends with attempt number `k` from there on: it
is the first one that is satisfied, the bound allows it, and its world is left, under the id of
`t`. -/
structure EndsWith (id passes : Nat) (t : Trace) (s : Session) (k : Nat) (e : SearchEnd)
    (w : Trace) : Prop where
  first  : FirstSatisfied id t.program t.limits t.generator s k
  bound  : ∀ most, t.limits.maxAttempts = some most → passes + k < most
  answer : e = .satisfied (passes + k + 1)
  world  : w = (attempt id t.program t.limits k t.generator s).2.1.copyAs t.id

section

variable {first : Except Fault Value × Trace × Session} {passes : Nat} {e : SearchEnd} {w : Trace}

theorem endsWith_zero_iff (hfirst : attempt id t.program t.limits 0 t.generator s = first) :
    EndsWith id passes t s 0 e w ↔
      (∀ most, t.limits.maxAttempts = some most → passes < most) ∧ Completes first true ∧
        e = .satisfied (passes + 1) ∧ w = first.2.1.copyAs t.id := by
  subst hfirst
  constructor
  · rintro ⟨hf, hb, he, hw⟩
    exact ⟨hb, firstSatisfied_zero_iff.mp hf, he, hw⟩
  · rintro ⟨hb, hf, he, hw⟩
    exact ⟨firstSatisfied_zero_iff.mpr hf, hb, he, hw⟩

/-- It ends with a later attempt if the first one is in vain and the rejection that goes on from
there ends with it. -/
theorem endsWith_succ_iff (hfirst : attempt id t.program t.limits 0 t.generator s = first) :
    EndsWith id passes t s (k + 1) e w ↔
      (∀ most, t.limits.maxAttempts = some most → passes < most) ∧ Completes first false ∧
        EndsWith id (passes + 1) (first.2.1.copyAs t.id) first.2.2 k e w := by
  have hconstants : Completes first false →
      (first.2.1.copyAs t.id).program = t.program ∧ (first.2.1.copyAs t.id).limits = t.limits := by
    rintro ⟨⟨v, hv⟩, -⟩
    rw [← hfirst] at hv ⊢
    exact constants_attempt hv
  have hsucc : attempt id t.program t.limits (k + 1) t.generator s =
      attempt id t.program t.limits k first.2.1.generator first.2.2 := by
    rw [← hfirst]
    rfl
  have hnumber : passes + 1 + k = passes + (k + 1) := by omega
  constructor
  · rintro ⟨hf, hb, he, hw⟩
    rw [firstSatisfied_succ_iff, hfirst] at hf
    obtain ⟨hp, hl⟩ := hconstants hf.1
    refine ⟨fun most hm => ?_, hf.1, ?_, ?_, ?_, ?_⟩
    · have := hb most hm
      omega
    · rw [hp, hl]
      exact hf.2
    · rw [hl, hnumber]
      exact hb
    · rw [hnumber]
      exact he
    · rw [hp, hl, hw, hsucc]
      rfl
  · rintro ⟨-, hvain, hf, hb, he, hw⟩
    obtain ⟨hp, hl⟩ := hconstants hvain
    rw [hp, hl] at hf hw
    rw [hl, hnumber] at hb
    rw [hnumber] at he
    refine ⟨?_, hb, he, ?_⟩
    · rw [firstSatisfied_succ_iff, hfirst]
      exact ⟨hvain, hf⟩
    · rw [hsucc]
      exact hw

end

/-- **A rejection leaves the world of the first attempt that is satisfied**, if its rounds and the
bound on the attempts allow that many. -/
theorem rejectionFrom_eq_ok_iff (id : Nat) : ∀ (fuel passes : Nat) (t : Trace) (s : Session)
    (e : SearchEnd) (w : Trace),
    (rejectionFrom fuel passes t s).1 = .ok e ∧ (rejectionFrom fuel passes t s).2.1 = w ↔
      ∃ k < fuel, EndsWith id passes t s k e w
  | 0, passes, t, s, e, w => by
      constructor
      · rintro ⟨h, -⟩
        cases h
      · rintro ⟨k, hk, -⟩
        exact absurd hk (Nat.not_lt_zero k)
  | fuel + 1, passes, t, s, e, w => by
      obtain ⟨first, hfirst⟩ : ∃ first, attempt id t.program t.limits 0 t.generator s = first :=
        ⟨_, rfl⟩
      rw [rejectionFrom_succ_eq_ok_iff hfirst, rejectionFrom_eq_ok_iff id fuel]
      constructor
      · rintro ⟨hb, hdone | ⟨hvain, k, hk, hlater⟩⟩
        · exact ⟨0, Nat.succ_pos fuel, (endsWith_zero_iff hfirst).mpr ⟨hb, hdone⟩⟩
        · exact ⟨k + 1, Nat.succ_lt_succ hk, (endsWith_succ_iff hfirst).mpr ⟨hb, hvain, hlater⟩⟩
      · rintro ⟨k, hk, h⟩
        cases k with
        | zero =>
            obtain ⟨hb, hdone⟩ := (endsWith_zero_iff hfirst).mp h
            exact ⟨hb, .inl hdone⟩
        | succ k =>
            obtain ⟨hb, hvain, hlater⟩ := (endsWith_succ_iff hfirst).mp h
            exact ⟨hb, .inr ⟨hvain, k, Nat.lt_of_succ_lt_succ hk, hlater⟩⟩

end Search

/-- **A rejection does not depend on the past of its trace.**  Over any trace, whatever it holds and
however it came about, a rejection has the answer that it has over an unstarted trace of the same
program, budgets and generator, whether or not the enumeration flag was set for either.  When it
succeeds the two leave the same trace in every field but its id, and they leave the same session but
for the flag, which each restores.  It succeeds exactly if among the worlds that successive
unstarted traces would come to in one pass, each continuing the generator of the one before, there
is a satisfied one within its rounds and the bound on the attempts, and the passes before it are
completed; then the first such world is left. -/
theorem Trace.rejection_forgets (t : Trace) (id fuel : Nat) (s : Session) (enumerating : Bool) :
    let out := t.search .rejection fuel s
    let fresh := (Trace.unstarted id t.program t.limits t.generator).search .rejection fuel
      { s with enumerating }
    out.1 = fresh.1 ∧
      (∀ e, fresh.1 = .ok e → out.2.1 = { fresh.2.1 with id := t.id }) ∧
      out.2.2 = { fresh.2.2 with enumerating := s.enumerating } ∧
      ∀ e w, out.1 = .ok e ∧ out.2.1 = w ↔ ∃ k < fuel, Search.EndsWith id 0 t s k e w := by
  intro out fresh
  have hkin : t.Kindred (.unstarted id t.program t.limits t.generator) := ⟨rfl, rfl, rfl⟩
  have hsession : s.unflagged = ({ s with enumerating } : Session).unflagged := rfl
  obtain ⟨ha, ht, hs⟩ := Search.alike_rejectionFrom fuel 0 hkin hsession
  refine ⟨ha, ht, ?_, Search.rejectionFrom_eq_ok_iff id fuel 0 t s⟩
  have hs : out.2.2.unflagged = fresh.2.2.unflagged := hs
  have hflag : out.2.2.enumerating = s.enumerating :=
    congrArg Settings.enumerating (t.settings_search .rejection fuel s)
  calc out.2.2
      = { out.2.2.unflagged with enumerating := out.2.2.enumerating } := rfl
    _ = { fresh.2.2.unflagged with enumerating := s.enumerating } := by rw [hs, hflag]

end ProbTrace
