import ProbTrace.Proofs.Journal
import ProbTrace.Proofs.Reachable

/-!
# Proofs — Guards: what is set for a pass is restored after it

A session has two settings: which trace is being populated, and whether new choices start at the
front of their domain (`Session.settings`).  A pass sets the one and a search the other, each under
a guard, and the guards nest: a search sets its flag around the pass, and a program may ask for a
pass of its own in the middle of another, which is refused.

* `Under` is the invariant: the trace has its id and the session its settings.  Every answer of a
  running pass keeps it (`Pass.keeps_under`), so it holds at every moment of the run
  (`Trace.runsUnder`).
* `Trace.Proposes` is what a proposal can come to, and `Trace.RunsCopy` the one way in which it runs
  the program.
* `Search.journaled` is a search with the passes of its journal (`Search.fst_journaled`), and
  `Search.Restores` is what every step of it does.

None of this asks where the trace or the session come from (`Trace.settings_restored`).
-/

namespace ProbTrace

/-- What is only set through guards. -/
structure Settings where
  /-- The trace that is being populated. -/
  active      : Option Nat
  /-- Whether new choices start at the front of their domain. -/
  enumerating : Bool

namespace Session

/-- The settings of a session. -/
def settings (s : Session) : Settings := ⟨s.active, s.enumerating⟩

@[simp] theorem settings_report (s : Session) (e : Event) :
    (s.report e).settings = s.settings := by
  rw [report]
  split <;> rfl

end Session

/-- The trace has this id and the session these settings. -/
structure Under (id : Nat) (c : Settings) (t : Trace) (s : Session) : Prop where
  id_eq    : t.id = id
  settings : s.settings = c

variable {id : Nat} {c : Settings} {t : Trace} {s : Session}

theorem Under.report (h : Under id c t s) (e : Event) : Under id c t (s.report e) :=
  ⟨h.id_eq, (s.settings_report e).trans h.settings⟩

theorem Under.of_id_eq {u : Trace} (h : Under id c t s) (hu : u.id = t.id) : Under id c u s :=
  ⟨hu.trans h.id_eq, h.settings⟩

/-! ### A choice keeps the settings -/

namespace Trace

theorem id_refresh (t : Trace) (i : Nat) (q : Request) : (t.refresh i q).2.id = t.id := by
  rw [refresh]
  split <;> rfl

theorem id_arrive (t : Trace) (i : Nat) : (t.arrive i).2.id = t.id := by
  simp only [arrive]
  split <;> rfl

theorem id_create (t : Trace) (x : Address) (q : Request) (enumerating : Bool) :
    (t.create x q enumerating).2.id = t.id := by
  rw [create]
  split
  · rfl
  · split <;> rfl

end Trace

namespace Pass

variable {sites : CallSites}

theorem under_settle_ok (h : Under id c t s) (i : Nat) (sites : CallSites) :
    Under id c (settle i (.ok (), t) sites s).2.trace (settle i (.ok (), t) sites s).2.session :=
  h.of_id_eq (t.id_arrive i)

theorem under_settle {out : Except Error Unit × Trace} (h : Under id c out.2 s) (i : Nat)
    (sites : CallSites) :
    Under id c (settle i out sites s).2.trace (settle i out sites s).2.session := by
  obtain ⟨e | _, t⟩ := out
  · exact h
  · exact under_settle_ok h i sites

theorem under_chooseNew (h : Under id c t s) (x : Address) (q : Request) (sites : CallSites) :
    Under id c (chooseNew x q t sites s).2.trace (chooseNew x q t sites s).2.session := by
  have hc := h.of_id_eq (t.id_create x q s.enumerating)
  rw [chooseNew]
  generalize t.create x q s.enumerating = out at hc ⊢
  obtain ⟨fault | ⟨i, r⟩, u⟩ := out
  · exact hc
  · exact under_settle ((hc.report _).of_id_eq rfl) i sites

theorem under_chooseByAddress (h : Under id c t s) (x : Address) (q : Request)
    (sites : CallSites) :
    Under id c (chooseByAddress x q t sites s).2.trace
      (chooseByAddress x q t sites s).2.session := by
  rw [chooseByAddress]
  split
  · exact under_chooseNew h x q sites
  · exact under_chooseNew (h.report _) x q sites
  · rename_i i _
    have hr := h.of_id_eq (t.id_refresh i q)
    generalize t.refresh i q = out at hr ⊢
    obtain ⟨e | ⟨⟩, u⟩ := out
    · exact hr
    · have hu : Under id c (u.enlist i) s := hr.of_id_eq rfl
      exact under_settle_ok hu i sites

theorem under_chooseAt (h : Under id c t s) (site : Site) (q : Request) (sites : CallSites) :
    Under id c (chooseAt site q t sites s).2.trace (chooseAt site q t sites s).2.session := by
  rw [chooseAt]
  split
  · exact under_settle (h.of_id_eq (t.id_refresh _ q)) _ _
  · split
    · exact under_chooseByAddress (t := t.forgetRest) ((h.report _).of_id_eq rfl) _ q _
    · exact under_chooseByAddress h _ q _

theorem under_choose {p : Pass} (h : Under id c p.trace p.session) (q : Request) :
    Under id c (p.choose q).2.trace (p.choose q).2.session := by
  obtain ⟨t, sites, s⟩ := p
  rw [choose]
  split
  · exact h
  · exact under_chooseAt h _ q _

/-! ### A pass restores them -/

/-- **Every answer of a running pass keeps the settings**: a pass that the program asks for is
refused before it sets anything. -/
theorem keeps_under (id : Nat) (enumerating : Bool) :
    player.Keeps fun p => Under id ⟨some id, enumerating⟩ p.trace p.session where
  choose q h := under_choose h q
  enter {p} i h := by
    obtain ⟨_, he, -⟩ := p.enter_state i
    show Under id _ (p.enter i).2.trace (p.enter i).2.session
    rw [he]
    exact h
  leave {p p'} i h hl := by
    obtain ⟨_, -, rfl⟩ := leave_eq_ok_iff.mp hl
    exact h
  factor _ h := h.of_id_eq rfl
  condition _ h := h.of_id_eq rfl
  write _ _ h := ⟨h.id_eq, h.settings⟩
  nested {p} fixed inner h := by
    have hactive : p.session.active = some id := congrArg Settings.active h.settings
    rw [nested_eq (by rw [hactive]; rfl)]
    exact ⟨h.id_eq, h.settings⟩

end Pass

namespace Trace

theorem under_opening (t : Trace) (fixed : Bool) (s : Session) :
    Under t.id ⟨some t.id, s.enumerating⟩ (t.opening fixed s).trace
      (t.opening fixed s).session :=
  ⟨rfl, rfl⟩

theorem id_foldl {f : Trace → Nat → Trace} (hf : ∀ t i, (f t i).id = t.id) :
    ∀ (is : List Nat) (t : Trace), (is.foldl f t).id = t.id
  | [], _ => rfl
  | i :: is, t => (id_foldl hf is (f t i)).trans (hf t i)

theorem id_complete (t : Trace) (v : Value) : (t.complete v).id = t.id :=
  id_foldl (fun t i => by rw [pruneSlot]; split <;> [split <;> rfl; rfl]) _ _

theorem id_abandon (t : Trace) : t.abandon.id = t.id :=
  id_foldl (fun t i => by rw [salvageSlot]; split <;> [rfl; split <;> rfl]) _ _

theorem under_conclude {p : Pass} (h : Under id c p.trace p.session)
    (answer : Except Fault Value) :
    Under id c (conclude (answer, p)).2.1 (conclude (answer, p)).2.2 := by
  rcases answer with (e | d | _) | v
  · exact (h.of_id_eq (id_abandon _)).report _
  · exact h
  · exact h
  · exact (h.of_id_eq (id_complete _ v)).report _

/-- **An update restores the settings**, however the pass ends. -/
theorem under_update (h : Under id c t s) (fixed : Bool) :
    Under id c (t.update fixed s).2.1 (t.update fixed s).2.2 := by
  cases hs : s.active with
  | some other =>
      rw [update_of_busy (by rw [hs]; rfl)]
      exact h
  | none =>
      have hrun : Under t.id ⟨some t.id, s.enumerating⟩
          (conclude (t.program.run (t.opening fixed s))).2.1
          (conclude (t.program.run (t.opening fixed s))).2.2 := by
        rw [t.program.run_eq_play]
        exact under_conclude ((Pass.keeps_under _ _).play t.program (t.under_opening fixed s)) _
      rw [update_of_idle hs]
      refine ⟨hrun.id_eq.trans h.id_eq, ?_⟩
      have hflag := congrArg Settings.enumerating hrun.settings
      have hc : s.settings = ⟨none, s.enumerating⟩ := congrArg (Settings.mk · s.enumerating) hs
      exact (congrArg (Settings.mk none) hflag).trans (hc.symm.trans h.settings)

/-! ### Proposals -/

/-- The proposal at an address gets as far as running the program: against the copy in which the
free record of slot `i` has moved, in the session `s'`. -/
structure RunsCopy (t : Trace) (x : Address) (s : Session) (i : Nat) (m : Proposal.Move)
    (u : Trace) (s' : Session) : Prop where
  owned : t.arena.Owned i x
  moved : ∃ r generator, t.arena.record? i = some r ∧ r.conditioned = false ∧
    Proposal.move r (.ofSeed t.generator.next.1) (s.copyTrace t).2 = (.ok (m, generator), s') ∧
    u = { t.copyAs s.nextId with generator }

/-- What a proposal can come to. -/
inductive Proposes (t : Trace) (x : Address) (fixed : Bool) (s : Session) :
    Except Fault Proposal × Trace × Session → Prop where
  /-- There is no record at the address. -/
  | unknown (h : ∀ i, t.arena.Owned i x → t.arena.record? i = none) :
      Proposes t x fixed s (.error (.error (.unknownAddress x)), t, s)
  /-- The record at the address is observed. -/
  | observed {i r} (ho : t.arena.Owned i x) (hi : t.arena.record? i = some r)
      (hc : r.conditioned = true) :
      Proposes t x fixed s (.error (.error (.observed r.address)), t, s)
  /-- The kernel of the family fails. -/
  | unmoved {i r fault s'} (ho : t.arena.Owned i x) (hi : t.arena.record? i = some r)
      (hc : r.conditioned = false)
      (hm : Proposal.move r (.ofSeed t.generator.next.1) (s.copyTrace t).2 = (.error fault, s')) :
      Proposes t x fixed s (.error fault, { t with generator := t.generator.next.2 }, s')
  /-- The program runs against the copy. -/
  | ran {i m u s'} (hr : t.RunsCopy x s i m u s') :
      Proposes t x fixed s ((Proposal.rerun u i m fixed s').1,
        { t with generator := t.generator.next.2 }, (Proposal.rerun u i m fixed s').2)

theorem proposes (t : Trace) (x : Address) (fixed : Bool) (s : Session) :
    t.Proposes x fixed s (t.propose x fixed s) := by
  rw [propose]
  split
  · rename_i ho
    exact .unknown fun i hi => by cases ho.symm.trans hi
  rename_i i ho
  split
  · rename_i hi
    refine .unknown fun j hj => ?_
    rw [← Arena.Owned.unique ho hj]
    exact hi
  rename_i r hi
  split
  · rename_i hc
    exact .observed ho hi hc
  rename_i hc
  have hfree : r.conditioned = false := by simpa using hc
  simp only
  split
  · rename_i hm
    exact .unmoved ho hi hfree hm
  · rename_i hm
    exact .ran ⟨ho, r, _, hi, hfree, hm, rfl⟩

theorem settings_move (r : Record) (g : Generator) (s : Session) :
    (Proposal.move r g s).2.settings = s.settings := by
  rw [Proposal.move]
  split
  · rfl
  split
  · rfl
  · rfl
  simp only
  split
  · exact s.settings_report _
  · exact s.settings_report _

theorem settings_rerun (t : Trace) (i : Nat) (m : Proposal.Move) (fixed : Bool) (s : Session) :
    (Proposal.rerun t i m fixed s).2.settings = s.settings := by
  have hu := (under_update (t := t.rewrite i m.record) (s := s) ⟨rfl, rfl⟩ fixed).settings
  rw [Proposal.rerun]
  split
  · rename_i hrun
    exact (congrArg (·.2.2.settings) hrun).symm.trans hu
  · rename_i hrun
    exact (congrArg (·.2.2.settings) hrun).symm.trans hu

/-- The copy has the next id, and the program runs against it under the settings that were found. -/
theorem RunsCopy.under {x : Address} {i : Nat} {m : Proposal.Move} {u : Trace} {s' : Session}
    (h : t.RunsCopy x s i m u s') : Under s.nextId s.settings (u.rewrite i m.record) s' := by
  obtain ⟨r, generator, -, -, hm, rfl⟩ := h.moved
  have hs : _ = s' := congrArg Prod.snd hm
  rw [← hs]
  exact ⟨rfl, settings_move _ _ _⟩

/-- **A proposal restores the settings**, whatever it comes to. -/
theorem settings_propose (t : Trace) (x : Address) (fixed : Bool) (s : Session) :
    (t.propose x fixed s).2.2.settings = s.settings := by
  have h := t.proposes x fixed s
  generalize t.propose x fixed s = out at h ⊢
  cases h with
  | unknown | observed => rfl
  | unmoved ho hi hc hm => exact (congrArg (·.2.settings) hm).symm.trans (settings_move _ _ _)
  | ran hr => exact (settings_rerun _ _ _ _ _).trans hr.under.settings

end Trace

namespace Search

/-- The pass is of a kind that the search may begin, and begins with the flag set for its kind. -/
def Begun.Guarded (id : Nat) (c : Settings) (kind : Bool → Prop) (b : Begun) : Prop :=
  kind b.enumerates ∧ Under id ⟨c.active, b.enumerates⟩ b.trace b.session

/-- The step ends under the settings that it began under, and so does each pass that it begins, but
for the flag. -/
structure Restores {α : Type} (id : Nat) (c : Settings) (kind : Bool → Prop)
    (out : Journaled α) : Prop where
  under : Under id c out.1.2.1 out.1.2.2
  begun : ∀ b ∈ passesOf out.2, b.Guarded id c kind

namespace Restores

variable {α β : Type} {kind : Bool → Prop}

theorem still {out : SearchStep α} (h : Under id c out.2.1 out.2.2) :
    Restores id c kind (Journaled.still out) :=
  ⟨h, nofun⟩

theorem pass {cause : Cause} (hk : kind (cause == .enumerating))
    (hc : c.enumerating = (cause == .enumerating)) (h : Under id c t s) :
    Restores id c kind (Journaled.pass cause t s) where
  under := by
    have hu := Trace.under_update h false
    show Under id c (Search.pass t s).2.1 (Search.pass t s).2.2
    rw [Search.pass]
    generalize t.update false s = out at hu ⊢
    obtain ⟨fault | v, u, s'⟩ := out <;> exact hu
  begun b hb := by
    obtain rfl := List.mem_singleton.mp hb
    refine ⟨hk, ?_⟩
    show Under id ⟨c.active, cause == .enumerating⟩ t s
    rw [← hc]
    exact h

/-- What was begun before is in the journal as well. -/
theorem after {entries : List Entry} {step : Journaled α}
    (he : ∀ b ∈ passesOf entries, b.Guarded id c kind) (h : Restores id c kind step) : Restores id c kind (step.after entries) where
  under := h.under
  begun b hb := by
    rw [Journaled.snd_after, passesOf_append] at hb
    rcases List.mem_append.mp hb with hb | hb
    · exact he b hb
    · exact h.begun b hb

theorem andThen {first : Journaled α} {next : α → Trace → Session → Journaled β}
    (h : Restores id c kind first)
    (hnext : ∀ {a u s'}, Under id c u s' → Restores id c kind (next a u s')) :
    Restores id c kind (first.andThen next) := by
  obtain ⟨⟨fault | a, u, s'⟩, entries⟩ := first
  · exact ⟨h.under, h.begun⟩
  · exact after h.begun (hnext h.under)

/-- The flag is set for the step, and restored after it. -/
theorem guarded {on : Bool} {step : Trace → Session → Journaled α} (h : Under id c t s)
    (hstep : ∀ {s'}, Under id ⟨c.active, on⟩ t s' →
      Restores id ⟨c.active, on⟩ kind (step t s')) :
    Restores id c kind (Journaled.guarded on step t s) := by
  have hactive : s.active = c.active := congrArg Settings.active h.settings
  have hflag : s.enumerating = c.enumerating := congrArg Settings.enumerating h.settings
  have hset : Under id ⟨c.active, on⟩ t (s.setEnumerating on).2 :=
    ⟨h.id_eq, congrArg (Settings.mk · on) hactive⟩
  have hs := hstep hset
  refine ⟨⟨hs.under.id_eq, ?_⟩, hs.begun⟩
  have hkept : (step t (s.setEnumerating on).2).1.2.2.active = c.active :=
    congrArg Settings.active hs.under.settings
  show Settings.mk _ s.enumerating = c
  rw [hflag]
  exact congrArg (Settings.mk · c.enumerating) hkept

theorem freshPass {cause : Cause} (hc : (cause == .enumerating) = false) (hk : kind false)
    (h : Under id c t s) : Restores id c kind (Journaled.freshPass cause t s) :=
  guarded h fun h => pass (hc ▸ hk) hc.symm (h.of_id_eq rfl)

theorem enumerationStep (hk : kind true) (h : Under id c t s) :
    Restores id c kind (Journaled.enumerationStep t s) := by
  refine guarded h fun {s'} h => ?_
  have ha : t.advance.2.id = t.id := Trace.advance_keeps (I := (·.id = t.id)) (fun h _ _ => h) rfl
  generalize t.advance = out at ha ⊢
  obtain ⟨fault | _ | _, u⟩ := out
  · exact still (h.of_id_eq ha)
  · exact pass hk rfl (h.of_id_eq (u := u.reset) ha)
  · exact pass hk rfl (h.of_id_eq ha)

theorem containedStep (hf : kind false) (ht : kind true) (h : Under id c t s) :
    Restores id c kind (Journaled.containedStep t s) := by
  have he := enumerationStep ht h
  rw [Journaled.containedStep]
  generalize Journaled.enumerationStep t s = out at he ⊢
  split
  · exact after he.begun (freshPass rfl hf (he.under.report _))
  · exact he

theorem hybridStep (hf : kind false) (ht : kind true) (h : Under id c t s) (m : Schedule) :
    Restores id c kind (Journaled.hybridStep m t s) := by
  refine after nofun ?_
  split
  · exact freshPass rfl hf h
  · exact containedStep hf ht h

theorem rejectionFrom (hf : kind false) : ∀ (fuel passes : Nat) {t : Trace} {s : Session},
    Under id c t s → Restores id c kind (Journaled.rejectionFrom fuel passes t s)
  | 0, _, _, _, h => still h
  | fuel + 1, passes, t, s, h => by
      rw [Journaled.rejectionFrom]
      split
      · exact still h
      refine (freshPass rfl hf h).andThen fun h => ?_
      split
      · exact still (h.report _)
      · exact rejectionFrom hf fuel (passes + 1) h

theorem under_onward (h : Under id c t s) (worlds : Nat) :
    Under id c (onward worlds t s).2.1 (onward worlds t s).2.2 := by
  have ha : t.advance.2.id = t.id := Trace.advance_keeps (I := (·.id = t.id)) (fun h _ _ => h) rfl
  rw [onward]
  generalize t.advance = out at ha ⊢
  obtain ⟨fault | _ | _, u⟩ := out
  · exact h.of_id_eq ha
  · simp only
    split
    · exact (h.of_id_eq (u := u.reset) ha).report _
    · exact h.of_id_eq ha
  · exact h.of_id_eq ha

theorem enumerationFrom (ht : kind true) (hc : c.enumerating = true) :
    ∀ (fuel passes worlds : Nat) {t : Trace} {s : Session}, Under id c t s →
      Restores id c kind (Journaled.enumerationFrom fuel passes worlds t s)
  | 0, _, _, _, _, h => still h
  | fuel + 1, passes, worlds, t, s, h => by
      have ho := under_onward h worlds
      rw [Journaled.enumerationFrom]
      split
      · exact still (h.report _)
      split
      · exact still h
      generalize onward worlds t s = out at ho ⊢
      obtain ⟨fault | way, u, s'⟩ := out
      · exact still ho
      cases way with
      | ended => exact still (ho.report _)
      | advanced | restarted =>
          exact (pass ht hc ho).andThen fun h =>
            enumerationFrom ht hc fuel (passes + 1) _ h

theorem hybridFrom (hf : kind false) (ht : kind true) :
    ∀ (fuel passes : Nat) (m : Schedule) {t : Trace} {s : Session}, Under id c t s →
      Restores id c kind (Journaled.hybridFrom fuel passes m t s)
  | 0, _, _, _, _, h => still h
  | fuel + 1, passes, m, t, s, h => by
      rw [Journaled.hybridFrom]
      split
      · exact still (h.report _)
      split
      · exact still h
      · exact (hybridStep hf ht h m).andThen fun h => hybridFrom hf ht fuel (passes + 1) m.next h

theorem beginning {first : Trace → Session → Journaled Unit}
    {rest : Trace → Session → Journaled SearchEnd} (h : Under id c t s)
    (hfirst : Restores id c kind (first t s))
    (hrest : ∀ {u s'}, Under id c u s' → Restores id c kind (rest u s')) :
    Restores id c kind (Journaled.beginning first rest t s) := by
  rw [Journaled.beginning]
  split
  · exact still h
  · exact hfirst.andThen hrest

end Restores

end Search

/-- The kinds of passes that a search begins: enumerating ones, and others. -/
def Strategy.Begins : Strategy → Bool → Prop
  | .rejection,   enumerates => enumerates = false
  | .enumeration, enumerates => enumerates = true
  | .hybrid,      _          => True

/-- **A search restores the settings**, however it ends, and sets the flag for its passes. -/
theorem Search.restores (t : Trace) (strategy : Strategy) (fuel : Nat) (s : Session) :
    Restores t.id s.settings strategy.Begins (Journaled.search t strategy fuel s) := by
  have h : Under t.id s.settings t s := ⟨rfl, rfl⟩
  cases strategy with
  | rejection =>
      have hf : Strategy.rejection.Begins false := rfl
      exact .rejectionFrom hf fuel 0 h
  | enumeration =>
      have ht : Strategy.enumeration.Begins true := rfl
      exact .guarded h fun h => .beginning h (.pass ht rfl h) (.enumerationFrom ht rfl fuel 1 1)
  | hybrid =>
      exact .beginning h (.freshPass rfl trivial h) (.hybridFrom trivial trivial fuel 1 {})

theorem Trace.settings_search (t : Trace) (strategy : Strategy) (fuel : Nat) (s : Session) :
    (t.search strategy fuel s).2.2.settings = s.settings := by
  rw [← Search.Journaled.fst_search]
  exact (Search.restores t strategy fuel s).under.settings

end ProbTrace
