import ProbTrace.Program.Draws
import ProbTrace.Proofs.Enduring
import ProbTrace.Proofs.Scoping

/-!
# Proofs — Picking: one of the items

`Computation.pick` draws an index and takes the item that has it.  The index may be a stored one: a
plain categorical record at the address of the draw serves it, whatever the number of outcomes was
when the record was made, and keeps its value.  So the draw falls outside its items exactly if such
a record holds an index that none of the items has (`Trace.WellFormed.picks`), and a proposal may
move a trace to a world in which that happens (`outside_shrinking`).

An index that is stored was drawn, moved or turned below a number of outcomes, or was observed,
unless it was set.  So let every plain categorical choice that the program makes at an address have
at most `size` outcomes there (`Program.Spans`): then in a history that sets no value
(`Trace.Unforced`) every index stored at the address is below that number
(`Trace.Unforced.within`), and a draw of as many items never falls outside.
-/

namespace ProbTrace

/-! ### How a draw of an item ends -/

namespace Computation

variable {α σ : Type} {H : Player σ} {a b : σ} {items : List α} {masses : List Float}

/-- However the whole goes on, the run comes from the part to the rest of the program with this
answer. -/
def Ends (H : Player σ) (c : Computation α) (a : σ) (answer : Except Error α) : Prop :=
  ∃ b, ∀ k, H.Steps (c k) a (k answer) b

/-- However the whole goes on, a sampler breaks the run off. -/
def BreaksOff (H : Player σ) (c : Computation α) (a : σ) : Prop :=
  ∃ fault b, fault.OfDraw ∧ ∀ k, (c k).play H a = (.error fault, b)

/-- What is said of an index that no item has. -/
def outside : Error := .failure "categorical draw fell outside its items"

/-- The item of an index. -/
def itemAt (items : List α) (n : UInt64) : Except Error α :=
  match items[n.toNat]? with
  | some item => .ok item
  | none      => .error outside

theorem itemAt_of_lt {n : UInt64} (h : n.toNat < items.length) :
    itemAt items n = .ok items[n.toNat] := by
  rw [itemAt, List.getElem?_eq_getElem h]

theorem itemAt_eq_outside_iff {n : UInt64} :
    itemAt items n = .error outside ↔ items.length ≤ n.toNat := by
  rw [itemAt]
  cases h : items[n.toNat]? with
  | none => exact iff_of_true rfl (List.getElem?_eq_none_iff.mp h)
  | some item =>
      obtain ⟨hlt, -⟩ := List.getElem?_eq_some_iff.mp h
      exact iff_of_false (fun he => by cases he) (Nat.not_le_of_lt hlt)

/-- What a draw of an item asks for. -/
def picked (masses : List Float) : Request := { family := .categorical, params := masses }

/-- The draw of an item makes one choice, and looks for the item that has the index. -/
theorem pick_eq (h : items.length = masses.length) (k : Except Error α → Program) :
    pick items masses k = .choose (picked masses) fun
      | .error e => k (.error e)
      | .ok v    =>
        match Family.intOf .categorical v with
        | .error e => k (.error e)
        | .ok n    => k (itemAt items n) := by
  have hne : (items.length != masses.length) = false := by simp [h]
  simp only [pick, hne, Bool.false_eq_true, ↓reduceIte]
  refine congrArg (Program.choose _) (funext fun answer => ?_)
  cases answer with
  | error e => rfl
  | ok v =>
      show (ofExcept (Family.intOf .categorical v)) _ = _
      simp only
      cases Family.intOf .categorical v with
      | error e => rfl
      | ok n =>
          show (match items[n.toNat]? with
            | some item => pure item
            | none      => throw outside : Computation α) k = k (itemAt items n)
          rw [itemAt]
          cases items[n.toNat]? <;> rfl

/-- The draw of an item as a whole program. -/
theorem program_pick {items : List Value} (h : items.length = masses.length) :
    (pick items masses).program = .choose (picked masses) fun answer =>
      .ofAnswer (answer >>= fun v => Family.intOf .categorical v >>= itemAt items) := by
  rw [program_eq, pick_eq h]
  refine congrArg (Program.choose _) (funext fun answer => ?_)
  cases answer with
  | error e => rfl
  | ok v =>
      show _ = Program.ofAnswer (Family.intOf .categorical v >>= itemAt items)
      simp only
      cases Family.intOf .categorical v <;> rfl

/-- An index is chosen. -/
theorem ends_of_index (h : items.length = masses.length) {n : UInt64}
    (hc : H.choose (picked masses) a = (.ok (.int n), b)) :
    (pick items masses).Ends H a (itemAt items n) := by
  refine ⟨b, fun k => ?_⟩
  have hc : H.choose (picked masses) a = (Fault.lift (.ok (.int n)), b) := hc
  rw [pick_eq h]
  exact .more (.choose hc) .refl

/-- The choice fails with an error. -/
theorem ends_of_error (h : items.length = masses.length) {e : Error}
    (hc : H.choose (picked masses) a = (.error (.error e), b)) :
    (pick items masses).Ends H a (.error e) := by
  refine ⟨b, fun k => ?_⟩
  have hc : H.choose (picked masses) a = (Fault.lift (.error e), b) := hc
  rw [pick_eq h]
  exact .more (.choose hc) .refl

/-- A sampler breaks the choice off. -/
theorem breaksOff_of_fault (h : items.length = masses.length) {fault : Fault}
    (hf : fault.OfDraw) (hc : H.choose (picked masses) a = (.error fault, b)) :
    (pick items masses).BreaksOff H a := by
  refine ⟨fault, b, hf, fun k => ?_⟩
  rw [pick_eq h, Program.play, hc]
  rcases fault with e | d | _
  · exact hf.elim
  · rfl
  · rfl

end Computation

/-! ### The choice of an index -/

/-- A record that serves a free choice which can score its value keeps the value. -/
theorem Record.exists_refreshed_of_free {r : Record} {q : Request} (ho : q.observed = none)
    {lp : Float} (h : r.family.logDensity r.value q.params = .ok lp) :
    ∃ s, r.refreshed q = (.ok (), s) ∧ s.value = r.value := by
  rw [refreshed, paramsFor, valueFor, ho]
  by_cases hs : sameParams r.params q.params = true
  · simp [hs]
  · simp [hs, h]

/-- What a free categorical choice comes by is an index of one of its outcomes. -/
theorem Request.Gives.exists_index {q : Request} {v : Value} (h : q.Gives v)
    (hf : q.family = .categorical) (ho : q.observed = none) :
    ∃ n, v = .int n ∧ n.toNat < q.params.length := by
  have hlt := h.position_lt hf ho
  have hkind : Family.categorical.checkValue v = .ok () := by
    rw [← hf]
    rcases h with h | ⟨-, hd, h⟩
    · exact Request.checkValue_of_free ho h
    · exact Domain.family_of_support hd ▸ Domain.checkValue_next h
  cases v with
  | int n => exact ⟨n, rfl, hlt⟩
  | bool | float | vec => cases hkind

namespace Trace

variable {t : Trace} {x : Address} {q : Request} {b : Bool} {v : Value}

/-- A free choice that can score the value held at its address gets it. -/
theorem serve_of_held (hx : t.held x = some ⟨q.family, q.structural, v⟩) (ho : q.observed = none)
    {lp : Float} (hv : q.family.logDensity v q.params = .ok lp) :
    (t.serve x q b).1 = .ok v := by
  obtain ⟨r, hr, hheld⟩ := Option.map_eq_some_iff.mp hx
  obtain ⟨i, hi, hri⟩ := Option.bind_eq_some_iff.mp hr
  obtain ⟨hfam, hstr, rfl⟩ := Holding.mk.inj hheld
  have hs : t.serving? x q = some (i, r) :=
    serving?_eq_some_iff.mpr ⟨hi, hri, Record.fits_iff.mpr ⟨hfam, hstr⟩⟩
  obtain ⟨s, href, hval⟩ := r.exists_refreshed_of_free ho (hfam ▸ hv)
  rw [serve, hs]
  simp only [href]
  exact congrArg Except.ok hval

/-- Where no record serves a choice that is accepted, it gets a value that it comes by, unless a
sampler breaks it off. -/
theorem serve_of_not_held (hx : ∀ w, t.held x ≠ some ⟨q.family, q.structural, w⟩)
    (hq : q.Accepted) :
    (∃ v, (t.serve x q b).1 = .ok v ∧ q.Gives v) ∨
      ∃ fault, fault.OfDraw ∧ (t.serve x q b).1 = .error fault := by
  have hs : t.serving? x q = none := by
    refine Option.eq_none_iff_forall_ne_some.mpr fun ⟨i, r⟩ hs => ?_
    obtain ⟨hi, hri, hfit⟩ := serving?_eq_some_iff.mp hs
    obtain ⟨hfam, hstr⟩ := Record.fits_iff.mp hfit
    refine hx r.value ?_
    rw [held, holdingIn, record?, Arena.lookup?, hi, Option.bind_some, hri, ← hfam, ← hstr]
    rfl
  rw [serve, hs]
  simp only [serveNew]
  cases hnew : newValue q b t.generator with
  | error fault =>
      rcases usual_newValue q b t.generator fault hnew with ⟨e, rfl⟩ | hf
      · exact absurd hnew (hq.newValue_ne_error b e)
      · exact .inr ⟨fault, hf, rfl⟩
  | ok out =>
      obtain ⟨v, g⟩ := out
      have hkind : q.family.checkValue v = .ok () := by
        cases ho : q.observed with
        | none => exact Request.checkValue_of_free ho hnew
        | some u => exact Request.eq_of_newValue ho hnew ▸ hq.value u ho
      obtain ⟨lp, hlp⟩ := Family.exists_logDensity q.params hkind hq.params
      refine .inl ⟨v, ?_, .new hnew⟩
      simp only [hlp]

end Trace

/-- A choice within the budget is answered as serving it by its address is. -/
theorem Pass.fst_choose {p : Pass} (h : p.trace.Layout p.sites) (hb : p.spent = false)
    (q : Request) : (p.choose q).1 =
      (p.trace.forgetRest.serve p.sites.claim.1.address q p.session.enumerating).1 := by
  rw [(choose_eq_serve h q).1, serve_of_not_spent ((spent_plain p).trans hb)]
  rfl

namespace Computation

variable {α : Type} {p : Pass} {items : List α} {masses : List Float}

/-- One of the items is drawn, unless a sampler breaks the draw off. -/
def Draws (c : Computation α) (p : Pass) (items : List α) : Prop :=
  (∃ item ∈ items, c.Ends Pass.player p (.ok item)) ∨ c.BreaksOff Pass.player p

/-- A draw keeps the index held at its address, and takes the item that has it, if one has. -/
theorem pick_of_held (h : p.trace.Layout p.sites) (hb : p.spent = false)
    (hlen : items.length = masses.length) (hacc : Family.categorical.check masses = .ok ())
    {n : UInt64} (hx : p.trace.held p.sites.claim.1.address = some ⟨.categorical, false, .int n⟩) :
    (pick items masses).Ends Pass.player p (itemAt items n) := by
  have hkind : Family.categorical.checkValue (.int n) = .ok () := rfl
  obtain ⟨lp, hlp⟩ := Family.exists_logDensity masses hkind hacc
  have hserve := Trace.serve_of_held (t := p.trace.forgetRest) (q := picked masses)
    (b := p.session.enumerating) hx rfl hlp
  exact ends_of_index hlen (Prod.ext ((Pass.fst_choose h hb _).trans hserve) rfl)

/-- Where no plain categorical record is stored at its address, a draw takes one of the items. -/
theorem pick_of_not_held (h : p.trace.Layout p.sites) (hb : p.spent = false)
    (hlen : items.length = masses.length) (hacc : Family.categorical.check masses = .ok ())
    (hx : ∀ v, p.trace.held p.sites.claim.1.address ≠ some ⟨.categorical, false, v⟩) :
    (pick items masses).Draws p items := by
  have hq : (picked masses).Accepted := ⟨hacc, fun v ho => by cases ho⟩
  have hfst := Pass.fst_choose h hb (picked masses)
  rcases Trace.serve_of_not_held (t := p.trace.forgetRest) (q := picked masses)
    (b := p.session.enumerating) hx hq with ⟨v, hv, hgives⟩ | ⟨fault, hf, hv⟩
  · obtain ⟨n, rfl, hlt⟩ := hgives.exists_index rfl rfl
    have hlt : n.toNat < items.length := hlen ▸ hlt
    refine .inl ⟨items[n.toNat], List.getElem_mem hlt, ?_⟩
    rw [← itemAt_of_lt hlt]
    exact ends_of_index hlen (Prod.ext (hfst.trans hv) rfl)
  · exact .inr (breaksOff_of_fault hlen hf (Prod.ext (hfst.trans hv) rfl))

end Computation

/-! ### Indices that stay in bounds -/

/-- A plain categorical choice has at most `n` outcomes, and observes the index of one of so
many. -/
def Request.Within (q : Request) (n : Nat) : Prop :=
  q.family = .categorical → q.structural = false →
    q.params.length ≤ n ∧ ∀ v, q.observed = some v → ∃ i, v = .int i ∧ i.toNat < n

/-- A plain categorical record has at most `n` outcomes, and holds the index of one of so many. -/
def Record.Within (r : Record) (n : Nat) : Prop :=
  r.family = .categorical → r.structural = false →
    r.params.length ≤ n ∧ ∃ i, r.value = .int i ∧ i.toNat < n

namespace Record.Within

variable {r s : Record} {q : Request} {n : Nat} {v : Value}

/-- Refreshing keeps a record in bounds, whether or not it can be rescored. -/
theorem refreshed (h : r.Within n) (hfit : r.fits q.family q.structural = true)
    (hq : q.Within n) : (r.refreshed q).2.Within n := by
  obtain ⟨hfam, hstr⟩ := Record.fits_iff.mp hfit
  intro hf hs
  rw [(r.refreshes q).family] at hf
  rw [structural_refreshed] at hs
  obtain ⟨hlen, hobs⟩ := hq (hfam ▸ hf) (hstr ▸ hs)
  obtain ⟨-, hval⟩ := h hf hs
  have hp : LikeParams (r.refreshed q).2.params q.params := r.params_refreshed q
  refine ⟨hp.forall₂.length_eq ▸ hlen, ?_⟩
  rw [value_refreshed_eq, Holding.valueFor]
  cases ho : q.observed with
  | none => exact hval
  | some v =>
      simp only
      split
      · exact hval
      · exact hobs v ho

/-- A new record is in bounds. -/
theorem ofRequest {b : Bool} {g g' : Generator} {x : Address} {lp : Float} (hq : q.Within n)
    (hv : Trace.newValue q b g = .ok (v, g')) : (Record.ofRequest x q v lp).Within n := by
  intro hf hs
  obtain ⟨hlen, hobs⟩ := hq hf hs
  refine ⟨hlen, ?_⟩
  cases ho : q.observed with
  | some u => exact hobs v (Request.eq_of_newValue ho hv ▸ ho)
  | none =>
      obtain ⟨i, rfl, hi⟩ := Request.Gives.exists_index (.new hv) hf ho
      exact ⟨i, rfl, Nat.lt_of_lt_of_le hi hlen⟩

/-- A record that is rescored at a value that a free choice like it comes by stays in bounds. -/
theorem rescored (h : r.Within n) (hr : r.rescored v = .ok s)
    (hv : Request.Gives { family := r.family, params := r.params } v) : s.Within n := by
  obtain ⟨lp, -, rfl⟩ := Record.rescored_eq_ok_iff.mp hr
  intro hf hs
  obtain ⟨hlen, -⟩ := h hf hs
  obtain ⟨i, rfl, hi⟩ := hv.exists_index hf rfl
  exact ⟨hlen, i, rfl, Nat.lt_of_lt_of_le hi hlen⟩

end Record.Within

/-- Every stored record is in the bounds of its address. -/
def Arena.Within (a : Arena) (size : Address → Nat) : Prop :=
  ∀ i r, a.record? i = some r → r.Within (size r.address)

theorem Arena.Within.empty (size : Address → Nat) : Arena.Within {} size := by
  intro i r hr
  simp [Arena.record?] at hr

/-- An index held at an address is in its bounds. -/
theorem Arena.Within.of_held {size : Address → Nat} {t : Trace} {c : CallSites} {x : Address}
    {v : Value} (h : t.arena.Within size) (hl : t.Layout c)
    (hx : t.held x = some ⟨.categorical, false, v⟩) : ∃ n, v = .int n ∧ n.toNat < size x := by
  obtain ⟨r, hr, hheld⟩ := Option.map_eq_some_iff.mp hx
  obtain ⟨i, hi, hri⟩ := Option.bind_eq_some_iff.mp hr
  obtain ⟨hfam, hstr, rfl⟩ := Holding.mk.inj hheld
  obtain ⟨r', hr', rfl⟩ := hl.arena.bears hi
  cases hri.symm.trans hr'
  exact (h i r hri hfam hstr).2

variable {size : Address → Nat} {t : Trace} {fixed : Bool} {s : Session} {program : Program}
  {p : Pass}

theorem Arena.Within.put {a : Arena} {i : Nat} {r : Record} (h : a.Within size)
    (hr : r.Within (size r.address)) : (a.put i r).Within size := by
  intro j s hj
  obtain ⟨rfl, rfl⟩ | ⟨-, hj⟩ := Arena.record?_put_cases hj
  · exact hr
  · exact h j s hj

/-- **A choice in the bounds of its address keeps the records in bounds.** -/
theorem Arena.Within.serve {x : Address} {q : Request} {b : Bool} (h : t.arena.Within size)
    (ha : t.arena.Sound) (hq : q.Within (size x)) : (t.serve x q b).2.arena.Within size := by
  rw [Trace.serve]
  cases hs : t.serving? x q with
  | none =>
      simp only [Trace.serveNew]
      cases hnew : Trace.newValue q b t.generator with
      | error fault => exact h
      | ok out =>
          obtain ⟨v, g⟩ := out
          simp only
          cases q.family.logDensity v q.params with
          | error e => exact h
          | ok lp =>
              intro j r hj
              obtain ⟨rfl, rfl⟩ | ⟨-, hj⟩ := ha.record?_insert_cases hj
              · exact .ofRequest hq hnew
              · exact h j r hj
  | some w =>
      obtain ⟨i, r⟩ := w
      obtain ⟨hi, hr, hfit⟩ := Trace.serving?_eq_some_iff.mp hs
      obtain ⟨r', hr', hx⟩ := ha.bears hi
      cases hr.symm.trans hr'
      have hw : (r.refreshed q).2.Within (size (r.refreshed q).2.address) := by
        rw [r.address_refreshed, hx]
        exact (hx ▸ h i r hr).refreshed hfit hq
      simp only
      rcases href : r.refreshed q with ⟨e | ⟨⟩, r'⟩
      · rw [href] at hw
        exact h.put hw
      · rw [href] at hw
        exact h.put hw

/-! ### One pass -/

theorem Pass.leave_ne_error (id : String) (p : Pass) (e : Error) :
    player.leave id p ≠ .error (.error e) := by
  simp only [player]
  intro h
  split at h <;> cases h

theorem Pass.within_choose {q : Request} (h : p.trace.arena.Within size) (hr : p.Running)
    (hq : q.Within (size p.sites.claim.1.address)) :
    (p.choose q).2.trace.arena.Within size := by
  show (p.choose q).2.plain.trace.arena.Within size
  rw [(choose_eq_serve hr.layout q).2.1]
  cases hb : p.plain.spent with
  | true =>
      rw [serve_of_spent hb]
      exact h
  | false =>
      rw [serve_of_not_spent hb]
      exact Arena.Within.serve (t := p.trace.forgetRest) h hr.layout.arena hq

/-- Every step of a pass keeps the records in bounds if a choice that it makes is. -/
theorem Pass.within_step {program' : Program} {p' : Pass}
    (hs : player.Step program p program' p') (hr : p.Running)
    (hq : ∀ q next, program = .choose q next → q.Within (size p.sites.claim.1.address))
    (h : p.trace.arena.Within size) : p'.trace.arena.Within size := by
  cases hs with
  | @choose q next _ _ _ hc =>
      have hw := within_choose h hr (hq q next rfl)
      rw [show p.choose q = _ from hc] at hw
      exact hw
  | @enter id =>
      obtain ⟨_, he, -⟩ := p.enter_state id
      show (p.enter id).2.trace.arena.Within size
      rwa [he]
  | leave hl =>
      obtain ⟨_, -, rfl⟩ := leave_eq_ok_iff.mp hl
      exact h
  | factor => exact h
  | condition => exact h
  | isActive => exact h
  | depth => exact h
  | isEnumerating => exact h
  | read => exact h
  | write => exact h
  | nested hn =>
      rw [nested_eq hr.active] at hn
      cases congrArg Prod.snd hn
      exact h

namespace Trace

/-- In a pass over the trace every plain categorical choice is in the bounds of its address. -/
def PassesWithin (t : Trace) (size : Address → Nat) : Prop :=
  ∀ fixed s q next p, Pass.player.Steps t.program (t.opening fixed s) (.choose q next) p →
    q.Within (size p.sites.claim.1.address)

/-- **A pass keeps the records in bounds**, at every moment. -/
theorem PassesWithin.steps (hq : t.PassesWithin size) (hw : t.WellFormed)
    (h : t.arena.Within size) (hs : Pass.player.Steps t.program (t.opening fixed s) program p) :
    p.trace.arena.Within size := by
  have hopen : (t.opening fixed s).trace.arena.Within size := fun i r hr => by
    obtain ⟨r₀, hr₀, rfl⟩ := Arena.record?_deactivate_eq_some_iff.mp hr
    exact h i r₀ hr₀
  refine (hs.keeps (J := fun program p => Pass.player.Steps t.program (t.opening fixed s) program p
    ∧ p.Running ∧ p.trace.arena.Within size) ?_ ⟨.refl, running_opening hw fixed s, hopen⟩).2.2
  rintro program p program' p' hstep ⟨hsteps, hr, hp⟩
  refine ⟨hsteps.trans (.more hstep .refl), Pass.keeps_running.step hstep hr, ?_⟩
  refine Pass.within_step hstep hr ?_ hp
  rintro q next rfl
  exact hq fixed s q next p hsteps

/-- Closing a trace keeps its records in bounds. -/
theorem within_close {c : CallSites} (hl : t.Layout c) (h : t.arena.Within size)
    (answer : Except Error Value) : (t.close answer).arena.Within size := by
  intro i r hr
  cases answer with
  | ok v => exact h i r ((record?_complete_eq_some_iff hl v).mp hr).1
  | error e =>
      obtain ⟨r₀, hr₀, -, rfl⟩ := (record?_abandon_eq_some_iff hl.arena).mp hr
      exact h i r₀ hr₀

/-- A pass that ends comes to where its program has ended, and closes the trace there. -/
theorem exists_ending (hs : s.active = none) (ha : Ended (t.update fixed s).1) : ∃ answer p,
    Pass.player.Steps t.program (t.opening fixed s) (.ofAnswer answer) p ∧
      (t.update fixed s).2.1 = p.trace.close answer := by
  obtain ⟨answer, ha⟩ := ha
  rw [update_of_idle hs] at ha ⊢
  rcases hrun : t.program.run (t.opening fixed s) with ⟨out, p⟩
  rw [hrun, fst_conclude] at ha
  obtain rfl : out = Fault.lift answer := ha
  rw [Program.run_eq_play] at hrun
  have hsteps := Player.play_steps Pass.leave_ne_error t.program (congrArg Prod.fst hrun)
  rw [hrun] at hsteps
  exact ⟨answer, p, hsteps, conclude_lift answer p⟩

/-- **A pass that ends leaves records in bounds.** -/
theorem PassesWithin.update (hq : t.PassesWithin size) (hw : t.WellFormed)
    (h : t.arena.Within size) (ha : Ended (t.update fixed s).1) :
    (t.update fixed s).2.1.arena.Within size := by
  cases hs : s.active with
  | some id =>
      rw [update_of_busy (by rw [hs]; rfl)]
      exact h
  | none =>
      obtain ⟨answer, p, hsteps, hclose⟩ := exists_ending hs ha
      rw [hclose]
      have hrunning := Pass.keeps_running.steps hsteps (running_opening hw fixed s)
      exact within_close hrunning.layout (hq.steps hw h hsteps) answer

/-! ### Histories that set no value -/

/-- Some history that sets no value leads to the trace.  Of a proposal it knows the parts: the copy
with a generator of its own, the move of one record, and the pass. -/
inductive Unforced : Trace → Prop where
  | unstarted (id : Nat) (program : Program) (limits : Limits) (generator : Generator) :
      Unforced (.unstarted id program limits generator)
  | update {t : Trace} (fixed : Bool) (s : Session) (h : Unforced t)
      (ha : Ended (t.update fixed s).1) : Unforced (t.update fixed s).2.1
  | reset {t : Trace} (h : Unforced t) : Unforced t.reset
  | copyAs {t : Trace} (id : Nat) (h : Unforced t) : Unforced (t.copyAs id)
  | reseed {t : Trace} (generator : Generator) (h : Unforced t) : Unforced { t with generator }
  | move {t : Trace} {i : Nat} {r : Record} {g : Generator} {m : Proposal.Move} (h : Unforced t)
      (hi : t.arena.record? i = some r) (hm : r.MovesBy g m) : Unforced (t.rewrite i m.record)
  | advance {t : Trace} (h : Unforced t) : Unforced t.advance.2
  | addFactor {t : Trace} (w : Float) (h : Unforced t) : Unforced (t.addFactor w)
  | demand {t : Trace} (b : Bool) (h : Unforced t) : Unforced (t.demand b)

namespace Unforced

theorem candidate {x : Address} {proposal : Proposal} (h : t.Unforced)
    (hc : (t.propose x fixed s).1 = .ok proposal) : proposal.trace.Unforced := by
  obtain ⟨i, r, m, id, generator, s', w, -, hi, -, hm, ha, hu, -⟩ := propose_eq_ok hc
  rw [hu]
  have hmoved := ((h.copyAs id).reseed generator).move (i := i) hi hm
  exact hmoved.update fixed s' (ha ▸ ended_ok w)

theorem source (h : t.Unforced) (x : Address) (fixed : Bool) (s : Session) :
    (t.propose x fixed s).2.1.Unforced := by
  obtain ⟨generator, hg⟩ := t.propose_source x fixed s
  rw [hg]
  exact h.reseed generator

theorem search (h : t.Unforced) (strategy : Strategy) (fuel : Nat)
    (ha : Ended (t.search strategy fuel s).1) : (t.search strategy fuel s).2.1.Unforced := by
  have hI : Search.Invariant fun u _ => u.Unforced :=
    { update := fun h ha => h.update false _ ha
      reset := .reset
      advance := .advance
      report := fun _ h => h
      flag := fun _ h => h }
  exact (hI.search h strategy fuel).kept ha

theorem wellFormed (h : t.Unforced) : t.WellFormed := by
  induction h with
  | unstarted => exact .of_empty rfl rfl rfl
  | update fixed s _ ha ih =>
      obtain ⟨answer, ha⟩ := ha
      exact ih.update fixed s ha
  | reset => exact .of_empty rfl rfl rfl
  | copyAs _ _ ih => exact ih.congr rfl rfl rfl
  | reseed _ _ ih => exact ih.congr rfl rfl rfl
  | move _ hi hm ih => exact ih.rescore hi hm.rescored
  | advance _ ih => exact advance_keeps (fun h hi hr => h.rescore hi hr) ih
  | addFactor _ _ ih => exact ih.congr rfl rfl rfl
  | demand _ _ ih => exact ih.congr rfl rfl rfl

end Unforced

end Trace

/-- In no pass over a trace whose history sets no value does the program make a plain categorical
choice beyond the bounds of its address. -/
def Program.Spans (program : Program) (size : Address → Nat) : Prop :=
  ∀ t : Trace, t.Unforced → t.program = program → t.PassesWithin size

theorem Record.address_of_rescored {r r' : Record} {v : Value} (h : r.rescored v = .ok r') :
    r'.address = r.address := by
  obtain ⟨lp, -, rfl⟩ := Record.rescored_eq_ok_iff.mp h
  rfl

/-- A record that the kernel of its family moves stays in bounds. -/
theorem Record.Within.moved {r : Record} {n : Nat} {g : Generator} {m : Proposal.Move}
    (h : r.Within n) (hm : r.MovesBy g m) : m.record.Within n := by
  obtain ⟨g', hdrawn⟩ := hm.drawn
  by_cases hf : r.family = .categorical
  · have hnew : Trace.newValue { family := r.family, params := r.params } false g =
        .ok (m.record.value, g') := by
      rw [hf] at hdrawn ⊢
      exact hdrawn
    exact h.rescored hm.rescored (.new hnew)
  · obtain ⟨lp, -, hrec⟩ := Record.rescored_eq_ok_iff.mp hm.rescored
    intro hf'
    rw [hrec] at hf'
    exact absurd hf' hf

/-- A record that the odometer turns stays in bounds. -/
theorem Record.Within.turned {r r' : Record} {n : Nat} {d : Domain} {carry : Bool}
    (h : r.Within n) (hd : r.family.support = .enumerable d) (ht : r.turn d = .ok (r', carry)) :
    r'.Within n := by
  obtain ⟨v, hr, hnext | hfirst⟩ := Record.turn_eq_ok ht
  · exact h.rescored hr (.turned rfl hd hnext)
  · exact h.rescored hr (.turned rfl hd (Domain.next_of_first hfirst))

/-- **Every stored index is in the bounds of its address**, if no value is set. -/
theorem Trace.Unforced.within (h : t.Unforced) : t.program.Spans size → t.arena.Within size := by
  induction h with
  | unstarted => exact fun _ => .empty size
  | @update t fixed s h ha ih =>
      intro hp
      rw [h.wellFormed.program_of_ended ha] at hp
      exact (hp t h rfl).update h.wellFormed (ih hp) ha
  | reset => exact fun _ => .empty size
  | copyAs _ _ ih => exact ih
  | reseed _ _ ih => exact ih
  | @move t i r g m _ hi hm ih =>
      intro hp
      exact (ih hp).put (Record.address_of_rescored hm.rescored ▸ (ih hp i r hi).moved hm)
  | @advance t _ ih =>
      intro hp
      have hprogram : t.advance.2.program = t.program :=
        advance_keeps (I := fun u => u.program = t.program) (fun h _ _ => h) rfl
      refine advance_turns (I := fun u => u.arena.Within size) (fun hI hi hd ht => ?_)
        (ih (hprogram ▸ hp))
      obtain ⟨v, hr, -⟩ := Record.turn_eq_ok ht
      exact hI.put (Record.address_of_rescored hr ▸ (hI _ _ hi).turned hd ht)
  | addFactor _ _ ih => exact ih
  | demand _ _ ih => exact ih

/-! ### Draws of a pass -/

/-- A program that has ended goes no further. -/
theorem Player.Steps.eq_ofAnswer {σ : Type} {H : Player σ} {answer : Except Error Value}
    {program : Program} {a b : σ} (h : H.Steps (.ofAnswer answer) a program b) :
    program = .ofAnswer answer := by
  cases answer with
  | ok v =>
      cases h with
      | refl => rfl
      | more h _ => cases h
  | error e =>
      cases h with
      | refl => rfl
      | more h _ => cases h

/-- **A draw of an item falls outside its items exactly if it finds such an index stored.**  At any
moment of a pass over a well-formed trace, as every trace with a history is and every copy in which
a proposal has moved a record, let the program draw one of the items, with as many masses as items
that the family accepts.  A budget that is used up refuses the draw.  Otherwise:

* if a plain categorical record is stored at the address with an index, the draw takes the item that
  has the index, and fails if none has;
* if no plain categorical record is stored there, it takes one of the items;
* it takes one of the items if no value was set and no plain categorical choice that the program
  makes at the address has more outcomes, or observes a greater index, than there are items.

In the last two cases a sampler may break it off. -/
theorem Trace.WellFormed.picks {α : Type} (h : t.WellFormed) {items : List α}
    {masses : List Float} {k : Except Error α → Program}
    (hs : Pass.player.Steps t.program (t.opening fixed s) (Computation.pick items masses k) p)
    (hlen : items.length = masses.length) (hacc : Family.categorical.check masses = .ok ()) :
    let draw := Computation.pick items masses
    let x := p.sites.claim.1.address
    (p.spent = true →
      draw.Ends Pass.player p (.error (.divergent p.sites.depth p.trace.cursor))) ∧
    (p.spent = false →
      (∀ n, p.trace.held x = some ⟨.categorical, false, .int n⟩ →
        draw.Ends Pass.player p (Computation.itemAt items n) ∧
        (Computation.itemAt items n = .error Computation.outside ↔ items.length ≤ n.toNat)) ∧
      ((∀ v, p.trace.held x ≠ some ⟨.categorical, false, v⟩) → draw.Draws p items) ∧
      ∀ size, t.Unforced → t.program.Spans size → size x ≤ items.length →
        draw.Draws p items) := by
  intro draw x
  have hlayout := (Pass.keeps_running.steps hs (running_opening h fixed s)).layout
  refine ⟨fun hb => ?_, fun hb => ⟨fun n hx => ?_, fun hx => ?_, fun size hu hp hle => ?_⟩⟩
  · exact Computation.ends_of_error hlen (Pass.choose_of_spent hb _)
  · exact ⟨Computation.pick_of_held hlayout hb hlen hacc hx, Computation.itemAt_eq_outside_iff⟩
  · exact Computation.pick_of_not_held hlayout hb hlen hacc hx
  · by_cases hx : ∃ v, p.trace.held x = some ⟨.categorical, false, v⟩
    · -- the stored index was not set, so that it is below the number of items
      obtain ⟨v, hv⟩ := hx
      have hwithin := (hp t hu rfl).steps h (hu.within hp) hs
      obtain ⟨n, rfl, hn⟩ := hwithin.of_held hlayout hv
      have hlt : n.toNat < items.length := Nat.lt_of_lt_of_le hn hle
      refine .inl ⟨items[n.toNat], List.getElem_mem hlt, ?_⟩
      rw [← Computation.itemAt_of_lt hlt]
      exact Computation.pick_of_held hlayout hb hlen hacc hv
    · exact Computation.pick_of_not_held hlayout hb hlen hacc fun v hv => hx ⟨v, hv⟩

deriving instance DecidableEq for Holding

/-- Draws one of two truth values. -/
def evenPick : Program :=
  (Computation.pick [Value.bool false, Value.bool true] [0.5, 0.5]).program

/-- The draw is the only choice, and it has two outcomes. -/
theorem spans_evenPick : evenPick.Spans fun _ => 2 := by
  rintro t - ht fixed s q next p hs
  rw [ht, evenPick, Computation.program_pick (by rfl)] at hs
  cases hs with
  | refl => exact fun _ _ => ⟨Nat.le_refl 2, fun v hv => by cases hv⟩
  | more hstep hs =>
      cases hstep with
      | @choose _ _ _ answer =>
          have hend := hs.eq_ofAnswer
          generalize (answer >>= _) = out at hend
          cases out <;> cases hend

theorem update_evenPick :
    ((Trace.unstarted 0 evenPick {} (.ofSeed 0)).update false {}).1 = .ok (.bool true) := by
  decide +kernel

/-- The draw is made again, with the index that the first pass has stored. -/
theorem picks_evenPick :
    let t := observedOnce evenPick
    let p := t.opening false {}
    let draw := Computation.pick [Value.bool false, Value.bool true] [0.5, 0.5]
    Reachable t ∧ t.Unforced ∧ t.program.Spans (fun _ => 2) ∧ p.spent = false ∧
      p.trace.held (.atSite "" 0) = some ⟨.categorical, false, .int 1⟩ ∧
      draw.Ends Pass.player p (.ok (.bool true)) ∧ draw.Draws p [.bool false, .bool true] := by
  intro t p draw
  have hu : t.Unforced :=
    (Trace.Unforced.unstarted 0 evenPick {} (.ofSeed 0)).update false {}
      ⟨.ok (.bool true), update_evenPick⟩
  have hr : Reachable t := reachable_observedOnce update_evenPick
  have ht : t.program = evenPick := program_observedOnce update_evenPick
  have hp : t.program.Spans fun _ => 2 := ht ▸ spans_evenPick
  have hb : p.spent = false := rfl
  have hx : p.trace.held (.atSite "" 0) = some ⟨.categorical, false, .int 1⟩ := by
    decide +kernel
  have hs : Pass.player.Steps t.program p (draw Program.ofAnswer) p := by
    rw [ht, evenPick, Computation.program_eq]
    exact .refl
  obtain ⟨-, hpicks⟩ := hr.wellFormed.picks hs rfl (by decide +kernel)
  obtain ⟨hheld, -, hdraws⟩ := hpicks hb
  exact ⟨hr, hu, hp, hb, hx, (hheld 1 hx).1, hdraws _ hu hp (Nat.le_refl 2)⟩

/-- Draws one of two truth values if a flip is true, and else the only one there is. -/
def shrinking : Program :=
  (do
    let x ← Computation.structural .flip [1.0]
    if x = Value.bool true then Computation.pick [Value.bool false, Value.bool true] [0.0, 1.0]
    else Computation.pick [Value.bool false] [1.0]).program

/-- The first world has drawn the second of its items, and a proposal of the other world finds its
index stored. -/
theorem outside_shrinking :
    Reachable (observedOnce shrinking) ∧
      ((observedOnce shrinking).propose (.atSite "" 0) false {}).1 =
        .error (.error Computation.outside) := by
  refine ⟨reachable_observedOnce (v := .bool true) (by decide +kernel), ?_⟩
  have h : (((observedOnce shrinking).propose (.atSite "" 0) false {}).1.map fun _ => ()) =
      .error (.error Computation.outside) := by
    decide +kernel
  cases hp : ((observedOnce shrinking).propose (.atSite "" 0) false {}).1 with
  | ok proposal =>
      rw [hp] at h
      cases h
  | error fault =>
      rw [hp] at h
      cases h
      rfl

end ProbTrace
