import ProbTrace.Proofs.Covering
import ProbTrace.Proofs.Inheriting
import ProbTrace.Proofs.Tallying

/-!
# Proofs — Enduring: programs that no pass makes fail

A choice comes by the values that are drawn for it, that its wheel turns to, or that it observes
(`Request.Gives`).  A record keeps such a value from one pass to the next, and serves with it every
later choice at its address that has the same family and is structural like it.  So what a pass
meets is described by a set of choices that allows whatever a choice comes by, and that is lasting:
what it allows at one choice, it allows at every other one that the same record may serve
(`Choice.Lasting`).

A program endures such a set if none of its choices makes it fail (`Program.Endures`).  Nothing is
said of budgets: a request that goes over one is refused with an error, and the program may then
fail in the ways that are allowed to be late.  Every step of a pass keeps this up
(`Replay.Upholds.step`).  So a pass over records that are allowed leaves such records, or it was
enumerating and fails late (`Trace.Keeps.update`), and the odometer turns to choices that are
allowed (`Trace.Keeps.advance`).
-/

namespace ProbTrace

/-! ### The values that choices come by -/

/-- The values that a choice comes by: a new record is given one, or the wheel of a free record
turns to one. -/
inductive Request.Gives (q : Request) (v : Value) : Prop where
  | new {enumerating : Bool} {g g' : Generator}
      (h : Trace.newValue q enumerating g = .ok (v, g'))
  | turned {d : Domain} {o : Option Value} (ho : q.observed = none)
      (hd : q.family.support = .enumerable d) (h : d.next o q.params = .ok (some v))

namespace Request.Gives

variable {q : Request} {u v : Value}

/-- An observed choice comes by the value observed. -/
theorem eq_of_observed (h : q.Gives v) (ho : q.observed = some u) : v = u := by
  rcases h with h | ⟨ho', -, -⟩
  · exact eq_of_newValue ho h
  · cases ho.symm.trans ho'

/-- **A free categorical choice comes by an index of a mass.** -/
theorem position_lt (h : q.Gives v) (hf : q.family = .categorical) (ho : q.observed = none) :
    v.position < q.params.length := by
  have hnext : ∀ {d o}, q.family.support = .enumerable d → d.next o q.params = .ok (some v) →
      v.position < q.params.length := fun hd h => by
    rw [hf] at hd
    cases hd
    obtain ⟨n, hn, hlt, -, hv⟩ := Domain.next_eq_some h
    cases hn
    exact hv ▸ hlt
  rcases h with h | ⟨-, hd, h⟩
  · rcases sample_or_next_of_newValue ho h with h | ⟨d, hd, h⟩
    · rw [hf] at h
      obtain ⟨masses, hmasses, h⟩ := Draw.lift_bind_eq_ok h
      obtain ⟨i, hi, rfl⟩ := Draw.bind_pure_eq_ok h
      obtain rfl : masses = q.params := Family.eq_of_categoricalParams hmasses
      exact (Nat.mod_le i _).trans_lt (Draw.lt_of_index hi)
    · exact hnext hd h
  · exact hnext hd h

end Request.Gives

/-! ### Programs that no choice makes fail -/

namespace Choice

/-- What `A` allows at a choice it allows for as long as the value is stored: also at a choice that
is served by the same record. -/
def Lasting (A : Choice → Prop) : Prop :=
  ∀ ⦃k k' : Choice⦄, A k → k'.address = k.address → k'.holding = k.holding → k'.Sound → A k'

/-- The choice has a value that it comes by. -/
def Given (k : Choice) : Prop := k.request.Gives k.value

end Choice

/-- What is left of the program, at these call sites, does not fail as long as every choice that is
made is one that `A` allows; and `A` allows every value that a choice comes by.  Once a request was
refused because of a budget (`denied`), the program may fail in the ways that `late` allows. -/
def Program.Endures (A : Choice → Prop) (late : Error → Prop) :
    Program → Bool → CallSites → Prop
  | .done _, _, _ => True
  | .fail e, denied, _ => denied = true ∧ late e
  | .choose q next, denied, c => q.Steady ∧
      (q.Accepted → ∀ v, q.Gives v → A ⟨c.claim.1.address, q, v⟩) ∧
      (∀ v, q.Accepted → Choice.Sound ⟨c.claim.1.address, q, v⟩ → A ⟨c.claim.1.address, q, v⟩ →
        (next (.ok v)).Endures A late denied c.claim.2) ∧
      (∀ e, q.Fails e → (next (.error e)).Endures A late denied c.claim.2) ∧
      ∀ made, (next (.error (.divergent c.depth made))).Endures A late true c
  | .enter id next, denied, c => (next (.ok ())).Endures A late denied (c.enter id) ∧
      ∀ made, (next (.error (.divergent c.depth made))).Endures A late true c
  | .leave id next, denied, c => ∀ c', c.leave? id = some c' → (next ()).Endures A late denied c'
  | .factor _ next, denied, c => (next ()).Endures A late denied c
  | .condition _ next, denied, c => (next ()).Endures A late denied c
  | .isActive next, denied, c => (next true).Endures A late denied c
  | .depth next, denied, c => (next c.depth).Endures A late denied c
  | .isEnumerating next, denied, c => ∀ b, (next b).Endures A late denied c
  | .read _ next, denied, c => ∀ v, (next v).Endures A late denied c
  | .write _ _ next, denied, c => (next ()).Endures A late denied c
  | .nested _ _ next, denied, c => (next (.error .reentrant)).Endures A late denied c

/-- A choice that is accepted, whatever value it comes by. -/
theorem Program.endures_choose {A : Choice → Prop} {late : Error → Prop} {q : Request}
    {next : Except Error Value → Program} {denied : Bool} {c : CallSites}
    (hfam : q.family ≠ .binomial) (hq : q.Accepted)
    (hgives : ∀ v, q.Gives v → A ⟨c.claim.1.address, q, v⟩)
    (hok : ∀ v, A ⟨c.claim.1.address, q, v⟩ → (next (.ok v)).Endures A late denied c.claim.2)
    (hlate : ∀ made, (next (.error (.divergent c.depth made))).Endures A late true c) :
    (Program.choose q next).Endures A late denied c :=
  ⟨Request.steady_of_ne_binomial hfam, fun _ => hgives, fun v _ _ hv => hok v hv,
    fun _ he => absurd he hq.not_fails, hlate⟩

/-- If the floor is at the zeros what it is documented to be, the parameters of a choice are
steady whatever they are. -/
theorem Program.endures_choose_iff (laws : ZeroLaws) {A : Choice → Prop} {late : Error → Prop}
    {q : Request} {next : Except Error Value → Program} {denied : Bool} {c : CallSites} :
    (Program.choose q next).Endures A late denied c ↔
      (q.Accepted → ∀ v, q.Gives v → A ⟨c.claim.1.address, q, v⟩) ∧
      (∀ v, q.Accepted → Choice.Sound ⟨c.claim.1.address, q, v⟩ → A ⟨c.claim.1.address, q, v⟩ →
        (next (.ok v)).Endures A late denied c.claim.2) ∧
      (∀ e, q.Fails e → (next (.error e)).Endures A late denied c.claim.2) ∧
      ∀ made, (next (.error (.divergent c.depth made))).Endures A late true c :=
  and_iff_right (q.steady laws)

/-! ### One pass -/

/-- `A` allows the choice, and it with every other value that it comes by. -/
structure Choice.Allowed (A : Choice → Prop) (k : Choice) : Prop where
  here  : A k
  gives : ∀ v, k.request.Gives v → A { k with value := v }

/-- The records bear choices that are allowed. -/
def Record.Kept (A : Choice → Prop) (rs : List Record) : Prop :=
  ∃ ks, List.Forall₂ Record.Bears rs ks ∧ ∀ k ∈ ks, k.Allowed A

theorem Record.Kept.of_mem {A : Choice → Prop} {rs : List Record} {r : Record}
    (h : Record.Kept A rs) (hr : r ∈ rs) : ∃ k, r.Bears k ∧ k.Allowed A := by
  obtain ⟨ks, hks, hall⟩ := h
  obtain ⟨k, hk, hb⟩ := exists_of_forall₂ hks r hr
  exact ⟨k, hb, hall k hk⟩

theorem Record.Kept.concat {A : Choice → Prop} {rs : List Record} {r : Record} {k : Choice}
    (h : Record.Kept A rs) (hb : r.Bears k) (hk : k.Allowed A) : Record.Kept A (rs ++ [r]) := by
  obtain ⟨ks, hks, hall⟩ := h
  refine ⟨ks ++ [k], List.rel_append hks (.cons hb .nil), fun j hj => ?_⟩
  rcases List.mem_append.mp hj with hj | hj
  · exact hall j hj
  · exact List.mem_singleton.mp hj ▸ hk

namespace Replay

variable {A : Choice → Prop} {late : Error → Prop} {b : Bool} {limits : Limits}
  {stored : Address → Option Record} {p p' : Program} {ρ ρ' : Replay} {q : Request} {v : Value}

/-- What holds at every moment of a pass over records that `A` allows. -/
structure Upholds (A : Choice → Prop) (late : Error → Prop) (enumerating : Bool) (p : Program)
    (ρ : Replay) : Prop where
  flag    : ρ.session.enumerating = enumerating
  endures : ∃ denied, p.Endures A late denied ρ.sites ∧ (denied = true → enumerating = true)
  records : Record.Kept A ρ.records

/-- The value that a choice gets is one that `A` allows. -/
theorem Gets.allowed (hA : Choice.Lasting A)
    (hst : ∀ {x r}, stored x = some r → r.address = x ∧ ∃ k, r.Bears k ∧ k.Allowed A)
    (hgives : ∀ v, q.Gives v → A ⟨ρ.sites.claim.1.address, q, v⟩)
    (hsound : Choice.Sound ⟨ρ.sites.claim.1.address, q, v⟩) (h : Gets stored q ρ v) :
    A ⟨ρ.sites.claim.1.address, q, v⟩ := by
  cases h with
  | new _ hv => exact hgives v (.new hv)
  | @kept r₀ hs hfit hv =>
      obtain ⟨hx, k, hb, hk⟩ := hst hs
      -- unless another value is observed, the value is the stored one
      have hcases : (∃ g g', Trace.newValue q true g = .ok (v, g')) ∨ v = r₀.value := by
        rw [Holding.valueFor] at hv
        cases ho : q.observed with
        | none =>
            rw [ho] at hv
            exact .inr hv
        | some u =>
            rw [ho] at hv
            simp only at hv
            split at hv
            · exact .inr hv
            · exact .inl ⟨ρ.generator, ρ.generator, hv ▸ Request.newValue_of_observed ho _ _⟩
      rcases hcases with ⟨g, g', hnew⟩ | rfl
      · exact hgives v (.new hnew)
      · obtain ⟨hfam, hstr⟩ := Record.fits_iff.mp hfit
        refine hA hk.here (hx.symm.trans hb.address) ?_ hsound
        rw [Choice.holding, Choice.holding, ← hb.family_eq, ← hb.structural_eq, ← hb.value, hfam,
          hstr]

/-- **Every step of a pass upholds it.** -/
theorem Upholds.step (hA : Choice.Lasting A)
    (hst : ∀ {x r}, stored x = some r → r.address = x ∧ ∃ k, r.Bears k ∧ k.Allowed A)
    (hs : (player limits stored).Step p ρ p' ρ') (h : Upholds A late b p ρ) :
    Upholds A late b p' ρ' := by
  obtain ⟨hflag, ⟨denied, hp, hdenied⟩, hrecords⟩ := h
  cases hs with
  | @choose q next _ answer _ hc =>
      have hc : ρ.choose limits stored q = (Fault.lift answer, ρ') := hc
      obtain ⟨hsteady, hgives, hok, hfails, hspent⟩ := hp
      cases answer with
      | ok v =>
          obtain ⟨-, hacc, hsound, hgets, r, created, g, hr, rfl⟩ :=
            choose_bears (fun hx => (hst hx).1)
              (fun hx => have ⟨_, _, hb, _⟩ := hst hx; hb.scored) hsteady hc
          have hallowed := hgets.allowed hA hst (hgives hacc) hsound
          refine ⟨hflag, ⟨denied, hok v hacc hsound hallowed, hdenied⟩, ?_⟩
          rw [records_note]
          exact hrecords.concat hr ⟨hallowed, hgives hacc⟩
      | error e =>
          cases hb : ρ.spent limits with
          | true =>
              cases hc.symm.trans (choose_of_spent hb)
              have he : b = true := hflag ▸ (Bool.and_eq_true _ _ ▸ hb).1
              exact ⟨hflag, ⟨true, hspent _, fun _ => he⟩, hrecords⟩
          | false =>
              obtain ⟨he, g, refused, rfl⟩ :=
                choose_fails (fun hx => have ⟨_, _, hb, _⟩ := hst hx; hb.scored) hb hc
              exact ⟨hflag, ⟨denied, hfails e he, hdenied⟩, hrecords⟩
  | @enter id next =>
      obtain ⟨hok, hdeep⟩ := hp
      rcases deep_or_shallow limits ρ with ⟨he, hd⟩ | hd
      · rw [enter_of_deep he hd]
        exact ⟨hflag, ⟨true, hdeep _, fun _ => hflag.symm.trans he⟩, hrecords⟩
      · rw [enter_of_shallow hd]
        exact ⟨hflag, ⟨denied, hok, hdenied⟩, hrecords⟩
  | @leave id next _ _ hl =>
      obtain ⟨c, hc, rfl⟩ := leave_eq_ok_iff.mp hl
      exact ⟨hflag, ⟨denied, hp c hc, hdenied⟩, hrecords⟩
  | factor =>
      refine ⟨hflag, ⟨denied, hp, hdenied⟩, ?_⟩
      show Record.Kept A (ρ.note (.factor _)).records
      rw [records_note_factor]
      exact hrecords
  | condition => exact ⟨hflag, ⟨denied, hp, hdenied⟩, hrecords⟩
  | isActive => exact ⟨hflag, ⟨denied, hp, hdenied⟩, hrecords⟩
  | depth => exact ⟨hflag, ⟨denied, hp, hdenied⟩, hrecords⟩
  | isEnumerating => exact ⟨hflag, ⟨denied, hp _, hdenied⟩, hrecords⟩
  | read => exact ⟨hflag, ⟨denied, hp _, hdenied⟩, hrecords⟩
  | write => exact ⟨hflag, ⟨denied, hp, hdenied⟩, hrecords⟩
  | @nested fixed inner next _ answer _ hn =>
      obtain rfl : answer = .error .reentrant := by
        cases answer <;> cases hn
        rfl
      cases hn
      exact ⟨hflag, ⟨denied, hp, hdenied⟩, hrecords⟩

theorem leave_ne_error (limits : Limits) (stored : Address → Option Record) (id : String)
    (ρ : Replay) (e : Error) : (player limits stored).leave id ρ ≠ .error (.error e) := by
  simp only [player]
  intro h
  split at h <;> cases h

/-- **What a pass upholds holds where it ends.** -/
theorem Upholds.play {answer : Except Error Value} (hA : Choice.Lasting A)
    (hst : ∀ {x r}, stored x = some r → r.address = x ∧ ∃ k, r.Bears k ∧ k.Allowed A)
    (h : Upholds A late b p ρ)
    (ha : (p.play (player limits stored) ρ).1 = Fault.lift answer) :
    Upholds A late b (.ofAnswer answer) (p.play (player limits stored) ρ).2 :=
  (Player.play_steps (leave_ne_error limits stored) p ha).keeps (fun hs h => h.step hA hst hs) h

end Replay

namespace Trace

variable {A : Choice → Prop} {late : Error → Prop} {t u : Trace} {s s' : Session} {v : Value}
  {e : Error}

/-- The records bear choices that are allowed. -/
def Keeps (A : Choice → Prop) (t : Trace) : Prop := Record.Kept A t.records

theorem keeps_of_empty (h : t.arena = {}) : t.Keeps A := by
  have hnone : t.records = [] := by
    rw [records, h]
    exact List.filterMap_eq_nil_iff.mpr fun i _ => by simp [Arena.record?]
  exact ⟨[], hnone ▸ .nil, fun _ hk => absurd hk List.not_mem_nil⟩

/-- A stored record is one of those. -/
theorem Keeps.stored (h : t.Keeps A) (hw : t.WellFormed) {x : Address} {r : Record}
    (hr : t.record? x = some r) : r.address = x ∧ ∃ k, r.Bears k ∧ k.Allowed A :=
  ⟨hw.address_record? hr, h.of_mem (hw.mem_of_record? hr)⟩

/-- **A pass over records that are allowed leaves such records if it is completed, and fails only
after it has gone over a budget.** -/
theorem Keeps.update (hA : Choice.Lasting A) (h : t.Keeps A) (hw : t.WellFormed)
    (hp : t.program.Endures A late false .empty) (hs : s.active = none) (fixed : Bool) :
    (∀ v, (t.update fixed s).1 = .ok v → (t.update fixed s).2.1.Keeps A) ∧
      ∀ e, (t.update fixed s).1 = .error (.error e) → late e ∧ s.enumerating = true := by
  obtain ⟨hr, -⟩ := hw.update_mirrors hs fixed
  have hstart : Replay.Upholds A late s.enumerating t.program
      { generator := t.generator, session := s.quiet } :=
    ⟨rfl, ⟨false, hp, nofun⟩, [], .nil, nofun⟩
  have hend : ∀ answer, (t.replayed s).1 = Fault.lift answer →
      Replay.Upholds A late s.enumerating (.ofAnswer answer) (t.replayed s).2 :=
    fun answer ha => hstart.play hA (h.stored hw) ha
  refine ⟨fun v hv => ?_, fun e he => ?_⟩
  · obtain ⟨ha, -, hagrees, -⟩ := hw.agrees_update hv
    rw [Keeps, hagrees.records]
    exact (hend (.ok v) ha).records
  · obtain ⟨denied, ⟨rfl, hlate⟩, hflag⟩ := (hend (.error e) (hr.symm.trans he)).endures
    exact ⟨hlate, hflag rfl⟩

end Trace

namespace Choice

variable {A : Choice → Prop} {k : Choice} {v : Value} {carry : Bool}

/-- What a choice turns to is a value that it comes by. -/
theorem gives_of_turn (h : k.turn = .ok (v, carry)) : v = k.value ∨ k.request.Gives v := by
  rw [turn] at h
  split at h
  · rename_i d ho hd
    obtain ⟨o, hn, h⟩ := bind_eq_ok.mp h
    cases o with
    | some w =>
        cases h
        exact .inr (.turned ho hd hn)
    | none =>
        obtain ⟨w, hf, h⟩ := bind_eq_ok.mp h
        cases h
        exact .inr (.turned ho hd (Domain.next_of_first hf))
  · cases h
    exact .inl rfl

theorem Allowed.turn (h : k.Allowed A) (ht : v = k.value ∨ ∃ carry, k.turn = .ok (v, carry)) :
    Allowed A { k with value := v } := by
  refine ⟨?_, h.gives⟩
  obtain rfl | hv : v = k.value ∨ k.request.Gives v := ht.elim .inl fun ⟨_, ht⟩ => gives_of_turn ht
  · exact h.here
  · exact h.gives v hv

end Choice

/-- **The odometer turns to choices that are allowed, and fails with no error.** -/
theorem Trace.Keeps.advance {A : Choice → Prop} {t : Trace} (h : t.Keeps A) (hw : t.WellFormed) :
    (∀ b, t.advance.1 = .ok b → t.advance.2.Keeps A) ∧ ∀ e, t.advance.1 ≠ .error (.error e) := by
  obtain ⟨ks, hks, hall⟩ := h
  obtain ⟨hfail, hmove⟩ := hw.advance_wind hks
  cases hwind : Choice.wind ks with
  | error fault =>
      have hans := hfail fault hwind
      refine ⟨fun b hb => (by cases hans.symm.trans hb), fun e he => ?_⟩
      cases hans.symm.trans he
      obtain ⟨k, hk, ht⟩ := Choice.exists_turn_of_wind_eq_error hwind
      obtain ⟨r, -, hb⟩ := exists_of_forall₂ hks.flip k hk
      exact hb.sound.turn_ne_error hb.accepted e ht
  | ok out =>
      obtain ⟨ks', carry⟩ := out
      obtain ⟨hans, hrecords⟩ := hmove ks' carry hwind
      refine ⟨fun _ _ => ⟨ks', hrecords, fun k' hk' => ?_⟩, fun e he => ?_⟩
      · obtain ⟨k, hk, v, rfl, ht⟩ := exists_of_forall₂ (Choice.forall₂_turn hwind).flip k' hk'
        exact (hall k hk).turn ht
      · cases hans.symm.trans he

end ProbTrace
