import ProbTrace.Proofs.Runs
import ProbTrace.Proofs.Turning

/-!
# Proofs — Winding: the odometer of a run

`Choice.wind` is the odometer on the choices of a run alone: from the last one on, each wheel goes
to its next value, or back to its first one with a carry to the wheel before it; observed and loose
choices are passed over.  Where the records of a trace are those of the choices (`Record.Bears`),
the odometer of the trace does the same to the records, and fails with the same fault
(`WellFormed.advance_wind`).

Nothing is assumed here of the values: they may lie outside their domain, as values do that were
set or were kept from an observation.  A wheel that moves on gains one position
(`position_of_turn`), and a wheel that carries is past every value of its domain
(`le_position_of_carry`).
-/

namespace ProbTrace

/-- Where two lists stand to each other one by one, each of the first stands to one of the other. -/
theorem exists_of_forall₂ {α β : Type} {R : α → β → Prop} {as : List α} {bs : List β}
    (h : List.Forall₂ R as bs) : ∀ a ∈ as, ∃ b ∈ bs, R a b := by
  induction h with
  | nil => exact nofun
  | @cons a b _ _ hab _ ih =>
      refine List.forall_mem_cons.mpr ⟨⟨b, .head _, hab⟩, fun a' ha => ?_⟩
      obtain ⟨b', hb, hab'⟩ := ih a' ha
      exact ⟨b', .tail _ hb, hab'⟩

/-! ### Domains and positions -/

namespace Domain

variable {d : Domain} {ps qs : List Float} {o : Option Value} {u v : Value} {n i : Nat}

/-- The position that comes after a value, or the first one. -/
def place : Option Value → Nat
  | none   => 0
  | some u => u.position + 1

theorem successor_eq_ok {f : Family} {m : UInt64} (h : successor f o = .ok m) :
    m.toNat = place o := by
  cases o with
  | none =>
      cases h
      rfl
  | some u =>
      cases u with
      | int m' =>
          rw [successor] at h
          obtain ⟨m'', hm, h⟩ := bind_eq_ok.mp h
          cases hm
          split at h
          · rename_i hlt
            cases h
            rw [UInt64.toNat_add]
            exact Nat.mod_eq_of_lt hlt
          · cases h
      | bool | float | vec => cases h

/-- **The walk goes to the position after the value**, if the domain has one more. -/
theorem next_eq_ok {out : Option Value} (h : d.next o ps = .ok out) : ∃ n, d.size ps = .ok n ∧
    place o < UInt64.size ∧ out = if place o < n then some (d.element (place o)) else none := by
  cases d with
  | flip =>
      cases o with
      | none =>
          cases h
          exact ⟨2, rfl, by decide, rfl⟩
      | some u =>
          obtain ⟨b, hb, h⟩ := bind_eq_ok.mp h
          cases u <;> cases hb
          cases b <;> cases h <;> exact ⟨2, rfl, by decide, rfl⟩
  | categorical =>
      obtain ⟨m, hm, h⟩ := bind_eq_ok.mp h
      have hplace := successor_eq_ok hm
      cases h
      refine ⟨ps.length, rfl, hplace ▸ m.toNat_lt_size, ?_⟩
      rw [element, ← hplace, UInt64.ofNat_toNat]
  | binomial =>
      obtain ⟨⟨p, k⟩, hk, h⟩ := bind_eq_ok.mp h
      obtain ⟨m, hm, h⟩ := bind_eq_ok.mp h
      have hplace := successor_eq_ok hm
      cases h
      refine ⟨k.toNat + 1, by rw [size, hk]; rfl, hplace ▸ m.toNat_lt_size, ?_⟩
      rw [element, ← hplace, UInt64.ofNat_toNat]
      simp only [UInt64.le_iff_toNat_le, Nat.lt_succ_iff]

/-- What the walk comes to is an element of the domain, at the position after the value. -/
theorem next_eq_some (h : d.next o ps = .ok (some v)) : ∃ n, d.size ps = .ok n ∧ place o < n ∧
    v = d.element (place o) ∧ v.position = place o := by
  obtain ⟨n, hn, hs, hv⟩ := next_eq_ok h
  split at hv
  · rename_i hlt
    cases hv
    exact ⟨n, hn, hlt, rfl, position_element hn hlt hs⟩
  · cases hv

theorem checkValue_next (h : d.next o ps = .ok (some v)) : d.family.checkValue v = .ok () := by
  obtain ⟨n, -, -, rfl, -⟩ := next_eq_some h
  exact d.checkValue_element _

theorem position_next (h : d.next (some u) ps = .ok (some v)) :
    v.position = u.position + 1 := by
  obtain ⟨n, -, -, -, hv⟩ := next_eq_some h
  exact hv

/-- The first element is what the walk comes to from nowhere. -/
theorem next_of_first (h : d.first ps = .ok v) : d.next none ps = .ok (some v) := by
  obtain ⟨o, ho, h⟩ := bind_eq_ok.mp h
  cases o with
  | none => cases h
  | some w =>
      cases h
      exact ho

theorem position_first (h : d.first ps = .ok v) : v.position = 0 := by
  obtain ⟨n, -, -, -, hv⟩ := next_eq_some (next_of_first h)
  exact hv

/-- Where the walk ends, it is past whatever it can come to. -/
theorem position_le (h : d.next (some u) ps = .ok none) (ho : d.next o ps = .ok (some v)) :
    v.position ≤ u.position := by
  obtain ⟨n, hn, -, hu⟩ := next_eq_ok h
  obtain ⟨n', hn', hlt, -, hv⟩ := next_eq_some ho
  cases hn.symm.trans hn'
  split at hu
  · cases hu
  · rename_i hend
    rw [place] at hend
    omega

/-- Parameters that are alike, and both accepted, give the same walk. -/
theorem next_congr (hp : Record.LikeParams ps qs) (hps : d.family.check ps = .ok ())
    (hqs : d.family.check qs = .ok ()) (o : Option Value) : d.next o ps = d.next o qs := by
  cases d with
  | flip => rfl
  | categorical =>
      have hlen := hp.forall₂.length_eq
      simp only [next, hlen]
  | binomial =>
      obtain ⟨p, k, hk⟩ := Family.trials_of_check hps
      obtain ⟨q, l, hl⟩ := Family.trials_of_check hqs
      obtain ⟨x, hx, rfl⟩ := Family.trials_eq_ok hk
      obtain ⟨y, hy, rfl⟩ := Family.trials_eq_ok hl
      obtain ⟨q', y', hy', -, hxy⟩ := hp.two hx
      cases hy.symm.trans hy'
      simp only [next, hk, hl, Family.toUInt64_congr hxy]
      rfl

theorem successor_int (f : Family) (m : UInt64) : successor f (some (.int m)) =
    if m.toNat + 1 < UInt64.size then .ok (m + 1) else .error (.defect .wordOverflow) := rfl

/-- **The walk from a value of the kind of the family fails with no error**, if the parameters are
accepted. -/
theorem next_ne_error (hc : d.family.check ps = .ok ()) (hu : d.family.checkValue u = .ok ())
    (e : Error) : d.next (some u) ps ≠ .error (.error e) := by
  intro h
  cases d with
  | flip =>
      cases u <;> cases hu
      cases h
  | categorical =>
      cases u <;> cases hu
      rw [next, successor_int] at h
      split at h <;> cases h
  | binomial =>
      cases u <;> cases hu
      obtain ⟨p, k, hk⟩ := Family.trials_of_check hc
      rw [next, hk, successor_int] at h
      split at h <;> cases h

theorem mem_walk : ∀ {n : Nat} {o : Option Value} {vs : List Value}, d.walk ps n o = .ok vs →
    v ∈ vs → ∃ o', d.next o' ps = .ok (some v)
  | 0, _, _, h, _ => by cases h
  | n + 1, o, vs, h, hv => by
      obtain ⟨w, hw, h⟩ := bind_eq_ok.mp h
      cases w with
      | none =>
          cases h
          cases hv
      | some w =>
          obtain ⟨ws, hws, h⟩ := bind_eq_ok.mp h
          cases h
          rcases List.mem_cons.mp hv with rfl | hv
          · exact ⟨o, hw⟩
          · exact mem_walk hws hv

/-- What a free choice can take is what the walk through its domain comes to. -/
theorem exists_next_of_mem_values {q : Request} (ho : q.observed = none) (hv : v ∈ q.values) :
    ∃ d, q.family.support = .enumerable d ∧ ∃ o, d.next o q.params = .ok (some v) := by
  rw [Request.values, ho] at hv
  cases hd : q.family.support with
  | continuous | discrete =>
      simp only [hd] at hv
      cases hv
  | enumerable d =>
      simp only [hd] at hv
      cases he : d.elements q.params with
      | error fault =>
          rw [he] at hv
          cases hv
      | ok vs =>
          rw [he] at hv
          obtain ⟨n, -, he⟩ := bind_eq_ok.mp he
          exact ⟨d, rfl, mem_walk he hv⟩

end Domain

namespace Choice

/-- A value that a choice can take is one that it can be given. -/
theorem Takes.sound {k : Choice} (hk : k.Takes) (hq : k.request.Accepted) : k.Sound := by
  cases ho : k.request.observed with
  | some v =>
      have hv : k.value = v := by
        rw [Takes, Request.Grantable.values_of_observed ho, List.mem_singleton] at hk
        exact hk
      refine ⟨hv ▸ hq.value v ho, fun u hu => ?_⟩
      cases ho.symm.trans hu
      exact .inl hv.symm
  | none =>
      obtain ⟨d, hd, o, hn⟩ := Domain.exists_next_of_mem_values ho hk
      refine ⟨Domain.family_of_support hd ▸ Domain.checkValue_next hn, fun u hu => ?_⟩
      cases ho.symm.trans hu

/-! ### The odometer on choices -/

/-- The value after the wheel has turned, and whether it carries.  A choice that has no wheel keeps
its value and lets a carry pass. -/
def turn (k : Choice) : Except Fault (Value × Bool) :=
  match k.request.observed, k.request.family.support with
  | none, .enumerable d => do
    match ← d.next (some k.value) k.request.params with
    | some v => return (v, false)
    | none   => return (← d.first k.request.params, true)
  | _, _ => .ok (k.value, true)

/-- The choices after the odometer has moved on, and whether it has come round. -/
def wind : List Choice → Except Fault (List Choice × Bool)
  | []      => .ok ([], true)
  | k :: ks => do
    let (ks, carry) ← wind ks
    if carry then
      let (value, carry) ← k.turn
      return ({ k with value } :: ks, carry)
    else return (k :: ks, false)

variable {k : Choice} {ks ks' : List Choice} {d : Domain} {v : Value} {carry : Bool}

theorem turn_of_wheel (ho : k.request.observed = none)
    (hd : k.request.family.support = .enumerable d) : k.turn = (do
      match ← d.next (some k.value) k.request.params with
      | some v => return (v, false)
      | none   => return (← d.first k.request.params, true)) := by
  simp only [turn, ho, hd]

theorem turn_of_observed (ho : k.request.observed = some v) : k.turn = .ok (k.value, true) := by
  simp only [turn, ho]

theorem turn_of_loose (hl : k.Loose) : k.turn = .ok (k.value, true) := by
  obtain ⟨ho, hf⟩ := hl
  simp only [turn, ho]
  cases hd : k.request.family.support with
  | continuous | discrete => rfl
  | enumerable d => exact absurd hd (Family.support_of_loose hf d)

/-- A wheel that moves on goes to the next value. -/
theorem turn_eq_move (h : k.turn = .ok (v, false)) : k.request.observed = none ∧
    ∃ d, k.request.family.support = .enumerable d ∧
      d.next (some k.value) k.request.params = .ok (some v) := by
  rw [turn] at h
  split at h
  · rename_i d ho hd
    obtain ⟨w, hw, h⟩ := bind_eq_ok.mp h
    cases w with
    | some w =>
        cases h
        exact ⟨ho, d, hd, hw⟩
    | none =>
        obtain ⟨u, -, h⟩ := bind_eq_ok.mp h
        cases h
  · cases h

theorem position_of_turn (h : k.turn = .ok (v, false)) : v.position = k.value.position + 1 := by
  obtain ⟨-, d, -, hn⟩ := turn_eq_move h
  exact Domain.position_next hn

/-- A choice that carries has no wheel, or its wheel goes back from the end to the beginning. -/
theorem turn_eq_carry (h : k.turn = .ok (v, true)) :
    (∀ d, k.request.observed = none → k.request.family.support = .enumerable d →
      d.next (some k.value) k.request.params = .ok none ∧ d.first k.request.params = .ok v) ∧
    (k.request.observed.isSome = true → v = k.value) := by
  rw [turn] at h
  split at h
  · rename_i d ho hd
    obtain ⟨w, hw, h⟩ := bind_eq_ok.mp h
    cases w with
    | some w => cases h
    | none =>
        obtain ⟨u, hu, h⟩ := bind_eq_ok.mp h
        cases h
        refine ⟨fun d' _ hd' => ?_, fun hs => ?_⟩
        · cases hd.symm.trans hd'
          exact ⟨hw, hu⟩
        · rw [ho] at hs
          cases hs
  · rename_i hne
    cases h
    exact ⟨fun d ho hd => absurd hd (hne d ho), fun _ => rfl⟩

/-- **A wheel that carries is past every value of its domain.** -/
theorem le_position_of_carry (h : k.turn = .ok (v, true)) (ho : k.request.observed = none)
    {u : Value} (hu : u ∈ k.request.values) : u.position ≤ k.value.position := by
  obtain ⟨d, hd, o, hn⟩ := Domain.exists_next_of_mem_values ho hu
  exact Domain.position_le ((turn_eq_carry h).1 d ho hd).1 hn

/-- The choice was at the end, and has gone back to the beginning. -/
def Rewinds (k k' : Choice) : Prop := ∃ v, k.turn = .ok (v, true) ∧ k' = { k with value := v }

/-- The odometer comes round where every choice carries. -/
theorem wind_eq_round (h : wind ks = .ok (ks', true)) : List.Forall₂ Rewinds ks ks' := by
  induction ks generalizing ks' with
  | nil =>
      cases h
      exact .nil
  | cons k ks ih =>
      obtain ⟨⟨js, carry⟩, hw, h⟩ := bind_eq_ok.mp h
      cases carry with
      | false => cases h
      | true =>
          obtain ⟨⟨v, carry⟩, ht, h⟩ := bind_eq_ok.mp h
          cases h
          exact .cons ⟨v, ht, rfl⟩ (ih hw)

/-- **The odometer stops at the last choice that does not carry**, and moves it on. -/
theorem wind_eq_stop (h : wind ks = .ok (ks', false)) : ∃ pre k v post post',
    ks = pre ++ k :: post ∧ ks' = pre ++ { k with value := v } :: post' ∧
      k.turn = .ok (v, false) ∧ List.Forall₂ Rewinds post post' := by
  induction ks generalizing ks' with
  | nil => cases h
  | cons k ks ih =>
      obtain ⟨⟨js, carry⟩, hw, h⟩ := bind_eq_ok.mp h
      cases carry with
      | true =>
          obtain ⟨⟨v, carry⟩, ht, h⟩ := bind_eq_ok.mp h
          cases h
          exact ⟨[], k, v, ks, js, rfl, rfl, ht, wind_eq_round hw⟩
      | false =>
          cases h
          obtain ⟨pre, j, v, post, post', rfl, rfl, ht, hpost⟩ := ih hw
          exact ⟨k :: pre, j, v, post, post', rfl, rfl, ht, hpost⟩

/-- The odometer turns choices, or leaves them as they are. -/
theorem forall₂_turn (h : wind ks = .ok (ks', carry)) :
    List.Forall₂ (fun k k' => ∃ v, k' = { k with value := v } ∧
      (v = k.value ∨ ∃ carry, k.turn = .ok (v, carry))) ks ks' := by
  have hrewinds : ∀ {is js : List Choice}, List.Forall₂ Rewinds is js →
      List.Forall₂ (fun k k' => ∃ v, k' = { k with value := v } ∧
        (v = k.value ∨ ∃ carry, k.turn = .ok (v, carry))) is js := fun hr =>
    hr.imp fun _ _ ⟨v, ht, he⟩ => ⟨v, he, .inr ⟨true, ht⟩⟩
  cases carry with
  | true => exact hrewinds (wind_eq_round h)
  | false =>
      obtain ⟨pre, k, v, post, post', rfl, rfl, ht, hpost⟩ := wind_eq_stop h
      refine List.rel_append (List.forall₂_same.mpr fun k _ => ⟨k.value, rfl, .inl rfl⟩) ?_
      exact .cons ⟨v, rfl, .inr ⟨false, ht⟩⟩ (hrewinds hpost)

/-- The odometer changes values only. -/
theorem forall₂_wind (h : wind ks = .ok (ks', carry)) :
    List.Forall₂ (fun k k' => ∃ v, k' = { k with value := v }) ks ks' :=
  (forall₂_turn h).imp fun _ _ ⟨v, he, _⟩ => ⟨v, he⟩

/-- The odometer fails where turning a choice does. -/
theorem exists_turn_of_wind_eq_error {fault : Fault} (h : wind ks = .error fault) :
    ∃ k ∈ ks, k.turn = .error fault := by
  induction ks with
  | nil => cases h
  | cons k ks ih =>
      rw [wind] at h
      cases hw : wind ks with
      | error fault' =>
          rw [hw] at h
          cases h
          obtain ⟨j, hj, ht⟩ := ih hw
          exact ⟨j, .tail _ hj, ht⟩
      | ok out =>
          obtain ⟨js, carry⟩ := out
          rw [hw] at h
          cases carry with
          | false => cases h
          | true =>
              cases ht : k.turn with
              | error fault' =>
                  simp only [bind, Except.bind, if_true, ht] at h
                  cases h
                  exact ⟨k, .head _, ht⟩
              | ok out =>
                  simp only [bind, Except.bind, if_true, ht] at h
                  cases h

end Choice

/-! ### Records that bear choices -/

namespace Record

/-- The record is that of the choice, and has its value. -/
structure Bears (r : Record) (k : Choice) : Prop where
  address  : r.address = k.address
  settles  : r.Settles k.request
  value    : r.value = k.value
  scored   : r.Scored
  accepted : k.request.Accepted

namespace Bears

variable {r m : Record} {k : Choice} {d : Domain} {v : Value} {carry : Bool} {fault : Fault}

theorem family_eq (h : r.Bears k) : r.family = k.request.family := family_of_fits h.settles.1

theorem structural_eq (h : r.Bears k) : r.structural = k.request.structural :=
  (fits_iff.mp h.settles.1).2

theorem conditioned_eq (h : r.Bears k) : r.conditioned = k.request.observed.isSome :=
  h.settles.conditioned_eq

/-- A choice that a record bears is sound. -/
theorem sound (h : r.Bears k) : k.Sound :=
  ⟨h.value ▸ h.family_eq ▸ h.scored.check.1, fun _ hu => h.value ▸ h.settles.like_observed hu⟩

theorem next_eq (h : r.Bears k) (hd : k.request.family.support = .enumerable d)
    (o : Option Value) : d.next o r.params = d.next o k.request.params := by
  have hfam := Domain.family_of_support hd
  exact Domain.next_congr h.settles.like_params (hfam ▸ h.family_eq ▸ h.scored.check.2)
    (hfam ▸ h.accepted.params) o

theorem first_eq (h : r.Bears k) (hd : k.request.family.support = .enumerable d) :
    d.first r.params = d.first k.request.params := by
  rw [Domain.first, Domain.first, h.next_eq hd]

/-- A free record can be given any value of the kind of the family, and is then that of the choice
with this value. -/
theorem exists_rescored (h : r.Bears k) (ho : k.request.observed = none)
    (hv : k.request.family.checkValue v = .ok ()) :
    ∃ m, r.rescored v = .ok m ∧ m.Bears { k with value := v } := by
  obtain ⟨lp, hlp⟩ := Family.exists_logDensity r.params (h.family_eq ▸ hv) h.scored.check.2
  have hm : r.rescored v = .ok { r with value := v, logDensity := lp } :=
    rescored_eq_ok_iff.mpr ⟨lp, hlp, rfl⟩
  have hfree : r.conditioned = false := by
    rw [h.conditioned_eq, ho]
    rfl
  exact ⟨_, hm, h.address, (revaluedTo_of_rescored hm).settles h.settles hfree, rfl,
    scored_of_rescored hm, h.accepted⟩

/-- **The wheel of the record turns as that of the choice.** -/
theorem turn_eq (h : r.Bears k) (ho : k.request.observed = none)
    (hd : k.request.family.support = .enumerable d) (ht : k.turn = .ok (v, carry)) :
    ∃ m, r.turn d = .ok (m, carry) ∧ m.Bears { k with value := v } := by
  have hfam := Domain.family_of_support hd
  rw [Choice.turn_of_wheel ho hd] at ht
  obtain ⟨o, hn, ht⟩ := bind_eq_ok.mp ht
  rw [turn, h.value, h.next_eq hd, h.first_eq hd, hn]
  cases o with
  | some w =>
      cases ht
      obtain ⟨m, hm, hb⟩ := h.exists_rescored ho (hfam ▸ Domain.checkValue_next hn)
      exact ⟨m, by simp only [bind, Except.bind, pure, Except.pure, hm]; rfl, hb⟩
  | none =>
      obtain ⟨w, hf, ht⟩ := bind_eq_ok.mp ht
      cases ht
      obtain ⟨o, hw, hf'⟩ := bind_eq_ok.mp hf
      cases o with
      | none => cases hf'
      | some u =>
          cases hf'
          obtain ⟨m, hm, hb⟩ := h.exists_rescored ho (hfam ▸ Domain.checkValue_next hw)
          exact ⟨m, by simp only [bind, Except.bind, pure, Except.pure, hf, hm]; rfl, hb⟩

theorem turn_eq_error (h : r.Bears k) (ho : k.request.observed = none)
    (hd : k.request.family.support = .enumerable d) (ht : k.turn = .error fault) :
    r.turn d = .error fault := by
  rw [Choice.turn_of_wheel ho hd] at ht
  rw [turn, h.value, h.next_eq hd, h.first_eq hd]
  cases hn : d.next (some k.value) k.request.params with
  | error e =>
      rw [hn] at ht
      cases ht
      rfl
  | ok o =>
      rw [hn] at ht
      cases o with
      | some w => cases ht
      | none =>
          cases hf : d.first k.request.params with
          | ok w =>
              simp only [bind, Except.bind, pure, Except.pure, hf] at ht
              cases ht
          | error e =>
              simp only [bind, Except.bind, hf] at ht ⊢
              cases ht
              rfl

end Bears

end Record

/-! ### The odometer of a trace -/

namespace Trace

variable {t u : Trace} {is js : List Nat} {ks ks' : List Choice} {k : Choice} {i : Nat}
  {r : Record} {v : Value} {carry : Bool}

/-- How the odometer of a trace, on these slots and before the slots `js`, stands to that of the
choices. -/
inductive Winds (t : Trace) (is js : List Nat) (ks : List Choice) : Prop where
  | failed {fault : Fault} {u : Trace} (hw : Choice.wind ks = .error fault)
      (ht : t.advanceSlots ((is.filter t.isWheel).reverse ++ js) = (.error fault, u))
  | stopped {ks' : List Choice} {u : Trace} (hw : Choice.wind ks = .ok (ks', false))
      (hu : t.Spins is u) (hl : u.Lists Record.Bears is ks')
      (ht : t.advanceSlots ((is.filter t.isWheel).reverse ++ js) = (.ok true, u))
  | carried {ks' : List Choice} {u : Trace} (hw : Choice.wind ks = .ok (ks', true))
      (hu : t.Spins is u) (hl : u.Lists Record.Bears is ks')
      (ht : t.advanceSlots ((is.filter t.isWheel).reverse ++ js) = u.advanceSlots js)

theorem advanceSlots_of_loose (hi : t.arena.record? i = some r)
    (hf : r.family.isEnumerable = false) (is : List Nat) :
    t.advanceSlots (i :: is) = t.advanceSlots is := by
  rw [advanceSlots, hi]
  simp only
  split
  · exact absurd ‹_› (Family.support_of_loose hf _)
  · rfl

theorem advanceSlots_of_error {d : Domain} {fault : Fault} (hi : t.arena.record? i = some r)
    (hd : r.family.support = .enumerable d) (ht : r.turn d = .error fault) (is : List Nat) :
    t.advanceSlots (i :: is) = (.error fault, t) := by
  rw [advanceSlots, hi]
  simp only [hd, ht]

/-- The record of the slot is replaced, and those of the other slots stay. -/
theorem Lists.rewrite {m : Record} (hl : u.Lists Record.Bears is ks) (hni : i ∉ is)
    (hi : u.arena.record? i = some r) (hm : m.Bears k) :
    (u.rewrite i m).Lists Record.Bears (i :: is) (k :: ks) :=
  .cons ⟨m, Arena.record?_put_self ⟨r, hi⟩, hm⟩
    (hl.congr fun _ hj => Arena.record?_put_of_ne fun hij => hni (hij ▸ hj))

/-- **The odometer of a trace turns the wheels of its choices.** -/
theorem Lists.winds (h : t.Lists Record.Bears is ks) (hn : is.Nodup) :
    ∀ js, t.Winds is js ks := by
  induction h with
  | nil => exact fun js => .carried (u := t) rfl (.refl t []) .nil rfl
  | @cons i k is ks hr _ ih =>
      intro js
      obtain ⟨r, hi, hr⟩ := hr
      obtain ⟨hni, hn⟩ := List.nodup_cons.mp hn
      have hsub := List.subset_cons_self i is
      have hwheel : t.isWheel i = !k.request.observed.isSome := by
        rw [isWheel_eq hi, hr.conditioned_eq]
      -- a choice without a wheel, or after one that has stopped the odometer, keeps its record
      have hkeep : ∀ {u ks'}, t.Spins is u → u.Lists Record.Bears is ks' →
          u.Lists Record.Bears (i :: is) (k :: ks') := fun hu hl =>
        .cons ⟨r, (hu.others i hni).trans hi, hr⟩ hl
      cases ho : k.request.observed with
      | some v =>
          rw [ho] at hwheel
          have hfilter : (i :: is).filter t.isWheel = is.filter t.isWheel :=
            List.filter_cons_of_neg (by rw [hwheel]; exact Bool.false_ne_true)
          have hturn := Choice.turn_of_observed ho
          cases ih hn js with
          | failed hw ht =>
              exact .failed (by simp only [Choice.wind, hw]; rfl) (by rw [hfilter]; exact ht)
          | stopped hw hu hl ht =>
              exact .stopped (by simp only [Choice.wind, hw]; rfl) (hu.mono hsub) (hkeep hu hl)
                (by rw [hfilter]; exact ht)
          | carried hw hu hl ht =>
              refine .carried ?_ (hu.mono hsub) (hkeep hu hl) (by rw [hfilter]; exact ht)
              simp only [Choice.wind, hw, hturn, bind, Except.bind, if_true]
              rfl
      | none =>
          rw [ho] at hwheel
          have hfilter : ((i :: is).filter t.isWheel).reverse ++ js =
              (is.filter t.isWheel).reverse ++ i :: js := by
            rw [List.filter_cons_of_pos (by rw [hwheel]; rfl), List.reverse_cons,
              List.append_assoc]
            rfl
          cases ih hn (i :: js) with
          | failed hw ht =>
              exact .failed (by simp only [Choice.wind, hw]; rfl) (by rw [hfilter]; exact ht)
          | stopped hw hu hl ht =>
              exact .stopped (by simp only [Choice.wind, hw]; rfl) (hu.mono hsub) (hkeep hu hl)
                (by rw [hfilter]; exact ht)
          | @carried ks' u hw hu hl ht =>
              have hui : u.arena.record? i = some r := (hu.others i hni).trans hi
              cases hf : k.request.family.isEnumerable with
              | false =>
                  refine .carried ?_ (hu.mono hsub) (hkeep hu hl) ?_
                  · simp only [Choice.wind, hw, Choice.turn_of_loose ⟨ho, hf⟩, bind, Except.bind,
                      if_true]
                    rfl
                  · rw [hfilter, ht, advanceSlots_of_loose hui (hr.family_eq ▸ hf)]
              | true =>
                  obtain ⟨d, hd⟩ := Family.isEnumerable_iff.mp hf
                  have hrd : r.family.support = .enumerable d := hr.family_eq ▸ hd
                  cases hturn : k.turn with
                  | error fault =>
                      have hwind : Choice.wind (k :: ks) = .error fault := by
                        simp only [Choice.wind, hw, hturn, bind, Except.bind, if_true]
                      refine .failed hwind (u := u) ?_
                      rw [hfilter, ht, advanceSlots_of_error hui hrd
                        (hr.turn_eq_error ho hd hturn)]
                  | ok out =>
                      obtain ⟨v, carry⟩ := out
                      obtain ⟨m, hm, hb⟩ := hr.turn_eq ho hd hturn
                      have hwind : Choice.wind (k :: ks) =
                          .ok ({ k with value := v } :: ks', carry) := by
                        simp only [Choice.wind, hw, hturn, bind, Except.bind, if_true]
                        rfl
                      cases carry with
                      | false =>
                          exact .stopped hwind (hu.rewrite i m) (hl.rewrite hni hui hb)
                            (by rw [hfilter, ht, advanceSlots_of_stay hui hrd hm])
                      | true =>
                          exact .carried hwind (hu.rewrite i m) (hl.rewrite hni hui hb)
                            (by rw [hfilter, ht, advanceSlots_of_carry hui hrd hm])

/-- The records of the slots of the order are those of the choices. -/
theorem Lists.forall₂_records {P : Record → Choice → Prop} (h : t.Lists P t.order.toList ks) :
    List.Forall₂ P t.records ks := by
  rw [records]
  generalize t.order.toList = is at h
  induction h with
  | nil => exact .nil
  | cons hr _ ih =>
      obtain ⟨r, hi, hp⟩ := hr
      rw [List.filterMap_cons_some hi]
      exact .cons hp ih

/-- **The odometer of a trace does to the records what it does to the choices**, and fails with the
same fault. -/
theorem WellFormed.advance_wind (h : t.WellFormed) (hr : List.Forall₂ Record.Bears t.records ks) :
    (∀ fault, Choice.wind ks = .error fault → t.advance.1 = .error fault) ∧
    ∀ ks' carry, Choice.wind ks = .ok (ks', carry) →
      t.advance.1 = .ok !carry ∧ List.Forall₂ Record.Bears t.advance.2.records ks' := by
  have hrecords : ∀ {u ks'}, t.Spins t.order.toList u →
      u.Lists Record.Bears t.order.toList ks' → List.Forall₂ Record.Bears u.records ks' :=
    fun hu hl => Lists.forall₂_records (hu.order ▸ hl)
  rw [advance_eq]
  rw [← List.append_nil (t.order.toList.filter t.isWheel).reverse]
  cases (h.lists_order hr).winds h.order_nodup [] with
  | failed hw ht =>
      rw [ht, hw]
      refine ⟨fun fault he => ?_, nofun⟩
      cases he
      rfl
  | stopped hw hu hl ht =>
      rw [ht, hw]
      refine ⟨nofun, fun ks' carry he => ?_⟩
      cases he
      exact ⟨rfl, hrecords hu hl⟩
  | carried hw hu hl ht =>
      rw [ht, hw]
      refine ⟨nofun, fun ks' carry he => ?_⟩
      cases he
      exact ⟨rfl, hrecords hu hl⟩

/-- Where no record is free without a finite domain, no choice is. -/
theorem hasLoose_eq_false_iff (hr : List.Forall₂ Record.Bears t.records ks) :
    t.hasLoose = false ↔ ∀ k ∈ ks, ¬ k.Loose := by
  have hone : ∀ {r : Record} {k : Choice}, r.Bears k → (r.isLoose = true ↔ k.Loose) :=
    fun {r k} hb => by
      rw [Record.isLoose, hb.conditioned_eq, hb.family_eq, Choice.Loose]
      simp
  rw [hasLoose]
  generalize t.records = rs at hr
  induction hr with
  | nil => simp
  | cons hb _ ih =>
      rw [List.any_cons, Bool.or_eq_false_iff, List.forall_mem_cons, ← hone hb, Bool.not_eq_true]
      exact and_congr_right fun _ => ih

end Trace

end ProbTrace
