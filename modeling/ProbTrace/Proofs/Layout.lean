import ProbTrace.Proofs.Serving

/-!
# Proofs — Layout: the trace in the middle of a pass

In the middle of a pass the order, the index and the marks of a trace disagree on purpose: the
order still lists what the previous pass visited, a record that was taken over is found by no
address, and a record that was not reached is still found.  `Trace.Layout` is what holds all the
same.  The marked records are those visited so far, each listed once; a record that its address no
longer stands for is unmarked, and its address was claimed in this pass.

`Layout.serve` is the step: a choice at an address not claimed before keeps the layout.  No address
is claimed twice in a pass (`CallSites.not_claimed_claim`), which is why a taken-over record is
never asked for again.
-/

namespace ProbTrace.Trace

variable {t : Trace} {c c' : CallSites} {i : Nat} {r r₀ : Record} {x : Address} {q : Request}

/-- What holds of a trace in the middle of a pass, with the addresses that `c` counted. -/
structure Layout (t : Trace) (c : CallSites) : Prop where
  arena     : t.arena.Sound
  cursor_le : t.cursor ≤ t.order.size
  occupied  : ∀ i ∈ t.order.toList, t.arena.Occupied i
  nodup     : t.visited.Nodup
  /-- The visited slots are those of the marked records. -/
  mem_visited : ∀ i, i ∈ t.visited ↔ ∃ r, t.arena.record? i = some r ∧ r.active = true
  /-- An address stands for its record, unless another record has taken it over. -/
  owned : ∀ {i r}, t.arena.record? i = some r →
    t.arena.Owned i r.address ∨ (r.active = false ∧ c.Claimed r.address)
  /-- The addresses of the marked records were claimed. -/
  claimed : ∀ {i r}, t.arena.record? i = some r → r.active = true → c.Claimed r.address

/-! ### The order of visits -/

theorem visited_of_size_le (h : t.order.size ≤ t.cursor) : t.visited = t.order.toList :=
  List.take_of_length_le h

theorem visited_forgetRest (t : Trace) : t.forgetRest.visited = t.visited := by
  simp [visited, forgetRest, List.take_take]

theorem toList_order_forgetRest (t : Trace) : t.forgetRest.order.toList = t.visited := by
  simp [visited, forgetRest]

theorem size_order_forgetRest (h : t.cursor ≤ t.order.size) :
    t.forgetRest.order.size = t.cursor := by
  simp [forgetRest, h]

theorem forgetRest_of_size_le (h : t.order.size ≤ t.cursor) : t.forgetRest = t := by
  rw [forgetRest, Array.take_eq_extract, Array.extract_eq_self_of_le h]

theorem visited_visit (h : t.order.size = t.cursor) (i : Nat) (r : Record) :
    (t.visit i r).visited = t.visited ++ [i] := by
  rw [visited_of_size_le (Nat.le_of_eq h), visited_of_size_le (by simp [visit, h])]
  simp [visit]

theorem visited_visitNew (h : t.order.size = t.cursor) (g : Generator) (r : Record) :
    (t.visitNew g r).visited = t.visited ++ [(t.arena.insert r).1] := by
  rw [visited_of_size_le (Nat.le_of_eq h), visited_of_size_le (by simp [visitNew, h])]
  simp [visitNew]

/-! ### What keeps the layout -/

namespace Layout

/-- The layout depends on the arena, the order and the cursor only. -/
theorem congr (h : Layout t c) {t' : Trace} (ha : t'.arena = t.arena) (ho : t'.order = t.order)
    (hc : t'.cursor = t.cursor) : Layout t' c := by
  have hv : t'.visited = t.visited := by rw [visited, visited, ho, hc]
  exact
    { arena := ha ▸ h.arena
      cursor_le := by rw [hc, ho]; exact h.cursor_le
      occupied := ho ▸ ha ▸ h.occupied
      nodup := hv ▸ h.nodup
      mem_visited := hv ▸ ha ▸ h.mem_visited
      owned := ha ▸ h.owned
      claimed := ha ▸ h.claimed }

/-- Claiming more addresses keeps the layout. -/
theorem mono (h : Layout t c) (hc : ∀ y, c.Claimed y → c'.Claimed y) : Layout t c' :=
  { h with
    owned := fun hi => (h.owned hi).imp_right fun ⟨ha, hy⟩ => ⟨ha, hc _ hy⟩
    claimed := fun hi ha => hc _ (h.claimed hi ha) }

/-- Forgetting the rest of the previous order keeps the layout. -/
theorem forgetRest (h : Layout t c) : Layout t.forgetRest c :=
  { h with
    cursor_le := Nat.le_of_eq (size_order_forgetRest h.cursor_le).symm
    occupied := fun i hi => by
      rw [toList_order_forgetRest] at hi
      exact h.occupied i (List.mem_of_mem_take hi)
    nodup := by rw [visited_forgetRest]; exact h.nodup
    mem_visited := by rw [visited_forgetRest]; exact h.mem_visited }

/-- Nothing more is asked of the rest of the previous order than that it lists records. -/
theorem of_forgetRest (h : Layout t.forgetRest c) (hl : t.cursor ≤ t.order.size)
    (ho : ∀ i ∈ t.order.toList, t.arena.Occupied i) : Layout t c :=
  { h with
    cursor_le := hl
    occupied := ho
    nodup := by rw [← visited_forgetRest]; exact h.nodup
    mem_visited := by rw [← visited_forgetRest]; exact h.mem_visited }

/-- Overwriting a record with one of the same address and mark keeps the layout. -/
theorem put (h : Layout t c) (hi : t.arena.record? i = some r₀) (hx : r.address = r₀.address)
    (hm : r.active = r₀.active) : Layout { t with arena := t.arena.put i r } c where
  arena := h.arena.put hi hx
  cursor_le := h.cursor_le
  occupied j hj := (h.occupied j hj).put
  nodup := h.nodup
  mem_visited j := by
    rw [show visited { t with arena := t.arena.put i r } = t.visited from rfl, h.mem_visited]
    by_cases hij : i = j
    · subst hij
      simp only [Arena.record?_put_self ⟨_, hi⟩, hi, Option.some_inj, exists_eq_left', hm]
    · simp only [Arena.record?_put_of_ne hij]
  owned {j s} hj := by
    obtain ⟨rfl, rfl⟩ | ⟨-, hj⟩ := Arena.record?_put_cases hj
    · rw [Arena.owned_put_iff, hx, hm]
      exact h.owned hi
    · exact h.owned hj
  claimed {j s} hj hs := by
    obtain ⟨rfl, rfl⟩ | ⟨-, hj⟩ := Arena.record?_put_cases hj
    · rw [hx]
      exact h.claimed hi (hm ▸ hs)
    · exact h.claimed hj hs

/-- A record whose address was not claimed yet has not been visited. -/
theorem not_mem_visited (h : Layout t c) (hi : t.arena.record? i = some r)
    (hn : ¬ c.Claimed r.address) : i ∉ t.visited := by
  intro hv
  obtain ⟨s, hs, ha⟩ := (h.mem_visited i).mp hv
  rw [hi] at hs
  cases hs
  exact hn (h.claimed hi ha)

/-- A record that an address stands for may be visited, when the address is claimed just then. -/
theorem visit (h : Layout t c) (ht : t.order.size = t.cursor)
    (hi : t.arena.record? i = some r₀) (hx : r.address = r₀.address)
    (ho : t.arena.Owned i r₀.address) (hn : ¬ c.Claimed r₀.address)
    (hc : ∀ y, c.Claimed y → c'.Claimed y) (hr : c'.Claimed r₀.address) :
    Layout (t.visit i r) c' where
  arena := h.arena.put hi hx
  cursor_le := by simp [Trace.visit, ht]
  occupied j hj := by
    simp only [Trace.visit, Array.toList_push, List.mem_append, List.mem_singleton] at hj
    rcases hj with hj | rfl
    · exact (h.occupied j hj).put
    · exact Arena.Occupied.put ⟨_, hi⟩
  nodup := by
    rw [visited_visit ht]
    exact List.nodup_append.mpr ⟨h.nodup, by simp, fun j hj k hk hjk => by
      rw [List.mem_singleton] at hk
      subst hjk hk
      exact h.not_mem_visited hi hn hj⟩
  mem_visited j := by
    rw [visited_visit ht, List.mem_append, List.mem_singleton, h.mem_visited]
    simp only [Trace.visit]
    by_cases hij : i = j
    · subst hij
      simp [Arena.record?_put_self ⟨_, hi⟩]
    · simp [Arena.record?_put_of_ne hij, Ne.symm hij]
  owned {j s} hj := by
    rw [show (t.visit i r).arena.Owned j s.address ↔ t.arena.Owned j s.address from Iff.rfl]
    obtain ⟨rfl, rfl⟩ | ⟨-, hj⟩ := Arena.record?_put_cases hj
    · exact .inl (hx ▸ ho)
    · exact (h.owned hj).imp_right fun ⟨ha, hy⟩ => ⟨ha, hc _ hy⟩
  claimed {j s} hj hs := by
    obtain ⟨rfl, rfl⟩ | ⟨-, hj⟩ := Arena.record?_put_cases hj
    · exact hx ▸ hr
    · exact hc _ (h.claimed hj hs)

/-- A new record may be stored and visited, when its address is claimed just then. -/
theorem visitNew (h : Layout t c) (ht : t.order.size = t.cursor) (g : Generator)
    (hm : r.active = true) (hN : r.address.Named) (hn : ¬ c.Claimed r.address)
    (hc : ∀ y, c.Claimed y → c'.Claimed y) (hr : c'.Claimed r.address) :
    Layout (t.visitNew g r) c' where
  arena := h.arena.insert hN
  cursor_le := by simp [Trace.visitNew, ht]
  occupied j hj := by
    simp only [Trace.visitNew, Array.toList_push, List.mem_append, List.mem_singleton] at hj
    rcases hj with hj | rfl
    · exact (h.occupied j hj).insert h.arena r
    · exact ⟨r, h.arena.record?_insert_self r⟩
  nodup := by
    rw [visited_visitNew ht]
    refine List.nodup_append.mpr ⟨h.nodup, by simp, fun j hj k hk hjk => ?_⟩
    rw [List.mem_singleton] at hk
    subst hjk hk
    -- the slot of a new record was empty, and visited ones are not
    obtain ⟨s, hs, -⟩ := (h.mem_visited _).mp hj
    rw [h.arena.record?_fst_insert] at hs
    cases hs
  mem_visited j := by
    rw [visited_visitNew ht, List.mem_append, List.mem_singleton, h.mem_visited]
    simp only [Trace.visitNew]
    by_cases hij : (t.arena.insert r).1 = j
    · subst hij
      simp [h.arena.record?_insert_self, hm]
    · simp [h.arena.record?_insert_of_ne hij, Ne.symm hij]
  owned {j s} hj := by
    simp only [Trace.visitNew]
    obtain ⟨rfl, rfl⟩ | ⟨-, hj⟩ := h.arena.record?_insert_cases hj
    · exact .inl (Arena.owned_insert_self _ _)
    · by_cases hy : r.address = s.address
      · -- The record that loses its address here was not visited: the address was unclaimed.
        refine .inr ⟨?_, hy ▸ hr⟩
        cases hs : s.active with
        | false => rfl
        | true => exact absurd (h.claimed hj hs) (hy ▸ hn)
      · rw [Arena.owned_insert_of_ne hy]
        exact (h.owned hj).imp_right fun ⟨ha, hy⟩ => ⟨ha, hc _ hy⟩
  claimed {j s} hj hs := by
    obtain ⟨rfl, rfl⟩ | ⟨-, hj⟩ := h.arena.record?_insert_cases hj
    · exact hr
    · exact hc _ (h.claimed hj hs)

/-- **A choice at an address not claimed before keeps the layout.** -/
theorem serve (h : Layout t c) (ht : t.order.size = t.cursor) (hN : x.Named)
    (hn : ¬ c.Claimed x) (hc : ∀ y, c'.Claimed y ↔ c.Claimed y ∨ y = x) (b : Bool) :
    Layout (t.serve x q b).2 c' := by
  have hmono : ∀ y, c.Claimed y → c'.Claimed y := fun y hy => (hc y).mpr (.inl hy)
  have hx' : c'.Claimed x := (hc x).mpr (.inr rfl)
  -- a record that serves the request bears the address, which nothing has taken over
  have hstored : ∀ {i r}, t.serving? x q = some (i, r) →
      t.arena.Owned i x ∧ t.arena.record? i = some r ∧ r.address = x := fun {i r} hs => by
    obtain ⟨ho, hr, -⟩ := serving?_eq_some_iff.mp hs
    obtain ⟨r', hr', hx⟩ := h.arena.bears ho
    rw [hr] at hr'
    cases hr'
    exact ⟨ho, hr, hx⟩
  have hs := t.serves x q b
  generalize t.serve x q b = out at hs ⊢
  cases hs with
  | undrawn => exact h.mono hmono
  | unscored => exact mono (congr h (by rfl) (by rfl) (by rfl)) hmono
  | created => exact h.visitNew ht _ rfl hN hn hmono hx'
  | @refused i r s e hr hq =>
      obtain ⟨-, hi, -⟩ := hstored hr
      have hx := r.address_refreshed q
      have hm := r.active_refreshed q
      rw [hq] at hx hm
      exact (h.put hi hx hm).mono hmono
  | @reused i r s hr hq =>
      obtain ⟨ho, hi, rfl⟩ := hstored hr
      have hx := r.address_refreshed q
      rw [hq] at hx
      exact h.visit ht hi hx ho hn hmono hx'

end Layout

end ProbTrace.Trace
