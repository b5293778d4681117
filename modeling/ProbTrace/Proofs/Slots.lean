import ProbTrace.Arena
import ProbTrace.Proofs.Naming

/-!
# Proofs — Slots: what every operation on an arena keeps

`Arena.Sound` holds at every moment, in the middle of a pass too: the free list has every empty
slot once, an address stands for a slot whose record bears it, and every record has an address
that some choice was given.  Each operation keeps it (`Sound.put`, `Sound.insert`, `Sound.remove`,
`Sound.deactivate`).

What does not hold in the middle of a pass is the converse: a record may lie in a slot that its
address no longer stands for.  `Arena.Owned` is the record's side of the index, and each operation
says what becomes of it.
-/

namespace ProbTrace.Arena

variable {a : Arena} {i j : Nat} {r r' : Record} {x : Address}

/-- Slot `i` holds a record. -/
def Occupied (a : Arena) (i : Nat) : Prop := ∃ r, a.record? i = some r

/-- The address `x` stands for slot `i`. -/
def Owned (a : Arena) (i : Nat) (x : Address) : Prop := a.slotOf? x = some i

/-- What holds of an arena at every moment. -/
structure Sound (a : Arena) : Prop where
  free_nodup : a.free.Nodup
  mem_free   : ∀ i, i ∈ a.free ↔ i < a.slots.size ∧ a.record? i = none
  bears      : ∀ {x i}, a.Owned i x → ∃ r, a.record? i = some r ∧ r.address = x
  named      : ∀ {i r}, a.record? i = some r → r.address.Named

/-! ### Slots and their range -/

theorem lt_size_of_record? (h : a.record? i = some r) : i < a.slots.size := by
  rw [record?] at h
  by_contra hi
  rw [Array.getElem?_eq_none (Nat.le_of_not_lt hi)] at h
  cases h

theorem Occupied.lt_size (h : a.Occupied i) : i < a.slots.size :=
  let ⟨_, hr⟩ := h
  lt_size_of_record? hr

theorem not_occupied_iff : ¬ a.Occupied i ↔ a.record? i = none := by
  cases h : a.record? i <;> simp [Occupied, h]

theorem record?_eq_none_of_size_le (h : a.slots.size ≤ i) : a.record? i = none := by
  rw [record?]
  rw [Array.getElem?_eq_none h]
  rfl

theorem slots_size_put (a : Arena) (i : Nat) (r : Record) :
    (a.put i r).slots.size = a.slots.size := by
  simp [put]

theorem slots_size_remove (a : Arena) (i : Nat) (r : Record) :
    (a.remove i r).slots.size = a.slots.size := by
  simp [remove]

theorem slots_size_deactivate (a : Arena) : a.deactivate.slots.size = a.slots.size := by
  simp [deactivate]

theorem owns_iff : a.owns i r = true ↔ a.Owned i r.address := by
  simp [owns, Owned]

theorem Owned.unique (h : a.Owned i x) (h' : a.Owned j x) : i = j :=
  Option.some.inj (h.symm.trans h')

/-! ### Overwriting a record -/

theorem record?_put_self (h : a.Occupied i) : (a.put i r).record? i = some r := by
  rw [record?_put, if_pos ⟨rfl, h.lt_size⟩]

theorem record?_put_of_ne (h : i ≠ j) : (a.put i r).record? j = a.record? j := by
  rw [record?_put, if_neg fun hj => h hj.1]

/-- A record found after overwriting a slot is the new one, or lies in another slot. -/
theorem record?_put_cases (h : (a.put i r).record? j = some r') :
    i = j ∧ r = r' ∨ i ≠ j ∧ a.record? j = some r' := by
  rw [record?_put] at h
  split at h
  · rename_i hij
    exact .inl ⟨hij.1, Option.some.inj h⟩
  · rename_i hij
    refine .inr ⟨?_, h⟩
    rintro rfl
    exact hij ⟨rfl, lt_size_of_record? h⟩

theorem owned_put_iff : (a.put i r).Owned j x ↔ a.Owned j x := Iff.rfl

theorem Occupied.put (h : a.Occupied j) : (a.put i r).Occupied j := by
  by_cases hij : i = j
  · subst hij
    exact ⟨r, record?_put_self h⟩
  · obtain ⟨s, hs⟩ := h
    exact ⟨s, by rw [record?_put_of_ne hij, hs]⟩

theorem Sound.put (ha : a.Sound) (hi : a.record? i = some r) (hx : r'.address = r.address) :
    (a.put i r').Sound where
  free_nodup := ha.free_nodup
  mem_free j := by
    rw [slots_size_put, show (a.put i r').free = a.free from rfl, ha.mem_free]
    by_cases hij : i = j
    · subst hij
      simp [record?_put_self ⟨r, hi⟩, hi]
    · rw [record?_put_of_ne hij]
  bears {x j} h := by
    obtain ⟨s, hs, hb⟩ := ha.bears (owned_put_iff.mp h)
    by_cases hij : i = j
    · subst hij
      cases hi.symm.trans hs
      exact ⟨r', record?_put_self ⟨_, hi⟩, hx.trans hb⟩
    · exact ⟨s, by rw [record?_put_of_ne hij, hs], hb⟩
  named {j s} h := by
    obtain ⟨rfl, rfl⟩ | ⟨-, h⟩ := record?_put_cases h
    · exact hx ▸ ha.named hi
    · exact ha.named h

/-! ### Storing a new record -/

theorem Sound.free_lt (ha : a.Sound) : ∀ i ∈ a.free, i < a.slots.size :=
  fun i h => ((ha.mem_free i).mp h).1

/-- A new record takes a slot that was empty. -/
theorem Sound.record?_fst_insert (ha : a.Sound) (r : Record) :
    a.record? (a.insert r).1 = none := by
  have hf := ha.mem_free
  rcases a with ⟨slots, _ | ⟨i, free⟩, index⟩
  · exact record?_eq_none_of_size_le (Nat.le_refl _)
  · exact ((hf i).mp List.mem_cons_self).2

theorem Sound.record?_insert_self (ha : a.Sound) (r : Record) :
    (a.insert r).2.record? (a.insert r).1 = some r := by
  rw [record?_insert _ _ _ ha.free_lt, if_pos rfl]

theorem Sound.record?_insert_of_ne (ha : a.Sound) (h : (a.insert r).1 ≠ j) :
    (a.insert r).2.record? j = a.record? j := by
  rw [record?_insert _ _ _ ha.free_lt, if_neg h]

/-- A record found after storing a new one is the new one, or lies in another slot. -/
theorem Sound.record?_insert_cases (ha : a.Sound) (h : (a.insert r).2.record? j = some r') :
    (a.insert r).1 = j ∧ r = r' ∨ (a.insert r).1 ≠ j ∧ a.record? j = some r' := by
  rw [record?_insert _ _ _ ha.free_lt] at h
  split at h
  · rename_i hij
    exact .inl ⟨hij, Option.some.inj h⟩
  · rename_i hij
    exact .inr ⟨hij, h⟩

/-- A slot that held a record still holds it. -/
theorem Sound.record?_insert_of_some (ha : a.Sound) (h : a.record? j = some r') (r : Record) :
    (a.insert r).2.record? j = some r' := by
  rw [ha.record?_insert_of_ne, h]
  rintro rfl
  rw [ha.record?_fst_insert] at h
  cases h

theorem owned_insert_self (a : Arena) (r : Record) :
    (a.insert r).2.Owned (a.insert r).1 r.address := by
  rw [Owned, slotOf?_insert, if_pos rfl]

theorem owned_insert_of_ne (h : r.address ≠ x) : (a.insert r).2.Owned j x ↔ a.Owned j x := by
  rw [Owned, Owned, slotOf?_insert, if_neg h]

theorem Occupied.insert (h : a.Occupied j) (ha : a.Sound) (r : Record) :
    (a.insert r).2.Occupied j :=
  let ⟨s, hs⟩ := h
  ⟨s, ha.record?_insert_of_some hs r⟩

/-- Of the empty slots, storing a record takes the one it goes to. -/
theorem Sound.mem_free_insert_iff (ha : a.Sound) :
    j ∈ (a.insert r).2.free ↔ j ∈ a.free ∧ (a.insert r).1 ≠ j := by
  have hn := ha.free_nodup
  rcases a with ⟨slots, _ | ⟨i, free⟩, index⟩
  · simp [Arena.insert]
  · have hi : i ∉ free := (List.nodup_cons.mp hn).1
    simp only [Arena.insert, List.mem_cons]
    constructor
    · intro h
      exact ⟨.inr h, fun he => hi (he ▸ h)⟩
    · rintro ⟨rfl | h, hne⟩
      · exact absurd rfl hne
      · exact h

/-- The only slot that storing a record may add is the one it goes to. -/
theorem lt_size_insert_iff (h : (a.insert r).1 ≠ j) :
    j < (a.insert r).2.slots.size ↔ j < a.slots.size := by
  rcases a with ⟨slots, _ | ⟨i, free⟩, index⟩
  · simp only [Arena.insert, Array.size_push] at h ⊢
    omega
  · simp [Arena.insert]

theorem Sound.insert (ha : a.Sound) (hr : r.address.Named) : (a.insert r).2.Sound where
  free_nodup := by
    have := ha.free_nodup
    rcases a with ⟨slots, _ | ⟨i, free⟩, index⟩
    · exact List.nodup_nil
    · exact (List.nodup_cons.mp this).2
  mem_free j := by
    rw [ha.mem_free_insert_iff]
    by_cases hij : (a.insert r).1 = j
    · subst hij
      simp [ha.record?_insert_self]
    · rw [ha.record?_insert_of_ne hij, lt_size_insert_iff hij, ha.mem_free]
      exact and_iff_left hij
  bears {x j} h := by
    by_cases hx : r.address = x
    · subst hx
      rw [(owned_insert_self a r).unique h |>.symm]
      exact ⟨r, ha.record?_insert_self r, rfl⟩
    · obtain ⟨s, hs, hb⟩ := ha.bears ((owned_insert_of_ne hx).mp h)
      exact ⟨s, ha.record?_insert_of_some hs r, hb⟩
  named {j s} h := by
    obtain ⟨-, rfl⟩ | ⟨-, h⟩ := ha.record?_insert_cases h
    · exact hr
    · exact ha.named h

/-! ### Emptying a slot -/

theorem record?_remove_self (a : Arena) (i : Nat) (r : Record) :
    (a.remove i r).record? i = none := by
  rw [record?_remove, if_pos rfl]

theorem record?_remove_of_ne (h : i ≠ j) : (a.remove i r).record? j = a.record? j := by
  rw [record?_remove, if_neg h]

/-- Emptying a slot takes it away from its address, and changes nothing else in the index. -/
theorem owned_remove_iff : (a.remove i r).Owned j x ↔
    a.Owned j x ∧ ¬ (a.Owned i r.address ∧ r.address = x) := by
  have ho : a.slotOf? r.address = some i ↔ a.owns i r = true := owns_iff.symm
  simp only [Owned]
  rw [slotOf?_remove, ho]
  by_cases h : a.owns i r = true ∧ r.address = x <;> simp [h]

theorem Owned.remove (h : a.Owned j x) (hij : i ≠ j) : (a.remove i r).Owned j x :=
  owned_remove_iff.mpr ⟨h, fun ⟨hi, hx⟩ => hij (hi.unique (hx ▸ h))⟩

theorem Sound.remove (ha : a.Sound) (hi : a.record? i = some r) : (a.remove i r).Sound where
  free_nodup := by
    refine List.nodup_cons.mpr ⟨fun h => ?_, ha.free_nodup⟩
    have := ((ha.mem_free i).mp h).2
    rw [hi] at this
    cases this
  mem_free j := by
    rw [slots_size_remove, record?_remove]
    by_cases hij : i = j
    · subst hij
      simp [Arena.remove, lt_size_of_record? hi]
    · rw [if_neg hij, ← ha.mem_free j]
      simp [Arena.remove, Ne.symm hij]
  bears {x j} h := by
    obtain ⟨ho, hne⟩ := owned_remove_iff.mp h
    obtain ⟨s, hs, hb⟩ := ha.bears ho
    by_cases hij : i = j
    · subst hij
      cases hi.symm.trans hs
      exact absurd ⟨hb ▸ ho, hb⟩ hne
    · exact ⟨s, by rw [record?_remove_of_ne hij, hs], hb⟩
  named {j s} h := by
    rw [record?_remove] at h
    split at h
    · cases h
    · exact ha.named h

/-! ### Marking every record as not reached -/

theorem record?_deactivate_eq_some_iff :
    a.deactivate.record? i = some r ↔
      ∃ s, a.record? i = some s ∧ { s with active := false } = r := by
  rw [record?_deactivate, Option.map_eq_some_iff]

theorem occupied_deactivate_iff : a.deactivate.Occupied i ↔ a.Occupied i := by
  simp [Occupied, record?_deactivate]

theorem owned_deactivate_iff : a.deactivate.Owned i x ↔ a.Owned i x := Iff.rfl

theorem Sound.deactivate (ha : a.Sound) : a.deactivate.Sound where
  free_nodup := ha.free_nodup
  mem_free j := by
    rw [slots_size_deactivate, record?_deactivate, Option.map_eq_none_iff]
    exact ha.mem_free j
  bears {x j} h := by
    obtain ⟨s, hs, hb⟩ := ha.bears (owned_deactivate_iff.mp h)
    exact ⟨_, record?_deactivate_eq_some_iff.mpr ⟨s, hs, rfl⟩, hb⟩
  named {j s} h := by
    obtain ⟨r, hr, rfl⟩ := record?_deactivate_eq_some_iff.mp h
    exact ha.named (r := r) hr

/-! ### The records in the order of their slots -/

/-- The records in the first `k` slots, with the slots. -/
def occupantsBelow (a : Arena) (k : Nat) : List (Nat × Record) :=
  (List.range k).filterMap fun i => (a.record? i).map fun r => (i, r)

/-- Every record, with its slot. -/
def occupants (a : Arena) : List (Nat × Record) := a.occupantsBelow a.slots.size

theorem occupantsBelow_succ_of_none {k : Nat} (h : a.record? k = none) :
    a.occupantsBelow (k + 1) = a.occupantsBelow k := by
  simp [occupantsBelow, List.range_succ, h]

theorem occupantsBelow_succ_of_some {k : Nat} (h : a.record? k = some r) :
    a.occupantsBelow (k + 1) = a.occupantsBelow k ++ [(k, r)] := by
  simp [occupantsBelow, List.range_succ, h]

theorem mem_occupants : (i, r) ∈ a.occupants ↔ a.record? i = some r := by
  simp only [occupants, occupantsBelow, List.mem_filterMap, List.mem_range, Option.map_eq_some_iff]
  constructor
  · rintro ⟨j, -, s, hs, he⟩
    cases he
    exact hs
  · intro h
    exact ⟨i, lt_size_of_record? h, r, h, rfl⟩

theorem map_fst_occupantsBelow (a : Arena) (k : Nat) :
    (a.occupantsBelow k).map (·.1) = (List.range k).filter fun i => (a.record? i).isSome := by
  induction k with
  | zero => rfl
  | succ k ih =>
      rw [List.range_succ, List.filter_append, ← ih]
      cases h : a.record? k with
      | none => simp [occupantsBelow_succ_of_none h, h]
      | some r => simp [occupantsBelow_succ_of_some h, h]

/-- Every slot is listed at most once. -/
theorem nodup_occupants (a : Arena) : (a.occupants.map (·.1)).Nodup := by
  rw [occupants, map_fst_occupantsBelow]
  exact List.nodup_range.filter _

/-- The slots lead back to the records. -/
theorem filterMap_occupants (a : Arena) :
    (a.occupants.map (·.1)).filterMap a.record? = a.occupants.map (·.2) := by
  rw [List.filterMap_map]
  refine (List.filterMap_congr fun w hw => ?_).trans (congrFun List.filterMap_eq_map' _)
  exact mem_occupants.mp hw

end ProbTrace.Arena
