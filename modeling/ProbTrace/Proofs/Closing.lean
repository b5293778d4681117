import ProbTrace.Proofs.Layout

/-!
# Proofs — Closing: the trace between two passes

`Trace.WellFormed` is what holds of a trace while no pass is running: addresses and occupied slots
answer each other, the order lists every occupied slot once, the free list every empty one, and the
cursor has come to the end of the order.

A pass that starts gives up the marks and the cursor (`WellFormed.layout_start`), keeps the layout
while it runs, and gets the rest back when it ends, in one of two ways.  Pruning empties the slots
of the records that were not reached (`Pruned`, `wellFormed_complete`).  Abandoning keeps every
record that its address stands for, in the order of the slots (`Salvaged`, `wellFormed_abandon`).
Both go once through the slots; what they have done below slot `k` is what one more slot adds to.
-/

namespace ProbTrace

/-- The sum of the logarithms of the densities, from the left, onto a start. -/
def Record.sumOnto (start : Float) (rs : List Record) : Float :=
  rs.foldl (fun sum r => sum + r.logDensity) start

theorem Record.sumOnto_append_singleton (start : Float) (rs : List Record) (r : Record) :
    Record.sumOnto start (rs ++ [r]) = Record.sumOnto start rs + r.logDensity := by
  simp [Record.sumOnto]

namespace Arena

/-- The records below slot `k` that the pass did not reach. -/
def unreachedBelow (a : Arena) (k : Nat) : List Record :=
  ((a.occupantsBelow k).filter fun w => !w.2.active).map (·.2)

/-- The records below slot `k` that their address stands for, with their slots. -/
def ownersBelow (a : Arena) (k : Nat) : List (Nat × Record) :=
  (a.occupantsBelow k).filter fun w => a.owns w.1 w.2

/-- The records below slot `k` whose address another one took over. -/
def displacedBelow (a : Arena) (k : Nat) : List Record :=
  ((a.occupantsBelow k).filter fun w => !a.owns w.1 w.2).map (·.2)

variable (a : Arena) (k : Nat)

theorem unreachedBelow_succ : a.unreachedBelow (k + 1) =
    a.unreachedBelow k ++ ((a.record? k).filter (!·.active)).toList := by
  cases hk : a.record? k with
  | none => simp [unreachedBelow, occupantsBelow_succ_of_none hk]
  | some r => cases hr : r.active <;>
      simp [unreachedBelow, occupantsBelow_succ_of_some hk, Option.filter_some, hr]

theorem ownersBelow_succ : a.ownersBelow (k + 1) =
    a.ownersBelow k ++ (((a.record? k).filter (a.owns k)).map fun r => (k, r)).toList := by
  cases hk : a.record? k with
  | none => simp [ownersBelow, occupantsBelow_succ_of_none hk]
  | some r => cases hr : a.owns k r <;>
      simp [ownersBelow, occupantsBelow_succ_of_some hk, Option.filter_some, hr]

theorem displacedBelow_succ : a.displacedBelow (k + 1) =
    a.displacedBelow k ++ ((a.record? k).filter fun r => !a.owns k r).toList := by
  cases hk : a.record? k with
  | none => simp [displacedBelow, occupantsBelow_succ_of_none hk]
  | some r => cases hr : a.owns k r <;>
      simp [displacedBelow, occupantsBelow_succ_of_some hk, Option.filter_some, hr]

end Arena

namespace Trace

variable {t t₀ : Trace} {c : CallSites} {i k : Nat} {r : Record} {x : Address}

/-- What holds of a trace while no pass is running. -/
structure WellFormed (t : Trace) : Prop where
  /-- An address stands for the slot of the record that bears it, and for no other. -/
  owned_iff   : ∀ x i, t.arena.Owned i x ↔ ∃ r, t.arena.record? i = some r ∧ r.address = x
  order_nodup : t.order.toList.Nodup
  mem_order   : ∀ i, i ∈ t.order.toList ↔ t.arena.Occupied i
  free_nodup  : t.arena.free.Nodup
  mem_free    : ∀ i, i ∈ t.arena.free ↔ i < t.arena.slots.size ∧ ¬ t.arena.Occupied i
  cursor_eq   : t.cursor = t.order.size
  active      : ∀ {i r}, t.arena.record? i = some r → r.active = true
  named       : ∀ {i r}, t.arena.record? i = some r → r.address.Named

namespace WellFormed

theorem arena (h : t.WellFormed) : t.arena.Sound where
  free_nodup := h.free_nodup
  mem_free i := by rw [h.mem_free, Arena.not_occupied_iff]
  bears ho := (h.owned_iff _ _).mp ho
  named := h.named

theorem owned (h : t.WellFormed) (hi : t.arena.record? i = some r) :
    t.arena.Owned i r.address :=
  (h.owned_iff _ _).mpr ⟨r, hi, rfl⟩

theorem record?_start {fixed : Bool} (hi : (t.start fixed).arena.record? i = some r) :
    r.active = false ∧ ∃ s, t.arena.record? i = some s ∧ s.address = r.address := by
  obtain ⟨s, hs, rfl⟩ := Arena.record?_deactivate_eq_some_iff.mp hi
  exact ⟨rfl, s, hs, rfl⟩

/-- At the start of a pass nothing has been visited and nothing taken over. -/
theorem layout_start (h : t.WellFormed) (fixed : Bool) : (t.start fixed).Layout .empty where
  arena := h.arena.deactivate
  cursor_le := Nat.zero_le _
  occupied j hj := by
    refine Arena.occupied_deactivate_iff.mpr ((h.mem_order j).mp ?_)
    cases fixed with
    | true => exact hj
    | false => exact absurd hj List.not_mem_nil
  nodup := List.nodup_nil
  mem_visited j := by
    refine iff_of_false List.not_mem_nil ?_
    rintro ⟨r, hr, ha⟩
    rw [(record?_start hr).1] at ha
    cases ha
  owned {j r} hj := by
    obtain ⟨-, s, hs, hx⟩ := record?_start hj
    exact .inl (hx ▸ h.owned hs)
  claimed {j r} hj ha := by
    rw [(record?_start hj).1] at ha
    cases ha

end WellFormed

/-- What is left to go through after one more slot. -/
theorem succ_le_iff_of_ne (h : i ≠ k) : k + 1 ≤ i ↔ k ≤ i := by omega

/-! ### Pruning -/

/-- The trace `t₀` after pruning has gone through the slots below `k`. -/
structure Pruned (t₀ : Trace) (k : Nat) (t : Trace) : Prop where
  frame   : t = { t₀ with arena := t.arena, dropped := t.dropped, removed := t.removed }
  size    : t.arena.slots.size = t₀.arena.slots.size
  sound   : t.arena.Sound
  record  : ∀ i, t.arena.record? i = (t₀.arena.record? i).filter fun r => r.active || k ≤ i
  owned   : ∀ {i r}, t₀.arena.record? i = some r → r.active = true →
    t₀.arena.Owned i r.address → t.arena.Owned i r.address
  removed : t.removed.toList = t₀.removed.toList ++ t₀.arena.unreachedBelow k
  dropped : t.dropped = Record.sumOnto t₀.dropped (t₀.arena.unreachedBelow k)

namespace Pruned

theorem zero (h : t₀.arena.Sound) : Pruned t₀ 0 t₀ where
  frame := rfl
  size := rfl
  sound := h
  record i := by
    cases t₀.arena.record? i with
    | none => rfl
    | some r => simp [Option.filter_some]
  owned _ _ ho := ho
  removed := by simp [Arena.unreachedBelow, Arena.occupantsBelow]
  dropped := rfl

/-- A slot without an unreached record is passed over. -/
theorem skip (h : Pruned t₀ k t) (hk : ∀ r, t₀.arena.record? k = some r → r.active = true) :
    Pruned t₀ (k + 1) t := by
  have hu : t₀.arena.unreachedBelow (k + 1) = t₀.arena.unreachedBelow k := by
    rw [Arena.unreachedBelow_succ, Option.filter_eq_none_iff.mpr fun r hr => by simp [hk r hr]]
    exact List.append_nil _
  refine { h with record := fun i => ?_, removed := hu ▸ h.removed, dropped := hu ▸ h.dropped }
  rw [h.record i]
  by_cases hi : i = k
  · subst hi
    cases hr : t₀.arena.record? i with
    | none => rfl
    | some r => simp [Option.filter_some, hk r hr]
  · simp only [succ_le_iff_of_ne hi]

/-- An unreached record is dropped. -/
theorem drop (h : Pruned t₀ k t) (h₀ : t₀.arena.record? k = some r) (ha : r.active = false)
    (hk : t.arena.record? k = some r) : Pruned t₀ (k + 1) (t.drop k r) := by
  have hu : t₀.arena.unreachedBelow (k + 1) = t₀.arena.unreachedBelow k ++ [r] := by
    simp [Arena.unreachedBelow_succ, h₀, Option.filter_some, ha]
  exact
    { frame := by
        rw [h.frame]
        rfl
      size := (Arena.slots_size_remove _ _ _).trans h.size
      sound := h.sound.remove hk
      record := fun i => by
        show (t.arena.remove k r).record? i = _
        by_cases hi : i = k
        · subst hi
          simp [Arena.record?_remove_self, h₀, Option.filter_some, ha]
        · rw [Arena.record?_remove_of_ne (Ne.symm hi), h.record i]
          simp only [succ_le_iff_of_ne hi]
      owned := fun {i s} hs hsa ho => by
        refine (h.owned hs hsa ho).remove ?_
        rintro rfl
        rw [h₀] at hs
        cases hs
        rw [ha] at hsa
        cases hsa
      removed := by
        rw [hu, ← List.append_assoc, ← h.removed]
        simp [Trace.drop]
      dropped := by
        rw [hu, Record.sumOnto_append_singleton, ← h.dropped]
        rfl }

/-- One more slot. -/
theorem step (h : Pruned t₀ k t) : Pruned t₀ (k + 1) (t.pruneSlot k) := by
  have hk := h.record k
  cases h₀ : t₀.arena.record? k with
  | none =>
      rw [h₀, Option.filter_none] at hk
      simp only [pruneSlot, hk]
      refine h.skip fun r hr => ?_
      rw [h₀] at hr
      cases hr
  | some r =>
      -- the slots from `k` on are as they were
      rw [h₀, Option.filter_some, if_pos (by simp)] at hk
      cases ha : r.active with
      | true =>
          simp only [pruneSlot, hk, ha, if_true]
          refine h.skip fun s hs => ?_
          rw [h₀] at hs
          cases hs
          exact ha
      | false =>
          simp only [pruneSlot, hk, ha, Bool.false_eq_true, if_false]
          exact h.drop h₀ ha hk

theorem foldl (h : t₀.arena.Sound) (k : Nat) :
    Pruned t₀ k ((List.range k).foldl pruneSlot t₀) := by
  induction k with
  | zero => exact zero h
  | succ k ih =>
      rw [List.range_succ, List.foldl_append]
      exact ih.step

end Pruned

/-- Pruning goes through all slots. -/
theorem pruned_complete (h : t.Layout c) (v : Value) :
    Pruned { t with returned := some v }.forgetRest t.arena.slots.size (t.complete v) := by
  have ha : { t with returned := some v }.forgetRest.arena.Sound := h.arena
  exact Pruned.foldl ha _

/-- A record that is left after pruning is one that the pass reached. -/
theorem record?_complete_eq_some_iff (h : t.Layout c) (v : Value) :
    (t.complete v).arena.record? i = some r ↔ t.arena.record? i = some r ∧ r.active = true := by
  rw [(pruned_complete h v).record i, Option.filter_eq_some_iff]
  refine and_congr_right fun hr => ?_
  have hi : i < t.arena.slots.size := Arena.lt_size_of_record? hr
  simp [Nat.not_le.mpr hi]

/-- **A trace whose pass was completed is well formed.** -/
theorem wellFormed_complete (h : t.Layout c) (v : Value) : (t.complete v).WellFormed := by
  have hp := pruned_complete h v
  have hord : (t.complete v).order.toList = t.visited := by
    rw [hp.frame]
    exact toList_order_forgetRest t
  have hrec := fun {i r} => record?_complete_eq_some_iff (i := i) (r := r) h v
  have howned : ∀ {i r}, (t.complete v).arena.record? i = some r →
      (t.complete v).arena.Owned i r.address := fun {i r} hr => by
    obtain ⟨hr, ha⟩ := hrec.mp hr
    -- only records that were not reached lose their address, and those are gone
    rcases h.owned hr with ho | ⟨hn, -⟩
    · exact hp.owned hr ha ho
    · rw [ha] at hn
      cases hn
  exact
    { owned_iff := fun x i => by
        refine ⟨hp.sound.bears, ?_⟩
        rintro ⟨r, hr, rfl⟩
        exact howned hr
      order_nodup := hord ▸ h.nodup
      mem_order := fun i => by
        rw [hord, h.mem_visited]
        simp only [Arena.Occupied, hrec]
      free_nodup := hp.sound.free_nodup
      mem_free := fun i => by rw [hp.sound.mem_free, Arena.not_occupied_iff]
      cursor_eq := by
        rw [hp.frame]
        exact (size_order_forgetRest h.cursor_le).symm
      active := fun hr => (hrec.mp hr).2
      named := hp.sound.named }

/-! ### Abandoning -/

/-- The trace `t₀` after abandoning has gone through the slots below `k`. -/
structure Salvaged (t₀ : Trace) (k : Nat) (t : Trace) : Prop where
  frame   : t = { t₀ with
    arena := t.arena, joint := t.joint, order := t.order, dropped := t.dropped,
    removed := t.removed }
  size    : t.arena.slots.size = t₀.arena.slots.size
  sound   : t.arena.Sound
  slotOf? : ∀ x, t.arena.slotOf? x = t₀.arena.slotOf? x
  record  : ∀ i, t.arena.record? i =
    if k ≤ i then t₀.arena.record? i
    else ((t₀.arena.record? i).filter (t₀.arena.owns i)).map fun r => { r with active := true }
  order   : t.order.toList = t₀.order.toList ++ (t₀.arena.ownersBelow k).map (·.1)
  joint   : t.joint = Record.sumOnto t₀.joint ((t₀.arena.ownersBelow k).map (·.2))
  removed : t.removed.toList = t₀.removed.toList ++ t₀.arena.displacedBelow k
  dropped : t.dropped = Record.sumOnto t₀.dropped (t₀.arena.displacedBelow k)

namespace Salvaged

theorem zero (h : t₀.arena.Sound) : Salvaged t₀ 0 t₀ where
  frame := rfl
  size := rfl
  sound := h
  slotOf? _ := rfl
  record i := by simp
  order := by simp [Arena.ownersBelow, Arena.occupantsBelow]
  joint := rfl
  removed := by simp [Arena.displacedBelow, Arena.occupantsBelow]
  dropped := rfl

theorem owns_eq (h : Salvaged t₀ k t) (i : Nat) (r : Record) :
    t.arena.owns i r = t₀.arena.owns i r := by
  rw [Arena.owns, Arena.owns, h.slotOf?]

/-- An empty slot is passed over. -/
theorem skip (h : Salvaged t₀ k t) (h₀ : t₀.arena.record? k = none) :
    Salvaged t₀ (k + 1) t := by
  have ho : t₀.arena.ownersBelow (k + 1) = t₀.arena.ownersBelow k := by
    simp [Arena.ownersBelow_succ, h₀]
  have hd : t₀.arena.displacedBelow (k + 1) = t₀.arena.displacedBelow k := by
    simp [Arena.displacedBelow_succ, h₀]
  refine { h with
    record := fun i => ?_, order := ho ▸ h.order, joint := ho ▸ h.joint
    removed := hd ▸ h.removed, dropped := hd ▸ h.dropped }
  rw [h.record i]
  by_cases hi : i = k
  · subst hi
    simp [h₀]
  · simp only [succ_le_iff_of_ne hi]

/-- A record that its address stands for is kept. -/
theorem keep (h : Salvaged t₀ k t) (h₀ : t₀.arena.record? k = some r)
    (hr : t₀.arena.owns k r = true) (hk : t.arena.record? k = some r) :
    Salvaged t₀ (k + 1) { t with
      arena := t.arena.put k { r with active := true }
      joint := t.joint + r.logDensity
      order := t.order.push k } := by
  have ho : t₀.arena.ownersBelow (k + 1) = t₀.arena.ownersBelow k ++ [(k, r)] := by
    simp [Arena.ownersBelow_succ, h₀, Option.filter_some, hr]
  have hd : t₀.arena.displacedBelow (k + 1) = t₀.arena.displacedBelow k := by
    simp [Arena.displacedBelow_succ, h₀, Option.filter_some, hr]
  exact
    { frame := by rw [h.frame]
      size := (Arena.slots_size_put _ _ _).trans h.size
      sound := h.sound.put hk rfl
      slotOf? := h.slotOf?
      record := fun i => by
        show (t.arena.put k { r with active := true }).record? i = _
        by_cases hi : i = k
        · subst hi
          rw [if_neg (Nat.not_succ_le_self i), Arena.record?_put_self ⟨r, hk⟩, h₀]
          simp [Option.filter_some, hr]
        · rw [Arena.record?_put_of_ne (Ne.symm hi), h.record i]
          simp only [succ_le_iff_of_ne hi]
      order := by
        rw [ho, List.map_append, ← List.append_assoc, ← h.order]
        simp
      joint := by
        rw [ho, List.map_append, List.map_singleton, Record.sumOnto_append_singleton, ← h.joint]
      removed := hd ▸ h.removed
      dropped := hd ▸ h.dropped }

/-- A record whose address another one took over is dropped. -/
theorem drop (h : Salvaged t₀ k t) (h₀ : t₀.arena.record? k = some r)
    (hr : t₀.arena.owns k r = false) (hk : t.arena.record? k = some r) :
    Salvaged t₀ (k + 1) (t.drop k r) := by
  have ho : t₀.arena.ownersBelow (k + 1) = t₀.arena.ownersBelow k := by
    simp [Arena.ownersBelow_succ, h₀, Option.filter_some, hr]
  have hd : t₀.arena.displacedBelow (k + 1) = t₀.arena.displacedBelow k ++ [r] := by
    simp [Arena.displacedBelow_succ, h₀, Option.filter_some, hr]
  exact
    { frame := by
        rw [h.frame]
        rfl
      size := (Arena.slots_size_remove _ _ _).trans h.size
      sound := h.sound.remove hk
      slotOf? := fun x => by
        show (t.arena.remove k r).slotOf? x = _
        -- the address stays with the record that took it over
        rw [Arena.slotOf?_remove, if_neg, h.slotOf?]
        rintro ⟨ht, -⟩
        rw [h.owns_eq, hr] at ht
        cases ht
      record := fun i => by
        show (t.arena.remove k r).record? i = _
        by_cases hi : i = k
        · subst hi
          simp [Arena.record?_remove_self, h₀, Option.filter_some, hr]
        · rw [Arena.record?_remove_of_ne (Ne.symm hi), h.record i]
          simp only [succ_le_iff_of_ne hi]
      order := ho ▸ h.order
      joint := ho ▸ h.joint
      removed := by
        rw [hd, ← List.append_assoc, ← h.removed]
        simp [Trace.drop]
      dropped := by
        rw [hd, Record.sumOnto_append_singleton, ← h.dropped]
        rfl }

/-- One more slot. -/
theorem step (h : Salvaged t₀ k t) : Salvaged t₀ (k + 1) (t.salvageSlot k) := by
  have hk := h.record k
  rw [if_pos (Nat.le_refl k)] at hk
  cases h₀ : t₀.arena.record? k with
  | none =>
      rw [h₀] at hk
      simp only [salvageSlot, hk]
      exact h.skip h₀
  | some r =>
      rw [h₀] at hk
      cases hr : t₀.arena.owns k r with
      | true =>
          simp only [salvageSlot, hk, h.owns_eq, hr, if_true]
          exact h.keep h₀ hr hk
      | false =>
          simp only [salvageSlot, hk, h.owns_eq, hr, Bool.false_eq_true, if_false]
          exact h.drop h₀ hr hk

theorem foldl (h : t₀.arena.Sound) (k : Nat) :
    Salvaged t₀ k ((List.range k).foldl salvageSlot t₀) := by
  induction k with
  | zero => exact zero h
  | succ k ih =>
      rw [List.range_succ, List.foldl_append]
      exact ih.step

end Salvaged

/-- The trace that abandoning goes through the slots of. -/
def cleared (t : Trace) : Trace := { t with satisfied := false, order := #[], joint := 0.0 }

/-- Abandoning goes through all slots, and then sets the cursor. -/
theorem salvaged_abandon (h : t.arena.Sound) : ∃ u,
    Salvaged t.cleared t.arena.slots.size u ∧ t.abandon = { u with cursor := u.order.size } := by
  have ha : t.cleared.arena.Sound := h
  exact ⟨_, Salvaged.foldl ha _, rfl⟩

/-- A record that is left after abandoning is one that its address stood for. -/
theorem record?_abandon_eq_some_iff (h : t.arena.Sound) :
    t.abandon.arena.record? i = some r ↔ ∃ s, t.arena.record? i = some s ∧
      t.arena.Owned i s.address ∧ { s with active := true } = r := by
  obtain ⟨u, hu, he⟩ := salvaged_abandon h
  rw [he]
  show u.arena.record? i = some r ↔ _
  rw [hu.record i]
  show (if t.arena.slots.size ≤ i then t.arena.record? i else _) = some r ↔ _
  by_cases hi : t.arena.slots.size ≤ i
  · simp [hi, Arena.record?_eq_none_of_size_le hi]
  · rw [if_neg hi]
    simp only [Option.map_eq_some_iff, Option.filter_eq_some_iff, and_assoc]
    exact exists_congr fun s => and_congr Iff.rfl (and_congr Arena.owns_iff Iff.rfl)

/-- **A trace whose pass failed is well formed.** -/
theorem wellFormed_abandon (h : t.Layout c) : t.abandon.WellFormed := by
  have hrec := fun {i r} => record?_abandon_eq_some_iff (i := i) (r := r) h.arena
  obtain ⟨u, hu, he⟩ := salvaged_abandon h.arena
  have hord : t.abandon.order.toList = (t.arena.ownersBelow t.arena.slots.size).map (·.1) := by
    rw [he]
    exact hu.order
  have hsound : t.abandon.arena.Sound := by
    rw [he]
    exact hu.sound
  exact
    { owned_iff := fun x i => by
        refine ⟨hsound.bears, ?_⟩
        rintro ⟨r, hr, rfl⟩
        obtain ⟨s, -, ho, rfl⟩ := hrec.mp hr
        rw [he]
        exact (hu.slotOf? _).trans ho
      order_nodup := by
        rw [hord]
        exact t.arena.nodup_occupants.sublist (List.filter_sublist.map _)
      mem_order := fun i => by
        rw [hord, List.mem_map]
        constructor
        · rintro ⟨⟨j, s⟩, hj, rfl⟩
          obtain ⟨hs, ho⟩ := List.mem_filter.mp hj
          exact ⟨_, hrec.mpr ⟨s, Arena.mem_occupants.mp hs, Arena.owns_iff.mp ho, rfl⟩⟩
        · rintro ⟨r, hr⟩
          obtain ⟨s, hs, ho, -⟩ := hrec.mp hr
          exact ⟨(i, s),
            List.mem_filter.mpr ⟨Arena.mem_occupants.mpr hs, Arena.owns_iff.mpr ho⟩, rfl⟩
      free_nodup := hsound.free_nodup
      mem_free := fun i => by rw [hsound.mem_free, Arena.not_occupied_iff]
      cursor_eq := by rw [he]
      active := fun hr => by
        obtain ⟨s, -, -, rfl⟩ := hrec.mp hr
        rfl
      named := hsound.named }

end Trace

end ProbTrace
