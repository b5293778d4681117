import ProbTrace.Proofs.Failures
import ProbTrace.Proofs.Searching

/-!
# Proofs — Upkeep: what a trace relies on about its own arena

Between two operations a trace with a history is well formed, so that its size is the number of its
records (`size_eq_length_records`).  While a pass is running it is not, and yet nothing the trace
looks into is empty: an address stands for a slot that holds a record, the order lists such slots
only, and a slot taken from the free list is one of those there are (`Pass.Intact`).  So no choice
answers that a variable is dangling (`choose_ne_dangling`), at whatever moment of whatever pass.

The look at the previous order compares addresses by a test that accepts more texts than are ever
written, a count with a plus sign or with leading zeros.  At every moment all the addresses that are
stored were handed out for choices, and on these the test is equality (`Arena.Legible`).
-/

namespace ProbTrace

open Trace (dangling)

/-! ### The size of a trace -/

namespace Trace.WellFormed

variable {t : Trace}

theorem length_records (h : t.WellFormed) : t.records.length = t.order.size := by
  have hsome : ∀ i ∈ t.order.toList, ∃ r, t.arena.record? i = some r := fun i hi =>
    (h.mem_order i).mp hi
  have hlen : ∀ slots : List Nat, (∀ i ∈ slots, ∃ r, t.arena.record? i = some r) →
      (slots.filterMap t.arena.record?).length = slots.length := fun slots => by
    induction slots with
    | nil => exact fun _ => rfl
    | cons i is ih =>
        intro hs
        obtain ⟨r, hr⟩ := hs i List.mem_cons_self
        rw [List.filterMap_cons_some hr, List.length_cons, List.length_cons,
          ih fun j hj => hs j (List.mem_cons_of_mem _ hj)]
  exact (hlen _ hsome).trans t.order.length_toList

/-- The slots that the addresses stand for. -/
theorem mem_index_slots (h : t.WellFormed) (i : Nat) :
    i ∈ t.arena.index.toList.map (·.2) ↔ t.arena.Occupied i := by
  rw [List.mem_map]
  constructor
  · rintro ⟨⟨x, j⟩, hx, rfl⟩
    obtain ⟨r, hr, -⟩ :=
      (h.owned_iff x j).mp (Std.TreeMap.mem_toList_iff_getElem?_eq_some.mp hx)
    exact ⟨r, hr⟩
  · rintro ⟨r, hr⟩
    exact ⟨(r.address, i), Std.TreeMap.mem_toList_iff_getElem?_eq_some.mpr (h.owned hr), rfl⟩

theorem nodup_index_slots (h : t.WellFormed) : (t.arena.index.toList.map (·.2)).Nodup := by
  rw [List.Nodup, List.pairwise_map]
  refine t.arena.index.distinct_keys_toList.imp_of_mem fun {w w'} hw hw' hne he => hne ?_
  obtain ⟨x, i⟩ := w
  obtain ⟨x', i'⟩ := w'
  obtain ⟨r, hr, rfl⟩ := (h.owned_iff x i).mp (Std.TreeMap.mem_toList_iff_getElem?_eq_some.mp hw)
  obtain ⟨r', hr', rfl⟩ :=
    (h.owned_iff x' i').mp (Std.TreeMap.mem_toList_iff_getElem?_eq_some.mp hw')
  simp only at he
  subst he
  rw [hr] at hr'
  cases hr'
  exact Std.ReflOrd.compare_self

/-- **The size of a trace is the number of its records.** -/
theorem size_eq_length_records (h : t.WellFormed) : t.size = t.records.length := by
  have hp : (t.arena.index.toList.map (·.2)).Perm t.order.toList :=
    (List.perm_ext_iff_of_nodup h.nodup_index_slots h.order_nodup).mpr fun i =>
      (h.mem_index_slots i).trans (h.mem_order i).symm
  have hl := hp.length_eq
  rw [List.length_map, Std.TreeMap.length_toList, Array.length_toList] at hl
  exact hl.trans h.length_records.symm

end Trace.WellFormed

/-! ### No choice finds a slot empty -/

theorem Record.raises_refreshed (r : Record) (q : Request) :
    Raises Error.OfFamily (r.refreshed q).1 := by
  have h := r.refreshes q
  generalize r.refreshed q = out at h ⊢
  cases h with
  | same => exact raises_ok _
  | rescored => exact raises_ok _
  | refused he => exact raises_error (Family.raises_logDensity _ _ _ _ he)

/-- A fault that a choice may have, but for a budget that is used up. -/
def Fault.OfChoice (fault : Fault) : Prop :=
  fault.OfFamily ∨ fault = .error Domain.emptyDomain

namespace Trace

theorem raises_newValue (q : Request) (enumerating : Bool) (g : Generator) :
    Raises Fault.OfChoice (newValue q enumerating g) := by
  have hs : Raises Fault.OfChoice (q.family.sample q.params g) := fun fault h =>
    .inl (q.family.raises_sample q.params g fault h)
  rw [newValue]
  split
  · exact raises_ok _
  split
  · rename_i d _
    split
    · intro fault h
      have hf := d.raises_first q.params
      cases hd : d.first q.params with
      | error fault' =>
          rw [hd] at h hf
          cases h
          exact hf fault rfl
      | ok v =>
          rw [hd] at h
          cases h
    · exact hs
  · exact hs

theorem raises_serve (t : Trace) (x : Address) (q : Request) (b : Bool) :
    Raises Fault.OfChoice (t.serve x q b).1 := by
  have hs := t.serves x q b
  generalize t.serve x q b = out at hs ⊢
  cases hs with
  | undrawn h => exact raises_error (raises_newValue q b t.generator _ h)
  | unscored h => exact raises_error (.inl (q.family.raises_logDensity _ _ _ h))
  | created => exact raises_ok _
  | reused => exact raises_ok _
  | @refused i r s e hr h =>
      have hr := r.raises_refreshed q
      rw [h] at hr
      exact raises_error (.inl (hr e rfl))

/-- What is said of an empty slot is said of nothing else. -/
theorem not_ofChoice_dangling (i : Nat) : ¬ Fault.OfChoice (.error (dangling i)) := by
  rintro (h | h)
  · exact h
  · have hm := congrArg (fun m : String => m.toList.head?) (Error.failure.inj (Fault.error.inj h))
    simp at hm

end Trace

namespace Pass

variable {p : Pass}

/-- **In its layout a trace never finds a variable dangling.** -/
theorem choose_ne_dangling (h : p.trace.Layout p.sites) (q : Request) (i : Nat) :
    (p.choose q).1 ≠ .error (.error (dangling i)) := by
  rw [(choose_eq_serve h q).1]
  cases hb : p.plain.spent with
  | true =>
      rw [serve_of_spent hb]
      intro he
      cases he
  | false =>
      rw [serve_of_not_spent hb]
      exact fun he => Trace.not_ofChoice_dangling i (Trace.raises_serve _ _ _ _ _ he)

/-- Nothing that the trace of a running pass looks into is empty or out of range. -/
structure Intact (p : Pass) : Prop where
  free_lt    : ∀ i ∈ p.trace.arena.free, i < p.trace.arena.slots.size
  owned      : ∀ x i, p.trace.arena.Owned i x → p.trace.arena.Occupied i
  listed     : ∀ i ∈ p.trace.order.toList, p.trace.arena.Occupied i
  not_dangling : ∀ q i, (p.choose q).1 ≠ .error (.error (dangling i))

theorem Running.intact (h : p.Running) : p.Intact where
  free_lt := h.layout.arena.free_lt
  owned _ _ ho := by
    obtain ⟨r, hr, -⟩ := h.layout.arena.bears ho
    exact ⟨r, hr⟩
  listed := h.layout.occupied
  not_dangling := choose_ne_dangling h.layout

end Pass

/-! ### Traces with a history -/

/-- At every moment of every pass over the trace nothing it looks into is empty. -/
def Trace.PassesIntact (t : Trace) : Prop :=
  ∀ (fixed : Bool) (s : Session) (program : Program) (p : Pass),
    Pass.player.Steps t.program (t.opening fixed s) program p → p.Intact

theorem Trace.WellFormed.passesIntact {t : Trace} (h : t.WellFormed) : t.PassesIntact :=
  fun fixed s _ _ hs => (Pass.keeps_running.steps hs (running_opening h fixed s)).intact

/-- **Whatever the history of a trace, it is well formed between two operations**, a search that
ends leaves a trace with a history again, and nothing is found empty during a pass: neither one
over the trace, nor one over a copy in which a proposal has moved a record. -/
theorem Reachable.upkeep {t : Trace} (h : Reachable t) :
    t.WellFormed ∧ t.size = t.records.length ∧
      (∀ strategy fuel s, Ended (t.search strategy fuel s).1 →
        Reachable (t.search strategy fuel s).2.1) ∧
      t.PassesIntact ∧
      ∀ id generator i r r' v, t.arena.record? i = some r → r.rescored v = .ok r' →
        ({ t.copyAs id with generator }.rewrite i r').PassesIntact := by
  refine ⟨h.wellFormed, h.wellFormed.size_eq_length_records, fun strategy fuel s ha =>
    h.search strategy fuel s ha, h.wellFormed.passesIntact, fun id generator i r r' v hi hr => ?_⟩
  exact (h.wellFormed.rescore_copy hi hr id generator).passesIntact

theorem upkeep_tolerantFlip : Reachable (observedOnce tolerantFlip) ∧
    (observedOnce tolerantFlip).size = (observedOnce tolerantFlip).records.length ∧
    (observedOnce tolerantFlip).size = 1 := by
  obtain ⟨-, hsize, -⟩ := Reachable.upkeep reachable_tolerantFlip
  exact ⟨reachable_tolerantFlip, hsize, by decide +kernel⟩

/-! ### The test of addresses -/

/-- On the addresses of the records the test that reads the count from the text is equality. -/
def Arena.Legible (a : Arena) : Prop :=
  ∀ i r, a.record? i = some r → ∀ (path : String) (count : UInt64),
    r.address.isAt path count.toNat = true ↔ r.address = .atSite path count.toNat

theorem Arena.Sound.legible {a : Arena} (h : a.Sound) : a.Legible := fun _ _ hi path count =>
  (h.named hi).isAt_iff path count

/-- At every moment of every pass over the trace the test tells the addresses that are stored. -/
def Trace.PassesLegible (t : Trace) : Prop :=
  ∀ (fixed : Bool) (s : Session) (program : Program) (p : Pass),
    Pass.player.Steps t.program (t.opening fixed s) program p → p.trace.arena.Legible

theorem Trace.WellFormed.passesLegible {t : Trace} (h : t.WellFormed) : t.PassesLegible :=
  fun fixed s _ _ hs =>
    (Pass.keeps_running.steps hs (running_opening h fixed s)).layout.arena.legible

/-- **The test that reads the count from the text is exact.**  On the address of choice number `m`
at the path `p` it says whether this is the address of choice number `n` at `q`, and it is exactly
if the paths and the counts are the same, whatever colons and digits the paths hold.  So on the
addresses that a trace with a history stores the test is equality: between two operations, at every
moment of a pass, and at every moment of a pass over a copy in which a proposal has moved a
record. -/
theorem Address.isAt_exact :
    (∀ (p q : String) (m n : UInt64),
      ((atSite p m.toNat).isAt q n.toNat = true ↔ atSite p m.toNat = atSite q n.toNat) ∧
      (atSite p m.toNat = atSite q n.toNat ↔ p = q ∧ m = n)) ∧
    ∀ t, Reachable t → t.arena.Legible ∧ t.PassesLegible ∧
      ∀ id generator i r r' v, t.arena.record? i = some r → r.rescored v = .ok r' →
        ({ t.copyAs id with generator }.rewrite i r').PassesLegible := by
  refine ⟨fun p q m n => ⟨Named.isAt_iff ⟨p, m.toNat, rfl⟩ q n, ?_⟩, fun t h => ?_⟩
  · rw [atSite_inj, UInt64.toNat_inj]
  · refine ⟨h.wellFormed.arena.legible, h.wellFormed.passesLegible,
      fun id generator i r r' v hi hr => ?_⟩
    exact (h.wellFormed.rescore_copy hi hr id generator).passesLegible

/-- The path `":0"` looks like an address itself. -/
theorem isAt_exact_tolerantFlip : Reachable (observedOnce tolerantFlip) ∧
    (observedOnce tolerantFlip).arena.Legible ∧
    (Address.atSite ":0" 1).isAt ":0" 1 = true ∧
    ¬ (Address.atSite ":0" 1).isAt "" 0 = true ∧ ¬ (Address.atSite "" 0).isAt ":0" 0 = true := by
  obtain ⟨hexact, hstored⟩ := Address.isAt_exact
  have hsame := hexact ":0" ":0" 1 1
  have hlonger := hexact ":0" "" 1 0
  have hshorter := hexact "" ":0" 0 0
  refine ⟨reachable_tolerantFlip, (hstored _ reachable_tolerantFlip).1, hsame.1.mpr rfl,
    fun h => ?_, fun h => ?_⟩
  · exact absurd (hlonger.2.mp (hlonger.1.mp h)).1 (by decide)
  · exact absurd (hshorter.2.mp (hshorter.1.mp h)).1 (by decide)

/-- On a text that is no address of a choice the test and equality differ. -/
example : (Address.mk ":+07").isAt "" 7 = true ∧ Address.mk ":+07" ≠ .atSite "" 7 := by
  decide

end ProbTrace
