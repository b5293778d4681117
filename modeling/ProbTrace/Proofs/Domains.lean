import ProbTrace.Proofs.Failures
import ProbTrace.Proofs.Numeric

/-!
# Proofs — Domains: the values of a finite family in order

`Domain.element` gives the value at a position of a domain, whatever the parameters, and a domain is
of size `n` (`Domain.Sized`) if the parameters give it `n` elements, at least one and fewer than
there are words.  Then the walk through the domain is what it should be: it begins at position zero
(`Sized.first_eq`), goes from each position to the next one, and ends at the last (`Sized.next_eq`).

A family that accepts its parameters has such a domain, unless there are too many elements to be
counted in words (`Family.exists_sized`), and parameters that are alike give the same size
(`Sized.congr`).
-/

namespace ProbTrace

namespace Family

variable {ps : List Float} {p : Float} {k : UInt64}

theorem trials_eq_ok (h : trials ps = .ok (p, k)) :
    ∃ x, two .binomial ps = .ok (p, x) ∧ k = x.toUInt64 := by
  obtain ⟨⟨p₀, x⟩, htwo, h⟩ := bind_eq_ok.mp h
  simp only at h
  split at h
  · cases h
    exact ⟨x, htwo, rfl⟩
  · cases h

theorem trials_of_check (h : Family.binomial.check ps = .ok ()) :
    ∃ p k, trials ps = .ok (p, k) := by
  cases ht : trials ps with
  | ok out => exact ⟨_, _, rfl⟩
  | error e =>
      rw [check, binomialParams, ht] at h
      cases h

end Family

namespace Domain

/-- The value at a position. -/
def element : Domain → Nat → Value
  | .flip,        i => .bool (i != 0)
  | .categorical, i => .int (.ofNat i)
  | .binomial,    i => .int (.ofNat i)

/-- The parameters give the domain so many elements. -/
structure Sized (d : Domain) (params : List Float) (n : Nat) : Prop where
  size_eq  : d.size params = .ok n
  positive : 0 < n
  small    : n < UInt64.size

variable {d : Domain} {ps qs : List Float} {i n : Nat}

/-- Words have successors, as long as there are more of them. -/
theorem successor_ofNat {f : Family} (h : i + 1 < UInt64.size) :
    successor f (some (.int (.ofNat i))) = .ok (.ofNat (i + 1)) := by
  have hi : (UInt64.ofNat i).toNat = i := UInt64.toNat_ofNat_of_lt' (by omega)
  show (if (UInt64.ofNat i).toNat + 1 < UInt64.size then _ else _) = _
  rw [hi, if_pos h, UInt64.ofNat_add]
  rfl

theorem trials_of_size (h : binomial.size ps = .ok n) :
    ∃ p k, Family.trials ps = .ok (p, k) ∧ n = k.toNat + 1 := by
  cases ht : Family.trials ps with
  | error e =>
      rw [size, ht] at h
      cases h
  | ok out =>
      rw [size, ht] at h
      cases h
      exact ⟨_, _, rfl, rfl⟩

/-- The walk begins at position zero. -/
theorem Sized.next_none (h : d.Sized ps n) : d.next none ps = .ok (some (d.element 0)) := by
  cases d with
  | flip => rfl
  | categorical =>
      have hn : ps.length = n := Except.ok.inj h.size_eq
      have hlt : (0 : UInt64).toNat < ps.length := hn ▸ h.positive
      show Except.ok (if (0 : UInt64).toNat < ps.length then _ else _) = _
      rw [if_pos hlt]
      rfl
  | binomial =>
      obtain ⟨p, k, ht, -⟩ := trials_of_size h.size_eq
      rw [next, ht]
      show Except.ok (if (0 : UInt64) ≤ k then _ else _) = _
      rw [if_pos UInt64.zero_le]
      rfl

theorem Sized.first_eq (h : d.Sized ps n) : d.first ps = .ok (d.element 0) := by
  rw [first, h.next_none]
  rfl

/-- **After each position comes the next one**, up to the last. -/
theorem Sized.next_eq (h : d.Sized ps n) (hi : i < n) :
    d.next (some (d.element i)) ps =
      .ok (if i + 1 < n then some (d.element (i + 1)) else none) := by
  have hs := h.small
  have hsucc : ∀ f, successor f (some (.int (.ofNat i))) = .ok (.ofNat (i + 1)) := fun f =>
    successor_ofNat (by omega)
  have hnat : (UInt64.ofNat (i + 1)).toNat = i + 1 := UInt64.toNat_ofNat_of_lt' (by omega)
  cases d with
  | flip =>
      have hn : 2 = n := Except.ok.inj h.size_eq
      subst hn
      obtain rfl | rfl : i = 0 ∨ i = 1 := by omega
      · rfl
      · rfl
  | categorical =>
      have hn : ps.length = n := Except.ok.inj h.size_eq
      rw [next, element, hsucc]
      show Except.ok (if (UInt64.ofNat (i + 1)).toNat < ps.length then _ else _) = _
      rw [hnat, hn]
      rfl
  | binomial =>
      obtain ⟨p, k, ht, rfl⟩ := trials_of_size h.size_eq
      have hle : UInt64.ofNat (i + 1) ≤ k ↔ i + 1 < k.toNat + 1 := by
        rw [UInt64.le_iff_toNat_le, hnat]
        omega
      rw [next, ht, element]
      show (successor _ (some (.int (.ofNat i))) >>= fun m =>
        Except.ok (if m ≤ k then some (Value.int m) else none)) = _
      rw [hsucc]
      show Except.ok (if UInt64.ofNat (i + 1) ≤ k then _ else _) = _
      simp only [hle]
      rfl

/-- What is left of the walk after a position are the positions after it. -/
theorem Sized.walk_eq (h : d.Sized ps n) : ∀ (fuel i : Nat), i < n → n ≤ i + fuel →
    d.walk ps fuel (some (d.element i)) = .ok ((List.range' (i + 1) (n - (i + 1))).map d.element)
  | 0, i, hi, hf => by omega
  | fuel + 1, i, hi, hf => by
      rw [walk, h.next_eq hi]
      by_cases hlast : i + 1 < n
      · have ih := h.walk_eq fuel (i + 1) hlast (by omega)
        obtain ⟨k, hk⟩ : ∃ k, n - (i + 1) = k + 1 := ⟨n - (i + 2), by omega⟩
        have hk' : n - (i + 1 + 1) = k := by omega
        rw [if_pos hlast, hk, List.range'_succ, List.map_cons, ← hk']
        simp only [bind, Except.bind, pure, Except.pure, ih]
      · rw [if_neg hlast, show n - (i + 1) = 0 by omega]
        rfl

/-- **The walk goes through every position once, in order**, and then ends. -/
theorem Sized.walk_none_eq (h : d.Sized ps n) {fuel : Nat} (hf : n < fuel) :
    d.walk ps fuel none = .ok ((List.range n).map d.element) := by
  obtain ⟨fuel, rfl⟩ : ∃ k, fuel = k + 1 := ⟨fuel - 1, by omega⟩
  have hn : n = n - (0 + 1) + 1 := by have := h.positive; omega
  rw [walk, h.next_none, List.range_eq_range', hn, List.range'_succ, List.map_cons]
  simp only [bind, Except.bind, pure, Except.pure, h.walk_eq fuel 0 h.positive (by omega)]

theorem Sized.elements_eq (h : d.Sized ps n) :
    d.elements ps = .ok ((List.range n).map d.element) := by
  rw [elements, h.size_eq]
  exact h.walk_none_eq (Nat.lt_succ_self n)

/-- Parameters that are alike, and both accepted, give a domain the same size. -/
theorem Sized.congr (h : d.Sized ps n) (hp : Record.LikeParams ps qs)
    (hq : d.family.check qs = .ok ()) : d.Sized qs n := by
  refine ⟨?_, h.positive, h.small⟩
  cases d with
  | flip => exact h.size_eq
  | categorical => exact (congrArg Except.ok hp.forall₂.length_eq.symm).trans h.size_eq
  | binomial =>
      obtain ⟨p, k, ht, rfl⟩ := trials_of_size h.size_eq
      obtain ⟨q, l, ht'⟩ := Family.trials_of_check hq
      obtain ⟨x, hx, rfl⟩ := Family.trials_eq_ok ht
      obtain ⟨y, hy, rfl⟩ := Family.trials_eq_ok ht'
      obtain ⟨q', y', hy', -, hxy⟩ := hp.two hx
      cases hy.symm.trans hy'
      rw [size, ht', Family.toUInt64_congr hxy]
      rfl

end Domain

/-- **A family that accepts its parameters has a domain**, unless there are too many elements for
words to count them. -/
theorem Family.exists_sized {f : Family} {d : Domain} {ps : List Float}
    (hf : f.support = .enumerable d) (hc : f.check ps = .ok ())
    (hsmall : ∀ n, d.size ps = .ok n → n < UInt64.size) : ∃ n, d.Sized ps n := by
  have hsized : ∀ n, d.size ps = .ok n → 0 < n → ∃ n, d.Sized ps n := fun n hn hpos =>
    ⟨n, hn, hpos, hsmall n hn⟩
  cases f with
  | flip =>
      cases hf
      exact hsized 2 rfl (by omega)
  | categorical =>
      cases hf
      refine hsized ps.length rfl (List.length_pos_of_ne_nil ?_)
      rintro rfl
      cases hc
  | binomial =>
      cases hf
      obtain ⟨p, k, ht⟩ := trials_of_check hc
      exact hsized (k.toNat + 1) (by rw [Domain.size, ht]; rfl) (by omega)
  | poisson | uniform | gaussian | gamma | beta => cases hf

end ProbTrace
