import Mathlib.Data.List.Basic
import ProbTrace.CallSites

/-!
# Proofs — Naming: an address tells its path and its count

An address is a path, a colon and decimal digits, so its last colon splits it in one way only,
whatever the path holds (`atSite_inj`).  On such an address the test that reads the count from the
text is equality (`isAt_atSite`, `Named.isAt_iff`).

A pass claims one site for every choice.  `Claimed` says that an address has been handed out
since the call sites were empty; the next site is never claimed (`not_claimed_claim`), and
claiming adds its address and no other (`claimed_claim_iff`).
-/

namespace ProbTrace

namespace Address

/-! ### Reading an address back -/

theorem not_isDigit_colon : ':'.isDigit = false := by decide

theorem isDigit_of_mem_toDigits {c : Char} {n : Nat} (h : c ∈ Nat.toDigits 10 n) :
    c.isDigit = true :=
  Nat.isDigit_of_mem_toDigits (by decide) (by decide) h

theorem colon_not_mem_toDigits (n : Nat) : ':' ∉ Nat.toDigits 10 n := by
  intro h
  have hd := isDigit_of_mem_toDigits h
  rw [not_isDigit_colon] at hd
  cases hd

theorem toList_atSite (path : String) (count : Nat) :
    (atSite path count).text.toList = path.toList ++ ':' :: Nat.toDigits 10 count := by
  simp [atSite]

/-- Two splittings at a colon, with no colon behind it, are the same. -/
theorem append_colon_inj :
    ∀ {ps qs ds es : List Char}, ':' ∉ ds → ':' ∉ es → ps ++ ':' :: ds = qs ++ ':' :: es →
      ps = qs ∧ ds = es
  | [], [], ds, es, _, _, h => ⟨rfl, by simpa using h⟩
  | [], q :: qs, ds, es, hd, _, h => by
      simp only [List.nil_append, List.cons_append, List.cons.injEq] at h
      exact absurd (h.2 ▸ by simp) hd
  | p :: ps, [], ds, es, _, he, h => by
      simp only [List.nil_append, List.cons_append, List.cons.injEq] at h
      exact absurd (h.2 ▸ by simp) he
  | p :: ps, q :: qs, ds, es, hd, he, h => by
      simp only [List.cons_append, List.cons.injEq] at h
      obtain ⟨rfl, rfl⟩ := append_colon_inj hd he h.2
      exact ⟨by rw [h.1], rfl⟩

theorem toDigits_injective {m n : Nat} (h : Nat.toDigits 10 m = Nat.toDigits 10 n) : m = n := by
  have hv := congrArg (fun ds => Nat.ofDigitChars 10 ds 0) h
  simpa using hv

/-- An address is the address of one path and one count. -/
theorem atSite_inj {p q : String} {m n : Nat} : atSite p m = atSite q n ↔ p = q ∧ m = n := by
  constructor
  · intro h
    have ht := congrArg (fun a => a.text.toList) h
    simp only [toList_atSite] at ht
    obtain ⟨hp, hd⟩ := append_colon_inj (colon_not_mem_toDigits m) (colon_not_mem_toDigits n) ht
    exact ⟨String.toList_injective hp, toDigits_injective hd⟩
  · rintro ⟨rfl, rfl⟩
    rfl

theorem digitsValue_toDigits (n : Nat) : digitsValue (Nat.toDigits 10 n) = n :=
  Nat.ofDigitChars_ten_toDigits

theorem readDigits?_toDigits (n : Nat) :
    readDigits? (Nat.toDigits 10 n) = if n < countBound then some n else none := by
  have hall : (Nat.toDigits 10 n).all Char.isDigit = true :=
    List.all_eq_true.mpr fun _ h => isDigit_of_mem_toDigits h
  simp [readDigits?, hall, digitsValue_toDigits]

theorem readCount?_toDigits (n : Nat) :
    readCount? (Nat.toDigits 10 n) = if n < countBound then some n else none := by
  rw [← readDigits?_toDigits n]
  simp only [readCount?]
  split
  · -- a written number has no plus sign
    rename_i digits h
    have hd : '+' ∈ Nat.toDigits 10 n := h ▸ List.mem_cons_self
    exact absurd (isDigit_of_mem_toDigits hd) (by decide)
  · rfl

theorem colon_not_mem_of_readDigits? {ds : List Char} {n : Nat} (h : readDigits? ds = some n) :
    ':' ∉ ds := by
  intro hc
  rw [readDigits?] at h
  split at h
  · cases h
  · rename_i hd
    simp only [Bool.or_eq_true, Bool.not_eq_true', not_or, Bool.not_eq_false] at hd
    have := List.all_eq_true.mp hd.2 _ hc
    rw [not_isDigit_colon] at this
    cases this

theorem colon_not_mem_of_readCount? {ds : List Char} {n : Nat} (h : readCount? ds = some n) :
    ':' ∉ ds := by
  simp only [readCount?] at h
  split at h
  · rw [List.mem_cons]
    rintro (hc | hc)
    · cases hc
    · exact colon_not_mem_of_readDigits? h hc
  · exact colon_not_mem_of_readDigits? h

/-- The text of an address of `p` is read as one of `q` only when the paths are the same. -/
theorem isAt_atSite (p q : String) (m n : Nat) :
    (atSite p m).isAt q n = true ↔ p = q ∧ m = n ∧ n < countBound := by
  rw [isAt]
  constructor
  · intro h
    split at h
    · rename_i written hw
      have hr : readCount? written = some n := by simpa using h
      have ht := List.append_eq_of_isPrefixOf?_eq_some hw
      rw [toList_atSite] at ht
      -- the last colon of the text is the one before the count, on either reading
      obtain ⟨hp, rfl⟩ := append_colon_inj (colon_not_mem_of_readCount? hr)
        (colon_not_mem_toDigits m) ht
      rw [readCount?_toDigits] at hr
      split at hr
      · rename_i hm
        cases hr
        exact ⟨(String.toList_injective hp).symm, rfl, hm⟩
      · cases hr
    · cases h
  · rintro ⟨rfl, rfl, hm⟩
    have hw : p.toList.isPrefixOf? (atSite p m).text.toList
        = some (':' :: Nat.toDigits 10 m) :=
      List.isPrefixOf?_eq_some_iff_append_eq.mpr (toList_atSite p m).symm
    rw [hw]
    simp [readCount?_toDigits, hm]

/-- The address of some choice. -/
def Named (x : Address) : Prop := ∃ path count, x = .atSite path count

/-- On the address of a choice the test is equality, for every count that is a word. -/
theorem Named.isAt_iff {x : Address} (hx : x.Named) (path : String) (count : UInt64) :
    x.isAt path count.toNat = true ↔ x = .atSite path count.toNat := by
  obtain ⟨p, m, rfl⟩ := hx
  rw [isAt_atSite, atSite_inj]
  exact ⟨fun h => ⟨h.1, h.2.1⟩, fun h => ⟨h.1, h.2, count.toNat_lt_size⟩⟩

theorem Named.eq_of_isAt {x : Address} (hx : x.Named) {s : Site}
    (h : x.isAt s.path s.count = true) : x = s.address := by
  obtain ⟨p, m, rfl⟩ := hx
  obtain ⟨rfl, rfl, -⟩ := (isAt_atSite p s.path m s.count).mp h
  rfl

end Address

/-! ### The addresses handed out -/

theorem Site.named_address (s : Site) : s.address.Named := ⟨s.path, s.count, rfl⟩

namespace CallSites

/-- The address has been handed out since nothing was counted. -/
def Claimed (c : CallSites) (x : Address) : Prop :=
  ∃ path count, count < c.counted path ∧ x = .atSite path count

theorem claimed_enter_iff (c : CallSites) (id : String) (x : Address) :
    (c.enter id).Claimed x ↔ c.Claimed x := Iff.rfl

theorem claimed_leave?_iff {c c' : CallSites} {id : String} (h : c.leave? id = some c')
    (x : Address) : c'.Claimed x ↔ c.Claimed x := by
  rw [leave?] at h
  split at h
  · cases h
    exact Iff.rfl
  · cases h

/-- The site that is claimed next has not been claimed before. -/
theorem not_claimed_claim (c : CallSites) : ¬ c.Claimed c.claim.1.address := by
  rintro ⟨path, count, h, he⟩
  obtain ⟨rfl, rfl⟩ := Address.atSite_inj.mp he
  exact Nat.lt_irrefl _ h

/-- Claiming hands out the address of the claimed site, and no other. -/
theorem claimed_claim_iff (c : CallSites) (x : Address) :
    c.claim.2.Claimed x ↔ c.Claimed x ∨ x = c.claim.1.address := by
  constructor
  · rintro ⟨path, count, h, rfl⟩
    rw [counted_claim] at h
    by_cases hp : c.path = path
    · subst hp
      rw [if_pos rfl] at h
      rcases Nat.lt_succ_iff_lt_or_eq.mp h with h | h
      · exact .inl ⟨c.path, count, h, rfl⟩
      · exact .inr (by rw [h]; rfl)
    · rw [if_neg hp] at h
      exact .inl ⟨path, count, h, rfl⟩
  · rintro (⟨path, count, h, rfl⟩ | rfl)
    · exact ⟨path, count, by rw [counted_claim]; omega, rfl⟩
    · refine ⟨c.path, c.counted c.path, ?_, rfl⟩
      rw [counted_claim, if_pos rfl]
      exact Nat.lt_succ_self _

end CallSites

end ProbTrace
