import ProbTrace.Options
import ProbTrace.Program
import ProbTrace.Proofs.Domains
import ProbTrace.Proofs.Naming

/-!
# Proofs — Worlds: the leaves of a program in order

A world of a program is a leaf of its tree of choices: the choices on the way there, the value
returned and whether every condition held.  `Program.worlds` lists them, each free choice going
through its domain, and the choices below it before it goes on.  A program can be enumerated if in
none of its worlds anything fails or goes over a budget (`Program.Enumerable`).

In the list each world is the successor of the one before it (`World.Next`): up to some free choice
the two are the same, there the domain goes one position further, and after it every choice of the
one is at the end of its domain and every choice of the other at the beginning
(`Enumerable.counts`).  So the worlds are in lexicographic order of the positions in the domains,
and none comes twice (`Enumerable.pairwise_worlds`).
-/

namespace ProbTrace

/-- A choice of a world: where it is made, what is asked for, and the value. -/
structure Choice where
  address : Address
  request : Request
  value   : Value

/-- A world of a program. -/
structure World where
  choices   : List Choice := []
  returned  : Value
  satisfied : Bool := true

namespace World

/-- The world in which another choice comes first. -/
def after (k : Choice) (w : World) : World := { w with choices := k :: w.choices }

/-- The world in which another condition is demanded. -/
def demand (holds : Bool) (w : World) : World := { w with satisfied := holds && w.satisfied }

/-- One of the worlds observes a choice of this family and class at the address to have the
value. -/
def Observe (ws : List World) (x : Address) (family : Family) (structural : Bool) (v : Value) :
    Prop :=
  ∃ w ∈ ws, ∃ k ∈ w.choices, k.address = x ∧ k.request.family = family ∧
    k.request.structural = structural ∧ k.request.observed = some v

end World

namespace Request

/-- The values that a choice can take, in the order of its domain. -/
def values (q : Request) : List Value :=
  match q.observed with
  | some v => [v]
  | none   =>
    match q.family.support with
    | .enumerable d => (d.elements q.params).toOption.getD []
    | _             => []

/-- The family accepts the parameters, and can score the value observed. -/
structure Accepted (q : Request) : Prop where
  params : q.family.check q.params = .ok ()
  value  : ∀ v, q.observed = some v → q.family.checkValue v = .ok ()

/-- The choice does not fail, and if it is free it has a finite domain whose elements can be
counted in words.  A number of trials over the largest word counts as that word. -/
structure Grantable (q : Request) : Prop where
  accepted : q.family.check q.params = .ok ()
  scorable : ∀ v, q.observed = some v → q.family.checkValue v = .ok ()
  finite   : q.observed = none → ∃ d, q.family.support = .enumerable d ∧
    ∀ n, d.size q.params = .ok n → n < UInt64.size

end Request

namespace Program

/-- The worlds of what is left of a program, at these call sites. -/
def worlds : Program → CallSites → List World
  | .done v, _ => [{ returned := v }]
  | .fail _, _ => []
  | .choose q next, c =>
    q.values.flatMap fun v =>
      (worlds (next (.ok v)) c.claim.2).map (World.after ⟨c.claim.1.address, q, v⟩)
  | .enter id next, c => worlds (next (.ok ())) (c.enter id)
  | .leave id next, c =>
    match c.leave? id with
    | some c => worlds (next ()) c
    | none   => []
  | .factor _ next, c => worlds (next ()) c
  | .condition b next, c => (worlds (next ()) c).map (World.demand b)
  | .isActive next, c => worlds (next true) c
  | .depth next, c => worlds (next c.depth) c
  | .isEnumerating _, _ => []
  | .read _ _, _ => []
  | .write _ _ next, c => worlds (next ()) c
  | .nested _ _ next, c => worlds (next (.error .reentrant)) c

/-- What is left of the program, after `made` choices and at these call sites, depends on nothing
but the values of its choices, and in none of its worlds anything fails or goes over a budget.  From
a value that one of the worlds `ws` observes in the place of an equal one, the program goes on to
the same worlds. -/
def Enumerable (limits : Limits) (ws : List World) : Program → CallSites → Nat → Prop
  | .done _, _, _ => True
  | .fail _, _, _ => False
  | .choose q next, c, made => made < limits.maxChoices ∧ q.Grantable ∧
      (∀ v ∈ q.values, (next (.ok v)).Enumerable limits ws c.claim.2 (made + 1)) ∧
      ∀ v u, q.observed = some v → v.same u = true →
        World.Observe ws c.claim.1.address q.family q.structural u →
          (next (.ok u)).Enumerable limits ws c.claim.2 (made + 1) ∧
            (next (.ok u)).worlds c.claim.2 = (next (.ok v)).worlds c.claim.2
  | .enter id next, c, made => c.depth < limits.maxDepth ∧
      (next (.ok ())).Enumerable limits ws (c.enter id) made
  | .leave id next, c, made => ∃ c', c.leave? id = some c' ∧
      (next ()).Enumerable limits ws c' made
  | .factor _ next, c, made => (next ()).Enumerable limits ws c made
  | .condition _ next, c, made => (next ()).Enumerable limits ws c made
  | .isActive next, c, made => (next true).Enumerable limits ws c made
  | .depth next, c, made => (next c.depth).Enumerable limits ws c made
  | .isEnumerating _, _, _ => False
  | .read _ _, _, _ => False
  | .write _ _ next, c, made => (next ()).Enumerable limits ws c made
  | .nested _ _ next, c, made => (next (.error .reentrant)).Enumerable limits ws c made

end Program

/-! ### Positions -/

/-- The position of a value in its domain. -/
def Value.position : Value → Nat
  | .bool b => b.toNat
  | .int n  => n.toNat
  | _       => 0

theorem Domain.position_element {d : Domain} {ps : List Float} {n i : Nat} (hn : d.size ps = .ok n)
    (hi : i < n) (hs : i < UInt64.size) : (d.element i).position = i := by
  cases d with
  | flip =>
      have hn : 2 = n := Except.ok.inj hn
      obtain rfl | rfl : i = 0 ∨ i = 1 := by omega
      · rfl
      · rfl
  | categorical | binomial => exact UInt64.toNat_ofNat_of_lt' hs

namespace Choice

/-- The position of the choice; an observed one has only one. -/
def position (k : Choice) : Nat :=
  match k.request.observed with
  | some _ => 0
  | none   => k.value.position

/-- The choice is free, its domain is `d` and has `n` elements, and it is at position `i`. -/
structure Wheel (k : Choice) (d : Domain) (n i : Nat) : Prop where
  free    : k.request.observed = none
  support : k.request.family.support = .enumerable d
  sized   : d.Sized k.request.params n
  lt      : i < n
  value   : k.value = d.element i

/-- If the choice is free, it is at the beginning of its domain. -/
def First (k : Choice) : Prop := k.request.observed = none → ∃ d n, k.Wheel d n 0

/-- If the choice is free, it is at the end of its domain. -/
def Last (k : Choice) : Prop := k.request.observed = none → ∃ d i, k.Wheel d (i + 1) i

/-- The choice is free, and the other one is the same choice one position further. -/
def Next (k k' : Choice) : Prop :=
  k'.address = k.address ∧ k'.request = k.request ∧
    ∃ d n i, k.Wheel d n i ∧ k'.Wheel d n (i + 1)

variable {k k' : Choice} {d : Domain} {n i : Nat}

theorem Wheel.position_eq (h : k.Wheel d n i) : k.position = i := by
  rw [position, h.free]
  exact (congrArg Value.position h.value).trans
    (Domain.position_element h.sized.size_eq h.lt (Nat.lt_trans h.lt h.sized.small))

theorem Next.position_lt (h : k.Next k') : k.position < k'.position := by
  obtain ⟨-, -, d, n, i, hk, hk'⟩ := h
  rw [hk.position_eq, hk'.position_eq]
  exact Nat.lt_succ_self i

end Choice

namespace World

/-- The positions of the choices of the world. -/
def positions (w : World) : List Nat := w.choices.map Choice.position

/-- The one world is the successor of the other. -/
def Next (w w' : World) : Prop :=
  ∃ pre k k' post post', w.choices = pre ++ k :: post ∧ w'.choices = pre ++ k' :: post' ∧
    k.Next k' ∧ (∀ j ∈ post, j.Last) ∧ ∀ j ∈ post', j.First

/-- The worlds are counted through, from the first one to the last. -/
structure Counts (ws : List World) : Prop where
  nonempty : ws ≠ []
  chain    : ws.IsChain Next
  first    : ∀ w ∈ ws.head?, ∀ k ∈ w.choices, k.First
  last     : ∀ w ∈ ws.getLast?, ∀ k ∈ w.choices, k.Last

variable {w w' : World} {ws : List World} {k k' : Choice}

theorem Next.positions_lt (h : w.Next w') : w.positions < w'.positions := by
  obtain ⟨pre, k, k', post, post', hw, hw', hk, -⟩ := h
  rw [positions, positions, hw, hw']
  simp only [List.map_append, List.map_cons]
  induction pre.map Choice.position with
  | nil => exact List.Lex.rel hk.position_lt
  | cons a as ih => exact List.Lex.cons ih

theorem Next.after (h : w.Next w') (k : Choice) : (w.after k).Next (w'.after k) := by
  obtain ⟨pre, j, j', post, post', hw, hw', hj⟩ := h
  exact ⟨k :: pre, j, j', post, post', congrArg (k :: ·) hw, congrArg (k :: ·) hw', hj⟩

/-- From the last world after one value to the first world after the next one. -/
theorem next_after (hk : k.Next k') (hw : ∀ j ∈ w.choices, j.Last)
    (hw' : ∀ j ∈ w'.choices, j.First) : (w.after k).Next (w'.after k') :=
  ⟨[], k, k', w.choices, w'.choices, rfl, rfl, hk, hw, hw'⟩

namespace Counts

theorem single {w : World} (h : w.choices = []) : Counts [w] where
  nonempty := List.cons_ne_nil _ _
  chain := .singleton w
  first w' hw k hk := by
    obtain rfl : w = w' := by simpa using hw
    rw [h] at hk
    cases hk
  last w' hw k hk := by
    obtain rfl : w = w' := by simpa using hw
    rw [h] at hk
    cases hk

/-- Worlds are counted through by their choices alone. -/
theorem map {f : World → World} (hf : ∀ w, (f w).choices = w.choices) (h : Counts ws) :
    Counts (ws.map f) where
  nonempty := fun hn => h.nonempty (List.map_eq_nil_iff.mp hn)
  chain := by
    rw [List.isChain_map]
    refine h.chain.imp fun w w' hw => ?_
    rwa [Next, hf, hf]
  first w hw k hk := by
    rw [List.head?_map, Option.mem_def, Option.map_eq_some_iff] at hw
    obtain ⟨w, hw, rfl⟩ := hw
    exact h.first w hw k (hf w ▸ hk)
  last w hw k hk := by
    rw [List.getLast?_map, Option.mem_def, Option.map_eq_some_iff] at hw
    obtain ⟨w, hw, rfl⟩ := hw
    exact h.last w hw k (hf w ▸ hk)

section Choosing

variable {f : Choice → List World} {ks : List Choice}

/-- The first world below a choice has its first value. -/
theorem head?_choose (hf : ∀ k ∈ ks, Counts (f k))
    (hw : w ∈ (ks.flatMap fun k => (f k).map (World.after k)).head?) :
    ∃ k ∈ ks.head?, ∃ w₀ ∈ (f k).head?, w = w₀.after k := by
  cases ks with
  | nil => cases hw
  | cons k ks =>
      have hne : (f k).map (World.after k) ≠ [] := fun hn =>
        (hf k (.head _)).nonempty (List.map_eq_nil_iff.mp hn)
      rw [List.flatMap_cons, List.head?_append_of_ne_nil _ hne, List.head?_map, Option.mem_def,
        Option.map_eq_some_iff] at hw
      obtain ⟨w₀, hw₀, rfl⟩ := hw
      exact ⟨k, rfl, w₀, hw₀, rfl⟩

/-- The last world below a choice has its last value. -/
theorem getLast?_choose (hf : ∀ k ∈ ks, Counts (f k))
    (hw : w ∈ (ks.flatMap fun k => (f k).map (World.after k)).getLast?) :
    ∃ k ∈ ks.getLast?, ∃ w₀ ∈ (f k).getLast?, w = w₀.after k := by
  cases h : ks.getLast? with
  | none =>
      rw [List.getLast?_eq_none_iff.mp h] at hw
      cases hw
  | some k =>
      obtain ⟨ks', rfl⟩ := List.getLast?_eq_some_iff.mp h
      have hne : (f k).map (World.after k) ≠ [] := fun hn =>
        (hf k (by simp)).nonempty (List.map_eq_nil_iff.mp hn)
      rw [List.flatMap_append, List.flatMap_singleton, List.getLast?_append_of_ne_nil _ hne,
        List.getLast?_map, Option.mem_def, Option.map_eq_some_iff] at hw
      obtain ⟨w₀, hw₀, rfl⟩ := hw
      exact ⟨k, rfl, w₀, hw₀, rfl⟩

/-- Between two values of the choice the domains below it are turned back. -/
theorem chain_choose (hc : ks.IsChain Choice.Next) (hf : ∀ k ∈ ks, Counts (f k)) :
    (ks.flatMap fun k => (f k).map (World.after k)).IsChain Next := by
  induction ks with
  | nil => exact .nil
  | cons k ks ih =>
      have hks : ∀ k ∈ ks, Counts (f k) := fun j hj => hf j (.tail _ hj)
      have hk := hf k (.head _)
      rw [List.flatMap_cons, List.isChain_append]
      refine ⟨?_, ih hc.tail hks, fun w hw w' hw' => ?_⟩
      · rw [List.isChain_map]
        exact hk.chain.imp fun w w' hw => hw.after k
      · rw [List.getLast?_map, Option.mem_def, Option.map_eq_some_iff] at hw
        obtain ⟨w, hw, rfl⟩ := hw
        obtain ⟨k', hk', w', hw₁, rfl⟩ := head?_choose hks hw'
        exact next_after (hc.rel_head? hk') (hk.last w hw)
          ((hks k' (List.mem_of_mem_head? hk')).first w' hw₁)

/-- **The worlds below a choice are counted through** if its values are, and the worlds below each
of them. -/
theorem choose (hne : ks ≠ []) (hc : ks.IsChain Choice.Next) (hfirst : ∀ k ∈ ks.head?, k.First)
    (hlast : ∀ k ∈ ks.getLast?, k.Last) (hf : ∀ k ∈ ks, Counts (f k)) :
    Counts (ks.flatMap fun k => (f k).map (World.after k)) where
  nonempty := by
    obtain ⟨k, ks', rfl⟩ := List.exists_cons_of_ne_nil hne
    intro hn
    have hk := (List.append_eq_nil_iff.mp (List.flatMap_cons ▸ hn)).1
    exact (hf k (.head _)).nonempty (List.map_eq_nil_iff.mp hk)
  chain := chain_choose hc hf
  first w hw j hj := by
    obtain ⟨k, hk, w, hw₀, rfl⟩ := head?_choose hf hw
    rcases List.mem_cons.mp hj with rfl | hj
    · exact hfirst j hk
    · exact (hf k (List.mem_of_mem_head? hk)).first w hw₀ j hj
  last w hw j hj := by
    obtain ⟨k, hk, w, hw₀, rfl⟩ := getLast?_choose hf hw
    rcases List.mem_cons.mp hj with rfl | hj
    · exact hlast j hk
    · exact (hf k (List.mem_of_mem_getLast? hk)).last w hw₀ j hj

end Choosing

end Counts

end World

/-! ### The worlds of a program -/

namespace Request.Grantable

variable {q : Request} {v : Value}

theorem isAccepted (h : q.Grantable) : q.Accepted := ⟨h.accepted, h.scorable⟩

theorem exists_sized (h : q.Grantable) (ho : q.observed = none) :
    ∃ d n, q.family.support = .enumerable d ∧ d.Sized q.params n := by
  obtain ⟨d, hd, hsmall⟩ := h.finite ho
  obtain ⟨n, hn⟩ := Family.exists_sized hd h.accepted hsmall
  exact ⟨d, n, hd, hn⟩

theorem values_of_free (ho : q.observed = none) {d : Domain} {n : Nat}
    (hd : q.family.support = .enumerable d) (hn : d.Sized q.params n) :
    q.values = (List.range n).map d.element := by
  simp only [values, ho, hd, hn.elements_eq]
  rfl

theorem values_of_observed (ho : q.observed = some v) : q.values = [v] := by
  simp only [values, ho]

/-- A value of the choice is the one observed, or a position of the domain. -/
theorem wheel_or_observed (h : q.Grantable) (x : Address) (hv : v ∈ q.values) :
    q.observed = some v ∨ ∃ d n i, Choice.Wheel ⟨x, q, v⟩ d n i := by
  cases ho : q.observed with
  | some u =>
      rw [values_of_observed ho, List.mem_singleton] at hv
      exact .inl (congrArg some hv.symm)
  | none =>
      obtain ⟨d, n, hd, hn⟩ := h.exists_sized ho
      rw [values_of_free ho hd hn] at hv
      obtain ⟨i, hi, rfl⟩ := List.mem_map.mp hv
      exact .inr ⟨d, n, i, ho, hd, hn, List.mem_range.mp hi, rfl⟩

/-- The values of a choice are counted through, from the first one to the last. -/
theorem counts_values (h : q.Grantable) (x : Address) :
    let ks := q.values.map fun v => (⟨x, q, v⟩ : Choice)
    ks ≠ [] ∧ ks.IsChain Choice.Next ∧ (∀ k ∈ ks.head?, k.First) ∧ ∀ k ∈ ks.getLast?, k.Last := by
  cases ho : q.observed with
  | some v =>
      have hone : ∀ k : Choice, k ∈ some ⟨x, q, v⟩ → k.request.observed ≠ none := fun k hk hn => by
        rw [← Option.mem_some.mp hk, ho] at hn
        cases hn
      rw [values_of_observed ho]
      exact ⟨List.cons_ne_nil _ _, .singleton _, fun k hk hn => absurd hn (hone k hk),
        fun k hk hn => absurd hn (hone k hk)⟩
  | none =>
      obtain ⟨d, n, hd, hn⟩ := h.exists_sized ho
      have hwheel : ∀ i < n, Choice.Wheel ⟨x, q, d.element i⟩ d n i := fun i hi =>
        ⟨ho, hd, hn, hi, rfl⟩
      obtain ⟨m, rfl⟩ : ∃ m, n = m + 1 := ⟨n - 1, by have := hn.positive; omega⟩
      rw [values_of_free ho hd hn, List.map_map]
      refine ⟨?_, ?_, fun k hk _ => ?_, fun k hk _ => ?_⟩
      · rw [List.range_succ_eq_map]
        exact List.cons_ne_nil _ _
      · rw [List.isChain_map, List.isChain_range_succ]
        exact fun i hi => ⟨rfl, rfl, d, _, i, hwheel i (by omega), hwheel (i + 1) (by omega)⟩
      · rw [List.range_succ_eq_map] at hk
        rw [← Option.mem_some.mp hk]
        exact ⟨d, _, hwheel 0 (by omega)⟩
      · rw [List.range_succ, List.map_append, List.getLast?_append_of_ne_nil _ (by simp)] at hk
        rw [← Option.mem_some.mp hk]
        exact ⟨d, m, hwheel m (by omega)⟩

end Request.Grantable

namespace Program

variable {limits : Limits} {ws : List World} {w w' : World} {k : Choice}

/-- **The worlds of a program that can be enumerated are counted through**, from the first one to
the last. -/
theorem Enumerable.counts : ∀ {p : Program} {c : CallSites} {made : Nat},
    p.Enumerable limits ws c made → World.Counts (p.worlds c)
  | .done _, _, _, _ => .single rfl
  | .choose q next, c, made, h => by
      obtain ⟨-, hq, hnext, -⟩ := h
      obtain ⟨hne, hchain, hfirst, hlast⟩ := hq.counts_values c.claim.1.address
      have hcounts := World.Counts.choose (f := fun k => (next (.ok k.value)).worlds c.claim.2) hne
        hchain hfirst hlast fun k hk => by
          obtain ⟨v, hv, rfl⟩ := List.mem_map.mp hk
          exact (hnext v hv).counts
      rwa [List.flatMap_map] at hcounts
  | .enter id next, c, made, h => h.2.counts
  | .leave id next, c, made, h => by
      obtain ⟨c', hc, h⟩ := h
      rw [worlds, hc]
      exact Enumerable.counts h
  | .factor _ next, c, made, h => Enumerable.counts (p := next ()) h
  | .condition b next, c, made, h => (Enumerable.counts (p := next ()) h).map fun _ => rfl
  | .isActive next, c, made, h => Enumerable.counts (p := next true) h
  | .depth next, c, made, h => Enumerable.counts (p := next c.depth) h
  | .write _ _ next, c, made, h => Enumerable.counts (p := next ()) h
  | .nested _ _ next, c, made, h => Enumerable.counts (p := next (.error .reentrant)) h

/-- **The worlds are in lexicographic order of their positions**, and none comes twice. -/
theorem Enumerable.pairwise_worlds {p : Program} {c : CallSites} {made : Nat}
    (h : p.Enumerable limits ws c made) :
    (p.worlds c).Pairwise fun w w' => w.positions < w'.positions := by
  have hlt := h.counts.chain.imp fun _ _ hw => hw.positions_lt
  exact hlt.pairwise

/-- The choices of a world are made at addresses of their own, none of which was claimed before. -/
theorem nodup_of_mem_worlds : ∀ {p : Program} {c : CallSites} {w : World}, w ∈ p.worlds c →
    (w.choices.map (·.address)).Nodup ∧ ∀ k ∈ w.choices, ¬ c.Claimed k.address
  | .done _, c, w, hw => by
      rw [List.mem_singleton.mp hw]
      exact ⟨List.nodup_nil, nofun⟩
  | .fail _, _, _, hw => by cases hw
  | .choose q next, c, w, hw => by
      obtain ⟨v, -, hw⟩ := List.mem_flatMap.mp hw
      obtain ⟨w, hw', rfl⟩ := List.mem_map.mp hw
      obtain ⟨hn, hc⟩ := nodup_of_mem_worlds hw'
      have hclaimed : c.claim.2.Claimed c.claim.1.address :=
        (c.claimed_claim_iff _).mpr (.inr rfl)
      refine ⟨List.nodup_cons.mpr ⟨fun hm => ?_, hn⟩, fun k hk => ?_⟩
      · obtain ⟨k, hk, hx⟩ := List.mem_map.mp hm
        exact hc k hk (hx ▸ hclaimed)
      · rcases List.mem_cons.mp hk with rfl | hk
        · exact c.not_claimed_claim
        · exact fun hx => hc k hk ((c.claimed_claim_iff _).mpr (.inl hx))
  | .enter id next, c, w, hw => by
      obtain ⟨hn, hc⟩ := nodup_of_mem_worlds (p := next (.ok ())) hw
      exact ⟨hn, fun k hk hx => hc k hk ((c.claimed_enter_iff id _).mpr hx)⟩
  | .leave id next, c, w, hw => by
      rw [worlds] at hw
      split at hw
      · rename_i c' hl
        obtain ⟨hn, hc⟩ := nodup_of_mem_worlds (p := next ()) hw
        exact ⟨hn, fun k hk hx => hc k hk ((CallSites.claimed_leave?_iff hl _).mpr hx)⟩
      · cases hw
  | .factor _ next, c, w, hw => nodup_of_mem_worlds (p := next ()) hw
  | .condition b next, c, w, hw => by
      obtain ⟨w, hw', rfl⟩ := List.mem_map.mp hw
      have hn := nodup_of_mem_worlds hw'
      exact hn
  | .isActive next, c, w, hw => nodup_of_mem_worlds (p := next true) hw
  | .depth next, c, w, hw => nodup_of_mem_worlds (p := next c.depth) hw
  | .isEnumerating _, _, _, hw => by cases hw
  | .read _ _, _, _, hw => by cases hw
  | .write _ _ next, c, w, hw => nodup_of_mem_worlds (p := next ()) hw
  | .nested _ _ next, c, w, hw => nodup_of_mem_worlds (p := next (.error .reentrant)) hw

end Program

end ProbTrace
