import ProbTrace.Proofs.Scores
import ProbTrace.Proofs.Walking
import ProbTrace.Proofs.Zeros

/-!
# Proofs — Retracing: a run that makes the choices of another one

A second walk down the tree of a program makes the choices of the first one, as long as each choice
has the same value again (`Walk.retrace`).  An observed choice need not: it keeps an equal value
that the trace has, and so a zero may come back with the other sign, as the value observed.  A
program is indifferent to a trace if it makes the same choices after either
(`Program.Indifferent`).

A record that was refreshed for another request, and then for the request that it was settled on,
agrees with itself (`Record.Settles.agrees_back`), and so does the record that was removed with the
one that is created in its place and given its value (`Record.Settles.agrees_created`): what differs
is at most the signs of zeros, to which a numeric family pays no attention.
-/

namespace ProbTrace

/-! ### Programs whose addresses are observed or free -/

namespace Program

/-- Each address is always observed or always free, as `observed` says. -/
def Sorted (observed : Address → Bool) : Program → CallSites → Prop
  | .done _, _            => True
  | .fail _, _            => True
  | .choose q next, c     => q.observed.isSome = observed c.claim.1.address ∧
      ∀ v, (next (.ok v)).Sorted observed c.claim.2
  | .enter id next, c     => (next (.ok ())).Sorted observed (c.enter id)
  | .leave id next, c     => ∀ c', c.leave? id = some c' → (next ()).Sorted observed c'
  | .factor _ next, c     => (next ()).Sorted observed c
  | .condition _ next, c  => (next ()).Sorted observed c
  | .isActive next, c     => (next true).Sorted observed c
  | .depth next, c        => (next c.depth).Sorted observed c
  | .isEnumerating _, _   => True
  | .read _ _, _          => True
  | .write _ _ next, c    => (next ()).Sorted observed c
  | .nested _ _ _, _      => True

/-- Every walk down the one program is a walk down the other: they make the same choices. -/
def GoesAs (p p' : Program) : Prop := ∀ A c es, p.Walk A c es → p'.Walk A c es

/-- In the run over the stored records the program goes on from the value that an observed choice
has kept as it would from the value observed. -/
def Indifferent (stored : Address → Option Record) : Program → CallSites → Prop
  | .done _, _            => True
  | .fail _, _            => True
  | .choose q next, c     => ∀ r, stored c.claim.1.address = some r →
      (∀ v, q.observed = some v → (next (.ok v)).GoesAs (next (.ok r.value))) ∧
        (next (.ok r.value)).Indifferent stored c.claim.2
  | .enter id next, c     => (next (.ok ())).Indifferent stored (c.enter id)
  | .leave id next, c     => ∀ c', c.leave? id = some c' → (next ()).Indifferent stored c'
  | .factor _ next, c     => (next ()).Indifferent stored c
  | .condition _ next, c  => (next ()).Indifferent stored c
  | .isActive next, c     => (next true).Indifferent stored c
  | .depth next, c        => (next c.depth).Indifferent stored c
  | .isEnumerating _, _   => True
  | .read _ _, _          => True
  | .write _ _ next, c    => (next ()).Indifferent stored c
  | .nested _ _ _, _      => True

variable {A B : Request → Record → Prop} {p p' : Program} {c c' : CallSites}
  {es es' : List (Request × Record)} {observed : Address → Bool}
  {stored : Address → Option Record}

theorem Silent.sorted (h : Silent p c p' c') (hs : p.Sorted observed c) :
    p'.Sorted observed c' := by
  cases h with
  | leave h => exact hs _ h
  | _ => exact hs

theorem Silent.indifferent (h : Silent p c p' c') (hs : p.Indifferent stored c) :
    p'.Indifferent stored c' := by
  cases h with
  | leave h => exact hs _ h
  | _ => exact hs

/-- The choices of a walk are observed where the program says so. -/
theorem Walk.sorted (w : Walk A p c es) (hs : p.Sorted observed c) :
    ∀ e ∈ es, e.1.observed.isSome = observed e.2.address := by
  induction w with
  | done => exact fun _ he => absurd he List.not_mem_nil
  | silent h _ ih => exact ih (h.sorted hs)
  | choose hx _ _ ih =>
      intro e he
      cases he with
      | head => exact hx ▸ hs.1
      | tail _ he => exact ih (hs.2 _) e he

/-- **A walk is retraced by another one** that has, choice by choice, the value of the first or the
value that is observed. -/
theorem Walk.retrace {Q : Record → Record → Prop} (w : Walk A p c es) (w' : Walk B p c es')
    (hst : ∀ e ∈ es, stored e.2.address = some e.2) (hi : p.Indifferent stored c)
    (hQ : ∀ q r r', (q, r) ∈ es → (q, r') ∈ es' → r'.address = r.address →
      Q r r' ∧ (r'.value = r.value ∨ q.observed = some r'.value)) :
    List.Forall₂ Q (es.map (·.2)) (es'.map (·.2)) := by
  induction w generalizing es' with
  | done =>
      cases w' with
      | done => exact .nil
      | silent hs => cases hs
  | silent hs _ ih => exact ih (w'.of_silent hs) hst (hs.indifferent hi) hQ
  | @choose q next c r es hx _ w ih =>
      cases w' with
      | silent hs => cases hs
      | @choose _ _ _ r' es' hx' _ w' =>
          obtain ⟨hrr, hv⟩ := hQ q r r' (.head _) (.head _) (hx'.trans hx.symm)
          obtain ⟨hgoes, hnext⟩ := hi r (hx ▸ hst _ (.head _))
          -- either way the second walk goes on as the first one does
          have w'' : Walk B (next (.ok r.value)) c.claim.2 es' := by
            rcases hv with hv | hv
            · exact hv ▸ w'
            · exact hgoes _ hv _ _ _ w'
          exact .cons hrr (ih w'' (fun e he => hst e (.tail _ he)) hnext
            fun q s s' hs hs' => hQ q s s' (.tail _ hs) (.tail _ hs'))

end Program

/-! ### Records that come back -/

namespace Record

variable {r rc r' : Record} {q q' : Request} {v : Value}

/-- The two records agree: parameters and values may differ in the signs of zeros. -/
structure Agrees (r r' : Record) : Prop where
  address     : r'.address = r.address
  family      : r'.family = r.family
  structural  : r'.structural = r.structural
  conditioned : r'.conditioned = r.conditioned
  active      : r'.active = r.active
  params      : LikeParams r.params r'.params
  value       : r.value.Like r'.value
  logDensity  : r'.logDensity = r.logDensity

theorem Agrees.refl (r : Record) : r.Agrees r := ⟨rfl, rfl, rfl, rfl, rfl, .inl rfl, .inl rfl, rfl⟩

theorem structural_refreshed (r : Record) (q : Request) :
    (r.refreshed q).2.structural = r.structural := by
  have h := r.refreshes q
  generalize r.refreshed q = out at h ⊢
  cases h <;> rfl

/-- An observed choice keeps the value of its record if that is equal to the value observed. -/
theorem value_refreshed_of_observed (h : q.observed = some v) (r : Record) :
    (r.refreshed q).2.value = if v.same r.value then r.value else v := by
  have hr := r.refreshes q
  have hv : (r.withRequest q).value = if v.same r.value then r.value else v := by
    show (r.valueFor q).1 = _
    rw [valueFor, h]
    simp only
    split <;> rfl
  generalize r.refreshed q = out at hr ⊢
  cases hr <;> exact hv

/-- The value of an observed choice whose record is settled on it. -/
theorem Settles.like_observed (h : Settles q r) (ho : q.observed = some v) : v.Like r.value := by
  have hv := value_refreshed_of_observed ho r
  rw [h.2] at hv
  simp only at hv
  split at hv
  · rename_i hs
    exact .inr hs
  · exact .inl hv.symm

/-- The parameters of a record that is settled on a request. -/
theorem Settles.like_params (h : Settles q r) : LikeParams r.params q.params := by
  have hp := r.params_refreshed q
  rw [h.2] at hp
  exact hp

theorem Settles.conditioned_eq (h : Settles q r) : r.conditioned = q.observed.isSome := by
  have hc := r.conditioned_refreshed q
  rw [h.2] at hc
  exact hc

/-- A record refreshed for one request and then for the request that it was settled on before has
its old value again, or the one observed. -/
theorem Settles.value_back (h : Settles q r) (hq' : r.refreshed q' = (.ok (), rc))
    (hq : rc.refreshed q = (.ok (), r')) (ho : q.observed.isSome = q'.observed.isSome) :
    r.value.Like r'.value ∧ (r'.value = r.value ∨ q.observed = some r'.value) := by
  cases hv : q.observed with
  | none =>
      have hv' : q'.observed = none := by simpa [hv] using ho.symm
      have hrc := value_refreshed hv' r
      have hr' := value_refreshed hv rc
      rw [hq'] at hrc
      rw [hq] at hr'
      have heq : r'.value = r.value := hr'.trans hrc
      exact ⟨.inl heq.symm, .inl heq⟩
  | some v =>
      obtain ⟨v', hv'⟩ := Option.isSome_iff_exists.mp (ho ▸ hv ▸ rfl : q'.observed.isSome = true)
      have hlike := h.like_observed hv
      have hrc := value_refreshed_of_observed hv' r
      have hr' := value_refreshed_of_observed hv rc
      rw [hq'] at hrc
      rw [hq] at hr'
      simp only at hrc hr'
      -- the value observed second is either kept or taken
      have htaken : r'.value = v → r.value.Like r'.value ∧
          (r'.value = r.value ∨ some v = some r'.value) := fun he =>
        ⟨he ▸ hlike.symm, .inr (congrArg some he.symm)⟩
      by_cases hs : v'.same r.value = true
      · rw [if_pos hs] at hrc
        rw [hrc] at hr'
        split at hr'
        · exact ⟨.inl hr'.symm, .inl hr'⟩
        · exact htaken hr'
      · rw [if_neg hs] at hrc
        rw [hrc] at hr'
        split at hr'
        · rename_i hvv'
          -- then the value observed first would be equal to the old one as well
          refine absurd (Value.same_symm ?_) hs
          rcases hlike with hlike | hlike
          · exact hlike ▸ hvv'
          · exact Value.same_trans (Value.same_symm hlike) hvv'
        · exact htaken hr'

/-- **A record refreshed for one request, and then for the request that it was settled on before,
agrees with itself.** -/
theorem Settles.agrees_back (h : Settles q r) (hr : r.Scored) (hn : r.family.Numeric)
    (hq' : r.refreshed q' = (.ok (), rc)) (hq : rc.refreshed q = (.ok (), r'))
    (ho : q.observed.isSome = q'.observed.isSome) : r.Agrees r' := by
  have hrc : (r.refreshed q').2 = rc := congrArg Prod.snd hq'
  have hr' : (rc.refreshed q).2 = r' := congrArg Prod.snd hq
  have hfam : r'.family = r.family := by
    rw [← hr', (rc.refreshes q).family, ← hrc, (r.refreshes q').family]
  have hparams : LikeParams r.params r'.params := by
    have hp := rc.params_refreshed q
    rw [hr'] at hp
    exact h.like_params.trans (LikeParams.symm hp)
  have hvalue := (h.value_back hq' hq ho).1
  have hscored := (hr.refreshed hq').refreshed hq
  rw [Scored, hfam, hn hvalue hparams hr] at hscored
  exact
    { address := by rw [← hr', address_refreshed, ← hrc, address_refreshed]
      family := hfam
      structural := by rw [← hr', structural_refreshed, ← hrc, structural_refreshed]
      conditioned := by rw [← hr', conditioned_refreshed, h.conditioned_eq]
      active := by rw [← hr', active_refreshed, ← hrc, active_refreshed]
      params := hparams
      value := hvalue
      logDensity := (Except.ok.inj hscored).symm }

/-- **A record created for the request that another one is settled on agrees with it**, if it is
given the same value. -/
theorem Settles.agrees_created (h : Settles q r) (hr : r.Scored) (hn : r.family.Numeric)
    (ha : r.active = true) (hx : r'.address = r.address)
    (hlp : q.family.logDensity r'.value q.params = .ok r'.logDensity)
    (he : r' = .ofRequest r'.address q r'.value r'.logDensity) (hv : r.value.Like r'.value) :
    r.Agrees r' := by
  obtain ⟨hfam, hstr⟩ := fits_iff.mp h.1
  rw [← hfam, hn hv h.like_params hr] at hlp
  exact
    { address := hx
      family := (congrArg Record.family he).trans hfam.symm
      structural := (congrArg Record.structural he).trans hstr.symm
      conditioned := (congrArg Record.conditioned he).trans h.conditioned_eq.symm
      active := (congrArg Record.active he).trans ha.symm
      params := by
        rw [congrArg Record.params he]
        exact h.like_params
      value := hv
      logDensity := (Except.ok.inj hlp).symm }

/-! ### Records that agree -/

/-- What a counterpart is looked for by. -/
def key (r : Record) : Address × Family × Bool := (r.address, r.family, r.structural)

theorem Agrees.key {r r' : Record} (h : r.Agrees r') : r'.key = r.key := by
  rw [Record.key, Record.key, h.address, h.family, h.structural]

variable {rs rs' : List Record}

theorem map_key_of_agrees (h : List.Forall₂ Agrees rs rs') :
    rs'.map Record.key = rs.map Record.key := by
  induction h with
  | nil => rfl
  | cons h _ ih => rw [List.map_cons, List.map_cons, h.key, ih]

/-- Records that agree have the same sum. -/
theorem sumOnto_of_agrees (h : List.Forall₂ Agrees rs rs') (start : Float) :
    sumOnto start rs' = sumOnto start rs := by
  induction h generalizing start with
  | nil => rfl
  | cons h _ ih =>
      show sumOnto (start + _) _ = sumOnto (start + _) _
      rw [h.logDensity, ih]

/-- The two numbers are both the sum of the term and of the log-densities of `rs`, though maybe not
in the same order. -/
def SameSum (term : Float) (rs : List Record) (x y : Float) : Prop :=
  ∃ a b, Adds a rs ∧ Adds b rs ∧ x = term + a ∧ y = term + b

end Record

end ProbTrace
