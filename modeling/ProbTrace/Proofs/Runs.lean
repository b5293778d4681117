import ProbTrace.Proofs.Worlds
import ProbTrace.Proofs.Zeros

/-!
# Proofs — Runs: ways down the tree of a program

A program that is sealed depends on nothing but the values of its choices (`Program.Sealed`).  It
may catch errors: then it goes on in the same way whichever error it was.  In an enumerating pass a
choice that is not accepted is refused, and so is a request that goes over a budget; `Passes` says
how the program goes on after every request that is no choice made.  `Leads` is a way down to a
leaf, with the choices made on the way: a world if each of them takes a value of its domain, and a
run of an enumeration if the values are what the stored records have.

Two ways down are the same up to the first choice to which they give different values
(`Leads.eq_or_partAt`).  If that choice is free, the one comes before the other in the order of
positions (`World.Before`).  If it is observed, the one has kept an equal value that is not the
same, a zero of the other sign (`World.Strays`).
-/

namespace ProbTrace

namespace Request

/-- If parameters are accepted that are equal, number by number, so are these.  It is so for every
family but the binomial (`steady_of_ne_binomial`), and for that one if the floor keeps zeros as it is
documented to (`steady`). -/
def Steady (q : Request) : Prop :=
  ∀ ps, Record.LikeParams ps q.params → q.family.check ps = .ok () →
    q.family.check q.params = .ok ()

variable {q : Request}

theorem exists_of_map_eq_ok {α : Type} {x : Except Error α} (h : x.map (fun _ => ()) = .ok ()) :
    ∃ a, x = .ok a := by
  cases x with
  | ok a => exact ⟨a, rfl⟩
  | error e => cases h

/-- Every family but the binomial, which takes the floor of a parameter, accepts zeros of either sign
alike. -/
theorem steady_of_ne_binomial (hq : q.family ≠ .binomial) : q.Steady := by
  intro ps hp h
  generalize q.family = f at hq h ⊢
  cases f with
  | flip =>
      obtain ⟨p, h⟩ := exists_of_map_eq_ok h
      obtain ⟨p', h, -⟩ := Family.flipParams_alike hp h
      exact congrArg (Except.map fun _ => ()) h
  | categorical =>
      obtain ⟨ms, h⟩ := exists_of_map_eq_ok h
      exact congrArg (Except.map fun _ => ()) (Family.categoricalParams_alike hp h).1
  | binomial => exact absurd rfl hq
  | poisson =>
      obtain ⟨p, h⟩ := exists_of_map_eq_ok h
      exact congrArg (Except.map fun _ => ()) (Family.poissonParams_alike hp h)
  | uniform =>
      obtain ⟨⟨x, y⟩, h⟩ := exists_of_map_eq_ok h
      obtain ⟨x', y', h, -⟩ := Family.uniformParams_alike hp h
      exact congrArg (Except.map fun _ => ()) h
  | gaussian =>
      obtain ⟨⟨x, y⟩, h⟩ := exists_of_map_eq_ok h
      obtain ⟨x', h, -⟩ := Family.gaussianParams_alike hp h
      exact congrArg (Except.map fun _ => ()) h
  | gamma =>
      obtain ⟨⟨x, y⟩, h⟩ := exists_of_map_eq_ok h
      exact congrArg (Except.map fun _ => ()) (Family.gammaParams_alike hp h)
  | beta =>
      obtain ⟨⟨x, y⟩, h⟩ := exists_of_map_eq_ok h
      exact congrArg (Except.map fun _ => ()) (Family.betaParams_alike hp h)

/-- **All families accept zeros of either sign alike**, if the floor does what it is documented to
do. -/
theorem steady (laws : ZeroLaws) (q : Request) : q.Steady := by
  by_cases hq : q.family = .binomial
  · intro ps hp h
    rw [hq] at h ⊢
    obtain ⟨⟨p, n⟩, h⟩ := exists_of_map_eq_ok h
    obtain ⟨p', h, -⟩ := Family.binomialParams_alike laws hp h
    exact congrArg (Except.map fun _ => ()) h
  · exact steady_of_ne_binomial hq

end Request

namespace Choice

/-- The value is of the kind of the family, and equal to the one observed. -/
structure Sound (k : Choice) : Prop where
  kind : k.request.family.checkValue k.value = .ok ()
  like : ∀ v, k.request.observed = some v → v.Like k.value

/-- The value is one that the choice can take: the one observed, or one of the domain. -/
def Takes (k : Choice) : Prop := k.value ∈ k.request.values

/-- The choice is free and has no finite domain. -/
def Loose (k : Choice) : Prop :=
  k.request.observed = none ∧ k.request.family.isEnumerable = false

end Choice

namespace Program

/-! ### Ways down -/

/-- A request is answered that makes no choice, after `made` choices: how the program goes on, at
which call sites, and what was demanded. -/
inductive Passes (limits : Limits) (made : Nat) :
    Program → CallSites → Program → CallSites → Bool → Prop where
  | enter {id next c} (h : c.depth < limits.maxDepth) :
      Passes limits made (.enter id next) c (next (.ok ())) (c.enter id) true
  | deep {id next c} (h : limits.maxDepth ≤ c.depth) :
      Passes limits made (.enter id next) c (next (.error (.divergent c.depth made))) c true
  | leave {id next c c'} (h : c.leave? id = some c') :
      Passes limits made (.leave id next) c (next ()) c' true
  | factor {w next c} : Passes limits made (.factor w next) c (next ()) c true
  | condition {b next c} : Passes limits made (.condition b next) c (next ()) c b
  | isActive {next c} : Passes limits made (.isActive next) c (next true) c true
  | depth {next c} : Passes limits made (.depth next) c (next c.depth) c true
  | write {cell v next c} : Passes limits made (.write cell v next) c (next ()) c true
  | nested {fixed inner next c} :
      Passes limits made (.nested fixed inner next) c (next (.error .reentrant)) c true
  | spent {q next c} (h : limits.maxChoices ≤ made) :
      Passes limits made (.choose q next) c (next (.error (.divergent c.depth made))) c true
  | refused {q next c} (e : Error) (h : made < limits.maxChoices) (hq : ¬ q.Accepted) :
      Passes limits made (.choose q next) c (next (.error e)) c.claim.2 true

/-- A way down the tree, after `made` choices and at these call sites, on which every choice made is
one that `A` allows. -/
inductive Leads (limits : Limits) (A : Choice → Prop) :
    Program → CallSites → Nat → World → Prop where
  | done {v c made} : Leads limits A (.done v) c made { returned := v }
  | silent {p c p' c' made b w} (h : Passes limits made p c p' c' b)
      (hw : Leads limits A p' c' made w) : Leads limits A p c made (w.demand b)
  | choose {q next c made v w} (hb : made < limits.maxChoices) (hq : q.Accepted)
      (hv : A ⟨c.claim.1.address, q, v⟩)
      (hw : Leads limits A (next (.ok v)) c.claim.2 (made + 1) w) :
      Leads limits A (.choose q next) c made (w.after ⟨c.claim.1.address, q, v⟩)

/-- Every way down the one program is a way down the other. -/
def LeadsAs (p p' : Program) : Prop :=
  ∀ limits A c made w, p.Leads limits A c made w → p'.Leads limits A c made w

/-- The program depends on nothing but the values of its choices.  It does not ask whether choices
are enumerated and reads no cell, and after a refusal it goes on alike whatever the error.  In a
pass a trace is always being populated, and a nested pass is always refused. -/
def Sealed : Program → Prop
  | .done _            => True
  | .fail _            => True
  | .choose q next     => q.Steady ∧ (∀ answer, (next answer).Sealed) ∧
      ∀ e e', (next (.error e)).LeadsAs (next (.error e'))
  | .enter _ next      => ∀ answer, (next answer).Sealed
  | .leave _ next      => (next ()).Sealed
  | .factor _ next     => (next ()).Sealed
  | .condition _ next  => (next ()).Sealed
  | .isActive next     => (next true).Sealed
  | .depth next        => ∀ n, (next n).Sealed
  | .isEnumerating _   => False
  | .read _ _          => False
  | .write _ _ next    => (next ()).Sealed
  | .nested _ _ next   => (next (.error .reentrant)).Sealed

/-- Every request for a choice that the program makes is as `P` says. -/
def Asks (P : Request → Prop) : Program → Prop
  | .done _             => True
  | .fail _             => True
  | .choose q next      => P q ∧ ∀ answer, (next answer).Asks P
  | .enter _ next       => ∀ answer, (next answer).Asks P
  | .leave _ next       => (next ()).Asks P
  | .factor _ next      => (next ()).Asks P
  | .condition _ next   => (next ()).Asks P
  | .isActive next      => ∀ b, (next b).Asks P
  | .depth next         => ∀ n, (next n).Asks P
  | .isEnumerating next => ∀ b, (next b).Asks P
  | .read _ next        => ∀ v, (next v).Asks P
  | .write _ _ next     => (next ()).Asks P
  | .nested _ _ next    => ∀ answer, (next answer).Asks P

/-- Every free choice of the program has a finite domain. -/
def Countable (p : Program) : Prop :=
  p.Asks fun q => q.observed = none → q.family.isEnumerable = true

/-- The world is one of the program, under these budgets. -/
def Offers (limits : Limits) (p : Program) (w : World) : Prop :=
  p.Leads limits Choice.Takes .empty 0 w

variable {limits : Limits} {A B : Choice → Prop} {p p' : Program} {c c' : CallSites}
  {made : Nat} {b : Bool} {w w' : World} {q : Request} {next : Except Error Value → Program}
  {P : Request → Prop}

/-! ### Requests that make no choice -/

theorem Passes.sealed (h : Passes limits made p c p' c' b) (hp : p.Sealed) : p'.Sealed := by
  cases h with
  | enter | deep | depth => exact hp _
  | spent | refused => exact hp.2.1 _
  | _ => exact hp

theorem Passes.asks (h : Passes limits made p c p' c' b) (hp : p.Asks P) : p'.Asks P := by
  cases h with
  | enter | deep | depth | isActive | nested => exact hp _
  | spent | refused => exact hp.2 _
  | _ => exact hp

/-- What has been claimed stays claimed. -/
theorem Passes.claimed (h : Passes limits made p c p' c' b) {x : Address} (hx : c.Claimed x) :
    c'.Claimed x := by
  cases h with
  | enter => exact (c.claimed_enter_iff _ _).mpr hx
  | leave h => exact (CallSites.claimed_leave?_iff h x).mpr hx
  | refused => exact (c.claimed_claim_iff x).mpr (.inl hx)
  | _ => exact hx

/-- A choice that is accepted within the budget is made. -/
theorem Passes.not_choose (h : Passes limits made (.choose q next) c p' c' b)
    (hb : made < limits.maxChoices) : ¬ q.Accepted := by
  cases h with
  | spent h => exact absurd hb (Nat.not_lt.mpr h)
  | refused _ _ hq => exact hq

/-- **After a request that makes no choice there is one way to go on**, whatever a refusal is. -/
theorem Passes.unique {p'' : Program} {c'' : CallSites} {b' : Bool}
    (h : Passes limits made p c p' c' b) (h' : Passes limits made p c p'' c'' b')
    (hp : p.Sealed) : c'' = c' ∧ b' = b ∧ p''.LeadsAs p' := by
  have hself : p'.LeadsAs p' := fun _ _ _ _ _ hw => hw
  cases h with
  | enter hd =>
      cases h' with
      | enter => exact ⟨rfl, rfl, hself⟩
      | deep hd' => exact absurd hd (Nat.not_lt.mpr hd')
  | deep hd =>
      cases h' with
      | enter hd' => exact absurd hd' (Nat.not_lt.mpr hd)
      | deep => exact ⟨rfl, rfl, hself⟩
  | leave hl =>
      cases h' with
      | leave hl' => exact ⟨Option.some.inj (hl'.symm.trans hl), rfl, hself⟩
  | spent hb =>
      cases h' with
      | spent => exact ⟨rfl, rfl, hself⟩
      | refused _ hb' => exact absurd hb' (Nat.not_lt.mpr hb)
  | refused e hb hq =>
      cases h' with
      | spent hb' => exact absurd hb (Nat.not_lt.mpr hb')
      | refused e' => exact ⟨rfl, rfl, hp.2.2 e' e⟩
  | _ =>
      cases h'
      exact ⟨rfl, rfl, hself⟩

theorem Leads.of_passes (hw : p.Leads limits A c made w) (hp : p.Sealed)
    (h : Passes limits made p c p' c' b) :
    ∃ w', p'.Leads limits A c' made w' ∧ w = w'.demand b := by
  cases hw with
  | done => cases h
  | choose hb hq _ _ => exact absurd hq (h.not_choose hb)
  | silent h' hw =>
      obtain ⟨rfl, rfl, has⟩ := h.unique h' hp
      exact ⟨_, has _ _ _ _ _ hw, rfl⟩

/-- A choice that is made takes one of the values allowed. -/
theorem Leads.of_choose (hw : (Program.choose q next).Leads limits A c made w)
    (hb : made < limits.maxChoices) (hq : q.Accepted) :
    ∃ v w', A ⟨c.claim.1.address, q, v⟩ ∧
      (next (.ok v)).Leads limits A c.claim.2 (made + 1) w' ∧
      w = w'.after ⟨c.claim.1.address, q, v⟩ := by
  cases hw with
  | silent h => exact absurd hq (h.not_choose hb)
  | choose _ _ hv hw => exact ⟨_, _, hv, hw, rfl⟩

/-! ### What is true of every choice on the way -/

theorem Leads.of_mem (hw : p.Leads limits A c made w) :
    ∀ k ∈ w.choices, k.request.Accepted ∧ A k := by
  induction hw with
  | done => exact nofun
  | silent _ _ ih => exact ih
  | choose _ hq hv _ ih =>
      intro k hk
      rcases List.mem_cons.mp hk with rfl | hk
      · exact ⟨hq, hv⟩
      · exact ih k hk

theorem Leads.asks (hw : p.Leads limits A c made w) (hp : p.Asks P) :
    ∀ k ∈ w.choices, P k.request := by
  induction hw with
  | done => exact nofun
  | silent h _ ih => exact ih (h.asks hp)
  | choose _ _ _ _ ih => exact List.forall_mem_cons.mpr ⟨hp.1, ih (hp.2 _)⟩

/-- The choices that a program with finite domains makes are observed, or have one. -/
theorem Leads.not_loose (hw : p.Leads limits A c made w) (hp : p.Countable) :
    ∀ k ∈ w.choices, ¬ k.Loose := by
  rintro k hk ⟨hfree, hloose⟩
  cases (hw.asks hp k hk hfree).symm.trans hloose

/-- The choices are made at addresses of their own, none of which was claimed before. -/
theorem Leads.nodup (hw : p.Leads limits A c made w) :
    (w.choices.map (·.address)).Nodup ∧ ∀ k ∈ w.choices, ¬ c.Claimed k.address := by
  induction hw with
  | done => exact ⟨List.nodup_nil, nofun⟩
  | silent h _ ih => exact ⟨ih.1, fun k hk hx => ih.2 k hk (h.claimed hx)⟩
  | @choose q next c made v w hb hq hv _ ih =>
      have hclaimed : c.claim.2.Claimed c.claim.1.address := (c.claimed_claim_iff _).mpr (.inr rfl)
      refine ⟨List.nodup_cons.mpr ⟨fun hm => ?_, ih.1⟩, fun k hk => ?_⟩
      · obtain ⟨k, hk, hx⟩ := List.mem_map.mp hm
        exact ih.2 k hk (hx ▸ hclaimed)
      · rcases List.mem_cons.mp hk with rfl | hk
        · exact c.not_claimed_claim
        · exact fun hx => ih.2 k hk ((c.claimed_claim_iff _).mpr (.inl hx))

/-! ### Choices whose refusal is not caught -/

/-- A program that has failed has no way down. -/
theorem leadsAs_fail {e : Error} : (Program.fail e).LeadsAs p := by
  intro limits A c made w hw
  cases hw with
  | silent h => cases h

/-- A choice whose refusal the program does not catch. -/
theorem sealed_choose (hq : q.family ≠ .binomial) (hfail : ∀ e, next (.error e) = .fail e)
    (h : ∀ v, (next (.ok v)).Sealed) : (Program.choose q next).Sealed := by
  refine ⟨Request.steady_of_ne_binomial hq, fun answer => ?_, fun e e' => ?_⟩
  · cases answer with
    | ok v => exact h v
    | error e =>
        rw [hfail]
        trivial
  · rw [hfail]
    exact leadsAs_fail

/-- If the floor is at the zeros what it is documented to be, the parameters of a choice are
steady whatever they are. -/
theorem sealed_choose_iff (laws : ZeroLaws) : (Program.choose q next).Sealed ↔
    (∀ answer, (next answer).Sealed) ∧ ∀ e e', (next (.error e)).LeadsAs (next (.error e')) :=
  and_iff_right (q.steady laws)

theorem asks_choose (hq : P q) (hfail : ∀ e, next (.error e) = .fail e)
    (h : ∀ v, (next (.ok v)).Asks P) : (Program.choose q next).Asks P := by
  refine ⟨hq, fun answer => ?_⟩
  cases answer with
  | ok v => exact h v
  | error e =>
      rw [hfail]
      trivial

end Program

/-! ### Where two ways part -/

namespace World

/-- The worlds make the choices `pre`, and then give different values to the same choice. -/
structure PartAt (pre : List Choice) (k k' : Choice) (w w' : World) : Prop where
  left    : ∃ post, w.choices = pre ++ k :: post
  right   : ∃ post, w'.choices = pre ++ k' :: post
  address : k'.address = k.address
  request : k'.request = k.request
  value   : k'.value ≠ k.value

/-- The worlds part at a free choice, and there this one has an earlier value. -/
def Before (w w' : World) : Prop :=
  ∃ pre k k', PartAt pre k k' w w' ∧ k.request.observed = none ∧
    k.value.position < k'.value.position

/-- The worlds part at an observed choice. -/
def Strays (w w' : World) : Prop :=
  ∃ pre k k', PartAt pre k k' w w' ∧ k.request.observed.isSome = true

variable {w w' : World} {pre pre' : List Choice} {k k' j j' : Choice}

namespace PartAt

theorem symm (h : PartAt pre k k' w w') : PartAt pre k' k w' w :=
  ⟨h.right, h.left, h.address.symm, h.request.symm, h.value.symm⟩

theorem after (h : PartAt pre k k' w w') (i : Choice) :
    PartAt (i :: pre) k k' (w.after i) (w'.after i) where
  left := by
    obtain ⟨post, hw⟩ := h.left
    exact ⟨post, congrArg (i :: ·) hw⟩
  right := by
    obtain ⟨post, hw⟩ := h.right
    exact ⟨post, congrArg (i :: ·) hw⟩
  address := h.address
  request := h.request
  value := h.value

theorem mem_left (h : PartAt pre k k' w w') : k ∈ w.choices := by
  obtain ⟨post, hw⟩ := h.left
  rw [hw]
  exact List.mem_append_right _ (.head _)

theorem mem_right (h : PartAt pre k k' w w') : k' ∈ w'.choices := h.symm.mem_left

/-- Of two places in a list one comes first, or they are the same. -/
theorem append_cons_cases {pre pre' post post' : List Choice} {k k' : Choice}
    (h : pre ++ k :: post = pre' ++ k' :: post') :
    (∃ as, pre' = pre ++ k :: as ∧ post = as ++ k' :: post') ∨
      (pre' = pre ∧ k' = k ∧ post' = post) ∨
        ∃ as, pre = pre' ++ k' :: as ∧ post' = as ++ k :: post := by
  rcases List.append_eq_append_iff.mp h with ⟨as, rfl, hcons⟩ | ⟨as, rfl, hcons⟩
  · cases as with
    | nil =>
        cases hcons
        exact .inr (.inl ⟨List.append_nil _, rfl, rfl⟩)
    | cons a as =>
        cases hcons
        exact .inl ⟨as, rfl, rfl⟩
  · cases as with
    | nil =>
        cases hcons
        exact .inr (.inl ⟨(List.append_nil _).symm, rfl, rfl⟩)
    | cons a as =>
        cases hcons
        exact .inr (.inr ⟨as, rfl, rfl⟩)

/-- Lists differ first in one place. -/
theorem append_cons_unique : ∀ {pre pre' post post' us us' : List Choice} {k k' j j' : Choice},
    pre ++ k :: post = pre' ++ j :: post' → pre ++ k' :: us = pre' ++ j' :: us' → k ≠ k' →
      j ≠ j' → pre = pre' ∧ k = j ∧ k' = j'
  | [], [], _, _, _, _, _, _, _, _, h, h', _, _ => by
      cases h
      cases h'
      exact ⟨rfl, rfl, rfl⟩
  | [], _ :: _, _, _, _, _, _, _, _, _, h, h', hk, _ => by
      cases h
      cases h'
      exact absurd rfl hk
  | _ :: _, [], _, _, _, _, _, _, _, _, h, h', _, hj => by
      cases h
      cases h'
      exact absurd rfl hj
  | _ :: pre, _ :: pre', _, _, _, _, _, _, _, _, h, h', hk, hj => by
      simp only [List.cons_append, List.cons.injEq] at h h'
      obtain ⟨rfl, rfl, rfl⟩ := append_cons_unique h.2 h'.2 hk hj
      exact ⟨by rw [h.1], rfl, rfl⟩

/-- Two worlds part in one place. -/
theorem unique (h : PartAt pre k k' w w') (h' : PartAt pre' j j' w w') :
    pre = pre' ∧ k = j ∧ k' = j' := by
  obtain ⟨_, hl⟩ := h.left
  obtain ⟨_, hr⟩ := h.right
  obtain ⟨_, hl'⟩ := h'.left
  obtain ⟨_, hr'⟩ := h'.right
  exact append_cons_unique (hl.symm.trans hl') (hr.symm.trans hr')
    (fun he => h.value (congrArg Choice.value he.symm))
    fun he => h'.value (congrArg Choice.value he.symm)

end PartAt

/-- No world comes before one that comes before it. -/
theorem Before.asymm (h : w.Before w') : ¬ w'.Before w := by
  obtain ⟨pre, k, k', hp, -, hlt⟩ := h
  rintro ⟨pre', j', j, hp', -, hlt'⟩
  obtain ⟨-, rfl, rfl⟩ := hp.unique hp'.symm
  exact Nat.lt_asymm hlt hlt'

end World

/-- Values of a family with a finite domain are told apart by their positions. -/
theorem Value.eq_of_position {f : Family} {v w : Value} (hf : f.isEnumerable = true)
    (hv : f.checkValue v = .ok ()) (hw : f.checkValue w = .ok ()) (h : v.position = w.position) :
    v = w := by
  cases f with
  | flip =>
      cases v <;> cases hv
      cases w <;> cases hw
      rename_i a b
      cases a <;> cases b <;> first | rfl | cases h
  | categorical | binomial =>
      cases v <;> cases hv
      cases w <;> cases hw
      exact congrArg Value.int (UInt64.toNat_inj.mp h)
  | poisson | uniform | gaussian | gamma | beta => cases hf

namespace Program

variable {limits : Limits} {A B : Choice → Prop} {p : Program} {c : CallSites} {made : Nat}
  {w w' : World} {k : Choice} {pre post : List Choice}

/-- **Two ways down a sealed program are the same up to the first choice to which they give
different values.** -/
theorem Leads.eq_or_partAt (hw : p.Leads limits A c made w) (hw' : p.Leads limits B c made w')
    (hp : p.Sealed) : w' = w ∨ ∃ pre k k', World.PartAt pre k k' w w' := by
  induction hw generalizing w' with
  | done =>
      cases hw' with
      | done => exact .inl rfl
      | silent h => cases h
  | silent h _ ih =>
      obtain ⟨v', hv', rfl⟩ := hw'.of_passes hp h
      rcases ih hv' (h.sealed hp) with rfl | ⟨pre, k, k', hpart⟩
      · exact .inl rfl
      · exact .inr ⟨pre, k, k', ⟨hpart.left, hpart.right, hpart.address, hpart.request,
          hpart.value⟩⟩
  | @choose q next c made v w hb hq hv _ ih =>
      obtain ⟨u, v', -, hv', rfl⟩ := hw'.of_choose hb hq
      by_cases huv : u = v
      · subst huv
        rcases ih hv' (hp.2.1 _) with rfl | ⟨pre, k, k', hpart⟩
        · exact .inl rfl
        · exact .inr ⟨_, k, k', hpart.after _⟩
      · exact .inr ⟨[], _, _, ⟨⟨_, rfl⟩, ⟨_, rfl⟩, rfl, rfl, huv⟩⟩

/-- Where the values are those of another way, up to some choice, the same choices are made, and
that one is next. -/
theorem Leads.along (hw : p.Leads limits A c made w) (hw' : p.Leads limits B c made w')
    (hp : p.Sealed) (hsplit : w.choices = pre ++ k :: post)
    (hsame : ∀ i ∈ pre, ∀ j ∈ w'.choices, j.address = i.address → j.request = i.request →
      j.value = i.value) :
    ∃ k' post', w'.choices = pre ++ k' :: post' ∧ k'.address = k.address ∧
      k'.request = k.request := by
  rcases hw.eq_or_partAt hw' hp with rfl | ⟨pre', j, j', hpart⟩
  · exact ⟨k, post, hsplit, rfl, rfl⟩
  obtain ⟨us, hl⟩ := hpart.left
  obtain ⟨us', hr⟩ := hpart.right
  rcases World.PartAt.append_cons_cases (hsplit.symm.trans hl) with
    ⟨as, rfl, -⟩ | ⟨rfl, rfl, -⟩ | ⟨as, rfl, -⟩
  · -- the ways part after this choice
    exact ⟨k, as ++ j' :: us', by rw [hr, List.append_assoc]; rfl, rfl, rfl⟩
  · exact ⟨j', us', hr, hpart.address, hpart.request⟩
  · -- before it they give the same values
    exact absurd (hsame j (by simp) j' hpart.mem_right hpart.address hpart.request) hpart.value

/-- **A world of a program with finite domains is the one that was run, or comes before it or after
it, or was strayed from.** -/
theorem Leads.compare (hw : p.Leads limits A c made w) (hw' : p.Leads limits B c made w')
    (hp : p.Sealed) (hc : p.Countable) (hA : ∀ k, A k → k.Sound)
    (hB : ∀ k, k.request.Accepted → B k → k.Sound) :
    w' = w ∨ w.Before w' ∨ w'.Before w ∨ w.Strays w' := by
  rcases hw.eq_or_partAt hw' hp with rfl | ⟨pre, k, k', hpart⟩
  · exact .inl rfl
  cases ho : k.request.observed with
  | some v => exact .inr (.inr (.inr ⟨pre, k, k', hpart, by rw [ho]; rfl⟩))
  | none =>
      have henum : k.request.family.isEnumerable = true := Bool.not_eq_false _ ▸ fun hf =>
        hw.not_loose hc k hpart.mem_left ⟨ho, hf⟩
      have hk := hA k (hw.of_mem k hpart.mem_left).2
      have hk' := hB k' (hw'.of_mem k' hpart.mem_right).1 (hw'.of_mem k' hpart.mem_right).2
      rcases Nat.lt_trichotomy k.value.position k'.value.position with h | h | h
      · exact .inr (.inl ⟨pre, k, k', hpart, ho, h⟩)
      · exact absurd (Value.eq_of_position henum (hpart.request ▸ hk'.kind) hk.kind h.symm)
          hpart.value
      · exact .inr (.inr (.inl ⟨pre, k', k, hpart.symm, hpart.request ▸ ho, h⟩))

end Program

end ProbTrace
