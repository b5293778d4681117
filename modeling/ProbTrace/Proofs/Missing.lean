import ProbTrace.Proofs.Courses

/-!
# Proofs — Missing: what an enumeration that ends exhausted has not run

From a run to the next one the odometer moves one free choice on, the choices before it are made
again, and those behind it begin, all but the ones that have just become free: such a choice keeps
the value that was observed there (`World.StepAt`).  So a world that stands between the two runs in
the order of positions has been skipped because of such a value (`StepAt.skips`).  Before the first
run of an enumeration over nothing there is no world, and after its last run there is none.

* `Search.exhausted_misses`: the satisfied worlds that an exhausted enumeration over nothing has not
  run are those it has skipped and those that a run has strayed from.
* `Search.exhausted_sound`: there is none of either kind if no address is observed in one run and
  free in another, and no observed zero is taken for the one of the other sign.
* `Search.exhausted_tight`: whether there is a choice to draw afresh is decided in the last run.  A
  run that had one has parted from the last run before that choice.
-/

namespace ProbTrace

/-! ### From a run to the next -/

namespace Choice

variable {ks : List Choice} {k l : Choice}

/-- What a choice leaves is held at its address. -/
theorem held_of_mem (hn : (ks.map (·.address)).Nodup) (hk : k ∈ ks) :
    held ks k.address = some k.holding := by
  cases hh : held ks k.address with
  | none => exact absurd rfl (held_eq_none hh k hk)
  | some m =>
      obtain ⟨l, hl, hx, rfl⟩ := held_eq_some hh
      rw [List.inj_on_of_nodup_map hn hl hk hx]

/-- A choice that fits what another one has left at its address takes its value from it. -/
theorem Inherits.value_of_mem {l : Choice} (h : k.Inherits (held ks))
    (hn : (ks.map (·.address)).Nodup) (hl : l ∈ ks) (hx : k.address = l.address)
    (hq : k.request = l.request) : k.value = l.holding.valueFor l.request := by
  rw [← hq]
  exact h.kept l.holding (hx ▸ held_of_mem hn hl) (hq ▸ ⟨rfl, rfl⟩)

/-- A choice that is made again takes the value that it has left. -/
theorem Sound.valueFor_holding (h : k.Sound) : k.holding.valueFor k.request = k.value := by
  rw [Holding.valueFor]
  cases ho : k.request.observed with
  | none => rfl
  | some v =>
      show (if v.same k.value then k.value else v) = k.value
      rcases h.like v ho with rfl | hsame
      · exact ite_self _
      · exact if_pos hsame

/-- The second choice has become free, and keeps the value that the first one was observed to
have. -/
structure Keeps (l k : Choice) : Prop where
  observed : l.request.observed.isSome = true
  free     : k.request.observed = none
  address  : k.address = l.address
  fits     : l.holding.Fits k.request
  value    : k.value = l.value

/-- The odometer leaves the addresses as they are. -/
theorem address_wind {ks' : List Choice} {carry : Bool} (h : wind ks = .ok (ks', carry)) :
    ks'.map (·.address) = ks.map (·.address) := by
  have hall := forall₂_wind h
  clear h
  induction hall with
  | nil => rfl
  | cons hk _ ih =>
      obtain ⟨v, rfl⟩ := hk
      rw [List.map_cons, List.map_cons, ih]

theorem eq_with {k k' : Choice} {u : Value} (hx : k'.address = k.address)
    (hq : k'.request = k.request) (hu : k'.value = u) : k' = { k with value := u } := by
  obtain ⟨x, q, v⟩ := k'
  cases hx
  cases hq
  cases hu
  rfl

/-- A wheel that begins stands at the first position. -/
theorem Fresh.position_eq (h : k.Fresh) (ho : k.request.observed = none) (hl : ¬ k.Loose) :
    k.value.position = 0 := by
  obtain ⟨d, hd⟩ :=
    Family.isEnumerable_iff.mp (Bool.eq_true_of_not_eq_false fun hf => hl ⟨ho, hf⟩)
  exact Domain.position_first (h.first d ho hd)

/-- A wheel past the first position does not begin: it keeps what a choice has left at its
address. -/
theorem Inherits.exists_left (h : k.Inherits (held ks)) (ho : k.request.observed = none)
    (hl : ¬ k.Loose) (hpos : 0 < k.value.position) :
    ∃ i ∈ ks, i.address = k.address ∧ i.holding.Fits k.request ∧ k.value = i.value := by
  obtain ⟨m, hm, hfits⟩ : ∃ m, held ks k.address = some m ∧ m.Fits k.request := by
    by_contra hno
    rw [(h.fresh fun m hm hfits => hno ⟨m, hm, hfits⟩).position_eq ho hl] at hpos
    exact Nat.lt_irrefl 0 hpos
  have hvalue := h.kept m hm hfits
  rw [Holding.valueFor, ho] at hvalue
  obtain ⟨i, hi, hx, rfl⟩ := held_eq_some hm
  exact ⟨i, hi, hx, hfits, hvalue⟩

/-- A choice that was rewound is at the first position, or was observed. -/
theorem Rewinds.keeps {i : Choice} (h : l.Rewinds i) (hl : ¬ l.Loose) (hx : i.address = k.address)
    (hfits : i.holding.Fits k.request) (hvalue : k.value = i.value)
    (ho : k.request.observed = none) (hpos : 0 < k.value.position) : l.Keeps k := by
  obtain ⟨v, hturn, rfl⟩ := h
  obtain ⟨hwheel, hobserved⟩ := turn_eq_carry hturn
  cases hlo : l.request.observed with
  | some y =>
      have hsome : l.request.observed.isSome = true := by rw [hlo]; rfl
      exact ⟨hsome, ho, hx.symm, hfits, hvalue.trans (hobserved hsome)⟩
  | none =>
      obtain ⟨d, hd⟩ :=
        Family.isEnumerable_iff.mp (Bool.eq_true_of_not_eq_false fun hf => hl ⟨hlo, hf⟩)
      have hzero : v.position = 0 := Domain.position_first (hwheel d hlo hd).2
      rw [show k.value = v from hvalue, hzero] at hpos
      exact absurd hpos (Nat.lt_irrefl 0)

end Choice

namespace World

variable {w w' v : World} {pre us post post' : List Choice} {k k' : Choice}

/-- Worlds that begin with the same choices part after them. -/
theorem PartAt.mem_of_append (h : PartAt pre k k' w w') (hw : w.choices = us ++ post)
    (hw' : w'.choices = us ++ post') : k' ∈ post' := by
  obtain ⟨ps, hp⟩ := h.left
  obtain ⟨ps', hp'⟩ := h.right
  rw [hp] at hw
  rw [hp'] at hw'
  rcases List.append_eq_append_iff.mp hw' with ⟨as, rfl, hcons⟩ | ⟨as, -, hcons⟩
  · cases as with
    | nil =>
        rw [List.nil_append] at hcons
        exact hcons ▸ .head _
    | cons a as =>
        -- the place would be one of those at which the worlds are the same
        rw [List.append_assoc] at hw
        obtain rfl : k = a := (List.cons.inj (List.append_cancel_left hw)).1
        obtain rfl : k' = k := (List.cons.inj hcons).1
        exact absurd rfl h.value
  · exact hcons ▸ List.mem_append_right _ (.head _)

/-- From the one run to the other a free choice has moved on.  The choices before it have been made
again; those behind it were at the end, and begin unless they have just become free. -/
structure StepAt (pre : List Choice) (k : Choice) (u : Value) (post post' : List Choice)
    (w w' : World) : Prop where
  left  : w.choices = pre ++ k :: post
  right : w'.choices = pre ++ { k with value := u } :: post'
  turn  : k.turn = .ok (u, false)
  ended : ∀ i ∈ post, ∃ v, i.turn = .ok (v, true)
  begun : ∀ i ∈ post', i.request.observed = none → 0 < i.value.position → ∃ l ∈ post, l.Keeps i

/-- The world stands between the two runs, and was skipped: where it parts from the second run, that
keeps a value past the one of the world, which was observed in the first run. -/
structure Skips (w w' v : World) : Prop where
  before : w.Before v
  stale  : ∃ pre k k' l, PartAt pre k k' v w' ∧ k.value.position < k'.value.position ∧
    l ∈ w.choices ∧ l.Keeps k'

namespace StepAt

variable {u : Value}

/-- A world that makes the choice that moves as the second run does, and stands before that run, was
skipped. -/
theorem skips_of_right (h : StepAt pre k u post post' w w') {vs : List Choice}
    (hv : v.choices = pre ++ { k with value := u } :: vs) (hwv : w.Before v) (hvw : v.Before w') :
    w.Skips w' v := by
  obtain ⟨pre', c, d, hpart, hfree, hlt⟩ := hvw
  have hv : v.choices = (pre ++ [{ k with value := u }]) ++ vs := by
    rw [hv, List.append_assoc]
    rfl
  have hd : d ∈ post' := hpart.mem_of_append hv (by rw [h.right, List.append_assoc]; rfl)
  -- past the world it cannot be at the first position
  obtain ⟨l, hl, hkeeps⟩ := h.begun d hd (hpart.request ▸ hfree) (Nat.zero_lt_of_lt hlt)
  refine ⟨hwv, pre', c, d, l, hpart, hlt, ?_, hkeeps⟩
  rw [h.left]
  exact List.mem_append_right _ (.tail _ hl)

/-- **A world between two runs was skipped.** -/
theorem skips (h : StepAt pre k u post post' w w') (hv : ∀ i ∈ v.choices, i.Takes)
    (hwv : w.Before v) (hvw : v.Before w') : w.Skips w' v := by
  have hwv' := hwv
  obtain ⟨pre', a, b, hpart, hfree, hlt⟩ := hwv'
  obtain ⟨us, hw⟩ := hpart.left
  obtain ⟨vs, hb⟩ := hpart.right
  rcases PartAt.append_cons_cases (hw.symm.trans h.left) with
    ⟨as, rfl, -⟩ | ⟨rfl, rfl, -⟩ | ⟨as, rfl, rfl⟩
  · -- the world parts from both runs at a choice that they make alike
    have hw' : w'.choices = pre' ++ a :: (as ++ { k with value := u } :: post') := by
      rw [h.right, List.append_assoc]
      rfl
    exact absurd hvw (Before.asymm ⟨pre', a, b, ⟨⟨_, hw'⟩, hpart.right, hpart.address,
      hpart.request, hpart.value⟩, hfree, hlt⟩)
  · by_cases hsame : b = { k with value := u }
    · exact h.skips_of_right (hsame ▸ hb) hwv hvw
    · -- there is no position between the two that the runs have where they part
      have hpart' : PartAt pre b { k with value := u } v w' :=
        ⟨hpart.right, ⟨post', h.right⟩, hpart.address.symm, hpart.request.symm, fun he =>
          hsame (Choice.eq_with hpart.address hpart.request he.symm)⟩
      obtain ⟨pre₂, c, d, hpart₂, -, hlt₂⟩ := hvw
      obtain ⟨-, rfl, rfl⟩ := hpart'.unique hpart₂
      have hpos := Choice.position_of_turn h.turn
      have hlt₂ : b.value.position < u.position := hlt₂
      omega
  · -- the first run is at the end where the world parts from it
    obtain ⟨y, hturn⟩ := h.ended a (List.mem_append_right _ (.head _))
    have hle := Choice.le_position_of_carry hturn hfree
      (hpart.request ▸ hv b hpart.mem_right : b.value ∈ a.request.values)
    omega

end StepAt

end World

namespace Program.RunsOver

variable {limits : Limits} {p : Program} {held : Address → Option Holding} {w w' : World}
  {ks : List Choice}

/-- **Where the odometer stops, the next run is a step.** -/
theorem exists_stepAt (hw : p.RunsOver limits held w) (hp : p.Sealed) (hc : p.Countable)
    (h : Choice.wind w.choices = .ok (ks, false)) (hw' : p.RunsOver limits (Choice.held ks) w') :
    ∃ pre k u post post', World.StepAt pre k u post post' w w' := by
  have hn : (ks.map (·.address)).Nodup := by
    rw [Choice.address_wind h]
    exact hw.nodup.1
  obtain ⟨pre, k, u, post, ps, hchoices, rfl, hturn, hrewinds⟩ := Choice.wind_eq_stop h
  have hfree := (Choice.turn_eq_move hturn).1
  -- the choices that the odometer has not rewound are made again
  obtain ⟨k', post', hright, hx, hq⟩ := Program.Leads.along hw hw' hp hchoices
    fun i hi j hj hx hq => by
      have hi' : i ∈ w.choices := hchoices ▸ List.mem_append_left _ hi
      rw [(hw'.of_mem j hj).2.2.value_of_mem hn (List.mem_append_left _ hi) hx hq]
      exact (hw.of_mem i hi').2.1.valueFor_holding
  have hk' : k' ∈ w'.choices := hright ▸ List.mem_append_right _ (.head _)
  have hval : k'.value = u := by
    rw [(hw'.of_mem k' hk').2.2.value_of_mem hn (List.mem_append_right pre (.head ps)) hx hq,
      Holding.valueFor, hfree]
    rfl
  obtain rfl := Choice.eq_with hx hq hval
  refine ⟨pre, k, u, post, post', hchoices, hright, hturn, fun i hi => ?_,
    fun j hj hjfree hpos => ?_⟩
  · obtain ⟨i', -, v, hi, -⟩ := exists_of_forall₂ hrewinds i hi
    exact ⟨v, hi⟩
  · have hj' : j ∈ w'.choices := hright ▸ List.mem_append_right _ (.tail _ hj)
    obtain ⟨i, hi, hx, hfits, hvalue⟩ := (hw'.of_mem j hj').2.2.exists_left hjfree
      (hw'.not_loose hc j hj') hpos
    -- what it keeps was left by a choice behind the one that has moved
    have hips : i ∈ ps := by
      have hn' := hw'.nodup.1
      rw [hright, List.append_cons, List.map_append] at hn'
      rw [List.append_cons] at hi
      rcases List.mem_append.mp hi with hi | hi
      · exact absurd hx ((List.nodup_append.mp hn').2.2 _ (List.mem_map_of_mem hi) _
          (List.mem_map_of_mem hj))
      · exact hi
    obtain ⟨l, hl, hrewinds⟩ := exists_of_forall₂ (R := flip Choice.Rewinds)
      (List.Forall₂.flip hrewinds) i hips
    have hlw : l ∈ w.choices := hchoices ▸ List.mem_append_right _ (.tail _ hl)
    exact ⟨l, hl, hrewinds.keeps (hw.not_loose hc l hlw) hx hfits hvalue hjfree hpos⟩

/-- Over nothing every choice begins, and no world comes before the run. -/
theorem not_before (hw : p.RunsOver limits (fun _ => none) w) (hc : p.Countable) (v : World) :
    ¬ v.Before w := by
  rintro ⟨pre, k, k', hpart, hfree, hlt⟩
  have hk' := hpart.mem_right
  have hfresh := (hw.of_mem k' hk').2.2.fresh nofun
  rw [hfresh.position_eq (hpart.request ▸ hfree) (hw.not_loose hc k' hk')] at hlt
  exact Nat.not_lt_zero _ hlt

end Program.RunsOver

/-! ### Worlds that are missed -/

namespace World

variable {w v : World} {runs : List World}

/-- An enumeration with these runs has missed the world: it has skipped it from one run to the next,
or a run has strayed from it. -/
inductive Missed (runs : List World) (v : World) : Prop where
  | skipped {w w' : World} (h : [w, w'] <:+: runs) (hs : w.Skips w' v) : Missed runs v
  | strayed {w : World} (h : w ∈ runs) (hs : w.Strays v) : Missed runs v

theorem Missed.cons (h : Missed runs v) (w : World) : Missed (w :: runs) v := by
  cases h with
  | skipped h hs => exact .skipped (h.trans (List.suffix_cons w runs).isInfix) hs
  | strayed h hs => exact .strayed (.tail _ h) hs

/-- After the last run there is no world. -/
theorem Closes.not_before (h : w.Closes) (hv : ∀ i ∈ v.choices, i.Takes) : ¬ w.Before v := by
  rintro ⟨pre, k, k', hpart, hfree, hlt⟩
  obtain ⟨ks, hround⟩ := h.round
  obtain ⟨_, -, u, hturn, -⟩ := exists_of_forall₂ (Choice.wind_eq_round hround) k hpart.mem_left
  have hle := Choice.le_position_of_carry hturn hfree
    (hpart.request ▸ hv k' hpart.mem_right : k'.value ∈ k.request.values)
  omega

end World

/-- **A satisfied world comes before the first run of a course that closes, or it is missed.** -/
theorem Program.Course.before_or_missed {limits : Limits} {p : Program}
    {held : Address → Option Holding} {runs : List World} {v : World}
    (h : p.Course limits World.Closes held runs) (hp : p.Sealed) (hc : p.Countable)
    (hv : p.Offers limits v) (hs : v.satisfied = true) :
    (∃ w ∈ runs.head?, v.Before w) ∨ World.Missed runs v := by
  have hcompare : ∀ {held w}, p.RunsOver limits held w → w.satisfied = false →
      v.Before w ∨ w.Before v ∨ w.Strays v := fun {held w} hw hu => by
    rcases hw.compare hv hp hc (fun _ hk => hk.1) fun _ hq hk => hk.sound hq with rfl | h | h | h
    · cases hs.symm.trans hu
    · exact .inr (.inl h)
    · exact .inl h
    · exact .inr (.inr h)
  have htakes : ∀ i ∈ v.choices, i.Takes := fun i hi => (hv.of_mem i hi).2
  induction h with
  | last hw hE =>
      rcases hcompare hw hE.unsatisfied with h | h | h
      · exact .inl ⟨_, rfl, h⟩
      · exact absurd h (hE.not_before htakes)
      · exact .inr (.strayed (.head _) h)
  | @cons held held' w ws hw hu hl hcourse ih =>
      rcases hcompare hw hu with h | h | h
      · exact .inl ⟨_, rfl, h⟩
      · rcases ih with ⟨w', hw', h'⟩ | ih
        · -- the world stands between this run and the next
          obtain ⟨w'', rest, rfl, hruns⟩ := hcourse.exists_cons
          cases hw'
          cases hl with
          | advanced hwind =>
              obtain ⟨pre, k, u, post, post', hstep⟩ := hw.exists_stepAt hp hc hwind hruns
              exact .inr (.skipped (List.prefix_append [w, w'] rest).isInfix
                (hstep.skips htakes h h'))
          | restarted _ hloose =>
              obtain ⟨k, hk, hloose⟩ := hloose
              exact absurd hloose (hw.not_loose hc k hk)
        · exact .inr (ih.cons w)
      · exact .inr (.strayed (.head _) h)

/-- **A satisfied world that a course over nothing has not run is missed.** -/
theorem Program.Course.missed {limits : Limits} {p : Program} {runs : List World} {v : World}
    (h : p.Course limits World.Closes (fun _ => none) runs) (hp : p.Sealed) (hc : p.Countable)
    (hv : p.Offers limits v) (hs : v.satisfied = true) : World.Missed runs v := by
  rcases h.before_or_missed hp hc hv hs with ⟨w, hw, hbefore⟩ | hmissed
  · obtain ⟨w', rest, rfl, hruns⟩ := h.exists_cons
    cases hw
    exact absurd hbefore (hruns.not_before hc v)
  · exact hmissed

/-- No address is observed in one run of the program and free in another. -/
def Program.KeepsRoles (limits : Limits) (p : Program) : Prop :=
  ∀ {held held' : Address → Option Holding} {w w' : World}, p.RunsOver limits held w →
    p.RunsOver limits held' w' → ∀ l ∈ w.choices, ∀ k ∈ w'.choices, k.address = l.address →
      k.request.observed.isSome = l.request.observed.isSome

/-- No run of the program strays from a world that it offers. -/
def Program.Exact (limits : Limits) (p : Program) : Prop :=
  ∀ {held : Address → Option Holding} {w v : World}, p.RunsOver limits held w →
    p.Offers limits v → ¬ w.Strays v

section Roles

variable {limits : Limits} {p : Program}

/-- The choices of a program that observes none keep their roles. -/
theorem Program.keepsRoles_of_free (h : p.Asks (·.observed = none)) : p.KeepsRoles limits :=
  fun hw hw' l hl k hk _ => by rw [hw.asks h l hl, hw'.asks h k hk]

theorem Program.exact_of_free (h : p.Asks (·.observed = none)) : p.Exact limits := by
  rintro held w v hw - ⟨pre, k, k', hpart, hsome⟩
  rw [hw.asks h k hpart.mem_left] at hsome
  cases hsome

/-- A course misses no world if the choices keep their roles. -/
theorem Program.Course.not_missed {E : World → Prop} {held : Address → Option Holding}
    {runs : List World} {v : World}
    (h : p.Course limits E held runs) (hroles : p.KeepsRoles limits) (hexact : p.Exact limits)
    (hv : p.Offers limits v) : ¬ World.Missed runs v := by
  intro hm
  cases hm with
  | @skipped w w' hpair hs =>
      obtain ⟨-, pre, k, k', l, hpart, -, hl, hkeeps⟩ := hs
      obtain ⟨held, hw⟩ := h.runsOver w (hpair.subset (.head _))
      obtain ⟨held', hw'⟩ := h.runsOver w' (hpair.subset (.tail _ (.head _)))
      have hrole := hroles hw hw' l hl k' hpart.mem_right hkeeps.address
      rw [hkeeps.free, hkeeps.observed] at hrole
      cases hrole
  | strayed hmem hs =>
      obtain ⟨held, hw⟩ := h.runsOver _ hmem
      exact hexact hw hv hs

end Roles

namespace Search

variable {program : Program} {limits : Limits} {s : Session} {fuel n : Nat}

/-- **The log of an exhausted enumeration shows a course that closes.** -/
theorem exists_course {t : Trace} (hp : t.program.Sealed) (h : t.WellFormed) (hsc : t.Scored)
    (hn : (t.search .enumeration fuel s).1 = .ok (.exhausted n)) :
    ∃ runs, t.program.Course t.limits World.Closes t.held runs ∧
      List.Forall₂ Trace.Shows (logged fuel t s).2 runs := by
  rw [← fst_logged] at hn
  exact (coursed_logged hp h hsc fuel s).exhausted n hn

/-- **Where the choices keep their roles an exhausted enumeration is right**: the program offers no
satisfied world. -/
theorem exhausted_sound (hp : program.Sealed) (hc : program.Countable)
    (hroles : program.KeepsRoles limits) (hexact : program.Exact limits) (id : Nat)
    (generator : Generator) (h : ((Trace.unstarted id program limits generator).search .enumeration
      fuel s).1 = .ok (.exhausted n)) :
    ∀ v, program.Offers limits v → v.satisfied = false := by
  obtain ⟨runs, hcourse, -⟩ := exists_course (t := .unstarted id program limits generator) hp
    (.of_empty rfl rfl rfl) (Trace.scored_of_empty rfl) h
  rw [Trace.held_of_empty rfl] at hcourse
  intro v hv
  cases hs : v.satisfied with
  | false => rfl
  | true => exact absurd (hcourse.missed hp hc hv hs) (hcourse.not_missed hroles hexact hv)

/-- **What an exhausted enumeration has missed.**  Let a program be sealed, its free choices have
finite domains, and an enumeration over a trace that has never run the program end exhausted.  Then
the log shows runs in vain, the first one over nothing and each of the others over what the one
before has left, and a satisfied world of the program is missed in one of two ways.  From one run to
the next it was skipped, since a choice that has just become free has kept the value observed in the
one run, which is past that of the world.  Or a run has strayed from it, since an observed choice
has kept a zero of the other sign.  Where neither can happen there is no satisfied world. -/
theorem exhausted_misses (hp : program.Sealed) (hc : program.Countable) (id : Nat)
    (generator : Generator) (h : ((Trace.unstarted id program limits generator).search .enumeration
      fuel s).1 = .ok (.exhausted n)) :
    ∃ runs, program.Course limits World.Closes (fun _ => none) runs ∧
      List.Forall₂ Trace.Shows (logged fuel (.unstarted id program limits generator) s).2 runs ∧
      (∀ w ∈ runs, w.satisfied = false) ∧
      (∀ v, program.Offers limits v → v.satisfied = true → World.Missed runs v) ∧
      (program.KeepsRoles limits → program.Exact limits →
        ∀ v, program.Offers limits v → v.satisfied = false) := by
  obtain ⟨runs, hcourse, hlog⟩ := exists_course (t := .unstarted id program limits generator) hp
    (.of_empty rfl rfl rfl) (Trace.scored_of_empty rfl) h
  rw [Trace.held_of_empty rfl] at hcourse
  exact ⟨runs, hcourse, hlog, hcourse.unsatisfied, fun v hv hs => hcourse.missed hp hc hv hs,
    fun hroles hexact => exhausted_sound hp hc hroles hexact id generator h⟩

end Search

/-! ### A value that was observed and is skipped -/

/-- A flip that is free if a first one is true and observed to be true otherwise, and a demand for
the first one to be true and the second one false. -/
def freedFlip : Program :=
  (do
    let x ← Computation.structural .flip [1.0]
    let y ← if x = Value.bool true then Computation.sample .flip [0.0]
      else Computation.observe .flip [1.0] (.bool true)
    Computation.condition (x = Value.bool true && y = Value.bool false)
    pure y).program

theorem sealed_freedFlip : freedFlip.Sealed := by
  refine Program.sealed_choose nofun (fun _ => rfl) fun x => ?_
  by_cases hx : x = Value.bool true
  · simp only [if_pos hx]
    exact Program.sealed_choose nofun (fun _ => rfl) fun _ => trivial
  · simp only [if_neg hx]
    exact Program.sealed_choose nofun (fun _ => rfl) fun _ => trivial

theorem countable_freedFlip : freedFlip.Countable := by
  refine Program.asks_choose (fun _ => rfl) (fun _ => rfl) fun x => ?_
  by_cases hx : x = Value.bool true
  · simp only [if_pos hx]
    exact Program.asks_choose (fun _ => rfl) (fun _ => rfl) fun _ => trivial
  · simp only [if_neg hx]
    exact Program.asks_choose nofun (fun _ => rfl) fun _ => trivial

/-- One world is satisfied: that in which the first flip is true and the second one false. -/
theorem offers_freedFlip : ∃ v, freedFlip.Offers {} v ∧ v.satisfied = true := by
  have hfirst : Request.Accepted { family := .flip, params := [1.0], structural := true } :=
    ⟨by decide +kernel, nofun⟩
  have hsecond : Request.Accepted { family := .flip, params := [0.0] } :=
    ⟨by decide +kernel, nofun⟩
  refine ⟨_, .choose (v := .bool true) (by decide) hfirst ?_ (.choose (v := .bool false)
    (by decide) hsecond ?_ (.silent .condition .done)), rfl⟩
  · exact .tail _ (.head _)
  · exact .head _

/-- **The enumeration ends exhausted although a world is satisfied.** -/
theorem exhausted_freedFlip : (∃ v, freedFlip.Offers {} v ∧ v.satisfied = true) ∧
    ((Trace.unstarted 0 freedFlip {} (.ofSeed 0)).search .enumeration 5 {}).1 =
      .ok (.exhausted 2) :=
  ⟨offers_freedFlip, by decide +kernel⟩

/-- A flip that has to be both true and false. -/
def vainFlip : Program :=
  (do
    let x ← Computation.structural .flip [1.0]
    Computation.condition (x = Value.bool true && x = Value.bool false)
    pure x).program

theorem sealed_vainFlip : vainFlip.Sealed :=
  Program.sealed_choose nofun (fun _ => rfl) fun _ => trivial

theorem countable_vainFlip : vainFlip.Countable :=
  Program.asks_choose (fun _ => rfl) (fun _ => rfl) fun _ => trivial

theorem free_vainFlip : vainFlip.Asks (·.observed = none) :=
  Program.asks_choose rfl (fun _ => rfl) fun _ => trivial

/-- The satisfied world is missed.  Where nothing is observed there is none. -/
theorem missed_freedFlip : (∃ runs v, freedFlip.Offers {} v ∧ v.satisfied = true ∧
    List.Forall₂ Trace.Shows (Search.logged 5 (.unstarted 0 freedFlip {} (.ofSeed 0)) {}).2 runs ∧
    World.Missed runs v) ∧ ∀ v, vainFlip.Offers {} v → v.satisfied = false := by
  have hexhausted : ((Trace.unstarted 0 freedFlip {} (.ofSeed 0)).search .enumeration 5 {}).1 =
      .ok (.exhausted 2) := by decide +kernel
  have hvain : ((Trace.unstarted 0 vainFlip {} (.ofSeed 0)).search .enumeration 5 {}).1 =
      .ok (.exhausted 2) := by decide +kernel
  constructor
  · obtain ⟨v, hv, hs⟩ := offers_freedFlip
    obtain ⟨runs, -, hlog, -, hmissed, -⟩ := Search.exhausted_misses sealed_freedFlip
      countable_freedFlip 0 (.ofSeed 0) hexhausted
    exact ⟨runs, v, hv, hs, hlog, hmissed v hv hs⟩
  · obtain ⟨-, -, -, -, -, hsound⟩ := Search.exhausted_misses sealed_vainFlip countable_vainFlip 0
      (.ofSeed 0) hvain
    exact hsound (Program.keepsRoles_of_free free_vainFlip) (Program.exact_of_free free_vainFlip)

/-! ### Choices to draw afresh -/

/-- A run that has a choice to draw afresh parts before that choice from one that has none. -/
theorem Program.RunsOver.partAt_of_loose {limits : Limits} {p : Program}
    {held held' : Address → Option Holding} {w w' : World} {pre post : List Choice} {k : Choice}
    (hw : p.RunsOver limits held w) (hw' : p.RunsOver limits held' w') (hp : p.Sealed)
    (htight : ∀ i ∈ w'.choices, ¬ i.Loose) (hk : w.choices = pre ++ k :: post) (hl : k.Loose) :
    ∃ pre' j j', World.PartAt pre' j j' w w' ∧ j ∈ pre := by
  rcases hw.eq_or_partAt hw' hp with rfl | ⟨pre', j, j', hpart⟩
  · exact absurd hl (htight k (hk ▸ List.mem_append_right _ (.head _)))
  obtain ⟨us, hleft⟩ := hpart.left
  obtain ⟨us', hright⟩ := hpart.right
  rcases World.PartAt.append_cons_cases (hleft.symm.trans hk) with
    ⟨as, rfl, -⟩ | ⟨rfl, rfl, -⟩ | ⟨as, rfl, -⟩
  · exact ⟨pre', j, j', hpart, List.mem_append_right _ (.head _)⟩
  · -- they part at the choice, and it is made with the same request
    exact absurd (show j'.Loose by rw [Choice.Loose, hpart.request]; exact hl)
      (htight j' hpart.mem_right)
  · exact absurd hl (htight k (by
      rw [hright, List.append_assoc]
      exact List.mem_append_right _ (.head _)))

/-- **An enumeration that ends exhausted has no choice to draw afresh in its last run.**  Over a
trace that has never run the program the log shows runs in vain, the first one over nothing.  After
each run the odometer has moved on, or it has come round, the run has a choice to draw afresh, and
the next run is over nothing again; after the last run it has come round, and that run has no such
choice.  A run that has one has parted from the last run before that choice. -/
theorem Search.exhausted_tight {program : Program} {limits : Limits} {s : Session} {fuel n : Nat}
    (hp : program.Sealed) (id : Nat) (generator : Generator)
    (h : ((Trace.unstarted id program limits generator).search .enumeration fuel s).1 =
      .ok (.exhausted n)) :
    ∃ runs last, program.Course limits World.Closes (fun _ => none) (runs ++ [last]) ∧
      List.Forall₂ Trace.Shows (logged fuel (.unstarted id program limits generator) s).2
        (runs ++ [last]) ∧
      (∀ k ∈ last.choices, ¬ k.Loose) ∧
      ∀ w ∈ runs, ∀ pre k post, w.choices = pre ++ k :: post → k.Loose →
        ∃ pre' j j', World.PartAt pre' j j' w last ∧ j ∈ pre := by
  obtain ⟨ws, hcourse, hlog⟩ := exists_course (t := .unstarted id program limits generator) hp
    (.of_empty rfl rfl rfl) (Trace.scored_of_empty rfl) h
  rw [Trace.held_of_empty rfl] at hcourse
  obtain ⟨runs, last, rfl, hcloses⟩ := hcourse.exists_last
  refine ⟨runs, last, hcourse, hlog, hcloses.tight, fun w hw pre k post hk hl => ?_⟩
  obtain ⟨held, hrun⟩ := hcourse.runsOver w (List.mem_append_left _ hw)
  obtain ⟨held', hlast⟩ := hcourse.runsOver last (List.mem_append_right _ (.head _))
  exact hrun.partAt_of_loose hlast hp hcloses.tight hk hl

/-! ### A draw that is given up -/

/-- A demand that fails if a first flip is true, and otherwise a uniform draw that has to be below
one half. -/
def lateUniform : Program :=
  (do
    let x ← Computation.structural .flip [1.0]
    if x = Value.bool true then
      Computation.condition false
      pure x
    else
      let u ← Computation.sample .uniform [0.0, 1.0]
      Computation.condition (u.asFloat.getD 1.0 < 0.5)
      pure x).program

theorem sealed_lateUniform : lateUniform.Sealed := by
  refine Program.sealed_choose nofun (fun _ => rfl) fun x => ?_
  by_cases hx : x = Value.bool true
  · simp only [if_pos hx]
    trivial
  · simp only [if_neg hx]
    exact Program.sealed_choose nofun (fun _ => rfl) fun _ => trivial

theorem hasLoose_lateUniform :
    (Search.logged 5 (.unstarted 0 lateUniform {} (.ofSeed 0)) {}).2.map Trace.hasLoose =
      [true, false] := by
  decide +kernel

/-- **The enumeration ends exhausted although its first run has made a draw** that failed: in the
last run there is none. -/
theorem exhausted_lateUniform :
    ((Trace.unstarted 0 lateUniform {} (.ofSeed 0)).search .enumeration 5 {}).1 =
        .ok (.exhausted 2) ∧
      (Search.logged 5 (.unstarted 0 lateUniform {} (.ofSeed 0)) {}).2.map Trace.hasLoose =
        [true, false] :=
  ⟨by decide +kernel, hasLoose_lateUniform⟩

/-- Both runs, of which the first has parted from the last at the first flip. -/
theorem tight_lateUniform : ∃ w last,
    List.Forall₂ Trace.Shows (Search.logged 5 (.unstarted 0 lateUniform {} (.ofSeed 0)) {}).2
      [w, last] ∧
    (∃ k ∈ w.choices, k.Loose) ∧ (∀ k ∈ last.choices, ¬ k.Loose) ∧
    ∃ pre j j', World.PartAt pre j j' w last := by
  have hlog := hasLoose_lateUniform
  have hexhausted : ((Trace.unstarted 0 lateUniform {} (.ofSeed 0)).search .enumeration 5 {}).1 =
      .ok (.exhausted 2) := by decide +kernel
  obtain ⟨runs, last, -, hshows, htight, hparts⟩ :=
    Search.exhausted_tight sealed_lateUniform 0 (.ofSeed 0) hexhausted
  generalize (Search.logged 5 (.unstarted 0 lateUniform {} (.ofSeed 0)) {}).2 = log at hlog hshows ⊢
  -- there are two runs
  obtain ⟨t, log, rfl, ht, hlog⟩ := List.map_eq_cons_iff.mp hlog
  obtain ⟨t', log, rfl, -, hlog⟩ := List.map_eq_cons_iff.mp hlog
  obtain rfl := List.map_eq_nil_iff.mp hlog
  obtain ⟨w, rfl⟩ : ∃ w, runs = [w] := by
    have hlen := hshows.length_eq
    rw [List.length_append] at hlen
    exact List.length_eq_one_iff.mp (by simpa using hlen.symm)
  have hloose : ∃ k ∈ w.choices, k.Loose := by
    have hw : t.Shows w := (List.forall₂_cons.mp hshows).1
    by_contra hno
    rw [(Trace.hasLoose_eq_false_iff hw.choices).mpr fun k hk hl => hno ⟨k, hk, hl⟩] at ht
    cases ht
  refine ⟨w, last, hshows, hloose, htight, ?_⟩
  obtain ⟨k, hk, hl⟩ := hloose
  obtain ⟨pre, post, hsplit⟩ := List.append_of_mem hk
  obtain ⟨pre', j, j', hpart, -⟩ := hparts w (.head _) pre k post hsplit hl
  exact ⟨pre', j, j', hpart⟩

end ProbTrace
