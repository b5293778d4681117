import ProbTrace.Proofs.Layout
import ProbTrace.Proofs.Playing

/-!
# Proofs — FastPath: looking at the previous order is never observed

A pass with fixed structure first looks at the position of the previous order that it has come to.
`Pass.plain` is a pass with the rest of that order forgotten and no events; `Pass.byAddress` is the
player that never looks at an order and serves every choice by its address.

`choose_eq_serve` is the step: from a trace in its layout a choice gives the answer, and the plain
pass, that serving it by address gives.  The record found by position bears the claimed address, so
it was not taken over in this pass, and the address stands for its slot.  `player_simulates` carries
this over to whole runs.
-/

namespace ProbTrace

namespace Trace

variable {t : Trace} {i : Nat} {q : Request} {site : Site}

theorem atPosition_eq_reuse (h : t.atPosition q site = .reuse i) :
    t.order[t.cursor]? = some i ∧ ∃ r, t.arena.record? i = some r ∧
      r.fits q.family q.structural = true ∧ r.address.isAt site.path site.count = true := by
  rw [atPosition] at h
  split at h
  · cases h
  · rename_i j hj
    split at h
    · cases h
    · rename_i r hr
      split at h
      · rename_i hf
        cases h
        exact ⟨hj, r, hr, Bool.and_eq_true_iff.mp hf⟩
      · cases h

theorem take_succ_eq_push {a : Array Nat} {k : Nat} (h : a[k]? = some i) :
    a.take (k + 1) = (a.take k).push i := by
  apply Array.toList_inj.mp
  rw [Array.toList_push]
  simp [List.take_add_one, h]

/-- Visiting the record that the previous order lists next leaves that order as it is. -/
theorem forgetRest_visit {r : Record} (h : t.order[t.cursor]? = some i) :
    { t.visit i r with order := t.order }.forgetRest = t.forgetRest.visit i r := by
  simp only [forgetRest, visit, take_succ_eq_push h]

theorem size_order_serve (h : t.order.size = t.cursor) (x : Address) (b : Bool) :
    (t.serve x q b).2.order.size = (t.serve x q b).2.cursor := by
  have hs := t.serves x q b
  generalize t.serve x q b = out at hs ⊢
  cases hs with
  | undrawn => exact h
  | unscored => exact h
  | created => simp [visitNew, h]
  | refused => exact h
  | reused => simp [visit, h]

theorem forgetRest_serve (h : t.order.size = t.cursor) (x : Address) (b : Bool) :
    (t.serve x q b).2.forgetRest = (t.serve x q b).2 :=
  forgetRest_of_size_le (Nat.le_of_eq (size_order_serve h x b))

/-- A choice empties no slot. -/
theorem occupied_serve (ha : t.arena.Sound) (x : Address) (b : Bool)
    (h : t.arena.Occupied i) : (t.serve x q b).2.arena.Occupied i := by
  have hs := t.serves x q b
  generalize t.serve x q b = out at hs ⊢
  cases hs with
  | undrawn => exact h
  | unscored => exact h
  | created => exact h.insert ha _
  | refused => exact h.put
  | reused => exact h.put

end Trace

namespace Pass

variable {p : Pass} {q : Request}

/-- The pass with the rest of the previous order forgotten, and without events. -/
def plain (p : Pass) : Pass := ⟨p.trace.forgetRest, p.sites, p.session.quiet⟩

/-- Whether the pass has made as many choices as its budget allows. -/
def spent (p : Pass) : Bool :=
  p.session.enumerating && p.trace.limits.maxChoices ≤ p.trace.cursor

/-- Whether as many call sites are open as the budget of the pass allows. -/
def deep (p : Pass) : Bool := p.session.enumerating && p.trace.limits.maxDepth ≤ p.sites.depth

/-- Makes a choice by its address, without a look at the order. -/
def serve (q : Request) (p : Pass) : Except Fault Value × Pass :=
  if p.spent then (.error (.error (.divergent p.sites.depth p.trace.cursor)), p)
  else
    let (site, sites) := p.sites.claim
    let (answer, t) := p.trace.serve site.address q p.session.enumerating
    (answer, ⟨t, sites, p.session⟩)

/-- The answers of a pass that never looks at the order.  Passes do not nest, so a nested one only
uses up an id. -/
def byAddress : Player Pass :=
  { player with
    choose := serve
    nested := fun _ _ p =>
      (.error (.error .reentrant), { p with session := p.session.freshId.2 }) }

/-- What holds of a pass that is running. -/
structure Running (p : Pass) : Prop where
  layout : p.trace.Layout p.sites
  active : p.session.active.isSome = true

/-! ### One choice -/

theorem spent_plain (p : Pass) : p.plain.spent = p.spent := rfl

theorem serve_of_spent (h : p.spent = true) (q : Request) :
    p.serve q = (.error (.error (.divergent p.sites.depth p.trace.cursor)), p) := by
  rw [serve, if_pos h]

theorem serve_of_not_spent (h : p.spent = false) (q : Request) :
    p.serve q = ((p.trace.serve p.sites.claim.1.address q p.session.enumerating).1,
      ⟨(p.trace.serve p.sites.claim.1.address q p.session.enumerating).2, p.sites.claim.2,
        p.session⟩) := by
  rw [serve, if_neg (by simp [h])]

theorem choose_of_spent (h : p.spent = true) (q : Request) :
    p.choose q = (.error (.error (.divergent p.sites.depth p.trace.cursor)), p) := by
  obtain ⟨t, sites, s⟩ := p
  exact if_pos h

theorem choose_of_not_spent (h : p.spent = false) (q : Request) :
    p.choose q = chooseAt p.sites.claim.1 q p.trace p.sites.claim.2 p.session := by
  obtain ⟨t, sites, s⟩ := p
  exact if_neg (by simpa [spent] using h)

/-- A choice that is not found by position is looked for by address, with the rest of the previous
order forgotten. -/
theorem chooseAt_eq_of_not_reuse {t : Trace} (ha : t.arena.Sound) (site : Site)
    (hp : ∀ i, t.atPosition q site ≠ .reuse i) (sites : CallSites) (s : Session) :
    ∃ s' : Session, s'.quiet = s.quiet ∧ chooseAt site q t sites s =
      ((t.forgetRest.serve site.address q s.enumerating).1,
        ⟨(t.forgetRest.serve site.address q s.enumerating).2, sites, s'⟩) := by
  have hc : chooseAt site q t sites s =
      if t.isListed then
        chooseByAddress site.address q t.forgetRest sites (s.report (.stale t.cursor))
      else chooseByAddress site.address q t sites s := by
    rw [chooseAt]
    cases h : t.atPosition q site with
    | reuse i => exact absurd h (hp i)
    | unfit r => rfl
    | nothing => rfl
  rw [hc]
  split
  · have hq := Session.quiet_report s (.stale t.cursor)
    obtain ⟨s', hs', he⟩ := chooseByAddress_eq (t := t.forgetRest) (x := site.address) (q := q) ha
      sites (s.report (.stale t.cursor))
    rw [Session.enumerating_eq_of_quiet_eq hq] at he
    exact ⟨s', hs'.trans hq, he⟩
  · rename_i hl
    rw [Trace.forgetRest_of_size_le (by simpa [Trace.isListed] using hl)]
    exact chooseByAddress_eq ha sites s

/-- **A choice is served by address**, whether or not it is found by its position; the rest of the
previous order stays, or is forgotten. -/
theorem choose_eq_serve (h : p.trace.Layout p.sites) (q : Request) :
    (p.choose q).1 = (p.plain.serve q).1 ∧ (p.choose q).2.plain = (p.plain.serve q).2 ∧
      ((p.choose q).2.trace.order = p.trace.order ∨
        (p.choose q).2.trace.forgetRest = (p.choose q).2.trace) := by
  cases hb : p.spent with
  | true =>
      rw [choose_of_spent hb, serve_of_spent ((spent_plain p).trans hb)]
      exact ⟨rfl, rfl, .inl rfl⟩
  | false =>
      rw [choose_of_not_spent hb, serve_of_not_spent ((spent_plain p).trans hb)]
      obtain ⟨t, sites, s⟩ := p
      simp only [plain]
      by_cases hp : ∃ i, t.atPosition q sites.claim.1 = .reuse i
      · obtain ⟨i, hp⟩ := hp
        obtain ⟨hi, r, hr, hf, hx⟩ := Trace.atPosition_eq_reuse hp
        have hx : r.address = sites.claim.1.address := (h.arena.named hr).eq_of_isAt hx
        -- The address was not claimed before, so its record was not taken over.
        have ho : t.arena.Owned i sites.claim.1.address := by
          rcases h.owned hr with ho | ⟨-, hc⟩
          · exact hx ▸ ho
          · exact absurd (hx ▸ hc) sites.not_claimed_claim
        have hs : t.forgetRest.serving? sites.claim.1.address q = some (i, r) :=
          Trace.serving?_eq_some_iff.mpr ⟨ho, hr, hf⟩
        simp only [chooseAt, Trace.serve, hp, hs, Trace.refresh, hr]
        rcases r.refreshed q with ⟨_ | _, r'⟩
        · exact ⟨rfl, rfl, .inl rfl⟩
        · rw [settle_ok ⟨r, hr⟩]
          refine ⟨rfl, ?_, .inl rfl⟩
          rw [Trace.forgetRest_visit hi]
      · obtain ⟨s', hs', he⟩ := chooseAt_eq_of_not_reuse (q := q) h.arena sites.claim.1
          (fun i hi => hp ⟨i, hi⟩) sites.claim.2 s
        have ht := Trace.forgetRest_serve (q := q) (Trace.size_order_forgetRest h.cursor_le)
          sites.claim.1.address s.enumerating
        rw [he]
        exact ⟨rfl, by rw [ht, hs']; rfl, .inr ht⟩

/-! ### What a running pass keeps -/

/-- Serving a choice keeps the layout. -/
theorem layout_serve (h : p.trace.Layout p.sites) (ht : p.trace.order.size = p.trace.cursor)
    (q : Request) : (p.serve q).2.trace.Layout (p.serve q).2.sites := by
  cases hb : p.spent with
  | true =>
      rw [serve_of_spent hb]
      exact h
  | false =>
      rw [serve_of_not_spent hb]
      exact h.serve ht p.sites.claim.1.named_address p.sites.not_claimed_claim
        p.sites.claimed_claim_iff _

theorem occupied_serve (h : p.trace.Layout p.sites) (q : Request) {i : Nat}
    (hi : p.trace.arena.Occupied i) : (p.serve q).2.trace.arena.Occupied i := by
  cases hb : p.spent with
  | true =>
      rw [serve_of_spent hb]
      exact hi
  | false =>
      rw [serve_of_not_spent hb]
      exact Trace.occupied_serve h.arena _ _ hi

theorem session_serve (p : Pass) (q : Request) : (p.serve q).2.session = p.session := by
  cases hb : p.spent with
  | true => rw [serve_of_spent hb]
  | false => rw [serve_of_not_spent hb]

/-- Every choice keeps the layout. -/
theorem layout_choose (h : p.trace.Layout p.sites) (q : Request) :
    (p.choose q).2.trace.Layout (p.choose q).2.sites := by
  obtain ⟨-, hp, ho⟩ := choose_eq_serve h q
  have hl : (p.choose q).2.plain.trace.Layout (p.choose q).2.plain.sites := by
    rw [hp]
    exact layout_serve h.forgetRest (Trace.size_order_forgetRest h.cursor_le) q
  rcases ho with ho | ho
  · -- The order is the old one, and the slots it lists are still occupied.
    refine hl.of_forgetRest ?_ fun i hi => ?_
    · have hle := hl.cursor_le
      simp only [plain, Trace.forgetRest, Array.size_extract, Array.take_eq_extract] at hle
      omega
    · rw [ho] at hi
      show (p.choose q).2.plain.trace.arena.Occupied i
      rw [hp]
      exact occupied_serve (p := p.plain) h.forgetRest q (h.occupied i hi)
  · rw [← ho]
    exact hl

/-- A choice touches nothing in the session but its events. -/
theorem quiet_session_choose (h : p.trace.Layout p.sites) (q : Request) :
    (p.choose q).2.session.quiet = p.session.quiet := by
  show (p.choose q).2.plain.session = p.plain.session
  rw [(choose_eq_serve h q).2.1, session_serve]

/-- While a pass is running another one is refused, and uses up an id. -/
theorem nested_eq (h : p.session.active.isSome = true) (fixed : Bool) (inner : Program) :
    player.nested fixed inner p =
      (.error (.error .reentrant), { p with session := p.session.freshId.2 }) := by
  obtain ⟨t, sites, ⟨_ | id, enumerating, nextId, cells, recording, events⟩⟩ := p
  · cases h
  · rfl

theorem enter_of_deep (h : p.deep = true) (id : String) :
    p.enter id = (.error (.divergent p.sites.depth p.trace.cursor), p) := by
  obtain ⟨t, sites, s⟩ := p
  exact if_pos h

theorem enter_of_not_deep (h : p.deep = false) (id : String) :
    p.enter id = (.ok (), { p with sites := p.sites.enter id }) := by
  obtain ⟨t, sites, s⟩ := p
  exact if_neg (by simpa [deep] using h)

/-- Whether a call site is entered or not, nothing but the call sites changes, and no address is
claimed. -/
theorem enter_state (p : Pass) (id : String) : ∃ c, (p.enter id).2 = { p with sites := c } ∧
    ∀ y, p.sites.Claimed y → c.Claimed y := by
  cases hb : p.deep with
  | true =>
      rw [enter_of_deep hb]
      exact ⟨p.sites, rfl, fun _ h => h⟩
  | false =>
      rw [enter_of_not_deep hb]
      exact ⟨p.sites.enter id, rfl, fun y => (p.sites.claimed_enter_iff id y).mpr⟩

theorem deep_plain (p : Pass) : p.plain.deep = p.deep := rfl

theorem enter_plain (p : Pass) (id : String) :
    p.plain.enter id = ((p.enter id).1, (p.enter id).2.plain) := by
  cases hb : p.deep with
  | true =>
      rw [enter_of_deep hb, enter_of_deep ((deep_plain p).trans hb)]
      rfl
  | false =>
      rw [enter_of_not_deep hb, enter_of_not_deep ((deep_plain p).trans hb)]
      rfl

/-- **Every answer keeps what holds of a running pass.** -/
theorem keeps_running : player.Keeps Running where
  choose {p} q h := by
    refine ⟨layout_choose h.layout q, ?_⟩
    have hq : (p.choose q).2.session.quiet.active = p.session.quiet.active :=
      congrArg Session.active (quiet_session_choose h.layout q)
    exact hq ▸ h.active
  enter {p} id h := by
    obtain ⟨c, he, hc⟩ := p.enter_state id
    show (p.enter id).2.Running
    rw [he]
    exact ⟨h.layout.mono hc, h.active⟩
  leave {p p'} id h hl := by
    obtain ⟨c, hc, rfl⟩ := leave_eq_ok_iff.mp hl
    exact ⟨h.layout.mono fun y => (CallSites.claimed_leave?_iff hc y).mpr, h.active⟩
  factor w h := ⟨h.layout.congr rfl rfl rfl, h.active⟩
  condition holds h := ⟨h.layout.congr rfl rfl rfl, h.active⟩
  write cell v h := ⟨h.layout, h.active⟩
  nested {p} fixed inner h := by
    rw [nested_eq h.active]
    exact ⟨h.layout, h.active⟩

/-! ### Whole runs -/

/-- **A running pass gives the answers of one that never looks at the order**, and they stay the
same but for the rest of the order and the events. -/
theorem player_simulates : player.Simulates byAddress fun p b => p.Running ∧ b = p.plain where
  choose := by
    rintro p _ q ⟨h, rfl⟩
    obtain ⟨ha, hp, -⟩ := choose_eq_serve h.layout q
    exact ⟨ha, keeps_running.choose q h, hp.symm⟩
  enter := by
    rintro p _ id ⟨h, rfl⟩
    have he : byAddress.enter id p.plain = ((p.enter id).1, (p.enter id).2.plain) :=
      enter_plain p id
    rw [he]
    exact ⟨rfl, keeps_running.enter id h, rfl⟩
  leave := by
    rintro p _ id ⟨h, rfl⟩
    cases hl : p.sites.leave? id with
    | none =>
        refine .inl ⟨.defect (.siteMismatch p.sites.path id), ?_, ?_⟩
        · simp only [player, hl]
        · simp only [byAddress, player, plain, hl]
    | some sites =>
        have hp : player.leave id p = .ok { p with sites } := by simp only [player, hl]
        refine .inr ⟨_, _, hp, ?_, keeps_running.leave id h hp, rfl⟩
        simp only [byAddress, player, plain, hl]
  factor := by
    rintro p _ w ⟨h, rfl⟩
    exact ⟨keeps_running.factor w h, rfl⟩
  condition := by
    rintro p _ holds ⟨h, rfl⟩
    exact ⟨keeps_running.condition holds h, rfl⟩
  isActive _ := rfl
  depth := by
    rintro p _ ⟨-, rfl⟩
    rfl
  isEnumerating := by
    rintro p _ ⟨-, rfl⟩
    rfl
  read := by
    rintro p _ cell ⟨-, rfl⟩
    rfl
  write := by
    rintro p _ cell v ⟨h, rfl⟩
    exact ⟨keeps_running.write cell v h, rfl⟩
  nested := by
    rintro p _ fixed inner ⟨h, rfl⟩
    have hk := keeps_running.nested fixed inner h
    rw [nested_eq h.active] at hk ⊢
    exact ⟨rfl, hk, rfl⟩

/-- A program run in a pass, and played by address alone. -/
theorem run_eq_play_byAddress (h : p.Running) (program : Program) :
    (program.run p).1 = (program.play byAddress p.plain).1 ∧ (program.run p).2.Running ∧
      (program.run p).2.plain = (program.play byAddress p.plain).2 := by
  rw [program.run_eq_play]
  obtain ⟨ha, hr, hp⟩ := Player.play_simulates player_simulates program ⟨h, rfl⟩
  exact ⟨ha, hr, hp.symm⟩

end Pass

end ProbTrace
