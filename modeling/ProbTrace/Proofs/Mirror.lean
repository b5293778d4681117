import ProbTrace.Proofs.Replay

/-!
# Proofs — Mirror: a running pass and its replay

`Replay.Mirrors t₀ p ρ` says how the pass `p`, begun on the trace `t₀` and played by address alone,
stands to what a naive reader has written down.  The visited slots hold the records of the choices,
in order; a slot whose record was not reused holds it unmarked, as the failed choices left it; a
new record lies in a slot that was empty, and until its address is claimed an address stands for
the slot it stood for before.

Each way of serving a request keeps the relation (`Mirrors.refuse`, `Mirrors.reuse`,
`Mirrors.create`), so a pass and its replay answer alike (`byAddress_simulates`), and an update
gives the answer of the replay and closes a trace that mirrors it (`update_mirrors`).
-/

namespace ProbTrace

namespace Record

/-- The record as one that the pass has not reached. -/
def unmarked (r : Record) : Record := { r with active := false }

@[simp] theorem address_unmarked (r : Record) : r.unmarked.address = r.address := rfl

@[simp] theorem active_unmarked (r : Record) : r.unmarked.active = false := rfl

theorem marked_unmarked {r : Record} (h : r.active = true) :
    { r.unmarked with active := true } = r := by
  cases r
  cases h
  rfl

/-- Refreshing does not look at the mark. -/
theorem refreshed_unmarked (r : Record) (q : Request) :
    r.unmarked.refreshed q = ((r.refreshed q).1, (r.refreshed q).2.unmarked) := by
  have hp : r.unmarked.paramsFor q = r.paramsFor q := rfl
  have hv : r.unmarked.valueFor q = r.valueFor q := rfl
  simp only [refreshed, hp, hv]
  split
  · simp only [unmarked]
    split <;> rfl
  · rfl

end Record

/-! ### Passes played by address alone -/

namespace Pass

variable {p : Pass} {i : Nat} {r : Record}

/-- The pass is in its layout, and nothing of the previous order is left. -/
structure Trimmed (p : Pass) : Prop where
  layout : p.trace.Layout p.sites
  size   : p.trace.order.size = p.trace.cursor

theorem Trimmed.mem_order (h : p.Trimmed) (i : Nat) :
    i ∈ p.trace.order.toList ↔ ∃ r, p.trace.arena.record? i = some r ∧ r.active = true := by
  rw [← Trace.visited_of_size_le (Nat.le_of_eq h.size)]
  exact h.layout.mem_visited i

theorem Trimmed.not_mem_order (h : p.Trimmed) (hi : p.trace.arena.record? i = some r)
    (ha : r.active = false) : i ∉ p.trace.order.toList := by
  intro hm
  obtain ⟨s, hs, hsa⟩ := (h.mem_order i).mp hm
  rw [hi] at hs
  cases hs
  rw [ha] at hsa
  cases hsa

theorem trimmed_opening {t : Trace} (h : t.WellFormed) (s : Session) :
    (t.opening false s).plain.Trimmed where
  layout := (h.layout_start false).forgetRest
  size := Trace.size_order_forgetRest (h.layout_start false).cursor_le

theorem trimmed_serve (h : p.Trimmed) (q : Request) : (p.serve q).2.Trimmed where
  layout := layout_serve h.layout h.size q
  size := by
    cases hb : p.spent with
    | true =>
        rw [serve_of_spent hb]
        exact h.size
    | false =>
        rw [serve_of_not_spent hb]
        exact Trace.size_order_serve h.size _ _

theorem trimmed_enter (h : p.Trimmed) (id : String) : (p.enter id).2.Trimmed := by
  obtain ⟨c, he, hc⟩ := p.enter_state id
  rw [he]
  exact ⟨h.layout.mono hc, h.size⟩

end Pass

/-! ### The relation -/

namespace Replay

/-- How a pass over the trace `t₀`, played by address alone, stands to its replay. -/
structure Mirrors (t₀ : Trace) (p : Pass) (ρ : Replay) : Prop where
  sites   : ρ.sites = p.sites
  session : ρ.session = { p.session with active := none }
  /-- What a pass does not change, and what it accumulates. -/
  frame   : p.trace = { t₀ with
    generator := ρ.generator, arena := p.trace.arena, order := p.trace.order,
    cursor := p.trace.cursor, joint := ρ.joint, added := ρ.added, dropped := 0.0, removed := #[],
    satisfied := ρ.satisfied }
  visited : p.trace.order.toList.map p.trace.arena.record? = ρ.records.map some
  reached : ∀ {i r}, t₀.arena.record? i = some r → ρ.reuses r = true → i ∈ p.trace.order.toList
  left    : ∀ {i r}, t₀.arena.record? i = some r → ρ.reuses r = false →
    p.trace.arena.record? i = some (ρ.left r).unmarked
  stored  : ∀ {i r}, p.trace.arena.record? i = some r → r.active = false →
    ∃ r₀, t₀.arena.record? i = some r₀ ∧ r₀.address = r.address
  /-- Only a new record takes an address over. -/
  index   : ∀ x, (∀ r ∈ ρ.created, r.address ≠ x) → p.trace.arena.slotOf? x = t₀.arena.slotOf? x

variable {t₀ : Trace} {p : Pass} {ρ : Replay} {q : Request} {i : Nat} {r r₀ : Record}

theorem mirrors_opening (t : Trace) {s : Session} (hs : s.active = none) :
    Mirrors t (t.opening false s).plain { generator := t.generator, session := s.quiet } where
  sites := rfl
  session := by
    obtain ⟨active, enumerating, nextId, cells, recording, events⟩ := s
    cases hs
    rfl
  frame := rfl
  visited := rfl
  reached _ h := by cases h
  left hi _ := Arena.record?_deactivate_eq_some_iff.mpr ⟨_, hi, rfl⟩
  stored hi _ := by
    obtain ⟨s, hs, rfl⟩ := Arena.record?_deactivate_eq_some_iff.mp hi
    exact ⟨s, hs, rfl⟩
  index _ _ := rfl

namespace Mirrors

/-- A record at an address that nothing is written down for is as it was. -/
theorem untouched {ρ : Replay} (hn : r.address ∉ ρ.touched) :
    ρ.reuses r = false ∧ ρ.left r = r := by
  constructor
  · rw [Bool.eq_false_iff]
    intro hr
    obtain ⟨s, hs, hx⟩ := (reuses_iff ρ r).mp hr
    exact hn (List.mem_map.mpr ⟨s, List.mem_append_left _ (reused_subset ρ hs), hx⟩)
  · exact left_of_not_refused ρ r fun s hs hx =>
      hn (List.mem_map.mpr ⟨s, List.mem_append_right _ hs, hx⟩)

/-- An address that nothing is written down for stands for the slot it stood for before. -/
theorem slotOf?_eq (h : Mirrors t₀ p ρ) {x : Address} (hn : x ∉ ρ.touched) :
    p.trace.arena.slotOf? x = t₀.arena.slotOf? x :=
  h.index x fun r hr hx => hn
    (List.mem_map.mpr ⟨r, List.mem_append_left _ (created_subset ρ hr), hx⟩)

/-- The sites are not a matter of the trace. -/
theorem claim (h : Mirrors t₀ p ρ) (c : CallSites) :
    Mirrors t₀ { p with sites := c } { ρ with sites := c } :=
  { h with sites := rfl }

theorem length_records (h : Mirrors t₀ p ρ) (ht : p.Trimmed) :
    ρ.records.length = p.trace.cursor := by
  have hl := congrArg List.length h.visited
  rw [List.length_map, List.length_map, Array.length_toList] at hl
  exact hl.symm.trans ht.size

/-- Overwriting a slot that was not visited changes no visited record. -/
theorem visited_put (h : Mirrors t₀ p ρ) (hn : i ∉ p.trace.order.toList) :
    p.trace.order.toList.map (p.trace.arena.put i r).record? = ρ.records.map some := by
  rw [← h.visited]
  refine List.map_congr_left fun j hj => Arena.record?_put_of_ne ?_
  rintro rfl
  exact hn hj

/-- A choice that fails to rescore a stored record. -/
theorem refuse (h : Mirrors t₀ p ρ) (hw : t₀.WellFormed) (hi₀ : t₀.arena.record? i = some r₀)
    (hi : p.trace.arena.Occupied i) (hn : i ∉ p.trace.order.toList)
    (hx : r.address = r₀.address) (hf : ∀ s ∈ ρ.refused, s.address ≠ r.address) :
    Mirrors t₀ { p with trace := { p.trace with arena := p.trace.arena.put i r.unmarked } }
      { ρ with refused := ρ.refused ++ [r] } where
  sites := h.sites
  session := h.session
  frame := by
    rw [h.frame]
    rfl
  visited := h.visited_put hn
  reached := h.reached
  left {j s} hs hr := by
    by_cases hij : i = j
    · subst hij
      rw [hi₀] at hs
      cases hs
      rw [left_refused_of_eq ρ hf hx]
      exact Arena.record?_put_self hi
    · -- in another slot, so at another address
      have hne : r.address ≠ s.address := fun he => hij ((hw.owned hi₀).unique (by
        rw [← hx, he]
        exact hw.owned hs))
      rw [left_refused_of_ne ρ hne]
      exact (Arena.record?_put_of_ne hij).trans (h.left hs hr)
  stored {j s} hj ha := by
    obtain ⟨rfl, rfl⟩ | ⟨-, hj⟩ := Arena.record?_put_cases hj
    · exact ⟨r₀, hi₀, hx.symm⟩
    · exact h.stored hj ha
  index := h.index

/-- A choice that reuses a stored record. -/
theorem reuse (h : Mirrors t₀ p ρ) (hw : t₀.WellFormed) (q : Request)
    (hi₀ : t₀.arena.record? i = some r₀) (hi : p.trace.arena.Occupied i)
    (hn : i ∉ p.trace.order.toList) (hx : r.address = r₀.address) (hm : r.active = true) :
    Mirrors t₀ { p with trace := p.trace.visit i r.unmarked } (ρ.note (.made q r false)) where
  sites := h.sites
  session := h.session
  frame := by
    rw [joint_note, added_note, h.frame]
    rfl
  visited := by
    have hi' : (p.trace.visit i r.unmarked).arena.record? i = some r :=
      (Arena.record?_put_self hi).trans (congrArg some (Record.marked_unmarked hm))
    rw [records_note, List.map_append, ← h.visited_put hn]
    simp only [Trace.visit, Array.toList_push, List.map_append, List.map_singleton]
    exact congrArg _ (congrArg (fun o => [o]) hi')
  reached {j s} hs hr := by
    show j ∈ (p.trace.order.push i).toList
    rw [Array.toList_push, List.mem_append, List.mem_singleton]
    obtain ⟨u, hu, he⟩ := (reuses_iff _ _).mp hr
    rw [reused_note] at hu
    rcases List.mem_append.mp hu with hu | hu
    · exact .inl (h.reached hs ((reuses_iff _ _).mpr ⟨u, hu, he⟩))
    · rw [List.mem_singleton.mp hu, hx] at he
      exact .inr ((hw.owned hs).unique (he ▸ hw.owned hi₀))
  left {j s} hs hr := by
    have hne : i ≠ j := by
      rintro rfl
      rw [hi₀] at hs
      cases hs
      have ht : (ρ.note (.made q r false)).reuses r₀ = true :=
        (reuses_iff _ _).mpr ⟨r, by rw [reused_note]; exact List.mem_append_right _ (.head _), hx⟩
      rw [ht] at hr
      cases hr
    have hr' : ρ.reuses s = false := by
      rw [Bool.eq_false_iff] at hr ⊢
      intro ht
      obtain ⟨u, hu, he⟩ := (reuses_iff _ _).mp ht
      exact hr ((reuses_iff _ _).mpr ⟨u, by rw [reused_note]; exact List.mem_append_left _ hu, he⟩)
    exact (Arena.record?_put_of_ne hne).trans (h.left hs hr')
  stored {j s} hj ha := by
    obtain ⟨rfl, rfl⟩ | ⟨-, hj⟩ := Arena.record?_put_cases hj
    · cases ha
    · exact h.stored hj ha
  index x hx := h.index x fun s hs => hx s (by
    rw [created_note]
    exact List.mem_append_left _ hs)

/-- A choice that creates a record. -/
theorem create (h : Mirrors t₀ p ρ) (ha : p.trace.arena.Sound) (q : Request) (g : Generator)
    (ho : ∀ j ∈ p.trace.order.toList, p.trace.arena.Occupied j) (hm : r.active = true) :
    Mirrors t₀ { p with trace := p.trace.visitNew g r }
      ({ ρ with generator := g }.note (.made q r true)) where
  sites := h.sites
  session := h.session
  frame := by
    rw [joint_note, added_note, h.frame]
    rfl
  visited := by
    have hold : p.trace.order.toList.map (p.trace.arena.insert r).2.record? =
        ρ.records.map some := by
      rw [← h.visited]
      refine List.map_congr_left fun j hj => ?_
      obtain ⟨s, hs⟩ := ho j hj
      rw [ha.record?_insert_of_some hs, hs]
    rw [records_note, List.map_append, show Replay.records { ρ with generator := g } = ρ.records
      from rfl, ← hold]
    simp only [Trace.visitNew, Array.toList_push, List.map_append, List.map_singleton,
      ha.record?_insert_self]
    rfl
  reached {j s} hs hr := by
    show j ∈ (p.trace.order.push _).toList
    rw [Array.toList_push, List.mem_append]
    rw [reuses_note_created] at hr
    exact .inl (h.reached hs hr)
  left {j s} hs hr := by
    rw [reuses_note_created] at hr
    exact ha.record?_insert_of_some (h.left hs hr) r
  stored {j s} hj hs := by
    obtain ⟨-, rfl⟩ | ⟨-, hj⟩ := ha.record?_insert_cases hj
    · rw [hm] at hs
      cases hs
    · exact h.stored hj hs
  index x hx := by
    rw [created_note] at hx
    show (p.trace.arena.insert r).2.slotOf? x = _
    rw [Arena.slotOf?_insert, if_neg (hx r (List.mem_append_right _ (.head _)))]
    exact h.index x fun s hs => hx s (List.mem_append_left _ hs)

/-! ### One choice -/

/-- The record that the naive reader reuses is the one that serves the request in the pass. -/
theorem serving?_of_stored (h : Mirrors t₀ p ρ) (hw : t₀.WellFormed) {x : Address}
    (hn : x ∉ ρ.touched)
    (hf : (t₀.record? x).filter (fun r => r.fits q.family q.structural) = some r₀) :
    ∃ i, t₀.arena.record? i = some r₀ ∧ r₀.address = x ∧
      p.trace.serving? x q = some (i, r₀.unmarked) := by
  obtain ⟨hx, hfit⟩ := Option.filter_eq_some_iff.mp hf
  obtain ⟨i, hi, hr⟩ := Option.bind_eq_some_iff.mp hx
  obtain ⟨s, hs, rfl⟩ := hw.arena.bears hi
  rw [hr] at hs
  cases hs
  -- nothing is written down for the address, so its record is the stored one, unmarked
  obtain ⟨hu, hl⟩ := untouched hn
  have hp := h.left hr hu
  rw [hl] at hp
  exact ⟨i, hr, rfl, Trace.serving?_eq_some_iff.mpr ⟨(h.slotOf?_eq hn).trans hi, hp, hfit⟩⟩

/-- When the naive reader finds no record to reuse, there is none in the pass. -/
theorem serving?_of_not_stored (h : Mirrors t₀ p ρ) (hw : t₀.WellFormed) {x : Address}
    (hn : x ∉ ρ.touched)
    (hf : (t₀.record? x).filter (fun r => r.fits q.family q.structural) = none) :
    p.trace.serving? x q = none := by
  refine Option.eq_none_iff_forall_ne_some.mpr fun ⟨i, r⟩ hs => ?_
  obtain ⟨ho, hr, hfit⟩ := Trace.serving?_eq_some_iff.mp hs
  have ho₀ : t₀.arena.Owned i x := (h.slotOf?_eq hn).symm.trans ho
  obtain ⟨r₀, hr₀, rfl⟩ := hw.arena.bears ho₀
  obtain ⟨hu, hl⟩ := untouched hn
  have hp := h.left hr₀ hu
  rw [hl, hr] at hp
  cases hp
  have hx : t₀.record? r₀.address = some r₀ := Option.bind_eq_some_iff.mpr ⟨i, ho₀, hr₀⟩
  rw [hx, Option.filter_some, if_pos (show r₀.fits q.family q.structural = true from hfit)] at hf
  cases hf

theorem spent_eq (h : Mirrors t₀ p ρ) (ht : p.Trimmed) : p.spent = ρ.spent t₀.limits := by
  rw [Pass.spent, Replay.spent, h.length_records ht, h.session, h.frame]

theorem alike_reuse (h : Mirrors t₀ p ρ) (hw : t₀.WellFormed) (ht : p.Trimmed) (c : CallSites)
    (hn : r₀.address ∉ ρ.touched) (hi₀ : t₀.arena.record? i = some r₀)
    (hs : p.trace.serving? r₀.address q = some (i, r₀.unmarked)) (b : Bool) :
    Player.Alike (Mirrors t₀)
      ((p.trace.serve r₀.address q b).1, ⟨(p.trace.serve r₀.address q b).2, c, p.session⟩)
      (Replay.reuse r₀ q { ρ with sites := c }) := by
  have hi := (Trace.serving?_eq_some_iff.mp hs).2.1
  have hnot := ht.not_mem_order hi rfl
  have hf : ∀ s ∈ ρ.refused, s.address ≠ r₀.address := fun s hm he =>
    hn (List.mem_map.mpr ⟨s, List.mem_append_right _ hm, he⟩)
  have ha := r₀.address_refreshed q
  have hm := r₀.active_refreshed q
  simp only [Trace.serve, hs, Replay.reuse, Record.refreshed_unmarked]
  rcases hr : r₀.refreshed q with ⟨e | _, r⟩
  · rw [hr] at ha
    exact ⟨rfl, (h.claim c).refuse hw hi₀ ⟨_, hi⟩ hnot ha fun s hs => ha.symm ▸ hf s hs⟩
  · rw [hr] at ha hm
    exact ⟨rfl, (h.claim c).reuse hw q hi₀ ⟨_, hi⟩ hnot ha (hm.trans (hw.active hi₀))⟩

theorem alike_create (h : Mirrors t₀ p ρ) (ht : p.Trimmed) (c : CallSites) {x : Address}
    (hs : p.trace.serving? x q = none) :
    Player.Alike (Mirrors t₀)
      ((p.trace.serve x q p.session.enumerating).1,
        ⟨(p.trace.serve x q p.session.enumerating).2, c, p.session⟩)
      (Replay.create x q { ρ with sites := c }) := by
  have hg : p.trace.generator = ρ.generator := congrArg Trace.generator h.frame
  have he : ρ.session.enumerating = p.session.enumerating := by rw [h.session]
  simp only [Trace.serve, hs, Trace.serveNew, Replay.create, hg, he]
  rcases Trace.newValue q p.session.enumerating ρ.generator with fault | ⟨v, g⟩
  · exact ⟨rfl, h.claim c⟩
  simp only
  cases q.family.logDensity v q.params with
  | error e =>
      refine ⟨rfl, { h.claim c with frame := ?_ }⟩
      show { p.trace with generator := g } = _
      rw [h.frame]
      rfl
  | ok lp => exact ⟨rfl, (h.claim c).create ht.layout.arena q g ht.layout.occupied rfl⟩

/-- **A choice by address alone is the choice of the naive reader.** -/
theorem alike_choose (h : Mirrors t₀ p ρ) (hw : t₀.WellFormed) (ht : p.Trimmed)
    (hf : ρ.Faithful t₀.record?) (q : Request) :
    Player.Alike (Mirrors t₀) (p.serve q) (ρ.choose t₀.limits t₀.record? q) := by
  have hspent := h.spent_eq ht
  rw [Replay.choose, ← hspent]
  cases hb : p.spent with
  | true =>
      rw [Pass.serve_of_spent hb, if_pos rfl, h.sites, h.length_records ht]
      exact ⟨rfl, h⟩
  | false =>
      -- what is written down was claimed before, and this address is claimed now
      have hn : p.sites.claim.1.address ∉ ρ.touched := by
        intro hm
        have hc := hf.claimed _ hm
        rw [h.sites] at hc
        exact p.sites.not_claimed_claim hc
      rw [Pass.serve_of_not_spent hb, if_neg Bool.false_ne_true, h.sites]
      cases hs : (t₀.record? p.sites.claim.1.address).filter
          fun r => r.fits q.family q.structural with
      | none =>
          simp only [hs]
          exact h.alike_create ht _ (h.serving?_of_not_stored hw hn hs)
      | some r₀ =>
          simp only [hs]
          obtain ⟨i, hi₀, ha, hi⟩ := h.serving?_of_stored hw hn hs
          rw [← ha] at hn hi ⊢
          exact h.alike_reuse hw ht _ hn hi₀ hi _

/-- Entering a call site is the same to both. -/
theorem alike_enter (h : Mirrors t₀ p ρ) (ht : p.Trimmed) (id : String) :
    Player.Alike (Mirrors t₀) (p.enter id) (ρ.enter t₀.limits id) := by
  have hdeep : p.deep = (ρ.session.enumerating && decide (t₀.limits.maxDepth ≤ ρ.sites.depth)) := by
    rw [Pass.deep, h.session, h.sites, h.frame]
  rw [Replay.enter, ← hdeep]
  cases hb : p.deep with
  | true =>
      rw [Pass.enter_of_deep hb, if_pos rfl, h.sites, h.length_records ht]
      exact ⟨rfl, h⟩
  | false =>
      rw [Pass.enter_of_not_deep hb, if_neg Bool.false_ne_true, h.sites]
      exact ⟨rfl, h.claim _⟩

theorem factor (h : Mirrors t₀ p ρ) (w : Float) :
    Mirrors t₀ { p with trace := p.trace.addFactor w } (ρ.note (.factor w)) :=
  { h with
    frame := by
      rw [joint_note, added_note, h.frame]
      rfl
    visited := by
      rw [records_note_factor]
      exact h.visited
    reached := fun hs hr => h.reached hs (reuses_note_factor ρ _ w ▸ hr)
    left := fun hs hr => h.left hs (reuses_note_factor ρ _ w ▸ hr)
    index := fun x hx => h.index x fun r hr => hx r (by
      rw [created_note]
      exact List.mem_append_left _ hr) }

end Mirrors

/-- **A pass by address alone and the naive reader give the same answers**, and the pass goes on
mirroring what the reader writes down. -/
theorem byAddress_simulates (hw : t₀.WellFormed) :
    Pass.byAddress.Simulates (player t₀.limits t₀.record?) fun p ρ =>
      p.Trimmed ∧ ρ.Faithful t₀.record? ∧ Mirrors t₀ p ρ where
  choose := by
    rintro p ρ q ⟨ht, hf, h⟩
    obtain ⟨ha, hm⟩ := h.alike_choose hw ht hf q
    exact ⟨ha, Pass.trimmed_serve ht q, hw.keeps_faithful.choose q hf, hm⟩
  enter := by
    rintro p ρ id ⟨ht, hf, h⟩
    obtain ⟨ha, hm⟩ := h.alike_enter ht id
    exact ⟨ha, Pass.trimmed_enter ht id, hw.keeps_faithful.enter id hf, hm⟩
  leave := by
    rintro p ρ id ⟨ht, hf, h⟩
    have hk := fun ρ' => hw.keeps_faithful.leave (b := ρ') id hf
    simp only [Pass.byAddress, Pass.player, player, h.sites] at hk ⊢
    cases hl : p.sites.leave? id with
    | none => exact .inl ⟨_, rfl, rfl⟩
    | some sites =>
        rw [hl] at hk
        have hc := fun y => (CallSites.claimed_leave?_iff hl y).mpr
        exact .inr ⟨_, _, rfl, rfl, ⟨ht.layout.mono hc, ht.size⟩, hk _ rfl, h.claim _⟩
  factor := by
    rintro p ρ w ⟨ht, hf, h⟩
    exact ⟨⟨ht.layout.congr rfl rfl rfl, ht.size⟩, hw.keeps_faithful.factor w hf, h.factor w⟩
  condition := by
    rintro p ρ holds ⟨ht, hf, h⟩
    refine ⟨⟨ht.layout.congr rfl rfl rfl, ht.size⟩, hw.keeps_faithful.condition holds hf,
      { h with frame := ?_ }⟩
    show p.trace.demand holds = _
    rw [h.frame]
    rfl
  isActive _ := rfl
  depth := by
    rintro p ρ ⟨-, -, h⟩
    exact (congrArg CallSites.depth h.sites).symm
  isEnumerating := by
    rintro p ρ ⟨-, -, h⟩
    show _ = ρ.session.enumerating
    rw [h.session]
    rfl
  read := by
    rintro p ρ cell ⟨-, -, h⟩
    show _ = ρ.session.readCell cell
    rw [h.session]
    rfl
  write := by
    rintro p ρ cell v ⟨ht, hf, h⟩
    refine ⟨⟨ht.layout, ht.size⟩, hw.keeps_faithful.write cell v hf, { h with session := ?_ }⟩
    show ρ.session.writeCell cell v = _
    rw [h.session]
    rfl
  nested := by
    rintro p ρ fixed inner ⟨ht, hf, h⟩
    refine ⟨rfl, ⟨ht.layout, ht.size⟩, hw.keeps_faithful.nested fixed inner hf,
      { h with session := ?_ }⟩
    show ρ.session.freshId.2 = _
    rw [h.session]
    rfl

/-- How a running pass over the trace `t`, with the order looked at and events kept, stands to its
replay. -/
def Follows (t : Trace) (p : Pass) (ρ : Replay) : Prop :=
  ∃ b, (p.Running ∧ b = p.plain) ∧ b.Trimmed ∧ ρ.Faithful t.record? ∧ Mirrors t b ρ

/-- **A running pass and the naive reader give the same answers.** -/
theorem pass_simulates (hw : t₀.WellFormed) :
    Pass.player.Simulates (player t₀.limits t₀.record?) (Follows t₀) :=
  Pass.player_simulates.trans (byAddress_simulates hw)

theorem follows_opening {t : Trace} (h : t.WellFormed) {s : Session} (hs : s.active = none)
    (fixed : Bool) :
    Follows t (t.opening fixed s) { generator := t.generator, session := s.quiet } :=
  ⟨_, ⟨Trace.running_opening h fixed s, rfl⟩, Trace.plain_opening t fixed s ▸
    Pass.trimmed_opening h s, faithful_start _ _ _,
    Trace.plain_opening t fixed s ▸ mirrors_opening t hs⟩

end Replay

/-- **An update gives the answer of the replay**, and closes a trace that mirrors it. -/
theorem Trace.WellFormed.update_mirrors {t : Trace} {s : Session} (h : t.WellFormed)
    (hs : s.active = none) (fixed : Bool) :
    (t.update fixed s).1 = (t.replayed s).1 ∧
      (t.update fixed s).2.2.quiet = (t.replayed s).2.session ∧
      ∃ p, p.Trimmed ∧ Replay.Mirrors t p (t.replayed s).2 ∧
        ∀ answer, (t.replayed s).1 = Fault.lift answer →
          (t.update fixed s).2.1 = p.trace.close answer := by
  obtain ⟨ha, ht, hq, -⟩ := Trace.update_eq_play h hs fixed
  have hstart : (t.opening false s).plain.Trimmed ∧
      Replay.Faithful t.record? { generator := t.generator, session := s.quiet } ∧
      Replay.Mirrors t (t.opening false s).plain
        { generator := t.generator, session := s.quiet } :=
    ⟨Pass.trimmed_opening h s, Replay.faithful_start _ _ _, Replay.mirrors_opening t hs⟩
  obtain ⟨hans, htrim, -, hm⟩ :=
    Player.play_simulates (Replay.byAddress_simulates h) t.program hstart
  refine ⟨ha.trans hans, ?_, _, htrim, hm, fun answer he => ht answer (hans.trans he)⟩
  rw [hq]
  exact hm.session.symm

end ProbTrace
