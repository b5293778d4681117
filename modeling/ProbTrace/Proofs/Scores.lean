import ProbTrace.Proofs.Agreement

/-!
# Proofs — Scores: the densities that the records of a trace carry

Setting a value, turning a wheel and creating a record score before they store.  A choice that
reuses a record stores before it scores, and a choice that fails like that refuses the record.  A
completed pass prunes the refused records (`scored_complete`); a pass that fails keeps them
(`scored_abandon_iff`).

`ReachableIn.scored`: if no failed pass of the history has refused a record, every stored record is
scored.  From there a pass leaves a record unscored exactly when it fails and has refused one, and
the joint log-probability of a completed pass is what scoring every choice afresh gives.
-/

namespace ProbTrace

/-! ### The densities of a replay -/

namespace Entry

/-- What the entry adds to the joint log-probability, scored afresh. -/
def score : Entry → Except Error Float
  | .made q r _ => q.family.logDensity r.value r.params
  | .factor w   => .ok w

end Entry

namespace Replay

/-- The sum of the densities, scored afresh, and the factors, from the left, from zero. -/
def fromScratch (ρ : Replay) : Except Error Float :=
  ρ.entries.foldlM (fun sum e => e.score.map (sum + ·)) 0.0

/-- If every entry scores as much as it weighs, so does the whole. -/
theorem foldlM_score {entries : List Entry} (h : ∀ e ∈ entries, e.score = .ok e.weight)
    (start : Float) : entries.foldlM (fun sum e => e.score.map (sum + ·)) start =
      .ok (entries.foldl (fun sum e => sum + e.weight) start) := by
  induction entries generalizing start with
  | nil => rfl
  | cons e entries ih =>
      rw [List.foldlM_cons, h e (.head _), List.foldl_cons]
      exact ih (fun e' he => h e' (.tail _ he)) _

namespace Faithful

variable {ρ : Replay} {stored : Address → Option Record}

/-- If the stored records are scored, every choice scores as much as it weighs, and its parameters
are those that the program passed, number by number. -/
theorem score_made (h : ρ.Faithful stored) (hs : ∀ {x r}, stored x = some r → r.Scored)
    {q : Request} {r : Record} {created : Bool} (hr : .made q r created ∈ ρ.entries) :
    r.family = q.family ∧ r.Scored ∧
      (r.params = q.params ∨ Record.sameParams r.params q.params = true) := by
  cases created with
  | true =>
      obtain ⟨-, v, lp, hlp, he⟩ := h.created hr
      rw [he]
      exact ⟨rfl, hlp, .inl rfl⟩
  | false =>
      obtain ⟨r₀, hr₀, hfit, hq⟩ := h.reused hr
      have hf := (r₀.refreshes q).family
      have hp := r₀.params_refreshed q
      rw [hq] at hf hp
      exact ⟨hf.trans (Record.family_of_fits hfit), (hs hr₀).refreshed hq, hp⟩

theorem score_eq (h : ρ.Faithful stored) (hs : ∀ {x r}, stored x = some r → r.Scored) :
    ∀ e ∈ ρ.entries, e.score = .ok e.weight := by
  intro e he
  cases e with
  | factor w => rfl
  | made q r created =>
      obtain ⟨hf, hr, -⟩ := h.score_made hs he
      rw [Entry.score, ← hf]
      exact hr

theorem scored_records (h : ρ.Faithful stored) (hs : ∀ {x r}, stored x = some r → r.Scored)
    {r : Record} (hr : r ∈ ρ.records) : r.Scored := by
  obtain ⟨e, he, her⟩ := List.mem_filterMap.mp hr
  cases e with
  | factor w => cases her
  | made q r' created =>
      cases her
      exact (h.score_made hs he).2.1

end Faithful

end Replay

/-! ### The densities of a trace -/

namespace Trace

/-- Every stored record is scored. -/
def Scored (t : Trace) : Prop := ∀ i r, t.arena.record? i = some r → r.Scored

/-- If the pass over the trace fails, no choice of it has failed to rescore a record. -/
def FailsClean (t : Trace) (s : Session) : Prop :=
  s.active = none → ∀ e, (t.replayed s).1 = .error (.error e) → (t.replayed s).2.refused = []

variable {t : Trace} {p : Pass} {ρ : Replay} {i : Nat} {r : Record}

theorem Scored.stored (h : t.Scored) {x : Address} (hr : t.record? x = some r) : r.Scored := by
  obtain ⟨i, -, hi⟩ := Option.bind_eq_some_iff.mp hr
  exact h i r hi

theorem Scored.rewrite (h : t.Scored) (hr : r.Scored) : (t.rewrite i r).Scored := by
  intro j s hj
  obtain ⟨-, rfl⟩ | ⟨-, hj⟩ := Arena.record?_put_cases hj
  · exact hr
  · exact h j s hj

theorem scored_of_empty (h : t.arena = {}) : t.Scored := by
  intro i r hr
  rw [h] at hr
  simp [Arena.record?] at hr

end Trace

namespace Replay.Mirrors

variable {t : Trace} {p : Pass} {ρ : Replay} {i : Nat} {r : Record}

/-- A record that the pass has reached is that of a choice. -/
theorem mem_records (h : Mirrors t p ρ) (ht : p.Trimmed) (hi : p.trace.arena.record? i = some r)
    (ha : r.active = true) : r ∈ ρ.records := by
  have hm : some r ∈ p.trace.order.toList.map p.trace.arena.record? :=
    List.mem_map.mpr ⟨i, (ht.mem_order i).mpr ⟨r, hi, ha⟩, hi⟩
  rw [h.visited] at hm
  obtain ⟨s, hs, he⟩ := List.mem_map.mp hm
  cases he
  exact hs

/-- A record that the pass has not reached is a stored one, as it was left. -/
theorem eq_left (h : Mirrors t p ρ) (ht : p.Trimmed) (hi : p.trace.arena.record? i = some r)
    (ha : r.active = false) : ∃ r₀, t.arena.record? i = some r₀ ∧ r = (ρ.left r₀).unmarked := by
  obtain ⟨r₀, hr₀, -⟩ := h.stored hi ha
  refine ⟨r₀, hr₀, ?_⟩
  cases hu : ρ.reuses r₀ with
  | true => exact absurd (h.reached hr₀ hu) (ht.not_mem_order hi ha)
  | false => exact Option.some.inj (hi.symm.trans (h.left hr₀ hu))

/-- A completed pass leaves scored records only. -/
theorem scored_complete (h : Mirrors t p ρ) (ht : p.Trimmed) (hf : ρ.Faithful t.record?)
    (hs : t.Scored) (v : Value) : (p.trace.complete v).Scored := by
  intro i r hr
  obtain ⟨hi, ha⟩ := (Trace.record?_complete_eq_some_iff ht.layout v).mp hr
  exact hf.scored_records hs.stored (h.mem_records ht hi ha)

/-- A refused record is kept by a pass that fails. -/
theorem record?_abandon_of_refused (h : Mirrors t p ρ) (hw : t.WellFormed) (ht : p.Trimmed)
    (hf : ρ.Faithful t.record?) (hr : r ∈ ρ.refused) :
    ∃ i, p.trace.abandon.arena.record? i = some r := by
  obtain ⟨i, r₀, hi, hx, hu, hl, -⟩ := hw.exists_refused hf hr
  have hp := h.left hi (Trace.mem_unreused.mp hu).2
  rw [hl] at hp
  have ho : p.trace.arena.Owned i r.address := by
    -- only a new record takes an address over, and none was made at this one
    refine (h.index r.address fun s hs => ?_).trans (hx ▸ hw.owned hi)
    exact address_ne_of_refused hf.nodup (created_subset ρ hs) hr
  exact ⟨i, (Trace.record?_abandon_eq_some_iff ht.layout.arena).mpr
    ⟨r.unmarked, hp, ho, Record.marked_unmarked (hw.active_refused hf hr)⟩⟩

/-- A pass that fails leaves scored records only, exactly when it has refused none. -/
theorem scored_abandon_iff (h : Mirrors t p ρ) (hw : t.WellFormed) (ht : p.Trimmed)
    (hf : ρ.Faithful t.record?) (hs : t.Scored) :
    p.trace.abandon.Scored ↔ ρ.refused = [] := by
  constructor
  · intro ha
    refine List.eq_nil_iff_forall_not_mem.mpr fun r hr => ?_
    obtain ⟨_, _, -, -, -, -, q, e, hq⟩ := hw.exists_refused hf hr
    obtain ⟨i, hi⟩ := h.record?_abandon_of_refused hw ht hf hr
    exact Record.not_scored_of_refused hq (ha _ _ hi)
  · intro hn i r hr
    obtain ⟨s, hi, -, rfl⟩ := (Trace.record?_abandon_eq_some_iff ht.layout.arena).mp hr
    show s.Scored
    cases ha : s.active with
    | true => exact hf.scored_records hs.stored (h.mem_records ht hi ha)
    | false =>
        obtain ⟨r₀, hr₀, rfl⟩ := h.eq_left ht hi ha
        rw [left_of_not_refused ρ r₀ fun u hu => by rw [hn] at hu; cases hu]
        show r₀.Scored
        exact hs _ _ hr₀

end Replay.Mirrors

/-! ### Passes and histories -/

namespace Trace

variable {t : Trace} {fixed : Bool} {s : Session}

/-- A pass over scored records leaves them scored, unless it fails and has refused one. -/
theorem WellFormed.scored_update_iff (hw : t.WellFormed) (hs : t.Scored)
    (ha : Ended (t.update fixed s).1) : (t.update fixed s).2.1.Scored ↔ t.FailsClean s := by
  cases hact : s.active with
  | some id =>
      -- the pass is refused, and nothing changes
      rw [update_of_busy (by rw [hact]; rfl)]
      refine iff_of_true hs fun hn => ?_
      rw [hact] at hn
      cases hn
  | none =>
      obtain ⟨answer, ha⟩ := ha
      obtain ⟨hr, -, p, ht, hm, hclose⟩ := hw.update_mirrors hact fixed
      have hf := hw.faithful_replayed s
      have hr' : (t.replayed s).1 = Fault.lift answer := hr.symm.trans ha
      rw [hclose answer hr']
      cases answer with
      | ok v =>
          refine iff_of_true (hm.scored_complete ht hf hs v) fun _ e he => ?_
          rw [hr'] at he
          cases he
      | error e =>
          refine (hm.scored_abandon_iff hw ht hf hs).trans ?_
          constructor
          · intro hn _ _ _
            exact hn
          · intro hc
            exact hc hact e hr'

/-- A completed pass does not fail. -/
theorem WellFormed.failsClean_of_ok (hw : t.WellFormed) {v : Value}
    (hv : (t.update fixed s).1 = .ok v) : t.FailsClean s := by
  intro hact e he
  obtain ⟨hr, -⟩ := hw.update_mirrors hact fixed
  cases hv.symm.trans (hr.trans he)

theorem WellFormed.scored_update_of_ok (hw : t.WellFormed) (hs : t.Scored) {v : Value}
    (hv : (t.update fixed s).1 = .ok v) : (t.update fixed s).2.1.Scored :=
  (hw.scored_update_iff hs ⟨.ok v, hv⟩).mpr (hw.failsClean_of_ok hv)

end Trace

/-- The trace is scored after every history whose failed passes have refused nothing. -/
theorem ReachableIn.trace_scored {t : Trace} (h : ReachableIn Trace.FailsClean t) : t.Scored := by
  induction h with
  | unstarted => exact Trace.scored_of_empty rfl
  | update fixed s h hp ha ih => exact (h.wellFormed.scored_update_iff ih ha).mpr hp
  | setValue _ hu ih =>
      obtain ⟨i, r, r', -, -, hr, rfl⟩ := Trace.setValue_eq_ok hu
      exact ih.rewrite (Record.scored_of_rescored hr)
  | reset => exact Trace.scored_of_empty rfl
  | copyAs _ _ ih => exact ih
  | @candidate t _ fixed _ _ h hc ih =>
      obtain ⟨i, r, m, id, generator, s', w, -, hi, -, hm, ha, hu, -⟩ := Trace.propose_eq_ok hc
      have hmoved := h.wellFormed.rescore_copy hi hm.rescored id generator
      have hscored : { t.copyAs id with generator }.Scored := ih
      rw [hu]
      exact hmoved.scored_update_of_ok
        (hscored.rewrite (Record.scored_of_rescored hm.rescored)) ha
  | @source t x fixed s _ ih =>
      obtain ⟨generator, hg⟩ := t.propose_source x fixed s
      rw [hg]
      exact ih
  | advance _ ih =>
      exact Trace.advance_keeps (I := Trace.Scored)
        (fun h _ hr => h.rewrite (Record.scored_of_rescored hr)) ih
  | addFactor _ _ ih => exact ih
  | demand _ _ ih => exact ih

/-- **If no failed pass of its history has refused a record, every record of a trace is scored.**
The next pass leaves a record unscored exactly when it fails and has refused one.  If it is
completed, the joint log-probability is what scoring all choices afresh gives, under parameters
that are those the program passed, number by number. -/
theorem ReachableIn.scored {t : Trace} (h : ReachableIn Trace.FailsClean t) :
    t.Scored ∧
      (∀ fixed s, Ended (t.update fixed s).1 →
        ((t.update fixed s).2.1.Scored ↔ t.FailsClean s)) ∧
      ∀ fixed s v, (t.update fixed s).1 = .ok v →
        (t.replayed s).2.fromScratch = .ok (t.update fixed s).2.1.joint ∧
          (t.update fixed s).2.1.records = (t.replayed s).2.records ∧
          ∀ q r created, .made q r created ∈ (t.replayed s).2.entries →
            r.params = q.params ∨ Record.sameParams r.params q.params = true := by
  have hs := h.trace_scored
  refine ⟨hs, fun fixed s ha => h.wellFormed.scored_update_iff hs ha, fun fixed s v hv => ?_⟩
  obtain ⟨-, -, ha, -⟩ := h.wellFormed.agrees_update hv
  have hf := h.wellFormed.faithful_replayed s
  rw [ha.joint, ha.records]
  refine ⟨Replay.foldlM_score (hf.score_eq hs.stored) 0.0, rfl, fun q r created hr => ?_⟩
  exact (hf.score_made hs.stored hr).2.2

/-! ### A record whose density is stale -/

/-- Observes the flip, and fails when that fails. -/
def strictFlip : Program := observedFlip.program

theorem reachableIn_strictFlip : ReachableIn Trace.FailsClean (observedOnce strictFlip) := by
  have hv : ((Trace.unstarted 0 strictFlip {} (.ofSeed 0)).update false {}).1 =
      .ok (.bool true) := by
    decide +kernel
  exact .update false {} (.unstarted 0 strictFlip {} (.ofSeed 0))
    (Trace.WellFormed.failsClean_of_ok (.of_empty rfl rfl rfl) hv) ⟨.ok (.bool true), hv⟩

theorem scored_strictFlip : ReachableIn Trace.FailsClean (observedOnce strictFlip) ∧
    (observedOnce strictFlip).Scored ∧ (observedOnce strictFlip).size = 1 := by
  obtain ⟨hs, -, -⟩ := ReachableIn.scored reachableIn_strictFlip
  exact ⟨reachableIn_strictFlip, hs, by decide +kernel⟩

/-- The trace after the pass in which the probability was two. -/
def spoiltOnce : Trace := ((observedOnce strictFlip).update false overOne).2.1

/-- **A pass that fails leaves a record that cannot be scored, and the next one is completed with
it**, though its one choice cannot be scored afresh. -/
theorem not_scored_spoiltOnce :
    Reachable spoiltOnce ∧ ¬ spoiltOnce.Scored ∧
      (spoiltOnce.update false overOne).1 = .ok (.bool true) ∧
      (spoiltOnce.update false overOne).2.1.records.map (·.params) = [[2.0]] ∧
      (spoiltOnce.replayed overOne).2.fromScratch =
        Family.flip.invalid Family.badParameters := by
  refine ⟨?_, ?_, by decide +kernel, by decide +kernel, by decide +kernel⟩
  · have ha : ((observedOnce strictFlip).update false overOne).1 =
        Fault.lift (Family.flip.invalid Family.badParameters) := by
      decide +kernel
    exact ReachableIn.update false overOne reachableIn_strictFlip.reachable trivial ⟨_, ha⟩
  · intro hs
    obtain ⟨r, hr, hd⟩ : ∃ r, spoiltOnce.arena.record? 0 = some r ∧
        r.family.logDensity r.value r.params ≠ .ok r.logDensity :=
      ⟨⟨.atSite "" 0, .flip, [2.0], .bool true, 0.0, false, true, true⟩,
        by decide +kernel, by decide +kernel⟩
    exact hd (hs 0 r hr)

end ProbTrace
