import ProbTrace.Proofs.Passing
import ProbTrace.Proposal
import ProbTrace.Search.Odometer

/-!
# Proofs — Reachable: the histories of a trace

`ReachableIn P t` says that some history of operations leads to the trace `t`, and that every pass
it ran satisfied `P`; `Reachable` asks nothing of the passes.  A search is no step of a history of
its own: it comes down to passes, resets and turns of the odometer.

* `ReachableIn.wellFormed`: whatever the history, the trace it leads to is well formed.
* `Reachable.update_fixed_eq`: on such a trace it is never observed whether an update takes the
  structure to be fixed.
* `setValue_eq_ok`, `propose_eq_ok`, `advance_keeps`: setting a value, proposing and
  advancing change a trace in one way only, by rescoring a record in its slot.
-/

namespace ProbTrace

/-- The run came to an end, with a value or an error. -/
def Ended {α : Type} (answer : Except Fault α) : Prop := ∃ a : Except Error α, answer = Fault.lift a

theorem ended_ok {α : Type} (a : α) : Ended (.ok a) := ⟨.ok a, rfl⟩

theorem ended_error {α : Type} (e : Error) : Ended (.error (.error e) : Except Fault α) :=
  ⟨.error e, rfl⟩

theorem ended_error_iff {α : Type} (fault : Fault) :
    Ended (.error fault : Except Fault α) ↔ ∃ e, fault = .error e := by
  constructor
  · rintro ⟨_ | _, h⟩
    · cases h
      exact ⟨_, rfl⟩
    · cases h
  · rintro ⟨e, rfl⟩
    exact ended_error e

/-! ### Rescoring a record in its slot -/

/-- A wheel that is turned is rescored, at the next value of the domain or at the first one. -/
theorem Record.turn_eq_ok {r r' : Record} {d : Domain} {carry : Bool}
    (h : r.turn d = .ok (r', carry)) : ∃ v, r.rescored v = .ok r' ∧
      (d.next (some r.value) r.params = .ok (some v) ∨ d.first r.params = .ok v) := by
  have hlift : ∀ {v b}, (Fault.lift (r.rescored v) >>= fun r' => pure (r', b)) = .ok (r', carry) →
      r.rescored v = .ok r' := fun {v b} h => by
    cases hv : r.rescored v with
    | error e =>
        rw [hv] at h
        cases h
    | ok s =>
        rw [hv] at h
        cases h
        rfl
  rw [Record.turn] at h
  rcases hn : d.next (some r.value) r.params with fault | _ | v
  · rw [hn] at h
    cases h
  · rcases hf : d.first r.params with fault | v
    · rw [hn, hf] at h
      cases h
    · rw [hn, hf] at h
      exact ⟨v, hlift h, .inr rfl⟩
  · rw [hn] at h
    exact ⟨v, hlift h, .inl rfl⟩

/-- The record moves by a value that the kernel of its family has drawn, and is rescored. -/
structure Record.MovesBy (r : Record) (g : Generator) (m : Proposal.Move) : Prop where
  drawn    : ∃ g', r.family.propose r.value r.params g = .ok (m.record.value, g')
  forward  : r.family.logKernel r.value m.record.value r.params = .ok m.forward
  reverse  : r.family.logKernel m.record.value r.value r.params = .ok m.reverse
  rescored : r.rescored m.record.value = .ok m.record

theorem Record.movesBy_of_move {r : Record} {g g' : Generator} {s : Session} {m : Proposal.Move}
    (h : (Proposal.move r g s).1 = .ok (m, g')) : r.MovesBy g m := by
  rw [Proposal.move] at h
  split at h
  · cases h
  rename_i target g'' hd
  split at h
  · cases h
  · cases h
  rename_i forward reverse hf hr
  simp only at h
  split at h
  · cases h
  rename_i r' hv
  cases h
  have hval : r'.value = target := by
    obtain ⟨lp, -, rfl⟩ := Record.rescored_eq_ok_iff.mp hv
    rfl
  subst hval
  exact ⟨⟨g', hd⟩, hf, hr, hv⟩

namespace Trace

variable {t u : Trace} {x : Address} {i : Nat} {r r' : Record} {v : Value} {s : Session}

/-- The trace with the record of slot `i` replaced. -/
def rewrite (t : Trace) (i : Nat) (r : Record) : Trace := { t with arena := t.arena.put i r }

theorem setValue_eq_ok (h : t.setValue x v = .ok u) : ∃ i r r', t.arena.Owned i x ∧
    t.arena.record? i = some r ∧ r.rescored v = .ok r' ∧ u = t.rewrite i r' := by
  rw [setValue] at h
  split at h
  · cases h
  · rename_i i hi
    split at h
    · cases h
    · rename_i r hr
      cases hv : r.rescored v with
      | error e =>
          rw [hv] at h
          cases h
      | ok r' =>
          rw [hv] at h
          cases h
          exact ⟨i, r, r', hi, hr, hv, rfl⟩

/-- Turning the wheels replaces records in their slots by turned ones, and does nothing else. -/
theorem advanceSlots_turns {I : Trace → Prop}
    (hI : ∀ {t i r r' d carry}, I t → t.arena.record? i = some r →
      r.family.support = .enumerable d → r.turn d = .ok (r', carry) → I (t.rewrite i r')) :
    ∀ (slots : List Nat) {t : Trace}, I t → I (t.advanceSlots slots).2
  | [], _, h => h
  | i :: is, t, h => by
      rw [advanceSlots]
      cases hr : t.arena.record? i with
      | none => exact h
      | some r =>
          simp only
          cases hd : r.family.support with
          | continuous => exact advanceSlots_turns hI is h
          | discrete => exact advanceSlots_turns hI is h
          | enumerable d =>
              simp only
              rcases ht : r.turn d with fault | ⟨r', _ | _⟩
              · exact h
              · exact hI h hr hd ht
              · exact advanceSlots_turns hI is (hI h hr hd ht)

theorem advance_turns {I : Trace → Prop}
    (hI : ∀ {t i r r' d carry}, I t → t.arena.record? i = some r →
      r.family.support = .enumerable d → r.turn d = .ok (r', carry) → I (t.rewrite i r'))
    (h : I t) : I t.advance.2 :=
  advanceSlots_turns hI _ h

/-- Advancing rescores records in their slots, and does nothing else. -/
theorem advance_keeps {I : Trace → Prop}
    (hI : ∀ {t i r r' v}, I t → t.arena.record? i = some r → r.rescored v = .ok r' →
      I (t.rewrite i r')) (h : I t) : I t.advance.2 :=
  advance_turns (fun h hr _ ht => have ⟨_, hv, _⟩ := Record.turn_eq_ok ht; hI h hr hv) h

/-- A proposal that succeeds has moved one free record in a copy and run the program there. -/
theorem propose_eq_ok {fixed : Bool} {proposal : Proposal}
    (h : (t.propose x fixed s).1 = .ok proposal) :
    ∃ i r m id generator s' w, t.arena.Owned i x ∧ t.arena.record? i = some r ∧
      r.conditioned = false ∧ r.MovesBy (.ofSeed t.generator.next.1) m ∧
      (({ t.copyAs id with generator }.rewrite i m.record).update fixed s').1 = .ok w ∧
      proposal.trace =
        (({ t.copyAs id with generator }.rewrite i m.record).update fixed s').2.1 ∧
      proposal.forward = m.forward + proposal.trace.added ∧
      proposal.reverse = m.reverse + proposal.trace.dropped := by
  rw [propose] at h
  split at h
  · cases h
  rename_i i hi
  split at h
  · cases h
  rename_i r hr
  split at h
  · cases h
  rename_i hc
  simp only at h
  split at h
  · cases h
  rename_i m generator s' hm
  simp only [Proposal.rerun] at h
  split at h
  · cases h
  rename_i w u s'' hu
  cases h
  refine ⟨i, r, m, s.nextId, generator, s', w, hi, hr, by simpa using hc,
    Record.movesBy_of_move (congrArg (·.1) hm), ?_, ?_, rfl, rfl⟩
  · exact congrArg (·.1) hu
  · exact (congrArg (·.2.1) hu).symm

/-- The source of a proposal changes in its generator only. -/
theorem propose_source (t : Trace) (x : Address) (fixed : Bool) (s : Session) :
    ∃ generator, (t.propose x fixed s).2.1 = { t with generator } := by
  rw [propose]
  split
  · exact ⟨t.generator, rfl⟩
  split
  · exact ⟨t.generator, rfl⟩
  split
  · exact ⟨t.generator, rfl⟩
  simp only
  split
  · exact ⟨_, rfl⟩
  · exact ⟨_, rfl⟩

end Trace

/-! ### Histories -/

/-- Some history leads to the trace, and each of its passes satisfied `P`. -/
inductive ReachableIn (P : Trace → Session → Prop) : Trace → Prop where
  | unstarted (id : Nat) (program : Program) (limits : Limits) (generator : Generator) :
      ReachableIn P (.unstarted id program limits generator)
  | update {t : Trace} (fixed : Bool) (s : Session) (h : ReachableIn P t) (hp : P t s)
      (ha : Ended (t.update fixed s).1) : ReachableIn P (t.update fixed s).2.1
  | setValue {t u : Trace} {x : Address} {v : Value} (h : ReachableIn P t)
      (hu : t.setValue x v = .ok u) : ReachableIn P u
  | reset {t : Trace} (h : ReachableIn P t) : ReachableIn P t.reset
  | copyAs {t : Trace} (id : Nat) (h : ReachableIn P t) : ReachableIn P (t.copyAs id)
  /-- The candidate of a proposal. -/
  | candidate {t : Trace} {x : Address} {fixed : Bool} {s : Session} {proposal : Proposal}
      (h : ReachableIn P t) (hc : (t.propose x fixed s).1 = .ok proposal) :
      ReachableIn P proposal.trace
  /-- The source of a proposal, whatever its outcome. -/
  | source {t : Trace} (x : Address) (fixed : Bool) (s : Session) (h : ReachableIn P t) :
      ReachableIn P (t.propose x fixed s).2.1
  | advance {t : Trace} (h : ReachableIn P t) : ReachableIn P t.advance.2
  | addFactor {t : Trace} (w : Float) (h : ReachableIn P t) : ReachableIn P (t.addFactor w)
  | demand {t : Trace} (b : Bool) (h : ReachableIn P t) : ReachableIn P (t.demand b)

/-- Some history leads to the trace. -/
abbrev Reachable : Trace → Prop := ReachableIn fun _ _ => True

/-- A history whose passes satisfied `P` is one whose passes satisfied what follows from `P`. -/
theorem ReachableIn.mono {P Q : Trace → Session → Prop} {t : Trace} (h : ReachableIn P t)
    (hPQ : ∀ t s, ReachableIn P t → P t s → Q t s) : ReachableIn Q t := by
  induction h with
  | unstarted id program limits generator => exact .unstarted id program limits generator
  | update fixed s h hp ha ih => exact ih.update fixed s (hPQ _ _ h hp) ha
  | setValue _ hu ih => exact ih.setValue hu
  | reset _ ih => exact ih.reset
  | copyAs id _ ih => exact ih.copyAs id
  | candidate _ hc ih => exact ih.candidate hc
  | source x fixed s _ ih => exact ih.source x fixed s
  | advance _ ih => exact ih.advance
  | addFactor w _ ih => exact ih.addFactor w
  | demand b _ ih => exact ih.demand b

theorem ReachableIn.reachable {P : Trace → Session → Prop} {t : Trace} (h : ReachableIn P t) :
    Reachable t := h.mono fun _ _ _ _ => trivial

/-! ### Every history keeps traces well formed -/

namespace Trace.WellFormed

variable {t : Trace}

/-- Well-formedness depends on the arena, the order and the cursor only. -/
theorem congr (h : t.WellFormed) {u : Trace} (ha : u.arena = t.arena) (ho : u.order = t.order)
    (hc : u.cursor = t.cursor) : u.WellFormed where
  owned_iff := ha ▸ h.owned_iff
  order_nodup := ho ▸ h.order_nodup
  mem_order := ho ▸ ha ▸ h.mem_order
  free_nodup := ha ▸ h.free_nodup
  mem_free := ha ▸ h.mem_free
  cursor_eq := by rw [hc, ho, h.cursor_eq]
  active := ha ▸ h.active
  named := ha ▸ h.named

/-- A trace without records is well formed. -/
theorem of_empty (ha : t.arena = {}) (ho : t.order = #[]) (hc : t.cursor = 0) : t.WellFormed where
  owned_iff x i := by simp [ha, Arena.Owned, Arena.slotOf?, Arena.record?]
  order_nodup := by simp [ho]
  mem_order i := by simp [ho, ha, Arena.Occupied, Arena.record?]
  free_nodup := by simp [ha]
  mem_free i := by simp [ha]
  cursor_eq := by simp [ho, hc]
  active hr := by simp [ha, Arena.record?] at hr
  named hr := by simp [ha, Arena.record?] at hr

/-- Replacing a record by one of the same address and mark keeps a trace well formed. -/
theorem rewrite {i : Nat} {r r' : Record} (h : t.WellFormed) (hi : t.arena.record? i = some r)
    (hx : r'.address = r.address) (hm : r'.active = r.active) : (t.rewrite i r').WellFormed := by
  have hs : (t.rewrite i r').arena.Sound := h.arena.put hi hx
  have hocc : ∀ j, (t.rewrite i r').arena.Occupied j ↔ t.arena.Occupied j := fun j => by
    refine ⟨fun ⟨s, hj⟩ => ?_, Arena.Occupied.put⟩
    obtain ⟨rfl, -⟩ | ⟨-, hj⟩ := Arena.record?_put_cases hj
    · exact ⟨r, hi⟩
    · exact ⟨s, hj⟩
  have hrec : ∀ {j s}, (t.rewrite i r').arena.record? j = some s →
      ∃ s₀, t.arena.record? j = some s₀ ∧ s.address = s₀.address ∧ s.active = s₀.active :=
    fun {j s} hj => by
      obtain ⟨rfl, rfl⟩ | ⟨-, hj⟩ := Arena.record?_put_cases hj
      · exact ⟨r, hi, hx, hm⟩
      · exact ⟨s, hj, rfl, rfl⟩
  exact
    { owned_iff := fun x j => by
        refine ⟨hs.bears, ?_⟩
        rintro ⟨s, hj, rfl⟩
        obtain ⟨s₀, hs₀, he, -⟩ := hrec hj
        exact he ▸ h.owned hs₀
      order_nodup := h.order_nodup
      mem_order := fun j => (h.mem_order j).trans (hocc j).symm
      free_nodup := hs.free_nodup
      mem_free := fun j => by rw [hs.mem_free, Arena.not_occupied_iff]
      cursor_eq := h.cursor_eq
      active := fun hj => by
        obtain ⟨s₀, hs₀, -, ha⟩ := hrec hj
        exact ha.trans (h.active hs₀)
      named := hs.named }

theorem rescore {i : Nat} {r r' : Record} {v : Value} (h : t.WellFormed)
    (hi : t.arena.record? i = some r) (hr : r.rescored v = .ok r') :
    (t.rewrite i r').WellFormed := by
  obtain ⟨lp, -, rfl⟩ := Record.rescored_eq_ok_iff.mp hr
  exact h.rewrite hi rfl rfl

/-- So does moving a record in a copy, as a proposal does. -/
theorem rescore_copy {i : Nat} {r r' : Record} {v : Value} (h : t.WellFormed)
    (hi : t.arena.record? i = some r) (hr : r.rescored v = .ok r') (id : Nat)
    (generator : Generator) : ({ t.copyAs id with generator }.rewrite i r').WellFormed := by
  have hcopy : { t.copyAs id with generator }.WellFormed := h.congr rfl rfl rfl
  exact hcopy.rescore hi hr

end Trace.WellFormed

/-- **Every history leads to a well-formed trace.** -/
theorem ReachableIn.wellFormed {P : Trace → Session → Prop} {t : Trace} (h : ReachableIn P t) :
    t.WellFormed := by
  induction h with
  | unstarted => exact .of_empty rfl rfl rfl
  | update fixed s _ _ ha ih =>
      obtain ⟨answer, ha⟩ := ha
      exact ih.update fixed s ha
  | setValue _ hu ih =>
      obtain ⟨i, r, r', -, hi, hr, rfl⟩ := Trace.setValue_eq_ok hu
      exact ih.rescore hi hr
  | reset => exact .of_empty rfl rfl rfl
  | copyAs _ _ ih => exact ih.congr rfl rfl rfl
  | @candidate t _ fixed _ _ _ hc ih =>
      obtain ⟨i, r, m, id, generator, s', w, -, hi, -, hm, ha, hu, -⟩ := Trace.propose_eq_ok hc
      have hmoved := ih.rescore_copy hi hm.rescored id generator
      rw [hu]
      exact hmoved.update fixed s' (show _ = Fault.lift (.ok w) from ha)
  | @source t x fixed s _ ih =>
      obtain ⟨generator, hg⟩ := t.propose_source x fixed s
      rw [hg]
      exact ih.congr rfl rfl rfl
  | advance _ ih => exact Trace.advance_keeps (fun h hi hr => h.rescore hi hr) ih
  | addFactor _ _ ih => exact ih.congr rfl rfl rfl
  | demand _ _ ih => exact ih.congr rfl rfl rfl

/-! ### A trace with a record -/

/-- Observes a flip of the probability that a cell holds. -/
def observedFlip : Computation Value := do
  let p ← Computation.read "p"
  Computation.observe .flip [(p.bind Value.asFloat).getD 1.0] (.bool true)

/-- Observes the flip, and does without it when it fails. -/
def tolerantFlip : Program := (try observedFlip catch _ => pure (.bool false)).program

/-- The trace after one pass, with no cell written before it. -/
def observedOnce (program : Program) : Trace :=
  ((Trace.unstarted 0 program {} (.ofSeed 0)).update false {}).2.1

/-- The trace with a value set, if the value can be scored. -/
def Trace.withValue (t : Trace) (x : Address) (v : Value) : Trace :=
  (t.setValue x v).toOption.getD t

theorem ReachableIn.withValue {P : Trace → Session → Prop} {t : Trace} (h : ReachableIn P t)
    (x : Address) (v : Value) : ReachableIn P (t.withValue x v) := by
  rw [Trace.withValue]
  cases hu : t.setValue x v with
  | error e => exact h
  | ok u => exact h.setValue hu

theorem Trace.program_withValue (t : Trace) (x : Address) (v : Value) :
    (t.withValue x v).program = t.program := by
  rw [Trace.withValue]
  cases hu : t.setValue x v with
  | error e => rfl
  | ok u =>
      obtain ⟨i, r, r', -, -, -, rfl⟩ := Trace.setValue_eq_ok hu
      rfl

/-- A session whose cell holds what is not a probability. -/
def overOne : Session := Session.writeCell {} "p" (.float 2.0)

theorem reachable_observedOnce {program : Program} {v : Value}
    (h : ((Trace.unstarted 0 program {} (.ofSeed 0)).update false {}).1 = .ok v) :
    Reachable (observedOnce program) :=
  ReachableIn.update false {} (.unstarted 0 program {} (.ofSeed 0)) trivial ⟨.ok v, h⟩

/-- The trace after one pass, with its first choice set to false. -/
def turnedOver (program : Program) : Trace :=
  (observedOnce program).withValue (.atSite "" 0) (.bool false)

theorem reachable_turnedOver {program : Program} {v : Value}
    (h : ((Trace.unstarted 0 program {} (.ofSeed 0)).update false {}).1 = .ok v) :
    Reachable (turnedOver program) :=
  ReachableIn.withValue (reachable_observedOnce h) _ _

theorem reachable_tolerantFlip : Reachable (observedOnce tolerantFlip) :=
  reachable_observedOnce (v := .bool true) (by decide +kernel)

/-! ### The flag -/

/-- **Fixed structure is never observed on a trace with a history**: an update that asks for it and
one that does not give the same answer and, when the program has ended, the same trace, and they
leave the same session but for events. -/
theorem Reachable.update_fixed_eq {t : Trace} (h : Reachable t) (s : Session) :
    (t.update true s).1 = (t.update false s).1 ∧
      (Ended (t.update false s).1 → (t.update true s).2.1 = (t.update false s).2.1) ∧
      (t.update true s).2.2.quiet = (t.update false s).2.2.quiet := by
  obtain ⟨ha, ht, hq⟩ := Trace.update_eq_of_fixed h.wellFormed s
  refine ⟨ha, ?_, hq⟩
  rintro ⟨answer, he⟩
  exact ht answer he

/-- The flip was observed, and now it fails. -/
theorem update_fixed_eq_tolerantFlip :
    ((observedOnce tolerantFlip).update true overOne).1 = .ok (.bool false) ∧
      ((observedOnce tolerantFlip).update true overOne).2.1 =
        ((observedOnce tolerantFlip).update false overOne).2.1 := by
  obtain ⟨ha, ht, -⟩ := Reachable.update_fixed_eq reachable_tolerantFlip overOne
  have hv : ((observedOnce tolerantFlip).update false overOne).1 = .ok (.bool false) := by
    decide +kernel
  exact ⟨ha.trans hv, ht ⟨.ok (.bool false), hv⟩⟩

end ProbTrace
