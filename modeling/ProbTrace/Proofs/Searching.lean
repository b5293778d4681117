import ProbTrace.Proofs.Reachable
import ProbTrace.Search

/-!
# Proofs — Searching: searches are made of passes

A search, whatever its strategy, does five things: it runs passes, resets the trace, turns its
odometer, reports events and sets the enumeration flag.  `Search.Invariant` asks of a relation
between traces and sessions that each of the five keeps it, and `Search.Reaches` is the least such
relation.  What is invariant holds when a search ends, and when it ends satisfied its last pass has
left the trace (`Search.Invariant.search`).
-/

namespace ProbTrace

namespace Search

/-- What everything keeps that a search does. -/
structure Invariant (I : Trace → Session → Prop) : Prop where
  update  : ∀ {t s}, I t s → Ended (t.update false s).1 →
    I (t.update false s).2.1 (t.update false s).2.2
  reset   : ∀ {t s}, I t s → I t.reset s
  advance : ∀ {t s}, I t s → I t.advance.2 s
  report  : ∀ {t s} e, I t s → I t (s.report e)
  flag    : ∀ {t s} enumerating, I t s → I t { s with enumerating }

/-- A search that begins at the trace `t` in the session `s` may come to another trace and
session. -/
inductive Reaches (t : Trace) (s : Session) : Trace → Session → Prop where
  | refl : Reaches t s t s
  | update {t' s'} (h : Reaches t s t' s') (ha : Ended (t'.update false s').1) :
      Reaches t s (t'.update false s').2.1 (t'.update false s').2.2
  | reset {t' s'} (h : Reaches t s t' s') : Reaches t s t'.reset s'
  | advance {t' s'} (h : Reaches t s t' s') : Reaches t s t'.advance.2 s'
  | report {t' s'} (e : Event) (h : Reaches t s t' s') : Reaches t s t' (s'.report e)
  | flag {t' s'} (enumerating : Bool) (h : Reaches t s t' s') :
      Reaches t s t' { s' with enumerating }

theorem Reaches.invariant (t : Trace) (s : Session) : Invariant (Reaches t s) where
  update  := .update
  reset   := .reset
  advance := .advance
  report  := .report
  flag    := .flag

theorem invariant_reachable : Invariant fun t _ => Reachable t where
  update h ha := h.update false _ trivial ha
  reset       := .reset
  advance     := .advance
  report _ h  := h
  flag _ h    := h

/-- A completed pass in which the invariant held has left the trace. -/
def Left (I : Trace → Session → Prop) (u : Trace) : Prop :=
  ∃ t s v, I t s ∧ (t.update false s).1 = .ok v ∧ u = (t.update false s).2.1

/-- The step keeps the invariant if it ends, and then a completed pass has left the trace unless
it fails. -/
structure Leads {α : Type} (I : Trace → Session → Prop) (out : SearchStep α) : Prop where
  kept : Ended out.1 → I out.2.1 out.2.2
  left : ∀ a, out.1 = .ok a → Left I out.2.1

/-- The search keeps the invariant if it ends, and if it ends satisfied a completed pass has left
the trace, in which every condition held. -/
structure Finds (I : Trace → Session → Prop) (out : SearchStep SearchEnd) : Prop where
  kept : Ended out.1 → I out.2.1 out.2.2
  left : ∀ n, out.1 = .ok (.satisfied n) → out.2.1.satisfied = true ∧ Left I out.2.1

namespace Invariant

variable {α β : Type} {I : Trace → Session → Prop} {t : Trace} {s : Session} {fault : Fault}

/-- A search that fails where the invariant holds. -/
theorem finds_error (h : I t s) (fault : Fault) :
    Finds I ((.error fault, t, s) : SearchStep SearchEnd) :=
  ⟨fun _ => h, nofun⟩

/-- A fault is passed on as it is. -/
theorem leads_of_error (h : Leads I ((.error fault, t, s) : SearchStep α)) :
    Leads I ((.error fault, t, s) : SearchStep β) where
  kept ha := h.kept ((ended_error_iff fault).mpr ((ended_error_iff fault).mp ha))
  left := nofun

theorem finds_of_error (h : Leads I ((.error fault, t, s) : SearchStep α)) :
    Finds I ((.error fault, t, s) : SearchStep SearchEnd) where
  kept ha := h.kept ((ended_error_iff fault).mpr ((ended_error_iff fault).mp ha))
  left := nofun

theorem leads_pass (hI : Invariant I) (h : I t s) : Leads I (pass t s) := by
  have hk := hI.update h
  have hl := fun v (hv : (t.update false s).1 = .ok v) => (⟨t, s, v, h, hv, rfl⟩ : Left I _)
  rw [pass]
  generalize t.update false s = out at hk hl ⊢
  obtain ⟨fault | v, u, s'⟩ := out
  · exact leads_of_error (α := Value) ⟨hk, nofun⟩
  · exact ⟨fun _ => hk (ended_ok v), fun _ _ => hl v rfl⟩

/-- Under a guard a step does what it does without it. -/
theorem leads_guarded (hI : Invariant I) {on : Bool} {step : Trace → Session → SearchStep α}
    (h : I t s) (hstep : ∀ s, I t s → Leads I (step t s)) : Leads I (guarded on step t s) where
  kept ha := hI.flag _ ((hstep _ (hI.flag on h)).kept ha)
  left := (hstep _ (hI.flag on h)).left

theorem finds_guarded (hI : Invariant I) {on : Bool}
    {search : Trace → Session → SearchStep SearchEnd} (h : I t s)
    (hsearch : ∀ s, I t s → Finds I (search t s)) : Finds I (guarded on search t s) where
  kept ha := hI.flag _ ((hsearch _ (hI.flag on h)).kept ha)
  left := (hsearch _ (hI.flag on h)).left

theorem leads_freshPass (hI : Invariant I) (h : I t s) : Leads I (freshPass t s) :=
  hI.leads_guarded h fun _ h => hI.leads_pass (hI.reset h)

theorem finds_rejectionFrom (hI : Invariant I) : ∀ (fuel passes : Nat) {t : Trace} {s : Session},
    I t s → Finds I (rejectionFrom fuel passes t s)
  | 0, _, _, _, h => finds_error h _
  | fuel + 1, passes, t, s, h => by
      have hf := hI.leads_freshPass h
      rw [rejectionFrom]
      split
      · exact finds_error h _
      generalize freshPass t s = out at hf ⊢
      obtain ⟨fault | _, u, s'⟩ := out
      · exact finds_of_error hf
      have hu := hf.kept (ended_ok ())
      simp only
      split
      · rename_i hsat
        exact ⟨fun _ => hI.report _ hu, fun _ _ => ⟨hsat, hf.left () rfl⟩⟩
      · exact hI.finds_rejectionFrom fuel (passes + 1) hu

theorem of_onward (hI : Invariant I) (h : I t s) (worlds : Nat) :
    I (onward worlds t s).2.1 (onward worlds t s).2.2 := by
  have ha := hI.advance h
  rw [onward]
  generalize t.advance = out at ha ⊢
  obtain ⟨fault | _ | _, u⟩ := out
  · exact ha
  · simp only
    split
    · exact hI.report _ (hI.reset ha)
    · exact ha
  · exact ha

theorem finds_enumerationFrom (hI : Invariant I) : ∀ (fuel passes worlds : Nat) {t : Trace}
    {s : Session}, I t s → Left I t → Finds I (enumerationFrom fuel passes worlds t s)
  | 0, _, _, _, _, h, _ => finds_error h _
  | fuel + 1, passes, worlds, t, s, h, hl => by
      have ho := hI.of_onward h worlds
      rw [enumerationFrom]
      split
      · rename_i hsat
        exact ⟨fun _ => hI.report _ h, fun _ _ => ⟨hsat, hl⟩⟩
      split
      · exact finds_error h _
      generalize onward worlds t s = out at ho ⊢
      obtain ⟨fault | way, u, s'⟩ := out
      · exact finds_error ho _
      have hp := hI.leads_pass ho
      cases way with
      | ended => exact ⟨fun _ => hI.report _ ho, nofun⟩
      | advanced | restarted =>
          simp only
          generalize pass u s' = out at hp ⊢
          obtain ⟨fault | _, u, s'⟩ := out
          · exact finds_of_error hp
          · exact hI.finds_enumerationFrom fuel (passes + 1) _ (hp.kept (ended_ok ()))
              (hp.left () rfl)

theorem finds_enumeration (hI : Invariant I) (h : I t s) (fuel : Nat) :
    Finds I (enumeration fuel t s) := by
  refine hI.finds_guarded h fun s h => ?_
  have hp := hI.leads_pass h
  rw [enumerationAll]
  split
  · exact finds_error h _
  generalize pass t s = out at hp ⊢
  obtain ⟨fault | _, u, s'⟩ := out
  · exact finds_of_error hp
  · exact hI.finds_enumerationFrom fuel 1 1 (hp.kept (ended_ok ())) (hp.left () rfl)

theorem leads_enumerationStep (hI : Invariant I) (h : I t s) : Leads I (enumerationStep t s) := by
  refine hI.leads_guarded h fun s h => ?_
  have ha := hI.advance h
  generalize t.advance = out at ha ⊢
  obtain ⟨fault | _ | _, u⟩ := out
  · exact ⟨fun _ => ha, nofun⟩
  · exact hI.leads_pass (hI.reset ha)
  · exact hI.leads_pass ha

/-- A pass that went over a budget is followed by a fresh one. -/
theorem leads_containedStep (hI : Invariant I) (h : I t s) : Leads I (containedStep t s) := by
  have he := hI.leads_enumerationStep h
  rw [containedStep]
  generalize enumerationStep t s = out at he ⊢
  split
  · exact hI.leads_freshPass (hI.report _ (he.kept (ended_error _)))
  · exact he

theorem leads_hybridStep (hI : Invariant I) (h : I t s) (c : Schedule) :
    Leads I (hybridStep c t s) := by
  rw [hybridStep]
  split
  · exact hI.leads_freshPass h
  · exact hI.leads_containedStep h

theorem finds_hybridFrom (hI : Invariant I) : ∀ (fuel passes : Nat) (c : Schedule) {t : Trace}
    {s : Session}, I t s → Left I t → Finds I (hybridFrom fuel passes c t s)
  | 0, _, _, _, _, h, _ => finds_error h _
  | fuel + 1, passes, c, t, s, h, hl => by
      have hstep := hI.leads_hybridStep h c
      rw [hybridFrom]
      split
      · rename_i hsat
        exact ⟨fun _ => hI.report _ h, fun _ _ => ⟨hsat, hl⟩⟩
      split
      · exact finds_error h _
      generalize hybridStep c t s = out at hstep ⊢
      obtain ⟨fault | _, u, s'⟩ := out
      · exact finds_of_error hstep
      · exact hI.finds_hybridFrom fuel (passes + 1) c.next (hstep.kept (ended_ok ()))
          (hstep.left () rfl)

theorem finds_hybrid (hI : Invariant I) (h : I t s) (fuel : Nat) : Finds I (hybrid fuel t s) := by
  have hf := hI.leads_freshPass h
  rw [hybrid]
  split
  · exact finds_error h _
  generalize freshPass t s = out at hf ⊢
  obtain ⟨fault | _, u, s'⟩ := out
  · exact finds_of_error hf
  · exact hI.finds_hybridFrom fuel 1 {} (hf.kept (ended_ok ())) (hf.left () rfl)

/-- **What is invariant holds when a search ends**, whatever its strategy, and when it ends
satisfied its last pass has left the trace. -/
theorem search (hI : Invariant I) (h : I t s) (strategy : Strategy) (fuel : Nat) :
    Finds I (t.search strategy fuel s) := by
  cases strategy with
  | rejection => exact hI.finds_rejectionFrom fuel 0 h
  | enumeration => exact hI.finds_enumeration h fuel
  | hybrid => exact hI.finds_hybrid h fuel

end Invariant

end Search

/-- **A search that ends leaves a trace with a history**, whatever its strategy. -/
theorem ReachableIn.search {t : Trace} (h : Reachable t) (strategy : Strategy) (fuel : Nat)
    (s : Session) (ha : Ended (t.search strategy fuel s).1) :
    Reachable (t.search strategy fuel s).2.1 :=
  (Search.invariant_reachable.search h strategy fuel).kept ha

end ProbTrace
