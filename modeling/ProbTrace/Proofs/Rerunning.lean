import ProbTrace.Proofs.Aborting
import ProbTrace.Proofs.Searching
import ProbTrace.Proofs.Walking

/-!
# Proofs — Rerunning: a completed pass that is run again

A program is closed if, as long as its choices succeed, it depends on nothing but their values
(`Program.Closed`).  A pass over it in which no choice failed has written every one of its records
so that the request that it served would leave it as it is (`Record.Settles`), and has left them all
stored.  A second reader that follows it, request by request, finds each of them at the address it
has come to, and writes down the same records, none of them new (`Echo.play`).

So whatever has left the trace, an ordinary pass, the pass of a proposal or the last pass of a
search, enumerating or not, further passes that do not enumerate complete and leave the trace as it
is (`Reachable.reruns_steady`).
-/

namespace ProbTrace

/-! ### Closed programs, and passes in which no choice fails -/

namespace Program

variable {σ τ : Type}

/-- As long as its choices succeed, the program depends on nothing but their values: it does not ask
whether choices are enumerated, and reads no cell.  In a pass a trace is always being populated, and
a nested pass is always refused.  A pass that enumerates may refuse a call site, and then the
program can only fail. -/
def Closed (enumerating : Bool) : Program → Prop
  | .done _            => True
  | .fail _            => True
  | .choose _ next     => ∀ v, (next (.ok v)).Closed enumerating
  | .enter _ next      => (next (.ok ())).Closed enumerating ∧
      (enumerating = true → ∀ e, (next (.error e)).Doomed)
  | .leave _ next      => (next ()).Closed enumerating
  | .factor _ next     => (next ()).Closed enumerating
  | .condition _ next  => (next ()).Closed enumerating
  | .isActive next     => (next true).Closed enumerating
  | .depth next        => ∀ n, (next n).Closed enumerating
  | .isEnumerating _   => False
  | .read _ _          => False
  | .write _ _ next    => (next ()).Closed enumerating
  | .nested _ _ next   => (next (.error .reentrant)).Closed enumerating

/-- What is closed where passes enumerate is closed where they do not. -/
theorem Closed.of_enumerating {b : Bool} : ∀ {p : Program}, p.Closed b → p.Closed false
  | .done _, h => h
  | .fail _, h => h
  | .choose _ _, h => fun v => of_enumerating (h v)
  | .enter _ _, h => ⟨of_enumerating h.1, nofun⟩
  | .leave _ next, h => of_enumerating (p := next ()) h
  | .factor _ next, h => of_enumerating (p := next ()) h
  | .condition _ next, h => of_enumerating (p := next ()) h
  | .isActive next, h => of_enumerating (p := next true) h
  | .depth _, h => fun n => of_enumerating (h n)
  | .isEnumerating _, h => h
  | .read _ _, h => h
  | .write _ _ next, h => of_enumerating (p := next ()) h
  | .nested _ _ next, h => of_enumerating (p := next (.error .reentrant)) h

/-- Whether every choice that the run makes succeeds. -/
def unfailing (H : Player σ) : Program → σ → Bool
  | .done _, _ => true
  | .fail _, _ => true
  | .choose q next, a =>
    match H.choose q a with
    | (.ok v, b)    => unfailing H (next (.ok v)) b
    | (.error _, _) => false
  | .enter id next, a =>
    match H.enter id a with
    | (answer, b) => unfailing H (next answer) b
  | .leave id next, a =>
    match H.leave id a with
    | .ok b    => unfailing H (next ()) b
    | .error _ => true
  | .factor w next, a => unfailing H (next ()) (H.factor w a)
  | .condition b next, a => unfailing H (next ()) (H.condition b a)
  | .isActive next, a => unfailing H (next (H.isActive a)) a
  | .depth next, a => unfailing H (next (H.depth a)) a
  | .isEnumerating next, a => unfailing H (next (H.isEnumerating a)) a
  | .read cell next, a => unfailing H (next (H.read cell a)) a
  | .write cell v next, a => unfailing H (next ()) (H.write cell v a)
  | .nested fixed inner next, a =>
    match H.nested fixed inner a with
    | (.ok v, b)             => unfailing H (next (.ok v)) b
    | (.error (.error e), b) => unfailing H (next (.error e)) b
    | (.error _, _)          => true

theorem unfailing_choose {H : Player σ} {q : Request} {next : Except Error Value → Program}
    {a b : σ} {v : Value} (hc : H.choose q a = (.ok v, b)) :
    (choose q next).unfailing H a = (next (.ok v)).unfailing H b := by
  rw [unfailing, hc]

/-- Players that answer alike fail to make the same choices. -/
theorem unfailing_simulates {H : Player σ} {K : Player τ} {R : σ → τ → Prop}
    (h : H.Simulates K R) : ∀ (program : Program) {a : σ} {b : τ}, R a b →
      program.unfailing H a = program.unfailing K b
  | .done _, _, _, _ => rfl
  | .fail _, _, _, _ => rfl
  | .choose q next, a, b, hR => by
      have hc := h.choose q hR
      rw [unfailing, unfailing]
      rcases ha : H.choose q a with ⟨answer, a'⟩
      rcases hb : K.choose q b with ⟨answer', b'⟩
      rw [ha, hb] at hc
      obtain ⟨rfl, hR'⟩ := hc
      cases answer with
      | error fault => rfl
      | ok v => exact unfailing_simulates h (next (.ok v)) hR'
  | .enter id next, a, b, hR => by
      have hc := h.enter id hR
      rw [unfailing, unfailing]
      rcases ha : H.enter id a with ⟨answer, a'⟩
      rcases hb : K.enter id b with ⟨answer', b'⟩
      rw [ha, hb] at hc
      obtain ⟨rfl, hR'⟩ := hc
      exact unfailing_simulates h (next answer) hR'
  | .leave id next, a, b, hR => by
      rw [unfailing, unfailing]
      rcases h.leave id hR with ⟨fault, ha, hb⟩ | ⟨a', b', ha, hb, hR'⟩
      · rw [ha, hb]
      · rw [ha, hb]
        exact unfailing_simulates h (next ()) hR'
  | .factor w next, _, _, hR => unfailing_simulates h (next ()) (h.factor w hR)
  | .condition holds next, _, _, hR => unfailing_simulates h (next ()) (h.condition holds hR)
  | .isActive next, a, b, hR => by
      rw [unfailing, unfailing, h.isActive hR]
      exact unfailing_simulates h _ hR
  | .depth next, a, b, hR => by
      rw [unfailing, unfailing, h.depth hR]
      exact unfailing_simulates h _ hR
  | .isEnumerating next, a, b, hR => by
      rw [unfailing, unfailing, h.isEnumerating hR]
      exact unfailing_simulates h _ hR
  | .read cell next, a, b, hR => by
      rw [unfailing, unfailing, h.read cell hR]
      exact unfailing_simulates h _ hR
  | .write cell v next, _, _, hR => unfailing_simulates h (next ()) (h.write cell v hR)
  | .nested fixed inner next, a, b, hR => by
      have hc := h.nested fixed inner hR
      rw [unfailing, unfailing]
      rcases ha : H.nested fixed inner a with ⟨answer, a'⟩
      rcases hb : K.nested fixed inner b with ⟨answer', b'⟩
      rw [ha, hb] at hc
      obtain ⟨rfl, hR'⟩ := hc
      rcases answer with (e | d | _) | v
      · exact unfailing_simulates h (next (.error e)) hR'
      · rfl
      · rfl
      · exact unfailing_simulates h (next (.ok v)) hR'

end Program

/-- Whether every choice of a pass over the trace succeeds. -/
def Trace.unfailing (t : Trace) (fixed : Bool) (s : Session) : Bool :=
  t.program.unfailing Pass.player (t.opening fixed s)

/-! ### A second reader behind a first one -/

/-- The entry as a pass writes it down that reuses what is stored. -/
def Entry.again : Entry → Entry
  | .made q r _ => .made q r false
  | .factor w   => .factor w

namespace Replay

variable {limits₁ limits₂ : Limits} {st₁ st₂ : Address → Option Record} {ρ ρ₁ ρ₂ ρ₁' : Replay}
  {q : Request} {v : Value} {b : Bool} {g : Generator}

/-- The second reader, who does not enumerate, is where the first one is, and has reused what the
first one has made. -/
structure Echo (b : Bool) (g : Generator) (ρ₁ ρ₂ : Replay) : Prop where
  sites       : ρ₂.sites = ρ₁.sites
  entries     : ρ₂.entries = ρ₁.entries.map Entry.again
  satisfied   : ρ₂.satisfied = ρ₁.satisfied
  generator   : ρ₂.generator = g
  first       : ρ₁.session.enumerating = b
  second      : ρ₂.session.enumerating = false

namespace Echo

theorem records_eq (h : Echo b g ρ₁ ρ₂) : ρ₂.records = ρ₁.records := by
  rw [records, h.entries, List.filterMap_map]
  exact List.filterMap_congr fun e _ => by cases e <;> rfl

theorem joint_eq (h : Echo b g ρ₁ ρ₂) : ρ₂.joint = ρ₁.joint := by
  rw [joint, h.entries, List.foldl_map]
  exact List.foldl_ext _ _ _ fun sum e _ => by cases e <;> rfl

theorem created_eq (h : Echo b g ρ₁ ρ₂) : ρ₂.created = [] := by
  rw [created, h.entries, List.filterMap_map]
  exact List.filterMap_eq_nil_iff.mpr fun e _ => by cases e <;> rfl

theorem reused_eq (h : Echo b g ρ₁ ρ₂) : ρ₂.reused = ρ₁.records := by
  rw [reused, records, h.entries, List.filterMap_map]
  exact List.filterMap_congr fun e _ => by cases e <;> rfl

theorem note (h : Echo b g ρ₁ ρ₂) (e : Entry) : Echo b g (ρ₁.note e) (ρ₂.note e.again) :=
  { h with entries := by rw [Replay.note, Replay.note, h.entries, List.map_append]; rfl }

/-- A choice that has succeeded succeeds again, and reuses the record that it has made. -/
theorem choose (h : Echo b g ρ₁ ρ₂) (hst : ∀ {x r}, st₁ x = some r → r.address = x)
    (hc : ρ₁.choose limits₁ st₁ q = (.ok v, ρ₁')) (hm : ∀ r ∈ ρ₁'.records, st₂ r.address = some r) :
    ∃ ρ₂', ρ₂.choose limits₂ st₂ q = (.ok v, ρ₂') ∧ Echo b g ρ₁' ρ₂' := by
  have hspent : ρ₂.spent limits₂ = false := by rw [spent, h.second, Bool.false_and]
  obtain ⟨r, created, g', rfl, hc₂⟩ := choose_again hst hc h.sites hspent hm
  have hclaim : Echo b g { ρ₁ with sites := ρ₁.sites.claim.2, generator := g' }
      { ρ₂ with sites := ρ₂.sites.claim.2 } :=
    { h with sites := congrArg (fun c => c.claim.2) h.sites, entries := h.entries }
  exact ⟨_, hc₂, hclaim.note (.made q r created)⟩

/-- The second reader comes to the end that the first one comes to. -/
structure Ends (b : Bool) (g : Generator) (H K : Player Replay) (p : Program)
    (ρ₁ ρ₂ : Replay) : Prop where
  answer    : (p.play K ρ₂).1 = (p.play H ρ₁).1
  echo      : Echo b g (p.play H ρ₁).2 (p.play K ρ₂).2
  unfailing : p.unfailing K ρ₂ = true

/-- After a request that both readers have answered they come to the end of what is left. -/
theorem Ends.step {H K : Player Replay} {p p' : Program} {ρ₂' : Replay}
    (h : Ends b g H K p' ρ₁' ρ₂') (h₁ : p.play H ρ₁ = p'.play H ρ₁')
    (h₂ : p.play K ρ₂ = p'.play K ρ₂') (hn : p.unfailing K ρ₂ = p'.unfailing K ρ₂') :
    Ends b g H K p ρ₁ ρ₂ := by
  refine ⟨?_, ?_, ?_⟩
  · rw [h₁, h₂]
    exact h.answer
  · rw [h₁, h₂]
    exact h.echo
  · rw [hn]
    exact h.unfailing

/-- **Where the records of a pass are stored in which no choice failed, a second reader follows the
first one to the end** of a closed program. -/
theorem play (hst : ∀ {x r}, st₁ x = some r → r.address = x) : ∀ {p : Program} {ρ₁ ρ₂ : Replay},
    p.Closed b → Echo b g ρ₁ ρ₂ →
      (p.play (player limits₁ st₁) ρ₁).1 = .ok v → p.unfailing (player limits₁ st₁) ρ₁ = true →
      (∀ r ∈ (p.play (player limits₁ st₁) ρ₁).2.records, st₂ r.address = some r) →
      Ends b g (player limits₁ st₁) (player limits₂ st₂) p ρ₁ ρ₂
  | .done _, _, _, _, h, _, _, _ => ⟨rfl, h, rfl⟩
  | .fail _, _, _, _, _, hv, _, _ => by cases hv
  | .choose q next, ρ₁, ρ₂, hp, h, hv, hn, hm => by
      rcases hc : ρ₁.choose limits₁ st₁ q with ⟨fault | w, ρ₁'⟩
      · rw [Program.unfailing] at hn
        simp only [player, hc] at hn
        cases hn
      · have hplay : (Program.choose q next).play (player limits₁ st₁) ρ₁ =
            (next (.ok w)).play (player limits₁ st₁) ρ₁' := Player.Step.play_eq (.choose hc)
        have hn' := (Program.unfailing_choose (H := player limits₁ st₁) hc).symm.trans hn
        rw [hplay] at hv hm
        -- what has been written down so far is there in the end
        have hsub := Player.Keeps.play (keeps_written limits₁ st₁ ρ₁'.records) (next (.ok w))
          (List.prefix_refl _)
        obtain ⟨ρ₂', hc₂, h'⟩ : ∃ ρ₂', ρ₂.choose limits₂ st₂ q = (.ok w, ρ₂') ∧ Echo b g ρ₁' ρ₂' :=
          h.choose hst hc fun r hr => hm r (hsub.mem hr)
        exact (play hst (hp w) h' hv hn' hm).step hplay (Player.Step.play_eq (.choose hc₂))
          (Program.unfailing_choose hc₂)
  | .enter id next, ρ₁, ρ₂, hp, h, hv, hn, hm => by
      have h₂ : (player limits₂ st₂).enter id ρ₂ =
          (.ok (), { ρ₂ with sites := ρ₂.sites.enter id }) :=
        enter_of_shallow fun he => by cases h.second.symm.trans he
      rcases deep_or_shallow limits₁ ρ₁ with ⟨he, hd⟩ | hd
      · rw [(step_deep he hd).play_eq] at hv
        exact absurd hv ((hp.2 (h.first.symm.trans he) _).play_ne_ok _ _ v)
      · have h₁ : (player limits₁ st₁).enter id ρ₁ =
            (.ok (), { ρ₁ with sites := ρ₁.sites.enter id }) := enter_of_shallow hd
        rw [Program.play, h₁] at hv hm
        rw [Program.unfailing, h₁] at hn
        have h' : Echo b g { ρ₁ with sites := ρ₁.sites.enter id }
            { ρ₂ with sites := ρ₂.sites.enter id } :=
          { h with sites := congrArg (fun c => c.enter id) h.sites, entries := h.entries }
        exact (play hst hp.1 h' hv hn hm).step (by rw [Program.play, h₁])
          (by rw [Program.play, h₂]) (by rw [Program.unfailing, h₂])
  | .leave id next, ρ₁, ρ₂, hp, h, hv, hn, hm => by
      cases hl : ρ₁.sites.leave? id with
      | none =>
          rw [Program.play, leave_of_mismatch hl] at hv
          cases hv
      | some c =>
          have h₁ : (player limits₁ st₁).leave id ρ₁ = .ok { ρ₁ with sites := c } :=
            leave_eq_ok_iff.mpr ⟨c, hl, rfl⟩
          have h₂ : (player limits₂ st₂).leave id ρ₂ = .ok { ρ₂ with sites := c } :=
            leave_eq_ok_iff.mpr ⟨c, h.sites ▸ hl, rfl⟩
          rw [Program.play, h₁] at hv hm
          rw [Program.unfailing, h₁] at hn
          have h' : Echo b g { ρ₁ with sites := c } { ρ₂ with sites := c } :=
            { h with sites := rfl, entries := h.entries }
          exact (play (p := next ()) hst hp h' hv hn hm).step (by rw [Program.play, h₁])
            (by rw [Program.play, h₂]) (by rw [Program.unfailing, h₂])
  | .factor w next, _, _, hp, h, hv, hn, hm =>
      (play (p := next ()) hst hp (h.note (.factor w)) hv hn hm).step rfl rfl rfl
  | .condition holds next, ρ₁, ρ₂, hp, h, hv, hn, hm => by
      have h' : Echo b g { ρ₁ with satisfied := ρ₁.satisfied && holds }
          { ρ₂ with satisfied := ρ₂.satisfied && holds } :=
        { h with satisfied := congrArg (· && holds) h.satisfied, entries := h.entries }
      exact (play (p := next ()) hst hp h' hv hn hm).step rfl rfl rfl
  | .isActive next, _, _, hp, h, hv, hn, hm =>
      (play (p := next true) hst hp h hv hn hm).step rfl rfl rfl
  | .depth next, ρ₁, ρ₂, hp, h, hv, hn, hm => by
      have hd : (player limits₂ st₂).depth ρ₂ = ρ₁.sites.depth := congrArg CallSites.depth h.sites
      exact (play hst (hp ρ₁.sites.depth) h hv hn hm).step rfl (by rw [Program.play, hd])
        (by rw [Program.unfailing, hd])
  | .isEnumerating _, _, _, hp, _, _, _, _ => hp.elim
  | .read _ _, _, _, hp, _, _, _, _ => hp.elim
  | .write cell w next, ρ₁, ρ₂, hp, h, hv, hn, hm => by
      have h' : Echo b g { ρ₁ with session := ρ₁.session.writeCell cell w }
          { ρ₂ with session := ρ₂.session.writeCell cell w } :=
        { h with entries := h.entries }
      exact (play (p := next ()) hst hp h' hv hn hm).step rfl rfl rfl
  | .nested fixed inner next, ρ₁, ρ₂, hp, h, hv, hn, hm => by
      have h' : Echo b g { ρ₁ with session := ρ₁.session.freshId.2 }
          { ρ₂ with session := ρ₂.session.freshId.2 } :=
        { h with entries := h.entries }
      exact (play (p := next (.error .reentrant)) hst hp h' hv hn hm).step rfl rfl rfl

end Echo

end Replay

/-! ### Traces that stay as they are -/

namespace Trace

/-- The trace `u` is the trace `t` again, with nothing added and nothing removed. -/
structure Repeats (t u : Trace) : Prop where
  records   : u.records = t.records
  stored    : ∀ x, u.record? x = t.record? x
  joint     : u.joint = t.joint
  satisfied : u.satisfied = t.satisfied
  returned  : u.returned = t.returned
  generator : u.generator = t.generator
  added     : u.added = 0.0
  dropped   : u.dropped = 0.0
  removed   : u.removed = #[]

/-- Some number of further passes, none of which enumerates, lead to the trace. -/
inductive Reruns (t : Trace) : Trace → Prop where
  | none : Reruns t t
  | more {u} (fixed : Bool) (s : Session) (h : Reruns t u) (hs : s.active = .none)
      (he : s.enumerating = false) : Reruns t (u.update fixed s).2.1

/-- However often the program is run again, the next pass gives the value that the last one gave,
and the trace stays as it is. -/
def Steady (t : Trace) : Prop :=
  ∃ v, t.returned = some v ∧ ∀ u, t.Reruns u → ∀ fixed s, s.active = none →
    s.enumerating = false → (u.update fixed s).1 = .ok v ∧ t.Repeats (u.update fixed s).2.1

/-- A completed pass over a closed program, in which no choice failed, has left the trace. -/
inductive LeftBy (v : Value) : Trace → Prop where
  | pass {t : Trace} {fixed : Bool} {s : Session} (h : t.WellFormed)
      (hp : t.program.Closed s.enumerating) (hv : (t.update fixed s).1 = .ok v)
      (hn : t.unfailing fixed s = true) : LeftBy v (t.update fixed s).2.1

variable {t u w : Trace} {fixed fixed' : Bool} {s s' : Session} {v : Value} {ρ₁ ρ₂ : Replay}

theorem Repeats.trans (h : t.Repeats u) (h' : u.Repeats w) : t.Repeats w where
  records   := h'.records.trans h.records
  stored x  := (h'.stored x).trans (h.stored x)
  joint     := h'.joint.trans h.joint
  satisfied := h'.satisfied.trans h.satisfied
  returned  := h'.returned.trans h.returned
  generator := h'.generator.trans h.generator
  added     := h'.added
  dropped   := h'.dropped
  removed   := h'.removed

/-- What is stored is what is listed. -/
theorem WellFormed.record?_eq_of_records (h : t.WellFormed) (h' : u.WellFormed)
    (hr : u.records = t.records) (x : Address) : u.record? x = t.record? x := by
  refine Option.ext fun r => ⟨fun hx => ?_, fun hx => ?_⟩
  · rw [← h'.address_record? hx]
    exact h.record?_of_mem (hr ▸ h'.mem_of_record? hx)
  · rw [← h.address_record? hx]
    exact h'.record?_of_mem (hr.symm ▸ h.mem_of_record? hx)

/-- A pass that reuses every record that is stored repeats the trace. -/
theorem Agrees.repeats {b : Bool} (h : Agrees t ρ₁ u) (hu : u.WellFormed)
    (hρ : Replay.Echo b u.generator ρ₁ ρ₂) (h' : Agrees u ρ₂ w) (hw : w.WellFormed)
    (hret : w.returned = u.returned) : u.Repeats w := by
  have hrecords : w.records = u.records := h'.records.trans (hρ.records_eq.trans h.records.symm)
  have hnone : u.unreused ρ₂ = [] := List.eq_nil_iff_forall_not_mem.mpr fun r hr => by
    obtain ⟨hi, hr⟩ := mem_unreused.mp hr
    have hm : r ∈ ρ₂.reused := by
      rw [hρ.reused_eq, ← h.records]
      exact hu.mem_records.mpr hi
    rw [(Replay.reuses_iff ρ₂ r).mpr ⟨r, hm, rfl⟩] at hr
    cases hr
  exact
    { records := hrecords
      stored := hu.record?_eq_of_records hw hrecords
      joint := h'.joint.trans (hρ.joint_eq.trans h.joint.symm)
      satisfied := h'.satisfied.trans (hρ.satisfied.trans h.satisfied.symm)
      returned := hret
      generator := h'.generator.trans hρ.generator
      added := by rw [h'.added, Replay.added, hρ.created_eq]; rfl
      dropped := by rw [h'.dropped, hnone]; rfl
      removed := Array.toList_inj.mp (by rw [h'.removed, hnone]; rfl) }

/-- **A completed pass in which no choice failed is repeated** by one that does not enumerate. -/
theorem LeftBy.update (h : LeftBy v u) (fixed : Bool) {s : Session} (hs : s.active = none)
    (he : s.enumerating = false) :
    (u.update fixed s).1 = .ok v ∧ u.Repeats (u.update fixed s).2.1 ∧
      LeftBy v (u.update fixed s).2.1 := by
  cases h with
  | @pass t fixed₁ s₁ h hp hv hn =>
      obtain ⟨hr, -, ha, hret⟩ := h.agrees_update hv
      have hprogram := h.program_update hv
      have hu : (t.update fixed₁ s₁).2.1.WellFormed := h.update_ok hv
      generalize (t.update fixed₁ s₁).2.1 = u at ha hret hprogram hu ⊢
      rw [unfailing, Program.unfailing_simulates (Replay.pass_simulates h) t.program
        (Replay.follows_opening h (idle_of_ok hv) fixed₁)] at hn
      have hstart : Replay.Echo s₁.enumerating u.generator
          { generator := t.generator, session := s₁.quiet }
          { generator := u.generator, session := s.quiet } :=
        ⟨rfl, rfl, rfl, rfl, rfl, he⟩
      have hend : Replay.Echo.Ends _ _ _ (Replay.player u.limits u.record?) _ _ _ :=
        hstart.play h.address_record? hp hr hn
          fun r hm => hu.record?_of_mem (ha.records.symm ▸ hm)
      rw [← hprogram] at hp
      have hv' : (u.update fixed s).1 = .ok v := by
        rw [(hu.update_mirrors hs fixed).1, replayed, hprogram]
        exact hend.answer.trans hr
      obtain ⟨-, -, ha', hret'⟩ := hu.agrees_update hv'
      rw [replayed, hprogram] at ha'
      refine ⟨hv', ha.repeats hu hend.echo ha' (hu.update_ok hv') (hret'.trans hret.symm),
        .pass hu (he ▸ hp.of_enumerating) hv' ?_⟩
      rw [unfailing, Program.unfailing_simulates (Replay.pass_simulates hu) u.program
        (Replay.follows_opening hu hs fixed), hprogram]
      exact hend.unfailing

/-- **What a completed pass has left in which no choice failed stays as it is.** -/
theorem LeftBy.steady (h : LeftBy v t) : t.Steady := by
  have hret : t.returned = some v := by
    cases h with
    | pass h _ hv => exact (h.agrees_update hv).2.2.2
  have hruns : ∀ {u}, t.Reruns u → LeftBy v u ∧ (u = t ∨ t.Repeats u) := by
    intro u hu
    induction hu with
    | none => exact ⟨h, .inl rfl⟩
    | more fixed s _ hs he ih =>
        obtain ⟨hl, hu⟩ := ih
        obtain ⟨-, hr, hl'⟩ := hl.update fixed hs he
        rcases hu with rfl | hu
        · exact ⟨hl', .inr hr⟩
        · exact ⟨hl', .inr (hu.trans hr)⟩
  refine ⟨v, hret, fun u hu fixed s hs he => ?_⟩
  obtain ⟨hl, hu⟩ := hruns hu
  obtain ⟨hv, hr, -⟩ := hl.update fixed hs he
  rcases hu with rfl | hu
  · exact ⟨hv, hr⟩
  · exact ⟨hv, hu.trans hr⟩

/-- A pass is a pass of the program of its trace, however it ends. -/
theorem WellFormed.program_of_ended (h : t.WellFormed) (ha : Ended (t.update fixed s).1) :
    (t.update fixed s).2.1.program = t.program := by
  obtain ⟨e | v, ha⟩ := ha
  · cases hs : s.active with
    | some id => rw [update_of_busy (by rw [hs]; rfl)]
    | none =>
        exact (h.aborted_update fixed hs ((h.update_mirrors hs fixed).1.symm.trans ha)).program
  · exact h.program_update ha

end Trace

namespace Search

/-- A search keeps to the program of its trace, and to traces with a history. -/
theorem Reaches.reachable {t t' : Trace} {s s' : Session} (h : Reaches t s t' s')
    (ht : Reachable t) : Reachable t' ∧ t'.program = t.program := by
  induction h with
  | refl => exact ⟨ht, rfl⟩
  | update _ ha ih =>
      exact ⟨ih.1.update false _ trivial ha, (ih.1.wellFormed.program_of_ended ha).trans ih.2⟩
  | reset _ ih => exact ⟨ih.1.reset, ih.2⟩
  | @advance t' _ _ ih =>
      exact ⟨ih.1.advance, Trace.advance_keeps (I := fun u => u.program = t.program)
        (fun h _ _ => h) ih.2⟩
  | report _ _ ih => exact ih
  | flag _ _ ih => exact ih

end Search

/-- **Running the program again changes nothing.**  Let a completed pass over a closed program, in
which no choice failed, have left a trace: an ordinary pass over a reachable trace, the pass of a
proposal over the moved copy, or the last pass of a search that ends satisfied.  Then every further
pass that does not enumerate, under either flag and after any number of such passes, completes with
the same value and leaves the same trace; and the world that the search has found stays
satisfied. -/
theorem Reachable.reruns_steady {t : Trace} (h : Reachable t) :
    (∀ fixed s v, (t.update fixed s).1 = .ok v → t.program.Closed s.enumerating →
      t.unfailing fixed s = true → (t.update fixed s).2.1.Steady) ∧
    (∀ x fixed s proposal, (t.propose x fixed s).1 = .ok proposal →
      ∃ r m c fixed' s' v, t.Proposed x proposal r m c ∧ (c.update fixed' s').1 = .ok v ∧
        proposal.trace = (c.update fixed' s').2.1 ∧
        (t.program.Closed s'.enumerating → c.unfailing fixed' s' = true →
          proposal.trace.Steady)) ∧
    (∀ strategy fuel s n, (t.search strategy fuel s).1 = .ok (.satisfied n) →
      ∃ t' s' v, Search.Reaches t s t' s' ∧ (t'.update false s').1 = .ok v ∧
        (t.search strategy fuel s).2.1 = (t'.update false s').2.1 ∧
        (t'.update false s').2.1.satisfied = true ∧
        (t.program.Closed s'.enumerating → t'.unfailing false s' = true →
          (t'.update false s').2.1.Steady)) := by
  refine ⟨fun fixed s v hv hp hn => (Trace.LeftBy.pass h.wellFormed hp hv hn).steady,
    fun x fixed s proposal hc => ?_, fun strategy fuel s n hs => ?_⟩
  · obtain ⟨r, m, c, hq⟩ := h.wellFormed.exists_proposed hc
    obtain ⟨fixed', s', v, hv, hu⟩ := hq.completed
    refine ⟨r, m, c, fixed', s', v, hq, hv, hu, fun hp hn => ?_⟩
    rw [hu]
    exact (Trace.LeftBy.pass hq.moved.wellFormed (hq.moved.program ▸ hp) hv hn).steady
  · obtain ⟨hsat, t', s', v, hr, hv, hu⟩ :=
      ((Search.Reaches.invariant t s).search .refl strategy fuel).left n hs
    obtain ⟨hreach, hprogram⟩ := hr.reachable h
    exact ⟨t', s', v, hr, hv, hu, hu ▸ hsat, fun hp hn =>
      (Trace.LeftBy.pass hreach.wellFormed (hprogram ▸ hp) hv hn).steady⟩

/-! ### A world found by enumeration -/

/-- Makes a choice between false and true, and demands that it is true. -/
def secondFace : Program :=
  (do
    let x ← Computation.structural .flip [1.0]
    Computation.condition (x = Value.bool true)
    pure x).program

theorem closed_secondFace (b : Bool) : secondFace.Closed b := fun _ => trivial

/-- A pass over the program that is completed has made its choice. -/
theorem unfailing_secondFace {t : Trace} {s : Session} {v : Value} (hp : t.program = secondFace)
    (hv : (t.update false s).1 = .ok v) : t.unfailing false s = true := by
  rw [Trace.update_of_idle (Trace.idle_of_ok hv), Program.run_eq_play, hp] at hv
  have hrun := (Trace.fst_conclude _ _).symm.trans hv
  rw [Trace.unfailing, hp]
  generalize t.opening false s = p at hrun ⊢
  rw [secondFace, Computation.program] at hrun ⊢
  simp only [bind, Computation.structural, Computation.choice, Program.play, Program.unfailing]
    at hrun ⊢
  rcases hc : Pass.player.choose { family := .flip, params := [1.0], structural := true } p with
    ⟨(e | d | _) | w, p'⟩
  · rw [hc] at hrun
    cases hrun
  · rw [hc] at hrun
    cases hrun
  · rw [hc] at hrun
    cases hrun
  · rfl

theorem steady_secondFace :
    ((Trace.unstarted 0 secondFace {} (.ofSeed 0)).search .enumeration 3 {}).1 =
        .ok (.satisfied 2) ∧
      ((Trace.unstarted 0 secondFace {} (.ofSeed 0)).search .enumeration 3 {}).2.1.Steady := by
  have hs : ((Trace.unstarted 0 secondFace {} (.ofSeed 0)).search .enumeration 3 {}).1 =
      .ok (.satisfied 2) := by
    decide +kernel
  have hr : Reachable (.unstarted 0 secondFace {} (.ofSeed 0)) := .unstarted _ _ _ _
  obtain ⟨t, s, v, hreach, hv, hu, -, hsteady⟩ :=
    (Reachable.reruns_steady hr).2.2 .enumeration 3 {} 2 hs
  refine ⟨hs, ?_⟩
  rw [hu]
  exact hsteady (closed_secondFace _) (unfailing_secondFace (hreach.reachable hr).2 hv)

end ProbTrace
