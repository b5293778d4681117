import ProbTrace.Trace.Pass

/-!
# Proofs — Playing: whoever runs the tree of a program

A `Player` answers the requests of a program and keeps a state; `Program.play` runs the tree
against it, and a running pass is one player (`run_eq_play`).  So what is true of a run is proved
once, for all programs, from what is true of one answer:

* `play_simulates`: two players whose states stay related give the same answers, and their final
  states are related.
* `Steps`: the run request by request, and `Keeps.steps`: what every answer keeps holds at every
  moment of a run.
* `play_steps`: a run that ends comes in such steps to where the program has ended.
-/

namespace ProbTrace

/-- Answers to the requests of a program, and what becomes of the state of who gives them. -/
structure Player (σ : Type) where
  choose        : Request → σ → Except Fault Value × σ
  enter         : String → σ → Except Error Unit × σ
  leave         : String → σ → Except Fault σ
  factor        : Float → σ → σ
  condition     : Bool → σ → σ
  isActive      : σ → Bool
  depth         : σ → Nat
  isEnumerating : σ → Bool
  read          : String → σ → Option Value
  write         : String → Value → σ → σ
  nested        : Bool → Program → σ → Except Fault Value × σ

/-- Runs a program against a player. -/
def Program.play {σ : Type} (H : Player σ) : Program → σ → Except Fault Value × σ
  | .done v, a => (.ok v, a)
  | .fail e, a => (.error (.error e), a)
  | .choose q next, a =>
    match H.choose q a with
    | (.ok v, a)             => play H (next (.ok v)) a
    | (.error (.error e), a) => play H (next (.error e)) a
    | (.error fault, a)      => (.error fault, a)
  | .enter id next, a =>
    match H.enter id a with
    | (answer, a) => play H (next answer) a
  | .leave id next, a =>
    match H.leave id a with
    | .ok a        => play H (next ()) a
    | .error fault => (.error fault, a)
  | .factor w next, a => play H (next ()) (H.factor w a)
  | .condition b next, a => play H (next ()) (H.condition b a)
  | .isActive next, a => play H (next (H.isActive a)) a
  | .depth next, a => play H (next (H.depth a)) a
  | .isEnumerating next, a => play H (next (H.isEnumerating a)) a
  | .read cell next, a => play H (next (H.read cell a)) a
  | .write cell v next, a => play H (next ()) (H.write cell v a)
  | .nested fixed inner next, a =>
    match H.nested fixed inner a with
    | (.ok v, a)             => play H (next (.ok v)) a
    | (.error (.error e), a) => play H (next (.error e)) a
    | (.error fault, a)      => (.error fault, a)

/-- The program that has ended with this answer. -/
def Program.ofAnswer : Except Error Value → Program
  | .ok v    => .done v
  | .error e => .fail e

namespace Player

variable {σ τ : Type} {H : Player σ} {K : Player τ} {R : σ → τ → Prop}

/-! ### Two players -/

/-- Answers are the same and states stay related. -/
def Alike {α : Type} (R : σ → τ → Prop) (a : α × σ) (b : α × τ) : Prop := a.1 = b.1 ∧ R a.2 b.2

/-- From related states the two players answer every request alike. -/
structure Simulates (H : Player σ) (K : Player τ) (R : σ → τ → Prop) : Prop where
  choose        : ∀ {a b} q, R a b → Alike R (H.choose q a) (K.choose q b)
  enter         : ∀ {a b} id, R a b → Alike R (H.enter id a) (K.enter id b)
  leave         : ∀ {a b} id, R a b →
    (∃ fault, H.leave id a = .error fault ∧ K.leave id b = .error fault) ∨
      ∃ a' b', H.leave id a = .ok a' ∧ K.leave id b = .ok b' ∧ R a' b'
  factor        : ∀ {a b} w, R a b → R (H.factor w a) (K.factor w b)
  condition     : ∀ {a b} holds, R a b → R (H.condition holds a) (K.condition holds b)
  isActive      : ∀ {a b}, R a b → H.isActive a = K.isActive b
  depth         : ∀ {a b}, R a b → H.depth a = K.depth b
  isEnumerating : ∀ {a b}, R a b → H.isEnumerating a = K.isEnumerating b
  read          : ∀ {a b} cell, R a b → H.read cell a = K.read cell b
  write         : ∀ {a b} cell v, R a b → R (H.write cell v a) (K.write cell v b)
  nested        : ∀ {a b} fixed inner, R a b →
    Alike R (H.nested fixed inner a) (K.nested fixed inner b)

theorem Alike.trans {α υ : Type} {S : τ → υ → Prop} {a : α × σ} {b : α × τ} {c : α × υ}
    (h : Alike R a b) (h' : Alike S b c) : Alike (fun x z => ∃ y, R x y ∧ S y z) a c :=
  ⟨h.1.trans h'.1, b.2, h.2, h'.2⟩

/-- Who answers like one who answers like a third answers like the third. -/
theorem Simulates.trans {υ : Type} {L : Player υ} {S : τ → υ → Prop} (h : H.Simulates K R)
    (h' : K.Simulates L S) : H.Simulates L fun a c => ∃ b, R a b ∧ S b c where
  choose q := fun ⟨_, hR, hS⟩ => (h.choose q hR).trans (h'.choose q hS)
  enter id := fun ⟨_, hR, hS⟩ => (h.enter id hR).trans (h'.enter id hS)
  leave id := fun ⟨_, hR, hS⟩ => by
    rcases h.leave id hR with ⟨fault, ha, hb⟩ | ⟨a', b', ha, hb, hR'⟩
    · rcases h'.leave id hS with ⟨fault', hb', hc⟩ | ⟨b', c', hb', -⟩
      · cases hb.symm.trans hb'
        exact .inl ⟨fault, ha, hc⟩
      · cases hb.symm.trans hb'
    · rcases h'.leave id hS with ⟨fault', hb', hc⟩ | ⟨b'', c', hb', hc, hS'⟩
      · cases hb.symm.trans hb'
      · cases hb.symm.trans hb'
        exact .inr ⟨a', c', ha, hc, b', hR', hS'⟩
  factor w := fun ⟨_, hR, hS⟩ => ⟨_, h.factor w hR, h'.factor w hS⟩
  condition holds := fun ⟨_, hR, hS⟩ => ⟨_, h.condition holds hR, h'.condition holds hS⟩
  isActive := fun ⟨_, hR, hS⟩ => (h.isActive hR).trans (h'.isActive hS)
  depth := fun ⟨_, hR, hS⟩ => (h.depth hR).trans (h'.depth hS)
  isEnumerating := fun ⟨_, hR, hS⟩ => (h.isEnumerating hR).trans (h'.isEnumerating hS)
  read cell := fun ⟨_, hR, hS⟩ => (h.read cell hR).trans (h'.read cell hS)
  write cell v := fun ⟨_, hR, hS⟩ => ⟨_, h.write cell v hR, h'.write cell v hS⟩
  nested fixed inner := fun ⟨_, hR, hS⟩ =>
    (h.nested fixed inner hR).trans (h'.nested fixed inner hS)

/-- **Players that answer alike run every program alike.** -/
theorem play_simulates (h : H.Simulates K R) :
    ∀ (program : Program) {a : σ} {b : τ}, R a b →
      Alike R (program.play H a) (program.play K b)
  | .done _, _, _, hR => ⟨rfl, hR⟩
  | .fail _, _, _, hR => ⟨rfl, hR⟩
  | .choose q next, a, b, hR => by
      have hc := h.choose q hR
      simp only [Program.play]
      rcases ha : H.choose q a with ⟨answer, a'⟩
      rcases hb : K.choose q b with ⟨answer', b'⟩
      rw [ha, hb] at hc
      obtain ⟨rfl, hR'⟩ := hc
      -- an error goes back to the program; a defect and an unfinished loop end the run
      rcases answer with (e | d | _) | v
      · exact play_simulates h (next (.error e)) hR'
      · exact ⟨rfl, hR'⟩
      · exact ⟨rfl, hR'⟩
      · exact play_simulates h (next (.ok v)) hR'
  | .enter id next, a, b, hR => by
      have hc := h.enter id hR
      rcases ha : H.enter id a with ⟨answer, a'⟩
      rcases hb : K.enter id b with ⟨answer', b'⟩
      rw [ha, hb] at hc
      obtain ⟨rfl, hR'⟩ := hc
      rw [Program.play, Program.play, ha, hb]
      exact play_simulates h (next answer) hR'
  | .leave id next, a, b, hR => by
      simp only [Program.play]
      rcases h.leave id hR with ⟨fault, ha, hb⟩ | ⟨a', b', ha, hb, hR'⟩
      · rw [ha, hb]
        exact ⟨rfl, hR⟩
      · rw [ha, hb]
        exact play_simulates h (next ()) hR'
  | .factor w next, _, _, hR => play_simulates h (next ()) (h.factor w hR)
  | .condition holds next, _, _, hR => play_simulates h (next ()) (h.condition holds hR)
  | .isActive next, a, b, hR => by
      rw [Program.play, h.isActive hR]
      exact play_simulates h _ hR
  | .depth next, a, b, hR => by
      rw [Program.play, h.depth hR]
      exact play_simulates h _ hR
  | .isEnumerating next, a, b, hR => by
      rw [Program.play, h.isEnumerating hR]
      exact play_simulates h _ hR
  | .read cell next, a, b, hR => by
      rw [Program.play, h.read cell hR]
      exact play_simulates h _ hR
  | .write cell v next, _, _, hR => play_simulates h (next ()) (h.write cell v hR)
  | .nested fixed inner next, a, b, hR => by
      have hc := h.nested fixed inner hR
      simp only [Program.play]
      rcases ha : H.nested fixed inner a with ⟨answer, a'⟩
      rcases hb : K.nested fixed inner b with ⟨answer', b'⟩
      rw [ha, hb] at hc
      obtain ⟨rfl, hR'⟩ := hc
      rcases answer with (e | d | _) | v
      · exact play_simulates h (next (.error e)) hR'
      · exact ⟨rfl, hR'⟩
      · exact ⟨rfl, hR'⟩
      · exact play_simulates h (next (.ok v)) hR'

/-! ### Request by request -/

/-- A request is answered, and the program goes on. -/
inductive Step (H : Player σ) : Program → σ → Program → σ → Prop where
  | choose {q next a answer b} (h : H.choose q a = (Fault.lift answer, b)) :
      Step H (.choose q next) a (next answer) b
  | enter {id next a} : Step H (.enter id next) a (next (H.enter id a).1) (H.enter id a).2
  | leave {id next a b} (h : H.leave id a = .ok b) : Step H (.leave id next) a (next ()) b
  | factor {w next a} : Step H (.factor w next) a (next ()) (H.factor w a)
  | condition {holds next a} :
      Step H (.condition holds next) a (next ()) (H.condition holds a)
  | isActive {next a} : Step H (.isActive next) a (next (H.isActive a)) a
  | depth {next a} : Step H (.depth next) a (next (H.depth a)) a
  | isEnumerating {next a} : Step H (.isEnumerating next) a (next (H.isEnumerating a)) a
  | read {cell next a} : Step H (.read cell next) a (next (H.read cell a)) a
  | write {cell v next a} : Step H (.write cell v next) a (next ()) (H.write cell v a)
  | nested {fixed inner next a answer b} (h : H.nested fixed inner a = (Fault.lift answer, b)) :
      Step H (.nested fixed inner next) a (next answer) b

/-- Any number of requests are answered. -/
inductive Steps (H : Player σ) : Program → σ → Program → σ → Prop where
  | refl {p a} : Steps H p a p a
  | more {p a p₁ a₁ p' a'} (h : Step H p a p₁ a₁) (t : Steps H p₁ a₁ p' a') : Steps H p a p' a'

/-- An answered request is a step of the run. -/
theorem Step.play_eq {p p' : Program} {a a' : σ} (h : Step H p a p' a') :
    p.play H a = p'.play H a' := by
  cases h with
  | @choose q next a answer b h =>
      rw [Program.play, h]
      cases answer <;> rfl
  | enter => rfl
  | leave h => rw [Program.play, h]
  | factor => rfl
  | condition => rfl
  | isActive => rfl
  | depth => rfl
  | isEnumerating => rfl
  | read => rfl
  | write => rfl
  | @nested fixed inner next a answer b h =>
      rw [Program.play, h]
      cases answer <;> rfl

theorem Steps.play_eq {p p' : Program} {a a' : σ} (h : Steps H p a p' a') :
    p.play H a = p'.play H a' := by
  induction h with
  | refl => rfl
  | more h _ ih => exact h.play_eq.trans ih

theorem Steps.trans {p p₁ p' : Program} {a a₁ a' : σ} (h : Steps H p a p₁ a₁)
    (h' : Steps H p₁ a₁ p' a') : Steps H p a p' a' := by
  induction h with
  | refl => exact h'
  | more h _ ih => exact .more h (ih h')

/-- **What every step keeps holds where a run has come to.** -/
theorem Steps.keeps {J : Program → σ → Prop} {p p' : Program} {a a' : σ} (h : Steps H p a p' a')
    (hJ : ∀ {p a p' a'}, Step H p a p' a' → J p a → J p' a') (hp : J p a) : J p' a' := by
  induction h with
  | refl => exact hp
  | more h _ ih => exact ih (hJ h hp)

/-- **A run that ends comes, request by request, to where the program has ended**, if leaving a call
site fails with no error. -/
theorem play_steps {answer : Except Error Value}
    (hl : ∀ id a e, H.leave id a ≠ .error (.error e)) :
    ∀ (p : Program) {a : σ}, (p.play H a).1 = Fault.lift answer →
      Steps H p a (.ofAnswer answer) (p.play H a).2
  | .done v, a, h => by
      cases answer <;> cases h
      exact .refl
  | .fail e, a, h => by
      cases answer <;> cases h
      exact .refl
  | .choose q next, a, h => by
      rcases hc : H.choose q a with ⟨(e | d | _) | v, b⟩
      · have hs : H.Step (.choose q next) a (next (.error e)) b := .choose hc
        rw [hs.play_eq] at h ⊢
        exact .more hs (play_steps hl _ h)
      · rw [Program.play, hc] at h
        cases answer <;> cases h
      · rw [Program.play, hc] at h
        cases answer <;> cases h
      · have hs : H.Step (.choose q next) a (next (.ok v)) b := .choose hc
        rw [hs.play_eq] at h ⊢
        exact .more hs (play_steps hl _ h)
  | .enter id next, a, h => .more .enter (play_steps hl _ h)
  | .leave id next, a, h => by
      rcases hc : H.leave id a with (e | d | _) | b
      · exact absurd hc (hl id a e)
      · rw [Program.play, hc] at h
        cases answer <;> cases h
      · rw [Program.play, hc] at h
        cases answer <;> cases h
      · have hs : H.Step (.leave id next) a (next ()) b := .leave hc
        rw [hs.play_eq] at h ⊢
        exact .more hs (play_steps hl _ h)
  | .factor w next, a, h => .more .factor (play_steps hl (next ()) h)
  | .condition holds next, a, h => .more .condition (play_steps hl (next ()) h)
  | .isActive next, a, h => .more .isActive (play_steps hl (next _) h)
  | .depth next, a, h => .more .depth (play_steps hl (next _) h)
  | .isEnumerating next, a, h => .more .isEnumerating (play_steps hl (next _) h)
  | .read cell next, a, h => .more .read (play_steps hl (next _) h)
  | .write cell v next, a, h => .more .write (play_steps hl (next ()) h)
  | .nested fixed inner next, a, h => by
      rcases hc : H.nested fixed inner a with ⟨(e | d | _) | v, b⟩
      · have hs : H.Step (.nested fixed inner next) a (next (.error e)) b := .nested hc
        rw [hs.play_eq] at h ⊢
        exact .more hs (play_steps hl _ h)
      · rw [Program.play, hc] at h
        cases answer <;> cases h
      · rw [Program.play, hc] at h
        cases answer <;> cases h
      · have hs : H.Step (.nested fixed inner next) a (next (.ok v)) b := .nested hc
        rw [hs.play_eq] at h ⊢
        exact .more hs (play_steps hl _ h)

/-- What every answer keeps. -/
structure Keeps (H : Player σ) (I : σ → Prop) : Prop where
  choose    : ∀ {a} q, I a → I (H.choose q a).2
  enter     : ∀ {a} id, I a → I (H.enter id a).2
  leave     : ∀ {a b} id, I a → H.leave id a = .ok b → I b
  factor    : ∀ {a} w, I a → I (H.factor w a)
  condition : ∀ {a} holds, I a → I (H.condition holds a)
  write     : ∀ {a} cell v, I a → I (H.write cell v a)
  nested    : ∀ {a} fixed inner, I a → I (H.nested fixed inner a).2

variable {I : σ → Prop}

theorem Keeps.step (hk : H.Keeps I) {p p' : Program} {a a' : σ} (h : Step H p a p' a')
    (ha : I a) : I a' := by
  cases h with
  | @choose q _ _ _ _ h =>
      have hb := hk.choose q ha
      rw [h] at hb
      exact hb
  | enter => exact hk.enter _ ha
  | leave h => exact hk.leave _ ha h
  | factor => exact hk.factor _ ha
  | condition => exact hk.condition _ ha
  | isActive => exact ha
  | depth => exact ha
  | isEnumerating => exact ha
  | read => exact ha
  | write => exact hk.write _ _ ha
  | @nested fixed inner _ _ _ _ h =>
      have hb := hk.nested fixed inner ha
      rw [h] at hb
      exact hb

/-- **What every answer keeps holds at every moment of a run.** -/
theorem Keeps.steps (hk : H.Keeps I) {p p' : Program} {a a' : σ} (h : Steps H p a p' a')
    (ha : I a) : I a' :=
  h.keeps (fun hs => hk.step hs) ha

/-- From equal states in which `I` holds, a player that keeps `I` simulates itself. -/
theorem Keeps.simulates (hk : H.Keeps I) : H.Simulates H fun a b => a = b ∧ I a where
  choose := by rintro a _ q ⟨rfl, ha⟩; exact ⟨rfl, rfl, hk.choose q ha⟩
  enter := by rintro a _ id ⟨rfl, ha⟩; exact ⟨rfl, rfl, hk.enter id ha⟩
  leave := by
    rintro a _ id ⟨rfl, ha⟩
    cases h : H.leave id a with
    | error fault => exact .inl ⟨fault, rfl, rfl⟩
    | ok b => exact .inr ⟨b, b, rfl, rfl, rfl, hk.leave id ha h⟩
  factor := by rintro a _ w ⟨rfl, ha⟩; exact ⟨rfl, hk.factor w ha⟩
  condition := by rintro a _ holds ⟨rfl, ha⟩; exact ⟨rfl, hk.condition holds ha⟩
  isActive := by rintro a _ ⟨rfl, -⟩; rfl
  depth := by rintro a _ ⟨rfl, -⟩; rfl
  isEnumerating := by rintro a _ ⟨rfl, -⟩; rfl
  read := by rintro a _ cell ⟨rfl, -⟩; rfl
  write := by rintro a _ cell v ⟨rfl, ha⟩; exact ⟨rfl, hk.write cell v ha⟩
  nested := by rintro a _ fixed inner ⟨rfl, ha⟩; exact ⟨rfl, rfl, hk.nested fixed inner ha⟩

/-- What every answer keeps holds at the end of a run. -/
theorem Keeps.play (hk : H.Keeps I) (p : Program) {a : σ} (ha : I a) : I (p.play H a).2 :=
  (play_simulates hk.simulates p ⟨rfl, ha⟩).2.2

end Player

/-! ### A running pass -/

/-- The answers of a running pass. -/
def Pass.player : Player Pass where
  choose q p := p.choose q
  enter id p := p.enter id
  leave id p :=
    match p.sites.leave? id with
    | some sites => .ok { p with sites }
    | none       => .error (.defect (.siteMismatch p.sites.path id))
  factor w p := { p with trace := p.trace.addFactor w }
  condition b p := { p with trace := p.trace.demand b }
  isActive _ := true
  depth p := p.sites.depth
  isEnumerating p := p.session.enumerating
  read cell p := p.session.readCell cell
  write cell v p := { p with session := p.session.writeCell cell v }
  nested fixed inner p :=
    let (u, s) := p.session.newTrace inner {} (.ofSeed nestedSeed)
    match Trace.passWith inner.run u fixed s with
    | (answer, _, s) => (answer, { p with session := s })

/-- A call site is left exactly if it was the last one to be entered. -/
theorem Pass.leave_eq_ok_iff {p p' : Pass} {id : String} : player.leave id p = .ok p' ↔
    ∃ c, p.sites.leave? id = some c ∧ p' = { p with sites := c } := by
  simp only [player]
  cases p.sites.leave? id with
  | none => exact ⟨nofun, nofun⟩
  | some c => exact ⟨fun h => by cases h; exact ⟨c, rfl, rfl⟩, by rintro ⟨_, ⟨⟩, rfl⟩; rfl⟩

/-- Running a program in a pass plays it against the pass. -/
theorem Program.run_eq_play : ∀ (program : Program) (p : Pass),
    program.run p = program.play Pass.player p
  | .done _, _ => rfl
  | .fail _, _ => rfl
  | .choose q next, p => by
      rw [run, play]
      simp only [Pass.player]
      rcases p.choose q with ⟨(e | d | _) | v, p'⟩
      · exact run_eq_play _ _
      · rfl
      · rfl
      · exact run_eq_play _ _
  | .enter id next, p => by
      rw [run, play]
      exact run_eq_play _ _
  | .leave id next, ⟨t, sites, s⟩ => by
      rw [run, play]
      simp only [Pass.player]
      cases sites.leave? id with
      | none => rfl
      | some sites => exact run_eq_play _ _
  | .factor w next, ⟨t, sites, s⟩ => run_eq_play (next ()) _
  | .condition b next, ⟨t, sites, s⟩ => run_eq_play (next ()) _
  | .isActive next, p => run_eq_play (next true) p
  | .depth next, p => run_eq_play (next p.sites.depth) p
  | .isEnumerating next, p => run_eq_play (next p.session.enumerating) p
  | .read cell next, p => run_eq_play (next (p.session.readCell cell)) p
  | .write cell v next, ⟨t, sites, s⟩ => run_eq_play (next ()) _
  | .nested fixed inner next, ⟨t, sites, s⟩ => by
      -- the trace of the inner program is not kept, whatever it has become
      rw [run, play]
      simp only [Pass.player]
      rcases Trace.passWith inner.run (s.newTrace inner {} (.ofSeed nestedSeed)).1 fixed
        (s.newTrace inner {} (.ofSeed nestedSeed)).2 with ⟨(e | d | _) | v, u, s'⟩
      · exact run_eq_play _ _
      · rfl
      · rfl
      · exact run_eq_play _ _

end ProbTrace
