import ProbTrace.Proofs.Budgets
import ProbTrace.Proofs.Failures

/-!
# Proofs — Scoping: call sites that are opened by calls

A program that opens its call sites by `Computation.call` only is a nesting of calls
(`Computation.Scoped`).  Wherever such a part of a program is run, in a pass or without a trace, it
ends with the call sites open that were open before, whatever its answer is, unless a sampler breaks
it off; no site is ever left that is not the innermost one; and no count goes down
(`Computation.Scoped.unwinds`).

* A part of a program says how the whole goes on, so that a part *ends* is said for every way of
  going on: request by request, the run comes to the rest of the program (`Closes.ends`).
* `Player.Seated` is what is needed of who answers the requests: an answer to anything but `enter`
  and `leave` leaves the open call sites alone.
* The proof is by induction on the nesting.  The one case with an idea is `call`: the body closes
  what it opens, so that the site of the call is the innermost one again when the body has ended.

The counts go up whatever the program does (`Seated.grows`): only `choose` touches them.
-/

namespace ProbTrace

/-! ### The faults of a request -/

theorem usual_error (e : Error) : Fault.Usual (.error e) := .inl ⟨e, rfl⟩

theorem usual_lift {α : Type} (answer : Except Error α) :
    Raises Fault.Usual (Fault.lift answer) := by
  cases answer with
  | ok a => exact raises_ok a
  | error e => exact raises_error (usual_error e)

/-- The fault is not that a call site was left whose name the path did not end with. -/
def Fault.Balanced (fault : Fault) : Prop := ∀ path id, fault ≠ .defect (.siteMismatch path id)

theorem Fault.Usual.balanced {fault : Fault} (h : fault.Usual) : fault.Balanced := by
  rintro path id rfl
  rcases h with ⟨e, he⟩ | h
  · cases he
  · exact h

/-- The first element of a domain comes after nothing, so that no successor is asked for. -/
theorem Domain.usual_first (d : Domain) (params : List Float) :
    Raises Fault.Usual (d.first params) := by
  refine Raises.bind ?_ fun v => ?_
  · cases d with
    | flip => exact raises_ok _
    | categorical => exact raises_ok _
    | binomial => exact (usual_lift (Family.trials params)).bind fun _ => raises_ok _
  · cases v with
    | none => exact raises_error (usual_error _)
    | some v => exact raises_ok v

namespace Trace

theorem usual_newValue (q : Request) (enumerating : Bool) (g : Generator) :
    Raises Fault.Usual (newValue q enumerating g) := by
  have hs := q.family.usual_sample q.params g
  rw [newValue]
  split
  · exact raises_ok _
  split
  · rename_i d _
    split
    · have hf := d.usual_first q.params
      cases hd : d.first q.params with
      | ok v => exact raises_ok _
      | error fault => exact raises_error (hf fault hd)
    · exact hs
  · exact hs

theorem usual_create (t : Trace) (x : Address) (q : Request) (enumerating : Bool) :
    Raises Fault.Usual (t.create x q enumerating).1 := by
  rw [create]
  split
  · rename_i fault h
    exact raises_error (usual_newValue q enumerating t.generator fault h)
  · split
    · exact raises_error (usual_error _)
    · exact raises_ok _

/-- A pass has the faults of the program, and it may be refused. -/
theorem raises_passWith {P : Fault → Prop} (hP : ∀ e, P (.error e))
    {run : Pass → Except Fault Value × Pass} (h : ∀ p, Raises P (run p).1) (t : Trace)
    (fixed : Bool) (s : Session) : Raises P (t.passWith run fixed s).1 := by
  rw [passWith_eq]
  split
  · exact raises_error (hP _)
  · have hanswer : (concluded (run (t.opening fixed s))).1 = (run (t.opening fixed s)).1 :=
      fst_conclude _ _
    rw [hanswer]
    exact h _

end Trace

namespace Pass

variable {q : Request} {t : Trace} {sites : CallSites} {s : Session}

theorem usual_settle (i : Nat) (out : Except Error Unit × Trace) :
    Raises Fault.Usual (settle i out sites s).1 := by
  obtain ⟨e | ⟨⟩, u⟩ := out
  · exact raises_error (usual_error e)
  · exact usual_lift _

theorem usual_chooseNew (x : Address) : Raises Fault.Usual (chooseNew x q t sites s).1 := by
  have hc := t.usual_create x q s.enumerating
  rw [chooseNew]
  rcases hout : t.create x q s.enumerating with ⟨fault | ⟨i, r⟩, u⟩
  · rw [hout] at hc
    exact raises_error (hc fault rfl)
  · exact usual_settle i _

theorem usual_chooseByAddress (x : Address) :
    Raises Fault.Usual (chooseByAddress x q t sites s).1 := by
  rw [chooseByAddress]
  split
  · exact usual_chooseNew x
  · exact usual_chooseNew x
  · split
    · exact raises_error (usual_error _)
    · exact usual_settle _ _

/-- **A choice of a pass fails with an error, or as a sampler does.** -/
theorem usual_choose (q : Request) (p : Pass) : Raises Fault.Usual (p.choose q).1 := by
  obtain ⟨t, sites, s⟩ := p
  rw [choose]
  split
  · exact raises_error (usual_error _)
  · simp only [chooseAt]
    split
    · exact usual_settle _ _
    · split
      · exact usual_chooseByAddress _
      · exact usual_chooseByAddress _

end Pass

/-! ### Call sites -/

namespace CallSites

/-- No count is smaller. -/
def Grows (c c' : CallSites) : Prop := ∀ path, c.counted path ≤ c'.counted path

theorem Grows.refl (c : CallSites) : c.Grows c := fun _ => Nat.le_refl _

theorem grows_claim (c : CallSites) : c.Grows c.claim.2 := by
  intro path
  rw [counted_claim]
  exact Nat.le_add_right _ _

/-- Where the site entered last is the innermost one again, leaving it opens what was open
before. -/
theorem exists_leave {c c' : CallSites} {id : String} (h : c'.paths = (c.enter id).paths) :
    ∃ c'', c'.leave? id = some c'' ∧ c''.paths = c.paths := by
  have hpath : c'.path = (c.enter id).path := by rw [path, path, h]
  have hleave := c.leave?_enter id
  rw [leave?] at hleave ⊢
  rw [hpath]
  split at hleave
  · rename_i hsuffix
    refine ⟨_, if_pos hsuffix, ?_⟩
    show c'.paths.tail = c.paths
    rw [h]
    rfl
  · cases hleave

end CallSites

namespace Player

variable {σ : Type}

/-- Whoever answers keeps call sites: they are entered and left as `CallSites` says, a choice only
counts, and no other answer touches them.  A choice fails with an error or as a sampler does, and a
program that is run in a trace of its own does if its passes do. -/
structure Seated (H : Player σ) (sites : σ → CallSites) : Prop where
  choose       : ∀ q a, (sites (H.choose q a).2).paths = (sites a).paths
  claims       : ∀ q a, (sites a).Grows (sites (H.choose q a).2)
  usual        : ∀ q a, Raises Fault.Usual (H.choose q a).1
  enter        : ∀ id a, (∃ e, H.enter id a = (.error e, a)) ∨
    ∃ b, H.enter id a = (.ok (), b) ∧ sites b = (sites a).enter id
  leave        : ∀ {id a c}, (sites a).leave? id = some c → ∃ b, H.leave id a = .ok b ∧ sites b = c
  left         : ∀ {id a b}, H.leave id a = .ok b → (sites a).leave? id = some (sites b)
  factor       : ∀ w a, sites (H.factor w a) = sites a
  condition    : ∀ holds a, sites (H.condition holds a) = sites a
  write        : ∀ cell v a, sites (H.write cell v a) = sites a
  nested       : ∀ fixed inner a, sites (H.nested fixed inner a).2 = sites a
  usual_nested : ∀ fixed {inner : Program}, (∀ p, Raises Fault.Usual (inner.run p).1) →
    ∀ a, Raises Fault.Usual (H.nested fixed inner a).1

variable {H : Player σ} {sites : σ → CallSites}

/-- No answer counts down. -/
theorem Seated.keeps_counted (h : H.Seated sites) (path : String) (n : Nat) :
    H.Keeps fun a => n ≤ (sites a).counted path where
  choose {a} q ha := Nat.le_trans ha (h.claims q a path)
  enter {a} id ha := by
    rcases h.enter id a with ⟨e, he⟩ | ⟨b, he, hb⟩
    · rw [he]
      exact ha
    · rw [he]
      show n ≤ (sites b).counted path
      rw [hb]
      exact ha
  leave {a b} id ha hl := by
    rw [CallSites.counted_of_leave (h.left hl)]
    exact ha
  factor {a} w ha := by
    rw [h.factor]
    exact ha
  condition {a} holds ha := by
    rw [h.condition]
    exact ha
  write {a} cell v ha := by
    rw [h.write]
    exact ha
  nested {a} fixed inner ha := by
    rw [h.nested]
    exact ha

/-- **No count ever goes down**, whatever the program does. -/
theorem Seated.grows (h : H.Seated sites) {p p' : Program} {a a' : σ} (hs : H.Steps p a p' a') :
    (sites a).Grows (sites a') :=
  fun path => (h.keeps_counted path _).steps hs (Nat.le_refl _)

end Player

/-- A running pass keeps call sites. -/
theorem Pass.seated_player : Pass.player.Seated Pass.sites where
  choose q := by
    rintro ⟨t, sites, s⟩
    simp only [player, Pass.choose]
    split
    · rfl
    · rw [sites_chooseAt]
      rfl
  claims q := by
    rintro ⟨t, sites, s⟩
    simp only [player, Pass.choose]
    split
    · exact .refl _
    · rw [sites_chooseAt]
      exact sites.grows_claim
  usual := usual_choose
  enter id := by
    rintro ⟨t, sites, s⟩
    simp only [player, Pass.enter]
    split
    · exact .inl ⟨_, rfl⟩
    · exact .inr ⟨_, rfl, rfl⟩
  leave {id a c} h := ⟨_, leave_eq_ok_iff.mpr ⟨c, h, rfl⟩, rfl⟩
  left {id a b} h := by
    obtain ⟨c, hc, rfl⟩ := leave_eq_ok_iff.mp h
    exact hc
  factor _ _ := rfl
  condition _ _ := rfl
  write _ _ _ := rfl
  nested _ _ _ := rfl
  usual_nested fixed _ h _ := Trace.raises_passWith usual_error h _ fixed _

/-- A run without a trace keeps call sites, and counts nothing. -/
theorem Detached.seated_player : Detached.player.Seated Detached.sites where
  choose q := by
    rintro ⟨g, sites, s⟩
    simp only [player, Detached.choose]
    split
    · rfl
    · split <;> rfl
  claims q := by
    rintro ⟨g, sites, s⟩
    simp only [player, Detached.choose]
    split
    · exact .refl _
    · split <;> exact .refl _
  usual q := by
    rintro ⟨g, sites, s⟩
    simp only [player, Detached.choose]
    split
    · exact raises_ok _
    · split
      · exact raises_ok _
      · rename_i fault h
        exact raises_error (q.family.usual_sample q.params g fault h)
  enter _ _ := .inr ⟨_, rfl, rfl⟩
  leave {id a c} h := ⟨{ a with sites := c }, by simp only [player, h], rfl⟩
  left {id a b} h := by
    simp only [player] at h
    split at h
    · rename_i c hc
      cases h
      exact hc
    · cases h
  factor _ _ := rfl
  condition _ _ := rfl
  write _ _ _ := rfl
  nested _ _ _ := rfl
  usual_nested fixed _ h _ := Trace.raises_passWith usual_error h _ fixed _

/-! ### Parts of a program -/

namespace Computation

/-- The part of a program opens call sites by calls only, and so does every program that it runs in
a trace of its own. -/
inductive Scoped : {α : Type} → Computation α → Prop where
  | ofExcept {α : Type} (answer : Except Error α) : Scoped (ofExcept answer)
  | bind {α β : Type} {c : Computation α} {f : α → Computation β} (hc : Scoped c)
      (hf : ∀ a, Scoped (f a)) : Scoped (c >>= f)
  | tryCatch {α : Type} {c : Computation α} {handler : Error → Computation α} (hc : Scoped c)
      (hh : ∀ e, Scoped (handler e)) : Scoped (tryCatch c handler)
  | call {α : Type} (id : String) {body : Computation α} (hb : Scoped body) :
      Scoped (call id body)
  | choice (q : Request) : Scoped (choice q)
  | factor (weight : Float) : Scoped (factor weight)
  | condition (holds : Bool) : Scoped (condition holds)
  | isActive : Scoped isActive
  | depth : Scoped depth
  | isEnumerating : Scoped isEnumerating
  | read (cell : String) : Scoped (read cell)
  | write (cell : String) (v : Value) : Scoped (write cell v)
  | nested (fixed : Bool) {inner : Computation Value} (hi : Scoped inner) :
      Scoped (nested fixed inner)

variable {α β σ : Type} {H : Player σ} {sites : σ → CallSites} {c : Computation α} {a : σ}

/-- However the whole goes on, the run comes from the beginning of the part to the rest of the
program, and the call sites that are open then are those that were open before; or a sampler breaks
the run off. -/
inductive Closes (H : Player σ) (sites : σ → CallSites) (c : Computation α) (a : σ) : Prop where
  | ends {answer : Except Error α} {b : σ} (h : ∀ k, H.Steps (c k) a (k answer) b)
      (hp : (sites b).paths = (sites a).paths)
  | breaks {fault : Fault} {b : σ} (h : ∀ k, (c k).play H a = (.error fault, b))
      (hf : fault.OfDraw)

/-- A part that answers with one request closes if the request leaves the open call sites alone. -/
theorem Closes.step {answer : Except Error α} {b : σ} (h : ∀ k, H.Step (c k) a (k answer) b)
    (hp : (sites b).paths = (sites a).paths) : Closes H sites c a :=
  .ends (fun k => .more (h k) .refl) hp

theorem Closes.ofAnswer (answer : Except Error α) : Closes H sites (ofExcept answer) a :=
  .ends (fun _ => .refl) rfl

/-- One part after another closes as both do. -/
theorem Closes.andThen (hc : Closes H sites c a) (rest : Except Error α → Computation β)
    (hr : ∀ answer b, Closes H sites (rest answer) b) :
    Closes H sites (fun k => c fun answer => rest answer k) a := by
  cases hc with
  | @ends answer b h hp =>
      cases hr answer b with
      | ends h' hp' => exact .ends (fun k => (h _).trans (h' k)) (hp'.trans hp)
      | breaks h' hf => exact .breaks (fun k => (h _).play_eq.trans (h' k)) hf
  | breaks h hf => exact .breaks (fun k => h _) hf

/-- **A call closes if its body does.** -/
theorem Closes.call (hH : H.Seated sites) (id : String) (hb : ∀ b, Closes H sites c b) :
    Closes H sites (Computation.call id c) a := by
  rcases hH.enter id a with ⟨e, he⟩ | ⟨b, he, hsites⟩
  · -- the site is refused, and nothing has been opened
    have hrefuse : ∀ k, H.Step (Computation.call id c k) a (k (.error e)) a := fun k => by
      have hs : H.Step (Computation.call id c k) a _ _ := .enter
      rw [he] at hs
      exact hs
    exact .step hrefuse rfl
  · have henter : ∀ k, H.Step (Computation.call id c k) a
        (c fun answer => .leave id fun _ => k answer) b := fun k => by
      have hs : H.Step (Computation.call id c k) a _ _ := .enter
      rw [he] at hs
      exact hs
    cases hb b with
    | breaks h hf => exact .breaks (fun k => (henter k).play_eq.trans (h _)) hf
    | @ends answer d h hp =>
        -- the body has closed what it has opened, so the site of the call is the innermost one
        obtain ⟨sites', hleave, hpaths⟩ := CallSites.exists_leave (hp.trans (congrArg _ hsites))
        obtain ⟨d', hd', rfl⟩ := hH.leave hleave
        exact .ends (fun k => (Player.Steps.more (henter k) (h _)).trans (.more (.leave hd') .refl))
          hpaths

/-- The whole program goes on by ending with the answer. -/
theorem program_eq (c : Computation Value) : c.program = c Program.ofAnswer := by
  refine congrArg c (funext fun answer => ?_)
  cases answer <;> rfl

/-- A whole program that closes fails with an error, or as a sampler does. -/
theorem Closes.usual_play {c : Computation Value} (h : Closes H sites c a) :
    Raises Fault.Usual (c.program.play H a).1 := by
  rw [program_eq]
  cases h with
  | @ends answer b h hp =>
      rw [(h Program.ofAnswer).play_eq]
      cases answer with
      | ok v => exact raises_ok v
      | error e => exact raises_error (usual_error e)
  | breaks h hf =>
      rw [h]
      exact raises_error (.inr hf)

/-- A choice or a program of its own closes: what it answers is an answer, or the fault of a
sampler. -/
theorem Closes.of_answer (out : Except Fault α × σ) (hu : Raises Fault.Usual out.1)
    (hstep : ∀ answer, out.1 = Fault.lift answer → ∀ k, H.Step (c k) a (k answer) out.2)
    (hbreak : ∀ fault, out.1 = .error fault → fault.OfDraw →
      ∀ k, (c k).play H a = (.error fault, out.2))
    (hp : (sites out.2).paths = (sites a).paths) : Closes H sites c a := by
  cases hout : out.1 with
  | ok v => exact .step (hstep (.ok v) hout) hp
  | error fault =>
      rcases hu fault hout with ⟨e, rfl⟩ | hf
      · exact .step (hstep (.error e) hout) hp
      · exact .breaks (hbreak fault hout hf) hf

/-- **A nesting of calls closes every call site that it opens.** -/
theorem Scoped.closes (hc : c.Scoped) : ∀ {σ : Type} {H : Player σ} {sites : σ → CallSites},
    H.Seated sites → ∀ a, Closes H sites c a := by
  induction hc with
  | ofExcept answer =>
      intro σ H sites hH a
      exact .ofAnswer answer
  | @bind α β c f _ _ ihc ihf =>
      intro σ H sites hH a
      refine (ihc hH a).andThen (fun answer => Computation.ofExcept answer >>= f)
        fun answer b => ?_
      cases answer with
      | ok v => exact ihf v hH b
      | error e => exact .ofAnswer (.error e)
  | @tryCatch α c handler _ _ ihc ihh =>
      intro σ H sites hH a
      refine (ihc hH a).andThen
        (fun answer => MonadExcept.tryCatch (Computation.ofExcept answer) handler)
        fun answer b => ?_
      cases answer with
      | ok v => exact .ofAnswer (.ok v)
      | error e => exact ihh e hH b
  | call id _ ih =>
      intro σ H sites hH a
      exact .call hH id (ih hH)
  | choice q =>
      intro σ H sites hH a
      refine .of_answer (H.choose q a) (hH.usual q a) (fun answer h k => ?_)
        (fun fault h hf k => ?_) (hH.choose q a)
      · exact .choose (Prod.ext h rfl)
      · have hout : H.choose q a = (.error fault, (H.choose q a).2) := Prod.ext h rfl
        rw [Computation.choice, Program.play, hout]
        rcases fault with e | d | _
        · exact hf.elim
        · rfl
        · rfl
  | factor w =>
      intro σ H sites hH a
      have hs : ∀ k, H.Step (Computation.factor w k) a (k (.ok ())) _ := fun k => .factor
      exact .step hs (congrArg _ (hH.factor w a))
  | condition holds =>
      intro σ H sites hH a
      have hs : ∀ k, H.Step (Computation.condition holds k) a (k (.ok ())) _ := fun k => .condition
      exact .step hs (congrArg _ (hH.condition holds a))
  | isActive =>
      intro σ H sites hH a
      exact .step (fun k => .isActive) rfl
  | depth =>
      intro σ H sites hH a
      exact .step (fun k => .depth) rfl
  | isEnumerating =>
      intro σ H sites hH a
      exact .step (fun k => .isEnumerating) rfl
  | read cell =>
      intro σ H sites hH a
      exact .step (fun k => .read) rfl
  | write cell v =>
      intro σ H sites hH a
      have hs : ∀ k, H.Step (Computation.write cell v k) a (k (.ok ())) _ := fun k => .write
      exact .step hs (congrArg _ (hH.write cell v a))
  | @nested fixed inner _ ih =>
      intro σ H sites hH a
      -- the program of its own is run by a pass, whoever runs the one that it is part of
      have hinner : ∀ p, Raises Fault.Usual (inner.program.run p).1 := fun p => by
        rw [Program.run_eq_play]
        exact (ih Pass.seated_player p).usual_play
      refine .of_answer (H.nested fixed inner.program a) (hH.usual_nested fixed hinner a)
        (fun answer h k => ?_) (fun fault h hf k => ?_) (congrArg _ (hH.nested fixed _ a))
      · exact .nested (Prod.ext h rfl)
      · have hout : H.nested fixed inner.program a =
            (.error fault, (H.nested fixed inner.program a).2) := Prod.ext h rfl
        rw [Computation.nested, Program.play, hout]
        rcases fault with e | d | _
        · exact hf.elim
        · rfl
        · rfl

/-- What is true of every run of a part of a program, however the whole goes on. -/
structure Unwinds (H : Player σ) (sites : σ → CallSites) (c : Computation α) (a : σ) : Prop where
  /-- The call sites that are open at the end are those that were open at the beginning. -/
  closes  : Closes H sites c a
  /-- Between any two moments of the run no count goes down. -/
  grows   : ∀ {k p b p' b'}, H.Steps (c k) a p b → H.Steps p b p' b' → (sites b).Grows (sites b')
  /-- No call site is left wrongly, unless one is after the part has ended. -/
  asserts : ∀ k, (∀ answer b, Raises Fault.Balanced ((k answer).play H b).1) →
    Raises Fault.Balanced ((c k).play H a).1

theorem Scoped.unwinds_seated (hc : c.Scoped) (hH : H.Seated sites) (a : σ) :
    c.Unwinds H sites a where
  closes := hc.closes hH a
  grows _ h := hH.grows h
  asserts k hk := by
    cases hc.closes hH a with
    | @ends answer b h hp =>
        rw [(h k).play_eq]
        exact hk answer b
    | breaks h hf =>
        rw [h k]
        exact raises_error (Fault.Usual.balanced (.inr hf))

/-- **Call sites that are opened by calls always unwind.**  Let a part of a program open call sites
by `Computation.call` only, under any names and nested to any depth; a call is such a part if its
body is one.  Wherever it is run, by any pass, which may be enumerating, or without a trace:

* if it ends, with a value or with an error, then the call sites that are open are those that were
  open before it, and only a sampler can keep it from ending;
* between any two moments of the run no count goes down;
* it never leaves a call site that the current path does not end with. -/
theorem Scoped.unwinds (hc : c.Scoped) :
    (∀ p : Pass, c.Unwinds Pass.player Pass.sites p) ∧
      ∀ d : Detached, c.Unwinds Detached.player Detached.sites d :=
  ⟨hc.unwinds_seated Pass.seated_player, hc.unwinds_seated Detached.seated_player⟩

/-- Fails inside two call sites, catches the failure outside both of them, and draws inside a site
whose name looks like the end of an address. -/
def caughtOutside : Computation Value :=
  tryCatch
    (call "" do
      condition true
      call "a:b" (throw (.failure "inside")))
    fun _ => call ":0" (sample .flip [0.5])

theorem scoped_caughtOutside : caughtOutside.Scoped :=
  .tryCatch (.call "" (.bind (.condition true) fun _ => .call "a:b" (.ofExcept _)))
    fun _ => .call ":0" (.choice _)

/-- In a pass that may have one call site open, the inner one is refused; the error is caught, the
draw is made at its path, and nothing is open in the end. -/
theorem unwinds_caughtOutside :
    let t := Trace.unstarted 0 caughtOutside.program { maxDepth := 1 } (.ofSeed 0)
    let p := t.opening false { enumerating := true }
    caughtOutside.Scoped ∧ caughtOutside.Unwinds Pass.player Pass.sites p ∧
      (caughtOutside.program.run p).1 = .ok (.bool false) ∧
      (caughtOutside.program.run p).2.sites.paths = [] ∧
      (caughtOutside.program.run p).2.trace.addresses = [.atSite "::0" 0] ∧
      caughtOutside.Unwinds Detached.player Detached.sites ⟨.ofSeed 0, .empty, {}⟩ := by
  intro t p
  obtain ⟨hpass, hdetached⟩ := scoped_caughtOutside.unwinds
  exact ⟨scoped_caughtOutside, hpass p, by decide +kernel, by decide +kernel, by decide +kernel,
    hdetached _⟩

end Computation

end ProbTrace
