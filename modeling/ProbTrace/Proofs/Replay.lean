import Mathlib.Data.List.Nodup
import ProbTrace.Proofs.Passing

/-!
# Proofs — Replay: a pass read naively

`Replay` is what a naive reader of a program writes down while it runs: the choices that were made
and the factors, in order, and beside them the stored records that could not be rescored.  All it
knows of the trace is which record was stored at which address before the pass.  There are no
slots, no order and no marks, nothing is overwritten and nothing accumulates: the joint
log-probability, the created records and the rest are read off the list afterwards.

`Replay.Faithful` ties what is written down to the stored records: each choice has an address of its
own, a record is reused where a stored one serves the request and created where none does.  Every
answer of the reader keeps it (`keeps_faithful`), so it holds of the replay of every program
(`WellFormed.faithful_replayed`).
-/

namespace ProbTrace

/-- Something that counts towards the joint log-probability of a pass. -/
inductive Entry where
  /-- A choice was made: what was asked for, the record that serves it, and whether it is new. -/
  | made (request : Request) (record : Record) (created : Bool)
  /-- A factor. -/
  | factor (weight : Float)

namespace Entry

/-- What the entry adds to the joint log-probability. -/
def weight : Entry → Float
  | .made _ r _ => r.logDensity
  | .factor w   => w

/-- The record of a choice. -/
def record? : Entry → Option Record
  | .made _ r _ => some r
  | .factor _   => none

/-- The record of a choice, if it is new. -/
def created? : Entry → Option Record
  | .made _ r true  => some r
  | .made _ _ false => none
  | .factor _       => none

/-- The record of a choice, if it was stored before. -/
def reused? : Entry → Option Record
  | .made _ _ true  => none
  | .made _ r false => some r
  | .factor _       => none

end Entry

/-- What a naive reader of a program has written down. -/
structure Replay where
  generator : Generator
  session   : Session
  sites     : CallSites := .empty
  /-- The choices and the factors so far. -/
  entries   : List Entry := []
  /-- The stored records that could not be rescored, as the failed choices left them. -/
  refused   : List Record := []
  satisfied : Bool := true

namespace Replay

/-- The records of the choices that succeeded. -/
def records (ρ : Replay) : List Record := ρ.entries.filterMap Entry.record?

/-- The records that were created. -/
def created (ρ : Replay) : List Record := ρ.entries.filterMap Entry.created?

/-- The records that were reused. -/
def reused (ρ : Replay) : List Record := ρ.entries.filterMap Entry.reused?

/-- The sum of the log-densities and the factors, from the left, from zero. -/
def joint (ρ : Replay) : Float := ρ.entries.foldl (fun sum e => sum + e.weight) 0.0

/-- The sum of the log-densities of the created records. -/
def added (ρ : Replay) : Float := Record.sumOnto 0.0 ρ.created

/-- Whether a stored record was reused. -/
def reuses (ρ : Replay) (r : Record) : Bool := ρ.reused.any fun s => s.address == r.address

/-- What became of a stored record that was not reused: a choice that failed to rescore it has
left its traces on it. -/
def left (ρ : Replay) (r : Record) : Record :=
  (ρ.refused.find? fun s => s.address == r.address).getD r

/-- Writes down an entry. -/
def note (ρ : Replay) (e : Entry) : Replay := { ρ with entries := ρ.entries ++ [e] }

/-- Whether as many choices were made as the budget allows. -/
def spent (limits : Limits) (ρ : Replay) : Bool :=
  ρ.session.enumerating && limits.maxChoices ≤ ρ.records.length

/-- Serves a request by the record stored at an address. -/
def reuse (r : Record) (q : Request) (ρ : Replay) : Except Fault Value × Replay :=
  match r.refreshed q with
  | (.ok (), r)   => (.ok r.value, ρ.note (.made q r false))
  | (.error e, r) => (.error (.error e), { ρ with refused := ρ.refused ++ [r] })

/-- Serves a request by a new record. -/
def create (x : Address) (q : Request) (ρ : Replay) : Except Fault Value × Replay :=
  match Trace.newValue q ρ.session.enumerating ρ.generator with
  | .error fault       => (.error fault, ρ)
  | .ok (v, generator) =>
    match q.family.logDensity v q.params with
    | .error e => (.error (.error e), { ρ with generator })
    | .ok lp   => (.ok v, { ρ with generator }.note (.made q (.ofRequest x q v lp) true))

/-- Makes a choice: by the record stored at its address, if there is one of the same family and
class, and else by a new one. -/
def choose (limits : Limits) (stored : Address → Option Record) (q : Request) (ρ : Replay) :
    Except Fault Value × Replay :=
  if ρ.spent limits then (.error (.error (.divergent ρ.sites.depth ρ.records.length)), ρ)
  else
    let (site, sites) := ρ.sites.claim
    match (stored site.address).filter fun r => r.fits q.family q.structural with
    | some r => reuse r q { ρ with sites }
    | none   => create site.address q { ρ with sites }

/-- Enters a call site. -/
def enter (limits : Limits) (id : String) (ρ : Replay) : Except Error Unit × Replay :=
  if ρ.session.enumerating && limits.maxDepth ≤ ρ.sites.depth then
    (.error (.divergent ρ.sites.depth ρ.records.length), ρ)
  else (.ok (), { ρ with sites := ρ.sites.enter id })

/-- The answers of the naive reader.  Passes do not nest, so a nested one only uses up an id. -/
def player (limits : Limits) (stored : Address → Option Record) : Player Replay where
  choose := choose limits stored
  enter := enter limits
  leave id ρ :=
    match ρ.sites.leave? id with
    | some sites => .ok { ρ with sites }
    | none       => .error (.defect (.siteMismatch ρ.sites.path id))
  factor w ρ := ρ.note (.factor w)
  condition b ρ := { ρ with satisfied := ρ.satisfied && b }
  isActive _ := true
  depth ρ := ρ.sites.depth
  isEnumerating ρ := ρ.session.enumerating
  read cell ρ := ρ.session.readCell cell
  write cell v ρ := { ρ with session := ρ.session.writeCell cell v }
  nested _ _ ρ := (.error (.error .reentrant), { ρ with session := ρ.session.freshId.2 })

end Replay

/-- The program of a trace, read naively over the records that the trace holds. -/
def Trace.replayed (t : Trace) (s : Session) : Except Fault Value × Replay :=
  t.program.play (Replay.player t.limits t.record?) { generator := t.generator, session := s.quiet }

/-! ### What an entry changes -/

namespace Replay

variable (ρ : Replay) (e : Entry) (r : Record)

theorem filterMap_append_singleton {α β : Type} (f : α → Option β) (l : List α) (a : α) :
    (l ++ [a]).filterMap f = l.filterMap f ++ (f a).toList := by
  cases h : f a <;> simp [h]

variable {ρ e} in
theorem mem_entries_note {e' : Entry} : e' ∈ (ρ.note e).entries ↔ e' ∈ ρ.entries ∨ e' = e := by
  simp [note]

theorem records_note : (ρ.note e).records = ρ.records ++ e.record?.toList :=
  filterMap_append_singleton _ _ _

theorem created_note : (ρ.note e).created = ρ.created ++ e.created?.toList :=
  filterMap_append_singleton _ _ _

theorem reused_note : (ρ.note e).reused = ρ.reused ++ e.reused?.toList :=
  filterMap_append_singleton _ _ _

theorem joint_note : (ρ.note e).joint = ρ.joint + e.weight := by
  simp [joint, note]

theorem added_note : (ρ.note e).added = Record.sumOnto ρ.added e.created?.toList := by
  rw [added, created_note, Record.sumOnto, List.foldl_append]
  rfl

theorem reuses_iff : ρ.reuses r = true ↔ ∃ s ∈ ρ.reused, s.address = r.address := by
  simp [reuses]

theorem reuses_note_created (q : Request) (s : Record) :
    (ρ.note (.made q s true)).reuses r = ρ.reuses r := by
  rw [reuses, reused_note]
  exact congrArg (fun rs : List Record => rs.any _) (List.append_nil _)

theorem reuses_note_factor (w : Float) : (ρ.note (.factor w)).reuses r = ρ.reuses r := by
  rw [reuses, reused_note]
  exact congrArg (fun rs : List Record => rs.any _) (List.append_nil _)

theorem records_note_factor (w : Float) : (ρ.note (.factor w)).records = ρ.records := by
  rw [records_note]
  exact List.append_nil _

theorem reused_subset {s : Record} (h : s ∈ ρ.reused) : s ∈ ρ.records := by
  obtain ⟨e, he, hs⟩ := List.mem_filterMap.mp h
  refine List.mem_filterMap.mpr ⟨e, he, ?_⟩
  cases e with
  | factor w => cases hs
  | made q r created =>
      cases created with
      | true => cases hs
      | false => exact hs

theorem created_subset {s : Record} (h : s ∈ ρ.created) : s ∈ ρ.records := by
  obtain ⟨e, he, hs⟩ := List.mem_filterMap.mp h
  refine List.mem_filterMap.mpr ⟨e, he, ?_⟩
  cases e with
  | factor w => cases hs
  | made q r created =>
      cases created with
      | true => exact hs
      | false => cases hs

/-- A record that no choice failed to rescore is left as it was. -/
theorem left_of_not_refused (h : ∀ s ∈ ρ.refused, s.address ≠ r.address) : ρ.left r = r := by
  have hf : ρ.refused.find? (fun s => s.address == r.address) = none :=
    List.find?_eq_none.mpr fun s hs => by simpa using h s hs
  rw [left, hf, Option.getD_none]

variable {r₀ : Record}

/-- A record that a choice fails to rescore is left as that choice leaves it. -/
theorem left_refused_of_eq {r : Record} (hn : ∀ s ∈ ρ.refused, s.address ≠ r.address)
    (hx : r.address = r₀.address) : left { ρ with refused := ρ.refused ++ [r] } r₀ = r := by
  have hf : ρ.refused.find? (fun s => s.address == r₀.address) = none :=
    List.find?_eq_none.mpr fun s hs => by simpa [← hx] using hn s hs
  simp [left, List.find?_append, hf, hx]

theorem left_refused_of_ne {r : Record} (hx : r.address ≠ r₀.address) :
    left { ρ with refused := ρ.refused ++ [r] } r₀ = ρ.left r₀ := by
  simp [left, List.find?_append, hx]

/-- A stored record is left as it was, or as a choice that failed to rescore it has left it. -/
theorem left_cases : (∀ s ∈ ρ.refused, s.address ≠ r.address) ∧ ρ.left r = r ∨
    ρ.left r ∈ ρ.refused ∧ (ρ.left r).address = r.address := by
  cases hf : ρ.refused.find? fun s => s.address == r.address with
  | none =>
      refine .inl ⟨fun s hs => ?_, by rw [left, hf, Option.getD_none]⟩
      simpa using List.find?_eq_none.mp hf s hs
  | some s =>
      have hs : ρ.left r = s := by rw [left, hf, Option.getD_some]
      rw [hs]
      exact .inr ⟨List.mem_of_find?_eq_some hf, by simpa using List.find?_some hf⟩

/-! ### What a choice comes to -/

section Choosing

variable {limits : Limits} {stored : Address → Option Record} {q : Request} {ρ : Replay}
  {r₀ : Record}

/-- In an enumerating pass the budget is a matter of the choices behind the reader. -/
theorem spent_iff (he : ρ.session.enumerating = true) :
    ρ.spent limits = true ↔ limits.maxChoices ≤ ρ.records.length := by
  rw [spent, he, Bool.true_and, decide_eq_true_iff]

theorem not_spent_iff (he : ρ.session.enumerating = true) :
    ρ.spent limits = false ↔ ρ.records.length < limits.maxChoices := by
  rw [spent, he, Bool.true_and, decide_eq_false_iff_not, Nat.not_le]

theorem choose_of_spent (h : ρ.spent limits = true) : ρ.choose limits stored q =
    (.error (.error (.divergent ρ.sites.depth ρ.records.length)), ρ) := if_pos h

/-- Where a record is stored that fits, it serves the request. -/
theorem choose_of_stored (h : ρ.spent limits = false)
    (hs : stored ρ.sites.claim.1.address = some r₀) (hfit : r₀.fits q.family q.structural = true) :
    ρ.choose limits stored q = reuse r₀ q { ρ with sites := ρ.sites.claim.2 } := by
  have hf : (stored ρ.sites.claim.1.address).filter (fun r => r.fits q.family q.structural) =
      some r₀ := Option.filter_eq_some_iff.mpr ⟨hs, hfit⟩
  rw [choose, if_neg (by rw [h]; exact Bool.false_ne_true)]
  simp only [hf]

/-- Where none is stored that fits, one is created. -/
theorem choose_of_absent (h : ρ.spent limits = false)
    (hn : ∀ r₀, stored ρ.sites.claim.1.address = some r₀ →
      r₀.fits q.family q.structural = false) : ρ.choose limits stored q =
    create ρ.sites.claim.1.address q { ρ with sites := ρ.sites.claim.2 } := by
  have hf : (stored ρ.sites.claim.1.address).filter (fun r => r.fits q.family q.structural) =
      none := Option.filter_eq_none_iff.mpr fun r hr => by rw [hn r hr]; exact Bool.false_ne_true
  rw [choose, if_neg (by rw [h]; exact Bool.false_ne_true)]
  simp only [hf]

/-- The ways in which a choice of the naive reader can end. -/
inductive Chooses (limits : Limits) (stored : Address → Option Record) (q : Request)
    (ρ : Replay) : Except Fault Value × Replay → Prop where
  | spent (h : ρ.spent limits = true) : Chooses limits stored q ρ
      (.error (.error (.divergent ρ.sites.depth ρ.records.length)), ρ)
  | reused {r₀ r : Record} (h : ρ.spent limits = false)
      (hs : stored ρ.sites.claim.1.address = some r₀)
      (hfit : r₀.fits q.family q.structural = true) (hr : r₀.refreshed q = (.ok (), r)) :
      Chooses limits stored q ρ
        (.ok r.value, { ρ with sites := ρ.sites.claim.2 }.note (.made q r false))
  | refused {r₀ r : Record} {e : Error} (h : ρ.spent limits = false)
      (hs : stored ρ.sites.claim.1.address = some r₀)
      (hfit : r₀.fits q.family q.structural = true) (hr : r₀.refreshed q = (.error e, r)) :
      Chooses limits stored q ρ (.error (.error e),
        { ρ with sites := ρ.sites.claim.2, refused := ρ.refused ++ [r] })
  | undrawn {fault : Fault} (h : ρ.spent limits = false)
      (hn : ∀ r₀, stored ρ.sites.claim.1.address = some r₀ →
        r₀.fits q.family q.structural = false)
      (hv : Trace.newValue q ρ.session.enumerating ρ.generator = .error fault) :
      Chooses limits stored q ρ (.error fault, { ρ with sites := ρ.sites.claim.2 })
  | unscored {v : Value} {g : Generator} {e : Error} (h : ρ.spent limits = false)
      (hn : ∀ r₀, stored ρ.sites.claim.1.address = some r₀ →
        r₀.fits q.family q.structural = false)
      (hv : Trace.newValue q ρ.session.enumerating ρ.generator = .ok (v, g))
      (he : q.family.logDensity v q.params = .error e) :
      Chooses limits stored q ρ
        (.error (.error e), { ρ with sites := ρ.sites.claim.2, generator := g })
  | created {v : Value} {g : Generator} {lp : Float} (h : ρ.spent limits = false)
      (hn : ∀ r₀, stored ρ.sites.claim.1.address = some r₀ →
        r₀.fits q.family q.structural = false)
      (hv : Trace.newValue q ρ.session.enumerating ρ.generator = .ok (v, g))
      (hlp : q.family.logDensity v q.params = .ok lp) :
      Chooses limits stored q ρ (.ok v,
        { ρ with sites := ρ.sites.claim.2, generator := g }.note
          (.made q (.ofRequest ρ.sites.claim.1.address q v lp) true))

theorem create_eq_of_newValue {x : Address} {v : Value} {g : Generator}
    (hv : Trace.newValue q ρ.session.enumerating ρ.generator = .ok (v, g)) :
    create x q ρ = match q.family.logDensity v q.params with
      | .error e => (.error (.error e), { ρ with generator := g })
      | .ok lp   => (.ok v, { ρ with generator := g }.note
          (.made q (.ofRequest x q v lp) true)) := by
  rw [create, hv]

theorem create_eq_of_fault {x : Address} {fault : Fault}
    (hv : Trace.newValue q ρ.session.enumerating ρ.generator = .error fault) :
    create x q ρ = (.error fault, ρ) := by
  rw [create, hv]

theorem chooses (limits : Limits) (stored : Address → Option Record) (q : Request) (ρ : Replay) :
    Chooses limits stored q ρ (ρ.choose limits stored q) := by
  cases hb : ρ.spent limits with
  | true =>
      rw [choose_of_spent hb]
      exact .spent hb
  | false =>
      cases hf : (stored ρ.sites.claim.1.address).filter
          fun r => r.fits q.family q.structural with
      | some r₀ =>
          obtain ⟨hs, hfit⟩ := Option.filter_eq_some_iff.mp hf
          rw [choose_of_stored hb hs hfit, reuse]
          rcases hr : r₀.refreshed q with ⟨e | _, r⟩
          · exact .refused hb hs hfit hr
          · exact .reused hb hs hfit hr
      | none =>
          have hn : ∀ r₀, stored ρ.sites.claim.1.address = some r₀ →
              r₀.fits q.family q.structural = false := fun r₀ hs =>
            Bool.eq_false_iff.mpr (Option.filter_eq_none_iff.mp hf r₀ hs)
          rw [choose_of_absent hb hn]
          cases hv : Trace.newValue q ρ.session.enumerating ρ.generator with
          | error fault =>
              rw [create_eq_of_fault (ρ := { ρ with sites := ρ.sites.claim.2 }) hv]
              exact .undrawn hb hn hv
          | ok out =>
              obtain ⟨v, g⟩ := out
              rw [create_eq_of_newValue (ρ := { ρ with sites := ρ.sites.claim.2 }) hv]
              cases hlp : q.family.logDensity v q.params with
              | error e => exact .unscored hb hn hv hlp
              | ok lp => exact .created hb hn hv hlp

end Choosing

/-! ### What call sites come to -/

section CallSites

variable {limits : Limits} {stored : Address → Option Record} {ρ ρ' : Replay} {id : String}

/-- In an enumerating pass no call site is entered below the greatest depth. -/
theorem enter_of_deep (he : ρ.session.enumerating = true) (hd : limits.maxDepth ≤ ρ.sites.depth) :
    (player limits stored).enter id ρ =
      (.error (.divergent ρ.sites.depth ρ.records.length), ρ) :=
  if_pos (by rw [he, Bool.true_and, decide_eq_true_iff]; exact hd)

theorem enter_of_shallow (hd : ρ.session.enumerating = true → ρ.sites.depth < limits.maxDepth) :
    (player limits stored).enter id ρ = (.ok (), { ρ with sites := ρ.sites.enter id }) := by
  refine if_neg fun h => ?_
  rw [Bool.and_eq_true, decide_eq_true_iff] at h
  exact absurd (hd h.1) (Nat.not_lt.mpr h.2)

/-- Whether a call site is entered or not, nothing but the call sites changes, and no address is
claimed. -/
theorem enter_state (limits : Limits) (id : String) (ρ : Replay) :
    ∃ c, (ρ.enter limits id).2 = { ρ with sites := c } ∧
      ∀ y, ρ.sites.Claimed y → c.Claimed y := by
  rw [enter]
  split
  · exact ⟨ρ.sites, rfl, fun _ h => h⟩
  · exact ⟨ρ.sites.enter id, rfl, fun y => (ρ.sites.claimed_enter_iff id y).mpr⟩

theorem deep_or_shallow (limits : Limits) (ρ : Replay) :
    ρ.session.enumerating = true ∧ limits.maxDepth ≤ ρ.sites.depth ∨
      (ρ.session.enumerating = true → ρ.sites.depth < limits.maxDepth) := by
  by_cases hd : limits.maxDepth ≤ ρ.sites.depth
  · cases he : ρ.session.enumerating with
    | true => exact .inl ⟨rfl, hd⟩
    | false => exact .inr nofun
  · exact .inr fun _ => Nat.not_le.mp hd

theorem step_deep {next : Except Error Unit → Program} (he : ρ.session.enumerating = true)
    (hd : limits.maxDepth ≤ ρ.sites.depth) : (player limits stored).Step (.enter id next) ρ
      (next (.error (.divergent ρ.sites.depth ρ.records.length))) ρ := by
  have hs : (player limits stored).Step (.enter id next) ρ _ _ := .enter
  rwa [enter_of_deep he hd] at hs

theorem step_enter {next : Except Error Unit → Program}
    (hd : ρ.session.enumerating = true → ρ.sites.depth < limits.maxDepth) :
    (player limits stored).Step (.enter id next) ρ (next (.ok ()))
      { ρ with sites := ρ.sites.enter id } := by
  have hs : (player limits stored).Step (.enter id next) ρ _ _ := .enter
  rwa [enter_of_shallow hd] at hs

/-- A call site is left exactly if it was the last one to be entered. -/
theorem leave_eq_ok_iff : (player limits stored).leave id ρ = .ok ρ' ↔
    ∃ c, ρ.sites.leave? id = some c ∧ ρ' = { ρ with sites := c } := by
  simp only [player]
  cases ρ.sites.leave? id with
  | none => exact ⟨nofun, nofun⟩
  | some c => exact ⟨fun h => by cases h; exact ⟨c, rfl, rfl⟩, by rintro ⟨_, ⟨⟩, rfl⟩; rfl⟩

/-- A call site that cannot be left is a defect of the program. -/
theorem leave_of_mismatch (h : ρ.sites.leave? id = none) :
    (player limits stored).leave id ρ = .error (.defect (.siteMismatch ρ.sites.path id)) := by
  simp only [player, h]

theorem step_leave {next : Unit → Program} {c : CallSites} (h : ρ.sites.leave? id = some c) :
    (player limits stored).Step (.leave id next) ρ (next ()) { ρ with sites := c } :=
  .leave (leave_eq_ok_iff.mpr ⟨c, h, rfl⟩)

end CallSites

/-! ### What a replay is true to -/

/-- The addresses of the choices that succeeded, and of the stored records that were refused. -/
def touched (ρ : Replay) : List Address := (ρ.records ++ ρ.refused).map (·.address)

/-- Everything written down comes from a choice over the stored records, each at an address of its
own. -/
structure Faithful (stored : Address → Option Record) (ρ : Replay) : Prop where
  nodup   : ρ.touched.Nodup
  claimed : ∀ x ∈ ρ.touched, ρ.sites.Claimed x
  /-- A reused record was stored, served the request, and has been rescored. -/
  reused  : ∀ {q r}, .made q r false ∈ ρ.entries → ∃ r₀, stored r.address = some r₀ ∧
    r₀.fits q.family q.structural = true ∧ r₀.refreshed q = (.ok (), r)
  /-- A record is created where none was stored that serves the request. -/
  created : ∀ {q r}, .made q r true ∈ ρ.entries →
    (∀ r₀, stored r.address = some r₀ → r₀.fits q.family q.structural = false) ∧
      ∃ v lp, q.family.logDensity v q.params = .ok lp ∧ r = .ofRequest r.address q v lp
  /-- A refused record was stored, served the request, and could not be rescored. -/
  refused : ∀ s ∈ ρ.refused, ∃ r₀ q e, stored s.address = some r₀ ∧
    r₀.fits q.family q.structural = true ∧ r₀.refreshed q = (.error e, s)

/-- No choice was made at the address of a refused record. -/
theorem address_ne_of_refused {ρ : Replay} (h : ρ.touched.Nodup) {r s : Record}
    (hr : r ∈ ρ.records) (hs : s ∈ ρ.refused) : r.address ≠ s.address := by
  rw [touched, List.map_append] at h
  obtain ⟨-, -, hne⟩ := List.nodup_append.mp h
  exact hne _ (List.mem_map_of_mem hr) _ (List.mem_map_of_mem hs)

/-- A record is refused once at most. -/
theorem left_of_refused {ρ : Replay} (h : ρ.touched.Nodup) {r s : Record} (hs : s ∈ ρ.refused)
    (hx : s.address = r.address) : ρ.left r = s := by
  rw [touched, List.map_append] at h
  obtain ⟨-, hn, -⟩ := List.nodup_append.mp h
  rcases left_cases ρ r with ⟨hne, -⟩ | ⟨hl, hlx⟩
  · exact absurd hx (hne s hs)
  · exact List.inj_on_of_nodup_map hn hl hs (hlx.trans hx.symm)

namespace Faithful

variable {ρ : Replay} {stored : Address → Option Record} {c : CallSites} {q : Request} {r : Record}

/-- Addresses may be claimed that nothing is written down for. -/
theorem claim (h : Faithful stored ρ) (hc : ∀ y, ρ.sites.Claimed y → c.Claimed y) :
    Faithful stored { ρ with sites := c } :=
  { h with claimed := fun x hx => hc x (h.claimed x hx) }

theorem touched_note (ρ : Replay) (q : Request) (r : Record) (created : Bool) :
    (ρ.note (.made q r created)).touched.Perm (r.address :: ρ.touched) := by
  rw [touched, records_note, touched, List.append_assoc]
  exact List.perm_middle.map _

theorem nodup_note (h : ρ.touched.Nodup) (hn : r.address ∉ ρ.touched) (created : Bool) :
    (ρ.note (.made q r created)).touched.Nodup :=
  (touched_note ρ q r created).nodup_iff.mpr (List.nodup_cons.mpr ⟨hn, h⟩)

theorem claimed_note (h : ∀ x ∈ ρ.touched, ρ.sites.Claimed x) (hr : ρ.sites.Claimed r.address)
    (created : Bool) (x : Address) (hx : x ∈ (ρ.note (.made q r created)).touched) :
    ρ.sites.Claimed x := by
  rcases List.mem_cons.mp ((touched_note ρ q r created).mem_iff.mp hx) with rfl | hx
  · exact hr
  · exact h x hx

/-- A choice is written down. -/
theorem note (h : Faithful stored ρ) {created : Bool} (hn : r.address ∉ ρ.touched)
    (hr : ρ.sites.Claimed r.address)
    (hold : created = false → ∃ r₀, stored r.address = some r₀ ∧
      r₀.fits q.family q.structural = true ∧ r₀.refreshed q = (.ok (), r))
    (hnew : created = true →
      (∀ r₀, stored r.address = some r₀ → r₀.fits q.family q.structural = false) ∧
        ∃ v lp, q.family.logDensity v q.params = .ok lp ∧ r = .ofRequest r.address q v lp) :
    Faithful stored (ρ.note (.made q r created)) where
  nodup := nodup_note h.nodup hn created
  claimed := claimed_note h.claimed hr created
  reused hs := by
    rcases mem_entries_note.mp hs with hs | hs
    · exact h.reused hs
    · cases hs
      exact hold rfl
  created hs := by
    rcases mem_entries_note.mp hs with hs | hs
    · exact h.created hs
    · cases hs
      exact hnew rfl
  refused := h.refused

/-- A record is written down that could not be rescored. -/
theorem refuse (h : Faithful stored ρ) (hn : r.address ∉ ρ.touched)
    (hr : ρ.sites.Claimed r.address) (hs : ∃ r₀ q e, stored r.address = some r₀ ∧
      r₀.fits q.family q.structural = true ∧ r₀.refreshed q = (.error e, r)) :
    Faithful stored { ρ with refused := ρ.refused ++ [r] } := by
  have ht : touched { ρ with refused := ρ.refused ++ [r] } = ρ.touched ++ [r.address] := by
    simp [touched, records]
  refine { h with nodup := ?_, claimed := fun x hx => ?_, refused := fun s hm => ?_ }
  · rw [ht]
    refine List.nodup_append.mpr ⟨h.nodup, by simp, fun x hx y hy hxy => ?_⟩
    rw [List.mem_singleton] at hy
    exact hn (hy ▸ hxy ▸ hx)
  · rw [ht, List.mem_append, List.mem_singleton] at hx
    rcases hx with hx | rfl
    · exact h.claimed x hx
    · exact hr
  · rcases List.mem_append.mp hm with hm | hm
    · exact h.refused s hm
    · rw [List.mem_singleton.mp hm]
      exact hs

end Faithful

/-- **Every answer of the naive reader keeps the replay faithful.** -/
theorem keeps_faithful (limits : Limits) {stored : Address → Option Record}
    (hst : ∀ {x r}, stored x = some r → r.address = x) :
    (player limits stored).Keeps (Faithful stored) where
  choose {ρ} q h := by
    show Faithful stored (ρ.choose limits stored q).2
    have hc : ∀ y, ρ.sites.Claimed y → ρ.sites.claim.2.Claimed y := fun y hy =>
      (ρ.sites.claimed_claim_iff y).mpr (.inl hy)
    have hx : ρ.sites.claim.2.Claimed ρ.sites.claim.1.address :=
      (ρ.sites.claimed_claim_iff _).mpr (.inr rfl)
    have hn : ρ.sites.claim.1.address ∉ ρ.touched := fun hm =>
      ρ.sites.not_claimed_claim (h.claimed _ hm)
    have hout := chooses limits stored q ρ
    generalize ρ.choose limits stored q = out at hout
    cases hout with
    | spent => exact h
    | @reused r₀ r _ hs hfit hr =>
        have ha := r₀.address_refreshed q
        rw [hr] at ha
        have ha' : r.address = ρ.sites.claim.1.address := ha.trans (hst hs)
        exact (h.claim hc).note (ha' ▸ hn) (ha' ▸ hx) (fun _ => ⟨r₀, ha' ▸ hs, hfit, hr⟩) nofun
    | @refused r₀ r e _ hs hfit hr =>
        have ha := r₀.address_refreshed q
        rw [hr] at ha
        have ha' : r.address = ρ.sites.claim.1.address := ha.trans (hst hs)
        exact (h.claim hc).refuse (ha' ▸ hn) (ha' ▸ hx) ⟨r₀, q, e, ha' ▸ hs, hfit, hr⟩
    | undrawn => exact h.claim hc
    | unscored => exact { h.claim hc with }
    | @created v g lp _ hfit _ hlp =>
        have hg : Faithful stored { ρ with sites := ρ.sites.claim.2, generator := g } :=
          { h.claim hc with }
        exact hg.note hn hx nofun fun _ => ⟨hfit, v, lp, hlp, rfl⟩
  enter {ρ} id h := by
    obtain ⟨c, he, hc⟩ := enter_state limits id ρ
    show Faithful stored (ρ.enter limits id).2
    rw [he]
    exact h.claim hc
  leave {ρ ρ'} id h hl := by
    obtain ⟨c, hc, rfl⟩ := leave_eq_ok_iff.mp hl
    exact h.claim fun y => (CallSites.claimed_leave?_iff hc y).mpr
  factor {ρ} w h := by
    have ht : (ρ.note (.factor w)).touched = ρ.touched := by
      rw [touched, records_note_factor]
      rfl
    refine { h with
      nodup := ht ▸ h.nodup, claimed := fun x hx => h.claimed x (ht ▸ hx)
      reused := fun {q r} hr => ?_, created := fun {q r} hr => ?_ }
    · rcases mem_entries_note.mp hr with hr | hr
      · exact h.reused hr
      · cases hr
    · rcases mem_entries_note.mp hr with hr | hr
      · exact h.created hr
      · cases hr
  condition _ h := { h with }
  write _ _ h := { h with }
  nested _ _ h := { h with }

theorem faithful_start (stored : Address → Option Record) (generator : Generator) (s : Session) :
    Faithful stored { generator, session := s } where
  nodup := List.nodup_nil
  claimed _ hx := by cases hx
  reused hr := by cases hr
  created hr := by cases hr
  refused _ hs := by cases hs

end Replay

namespace Trace.WellFormed

variable {t : Trace}

/-- The record stored at an address bears it. -/
theorem address_record? (h : t.WellFormed) {x : Address} {r : Record} (hr : t.record? x = some r) :
    r.address = x := by
  obtain ⟨i, hi, hr⟩ := Option.bind_eq_some_iff.mp hr
  obtain ⟨r', hr', hx⟩ := h.arena.bears hi
  rw [hr] at hr'
  cases hr'
  exact hx

theorem keeps_faithful (h : t.WellFormed) :
    (Replay.player t.limits t.record?).Keeps (Replay.Faithful t.record?) :=
  Replay.keeps_faithful t.limits h.address_record?

/-- **The replay of a pass is faithful to the records that the trace holds.** -/
theorem faithful_replayed (h : t.WellFormed) (s : Session) :
    (t.replayed s).2.Faithful t.record? :=
  h.keeps_faithful.play t.program (Replay.faithful_start _ _ _)

end Trace.WellFormed

end ProbTrace
