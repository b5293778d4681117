import Mathlib.Data.List.Nodup
import ProbTrace.Proofs.Naming

/-!
# Proofs — Addressing: the addresses that are handed out

A row of acts enters call sites, leaves them, and claims addresses.  `Act.claims` reads such a row
naively: it keeps the names of the open call sites and the paths of the claims so far, and numbers a
claim by how many of them have its path.  The call sites keep whole paths and one counter for each
instead, and hand out the same addresses (`Follows.addresses?`).

Different names may make up the same path, as `"a:b"` and `"a"`, `"b"` do.  The counters go by the
path, so the addresses of a row differ all the same (`Act.nodup_claimsFrom`).  Where no name has a
colon, the path tells the names (`pathOf_inj`), and an address tells its claim
(`Act.addresses_distinct`).
-/

namespace ProbTrace

namespace CallSites

/-- The path of the call sites of these names, the innermost name first. -/
def pathOf : List String → String
  | []        => ""
  | id :: ids => pathOf ids ++ ":" ++ id

/-- The paths of all of them, the innermost first. -/
def pathsOf : List String → List String
  | []        => []
  | id :: ids => pathOf (id :: ids) :: pathsOf ids

/-- The name has no colon. -/
def Plain (id : String) : Prop := ':' ∉ id.toList

theorem toList_pathOf_cons (id : String) (ids : List String) :
    (pathOf (id :: ids)).toList = (pathOf ids).toList ++ ':' :: id.toList := by
  simp [pathOf]

theorem head?_pathsOf (ids : List String) : (pathsOf ids).head?.getD "" = pathOf ids := by
  cases ids with
  | nil => rfl
  | cons id ids => rfl

theorem tail_pathsOf (ids : List String) : (pathsOf ids).tail = pathsOf ids.tail := by
  cases ids with
  | nil => rfl
  | cons id ids => rfl

/-- **A path tells the names that make it up**, if none of them has a colon. -/
theorem pathOf_inj {ids : List String} (h : ∀ id ∈ ids, Plain id) :
    ∀ {ids' : List String}, (∀ id ∈ ids', Plain id) → pathOf ids = pathOf ids' → ids = ids' := by
  induction ids with
  | nil =>
      intro ids' _ hp
      cases ids' with
      | nil => rfl
      | cons id' ids' =>
          have ht := congrArg String.toList hp
          rw [toList_pathOf_cons] at ht
          simp [pathOf] at ht
  | cons id ids ih =>
      intro ids' h' hp
      have ht := congrArg String.toList hp
      rw [toList_pathOf_cons] at ht
      cases ids' with
      | nil => simp [pathOf] at ht
      | cons id' ids' =>
          rw [toList_pathOf_cons] at ht
          obtain ⟨hinit, hlast⟩ := Address.append_colon_inj (h id List.mem_cons_self)
            (h' id' List.mem_cons_self) ht
          rw [String.toList_injective hlast,
            ih (fun i hi => h i (List.mem_cons_of_mem _ hi))
              (fun i hi => h' i (List.mem_cons_of_mem _ hi)) (String.toList_injective hinit)]

end CallSites

open CallSites (pathOf pathsOf)

/-! ### Rows of acts -/

/-- What is done with call sites: one is entered or left, or an address is claimed. -/
inductive Act where
  | enter (id : String)
  | leave (id : String)
  | claim

/-- The claim of an address: the names of the open call sites, the innermost first, and the number
that the claim has at their path. -/
structure Claim where
  names  : List String
  number : Nat

/-- The address of a claim. -/
def Claim.address (k : Claim) : Address := .atSite (pathOf k.names) k.number

namespace Act

/-- The names of the open call sites after an act.  Outside all call sites leaving closes none. -/
def opened : Act → List String → List String
  | .enter id, ids => id :: ids
  | .leave _,  ids => ids.tail
  | .claim,    ids => ids

/-- The claims of a row of acts that begins inside the call sites `ids`, after claims at the paths
`earlier`. -/
def claimsFrom (earlier ids : List String) : List Act → List Claim
  | []             => []
  | .claim :: acts =>
    ⟨ids, earlier.count (pathOf ids)⟩ :: claimsFrom (earlier ++ [pathOf ids]) ids acts
  | a :: acts      => claimsFrom earlier (a.opened ids) acts

/-- The claims of a row of acts, each numbered by the claims before it that have its path. -/
def claims (acts : List Act) : List Claim := claimsFrom [] [] acts

/-- The addresses that the call sites hand out, unless one is left whose name the path does not end
with. -/
def addresses? : List Act → CallSites → Option (List Address)
  | [],                _ => some []
  | .enter id :: acts, c => addresses? acts (c.enter id)
  | .leave id :: acts, c => (c.leave? id).bind (addresses? acts)
  | .claim :: acts,    c => (addresses? acts c.claim.2).map (c.claim.1.address :: ·)

/-- The act enters no call site whose name has a colon. -/
def Plain : Act → Prop
  | .enter id => CallSites.Plain id
  | .leave _  => True
  | .claim    => True

end Act

/-! ### The call sites and the naive reading -/

namespace CallSites

/-- The call sites have come to where the naive reader is: inside the call sites `ids`, after claims
at the paths `earlier`. -/
structure Follows (c : CallSites) (earlier ids : List String) : Prop where
  paths   : c.paths = pathsOf ids
  counted : ∀ path, c.counted path = earlier.count path

theorem follows_empty : Follows .empty [] [] := ⟨rfl, fun _ => rfl⟩

namespace Follows

variable {c c' : CallSites} {earlier ids : List String}

theorem path (h : c.Follows earlier ids) : c.path = pathOf ids := by
  rw [CallSites.path, h.paths, head?_pathsOf]

theorem enter (h : c.Follows earlier ids) (id : String) :
    (c.enter id).Follows earlier (id :: ids) where
  paths := by
    show (c.path ++ ":" ++ id) :: c.paths = pathsOf (id :: ids)
    rw [h.path, h.paths]
    rfl
  counted := h.counted

theorem leave (h : c.Follows earlier ids) {id : String} (hl : c.leave? id = some c') :
    c'.Follows earlier ids.tail := by
  rw [leave?] at hl
  split at hl
  · cases hl
    refine ⟨?_, h.counted⟩
    show c.paths.tail = pathsOf ids.tail
    rw [h.paths, tail_pathsOf]
  · cases hl

theorem claim (h : c.Follows earlier ids) :
    c.claim.1.address = Claim.address ⟨ids, earlier.count (pathOf ids)⟩ ∧
      c.claim.2.Follows (earlier ++ [pathOf ids]) ids := by
  refine ⟨?_, h.paths, ?_⟩
  · show Address.atSite c.path (c.counted c.path) = _
    rw [h.path, h.counted]
    rfl
  · intro path
    rw [counted_claim, h.counted, h.path, List.count_append, List.count_singleton]
    simp only [beq_iff_eq]

/-- **The call sites hand out the addresses of the claims.** -/
theorem addresses? {acts : List Act} :
    ∀ {c : CallSites} {earlier ids : List String} {xs : List Address}, c.Follows earlier ids →
      Act.addresses? acts c = some xs →
      xs = (Act.claimsFrom earlier ids acts).map Claim.address := by
  induction acts with
  | nil =>
      intro c earlier ids xs _ hx
      cases hx
      rfl
  | cons a acts ih =>
      intro c earlier ids xs h hx
      cases a with
      | enter id => exact ih (h.enter id) hx
      | leave id =>
          obtain ⟨c', hl, hx⟩ := Option.bind_eq_some_iff.mp hx
          exact ih (h.leave hl) hx
      | claim =>
          obtain ⟨ys, hy, rfl⟩ := Option.map_eq_some_iff.mp hx
          rw [Act.claimsFrom, List.map_cons, h.claim.1, ih h.claim.2 hy]

end Follows

end CallSites

/-! ### The claims of a row -/

namespace Act

variable {acts : List Act} {earlier ids : List String}

/-- The claims so far are counted by every claim that comes later. -/
theorem count_le_number : ∀ {earlier ids : List String},
    ∀ k ∈ claimsFrom earlier ids acts, earlier.count (pathOf k.names) ≤ k.number := by
  induction acts with
  | nil =>
      intro earlier ids k hk
      cases hk
  | cons a acts ih =>
      intro earlier ids k hk
      cases a with
      | enter id => exact ih k hk
      | leave id => exact ih k hk
      | claim =>
          rcases List.mem_cons.mp hk with rfl | hk
          · exact Nat.le_refl _
          · refine Nat.le_trans ?_ (ih k hk)
            rw [List.count_append]
            exact Nat.le_add_right _ _

/-- **No two claims of a row have the same address**: those at one path have different numbers. -/
theorem nodup_claimsFrom : ∀ {earlier ids : List String},
    ((claimsFrom earlier ids acts).map Claim.address).Nodup := by
  induction acts with
  | nil => exact List.nodup_nil
  | cons a acts ih =>
      intro earlier ids
      cases a with
      | enter id => exact ih
      | leave id => exact ih
      | claim =>
          refine List.nodup_cons.mpr ⟨?_, ih⟩
          intro hmem
          obtain ⟨k, hk, he⟩ := List.mem_map.mp hmem
          obtain ⟨hpath, hnumber⟩ := Address.atSite_inj.mp he
          have hle := count_le_number k hk
          rw [hpath, List.count_append, List.count_singleton_self, hnumber] at hle
          exact Nat.not_succ_le_self _ hle

/-- If the acts enter call sites without colons only, the claims are made inside such call sites. -/
theorem plain_of_mem_claimsFrom (hacts : ∀ a ∈ acts, a.Plain) : ∀ {earlier ids : List String},
    (∀ id ∈ ids, CallSites.Plain id) →
      ∀ k ∈ claimsFrom earlier ids acts, ∀ id ∈ k.names, CallSites.Plain id := by
  induction acts with
  | nil =>
      intro earlier ids _ k hk
      cases hk
  | cons a acts ih =>
      have hrest : ∀ b ∈ acts, b.Plain := fun b hb => hacts b (List.mem_cons_of_mem _ hb)
      intro earlier ids hids k hk
      cases a with
      | enter id =>
          refine ih hrest (fun i hi => ?_) k hk
          rcases List.mem_cons.mp hi with rfl | hi
          · exact hacts (.enter i) List.mem_cons_self
          · exact hids i hi
      | leave id => exact ih hrest (fun i hi => hids i (List.mem_of_mem_tail hi)) k hk
      | claim =>
          rcases List.mem_cons.mp hk with rfl | hk
          · exact hids
          · exact ih hrest hids k hk

/-- An address tells its claim, if no name has a colon. -/
theorem claim_eq_of_address {acts acts' : List Act} (h : ∀ a ∈ acts, a.Plain)
    (h' : ∀ a ∈ acts', a.Plain) {k k' : Claim} (hk : k ∈ claims acts) (hk' : k' ∈ claims acts')
    (he : k.address = k'.address) : k = k' := by
  obtain ⟨hpath, hnumber⟩ := Address.atSite_inj.mp he
  have hnames := CallSites.pathOf_inj (plain_of_mem_claimsFrom h (fun _ hid => by cases hid) k hk)
    (plain_of_mem_claimsFrom h' (fun _ hid => by cases hid) k' hk') hpath
  cases k
  cases k'
  congr

/-- **Every claim of a row has an address of its own.**  If no call site is left that is not there,
the address handed out at each claim is the path of the open call sites with the number of the
claims made before at an equal path, and the texts of all of them differ.  If no name has a colon,
equal addresses, of the same row or of different ones, come from claims inside the same call sites
and with the same number. -/
theorem addresses_distinct {acts : List Act} {xs : List Address}
    (h : addresses? acts .empty = some xs) :
    xs = (claims acts).map Claim.address ∧ (xs.map Address.text).Nodup ∧
      ∀ acts' : List Act, (∀ a ∈ acts, a.Plain) → (∀ a ∈ acts', a.Plain) →
        ∀ k ∈ claims acts, ∀ k' ∈ claims acts', k.address = k'.address → k = k' := by
  have hxs := CallSites.follows_empty.addresses? h
  refine ⟨hxs, ?_, ?_⟩
  · have htext : Function.Injective Address.text := by
      rintro ⟨_⟩ ⟨_⟩ rfl
      rfl
    rw [hxs]
    exact nodup_claimsFrom.map htext
  · intro acts' hp hp' k hk k' hk' he
    exact claim_eq_of_address hp hp' hk hk' he

/-- Names that look like numbers, and one path made up in two ways. -/
def twoWays : List Act :=
  [.enter "0", .claim, .leave "0", .claim, .enter "0:1", .claim, .leave "", .enter "0", .enter "1",
    .claim, .leave "1", .claim, .leave "0", .leave "", .claim]

/-- The same call site entered twice. -/
def enteredTwice : List Act :=
  [.enter "0", .claim, .leave "0", .enter "0", .enter "", .leave "", .claim]

theorem addresses_distinct_twoWays :
    ∃ xs ys, addresses? twoWays .empty = some xs ∧ addresses? enteredTwice .empty = some ys ∧
      xs.map Address.text = [":0:0", ":0", ":0:1:0", ":0:1:1", ":0:1", ":1"] ∧
      (xs.map Address.text).Nodup ∧
      ys.map Address.text = [":0:0", ":0:1"] ∧
      ∀ k ∈ claims enteredTwice, ∀ k' ∈ claims [.enter "0", .claim], k.address = k'.address →
        k = k' := by
  have hx : (addresses? twoWays .empty).map (List.map Address.text) =
      some [":0:0", ":0", ":0:1:0", ":0:1:1", ":0:1", ":1"] := by
    decide +kernel
  have hy : (addresses? enteredTwice .empty).map (List.map Address.text) =
      some [":0:0", ":0:1"] := by
    decide +kernel
  obtain ⟨xs, hxs, hx⟩ := Option.map_eq_some_iff.mp hx
  obtain ⟨ys, hys, hy⟩ := Option.map_eq_some_iff.mp hy
  have hplain : ∀ a ∈ enteredTwice, a.Plain := by
    simp [enteredTwice, Plain, CallSites.Plain]
  have hplain' : ∀ a ∈ [Act.enter "0", .claim], a.Plain := by
    simp [Plain, CallSites.Plain]
  obtain ⟨-, hdistinct, -⟩ := addresses_distinct hxs
  obtain ⟨-, -, htell⟩ := addresses_distinct hys
  exact ⟨xs, ys, hxs, hys, hx, hdistinct, hy, htell _ hplain hplain'⟩

end Act

end ProbTrace
