import ProbTrace.Record

/-!
# Arena — where a trace keeps its records

Records live in numbered slots; an emptied slot is used again before a new one is made, the one
emptied last first.  An index finds the slot of an address.  In the middle of a pass two records
may have the same address: a new one takes the address over, and the old one stays in its slot,
found by no address, until the pass ends.
-/

namespace ProbTrace

/-- Records in numbered slots. -/
structure Arena where
  slots : Array (Option Record) := #[]
  /-- The empty slots, the one emptied last first. -/
  free  : List Nat := []
  /-- The slot that an address stands for. -/
  index : Std.TreeMap Address Nat := {}

namespace Arena

/-- The record in slot `i`. -/
def record? (a : Arena) (i : Nat) : Option Record := a.slots[i]?.join

/-- The slot of an address. -/
def slotOf? (a : Arena) (address : Address) : Option Nat := a.index[address]?

/-- The record at an address. -/
def lookup? (a : Arena) (address : Address) : Option Record :=
  (a.slotOf? address).bind a.record?

/-- Whether the arena has a record at the address. -/
def contains (a : Arena) (address : Address) : Bool := a.index.contains address

/-- The number of addresses. -/
def size (a : Arena) : Nat := a.index.size

/-- Whether slot `i` is the one that its record's address stands for. -/
def owns (a : Arena) (i : Nat) (r : Record) : Bool := a.slotOf? r.address == some i

/-- Overwrites the record in slot `i`. -/
def put (a : Arena) (i : Nat) (r : Record) : Arena :=
  { a with slots := a.slots.setIfInBounds i (some r) }

/-- Stores a new record under its address, and tells its slot. -/
def insert (a : Arena) (r : Record) : Nat × Arena :=
  match a with
  | ⟨slots, [], index⟩ =>
    (slots.size, ⟨slots.push (some r), [], index.insert r.address slots.size⟩)
  | ⟨slots, i :: free, index⟩ =>
    (i, ⟨slots.setIfInBounds i (some r), free, index.insert r.address i⟩)

/-- Empties slot `i`, which holds `r`.  Its address is forgotten, unless another record has taken
it over. -/
def remove (a : Arena) (i : Nat) (r : Record) : Arena where
  slots := a.slots.setIfInBounds i none
  free  := i :: a.free
  index := if a.owns i r then a.index.erase r.address else a.index

/-- Marks every record as not reached. -/
def deactivate (a : Arena) : Arena :=
  { a with slots := a.slots.map (Option.map fun r => { r with active := false }) }

/-! ### What each operation does to the slots and to the index -/

theorem record?_put (a : Arena) (i j : Nat) (r : Record) :
    (a.put i r).record? j = if i = j ∧ i < a.slots.size then some r else a.record? j := by
  unfold put record?
  rw [Array.getElem?_setIfInBounds]
  by_cases hij : i = j
  · subst hij
    by_cases hi : i < a.slots.size <;> simp [hi]
  · simp [hij]

theorem slotOf?_put (a : Arena) (i : Nat) (r : Record) (x : Address) :
    (a.put i r).slotOf? x = a.slotOf? x := rfl

theorem record?_deactivate (a : Arena) (i : Nat) :
    a.deactivate.record? i = (a.record? i).map fun r => { r with active := false } := by
  unfold deactivate record?
  rw [Array.getElem?_map]
  cases a.slots[i]? with
  | none => rfl
  | some o => rfl

theorem slotOf?_deactivate (a : Arena) (x : Address) :
    a.deactivate.slotOf? x = a.slotOf? x := rfl

/-- A new record is found at its address, and every other address as before. -/
theorem slotOf?_insert (a : Arena) (r : Record) (x : Address) :
    (a.insert r).2.slotOf? x = if r.address = x then some (a.insert r).1 else a.slotOf? x := by
  rcases a with ⟨slots, _ | ⟨i, free⟩, index⟩ <;>
    simp [insert, slotOf?, Std.TreeMap.getElem?_insert]

/-- A new record takes a slot that was free, or one past the last. -/
theorem record?_insert (a : Arena) (r : Record) (j : Nat)
    (h : ∀ i ∈ a.free, i < a.slots.size) :
    (a.insert r).2.record? j = if (a.insert r).1 = j then some r else a.record? j := by
  rcases a with ⟨slots, _ | ⟨i, free⟩, index⟩
  · simp only [insert, record?, Array.getElem?_push]
    by_cases hj : slots.size = j <;> grind
  · have hi : i < slots.size := h i (by simp)
    simp only [insert, record?, Array.getElem?_setIfInBounds]
    by_cases hj : i = j <;> simp_all

theorem record?_remove (a : Arena) (i j : Nat) (r : Record) :
    (a.remove i r).record? j = if i = j then none else a.record? j := by
  unfold remove record?
  rw [Array.getElem?_setIfInBounds]
  by_cases hij : i = j
  · subst hij
    by_cases hi : i < a.slots.size <;> simp [hi]
  · simp [hij]

/-- Emptying a slot forgets the address that it owns, and no other. -/
theorem slotOf?_remove (a : Arena) (i : Nat) (r : Record) (x : Address) :
    (a.remove i r).slotOf? x =
      if a.owns i r = true ∧ r.address = x then none else a.slotOf? x := by
  unfold remove slotOf?
  by_cases ho : a.owns i r = true
  · simp [ho, Std.TreeMap.getElem?_erase]
  · simp [ho]

end Arena

end ProbTrace
