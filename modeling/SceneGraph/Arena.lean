namespace SceneGraph

/-- A table under numbers issued in turn. An erased entry leaves its number unused for good. -/
structure Arena (α : Type) where
  slots : List (Option α)

namespace Arena

variable {α : Type}

def empty : Arena α := ⟨[]⟩

instance : Inhabited (Arena α) := ⟨empty⟩

/-- How many numbers were issued; the next entry gets this one. -/
def issued (a : Arena α) : Nat := a.slots.length

def get? (a : Arena α) (k : Nat) : Option α := a.slots[k]?.join

def contains (a : Arena α) (k : Nat) : Bool := (a.get? k).isSome

def insert (a : Arena α) (v : α) : Arena α := ⟨a.slots ++ [some v]⟩

def modify (a : Arena α) (k : Nat) (f : α → α) : Arena α := ⟨a.slots.modify k (Option.map f)⟩

def erase (a : Arena α) (k : Nat) : Arena α := ⟨a.slots.set k none⟩

/-- The numbers in use, in the order they were issued. -/
def keys (a : Arena α) : List Nat := (List.range a.issued).filter a.contains

def toList (a : Arena α) : List (Nat × α) :=
  (List.range a.issued).filterMap fun k => (a.get? k).map (k, ·)

def size (a : Arena α) : Nat := a.keys.length

@[simp] theorem get?_empty (k : Nat) : (empty : Arena α).get? k = none := rfl

@[simp] theorem issued_empty : (empty : Arena α).issued = 0 := rfl

@[simp] theorem issued_insert (a : Arena α) (v : α) : (a.insert v).issued = a.issued + 1 := by
  simp [insert, issued]

@[simp] theorem issued_modify (a : Arena α) (k : Nat) (f : α → α) :
    (a.modify k f).issued = a.issued := by
  simp [modify, issued]

@[simp] theorem issued_erase (a : Arena α) (k : Nat) : (a.erase k).issued = a.issued := by
  simp [erase, issued]

theorem lt_issued_of_get? {a : Arena α} {k : Nat} {v : α} (h : a.get? k = some v) :
    k < a.issued := by
  apply Decidable.byContradiction
  intro hk
  rw [get?, List.getElem?_eq_none (Nat.le_of_not_lt hk)] at h
  cases h

theorem lt_issued_of_contains {a : Arena α} {k : Nat} (h : a.contains k) : k < a.issued := by
  obtain ⟨v, hv⟩ := Option.isSome_iff_exists.mp h
  exact lt_issued_of_get? hv

theorem get?_of_le {a : Arena α} {k : Nat} (h : a.issued ≤ k) : a.get? k = none := by
  rw [get?, List.getElem?_eq_none h]
  rfl

theorem get?_insert (a : Arena α) (v : α) (k : Nat) :
    (a.insert v).get? k = if k = a.issued then some v else a.get? k := by
  by_cases hlt : k < a.issued
  · rw [if_neg (Nat.ne_of_lt hlt)]
    simp only [get?, insert]
    rw [List.getElem?_append_left hlt]
  · by_cases he : k = a.issued
    · subst he
      simp [get?, insert, issued]
    · have hk : a.issued + 1 ≤ k := by omega
      rw [if_neg he, get?_of_le (Nat.le_of_succ_le hk), get?_of_le (by rwa [issued_insert])]

theorem get?_modify (a : Arena α) (j : Nat) (f : α → α) (k : Nat) :
    (a.modify j f).get? k = if k = j then (a.get? k).map f else a.get? k := by
  simp only [get?, modify, List.getElem?_modify]
  by_cases h : k = j
  · subst h
    cases a.slots[k]? <;> simp
  · simp [h, Ne.symm h]

theorem get?_erase (a : Arena α) (j k : Nat) :
    (a.erase j).get? k = if k = j then none else a.get? k := by
  simp only [get?, erase, List.getElem?_set]
  by_cases h : k = j
  · subst h
    by_cases hk : k < a.slots.length <;> simp [hk]
  · rw [if_neg h, if_neg (Ne.symm h)]

theorem mem_keys {a : Arena α} {k : Nat} : k ∈ a.keys ↔ a.contains k :=
  ⟨fun h => (List.mem_filter.mp h).2,
    fun h => List.mem_filter.mpr ⟨List.mem_range.mpr (lt_issued_of_contains h), h⟩⟩

@[simp] theorem size_modify (a : Arena α) (k : Nat) (f : α → α) : (a.modify k f).size = a.size := by
  have hc : (a.modify k f).contains = a.contains := by
    funext j
    simp only [contains, get?_modify]
    split <;> simp
  simp only [size, keys, issued_modify, hc]

theorem size_erase_lt {a : Arena α} {k : Nat} (h : a.contains k) : (a.erase k).size < a.size := by
  have hk : (a.erase k).keys = a.keys.filter fun j => decide (j ≠ k) := by
    simp only [keys, issued_erase, List.filter_filter]
    congr 1
    funext j
    simp only [contains, get?_erase]
    split <;> simp [*]
  rw [size, size, hk]
  exact List.length_filter_lt_length_iff_exists.mpr ⟨k, mem_keys.mpr h, by simp⟩

end Arena

end SceneGraph
