namespace SceneGraph

/-- An array of which only the first `count` elements are valid. What follows them may be the rest
of a reused buffer and means nothing. -/
structure Counted (α : Type) where
  data : List α
  count : Nat
  count_le : count ≤ data.length
  deriving DecidableEq

namespace Counted

variable {α : Type}

def ofList (data : List α) : Counted α := ⟨data, data.length, Nat.le_refl _⟩

def withCount? (data : List α) (count : Nat) : Option (Counted α) :=
  if h : count ≤ data.length then some ⟨data, count, h⟩ else none

/-- The same elements, of which the first `count` are valid. -/
def limit? (a : Counted α) (count : Nat) : Option (Counted α) := withCount? a.data count

def map {β : Type} (f : α → β) (a : Counted α) : Counted β :=
  ⟨a.data.map f, a.count, by simpa using a.count_le⟩

def empty : Counted α := ofList []

instance : Inhabited (Counted α) := ⟨empty⟩

def toList (a : Counted α) : List α := a.data.take a.count

def allocated (a : Counted α) : Nat := a.data.length

/-- Arrays are compared by their valid elements. -/
def eqv (elem : α → α → Bool) (a b : Counted α) : Bool :=
  a.count = b.count && (a.toList.zip b.toList).all fun (x, y) => elem x y

@[simp] theorem toList_ofList (data : List α) : (ofList data).toList = data := by
  simp [ofList, toList]

@[simp] theorem toList_map {β : Type} (f : α → β) (a : Counted α) :
    (a.map f).toList = a.toList.map f := by
  simp [map, toList]

@[simp] theorem length_toList (a : Counted α) : a.toList.length = a.count := by
  simp [toList, a.count_le]

end Counted

end SceneGraph
