import SceneGraph.Scene.Tick

namespace SceneGraph

namespace Scene

variable {s s' : Scene}

theorem node_eq_ok {id : NodeId} {n : Node} : s.node id = .ok n ↔ s.node? id = some n := by
  unfold node
  cases s.node? id <;> simp

theorem space_eq_ok {sp : SpaceId} {x : Space} : s.space sp = .ok x ↔ s.space? sp = some x := by
  unfold space
  cases s.space? sp <;> simp

theorem hasNode_iff {id : NodeId} : s.hasNode id ↔ ∃ n, s.node? id = some n :=
  Option.isSome_iff_exists

theorem hasSpace_iff {sp : SpaceId} : s.hasSpace sp ↔ ∃ x, s.space? sp = some x :=
  Option.isSome_iff_exists

theorem node?_congr (h : s'.nodes = s.nodes) (id : NodeId) : s'.node? id = s.node? id := by
  unfold node?
  rw [h]

theorem space?_congr (h : s'.spaces = s.spaces) (sp : SpaceId) : s'.space? sp = s.space? sp := by
  unfold space?
  rw [h]

theorem issued_of_node? {id : NodeId} {n : Node} (h : s.node? id = some n) :
    ∃ k, id = .issued k ∧ k < s.nodes.issued := by
  cases id with
  | issued k => exact ⟨k, rfl, Arena.lt_issued_of_get? h⟩
  | void => cases h

theorem number_lt_of_space? {sp : SpaceId} {x : Space} (h : s.space? sp = some x) :
    sp.number < s.spaces.issued :=
  Arena.lt_issued_of_get? h

@[simp] theorem node?_nextNode (s : Scene) : s.node? s.nextNode = none :=
  Arena.get?_of_le (Nat.le_refl _)

@[simp] theorem space?_nextSpace (s : Scene) : s.space? s.nextSpace = none :=
  Arena.get?_of_le (Nat.le_refl _)

section modifyNode

variable (s : Scene) (id : NodeId) (f : Node → Node)

theorem node?_modifyNode (k : NodeId) :
    (s.modifyNode id f).node? k = if k = id then (s.node? k).map f else s.node? k := by
  cases id with
  | issued i => cases k <;> simp [modifyNode, node?, Arena.get?_modify]
  | void =>
    by_cases h : k = .void
    · subst h
      rfl
    · rw [if_neg h]
      rfl

theorem node?_modifyNode_self {n : Node} (h : s.node? id = some n) :
    (s.modifyNode id f).node? id = some (f n) := by
  rw [node?_modifyNode, if_pos rfl, h]
  rfl

theorem node?_modifyNode_of_ne {k : NodeId} (h : k ≠ id) :
    (s.modifyNode id f).node? k = s.node? k := by
  rw [node?_modifyNode, if_neg h]

theorem modifyNode_congr {g : Node → Node} (h : ∀ n, s.node? id = some n → f n = g n) :
    s.modifyNode id f = s.modifyNode id g := by
  cases id with
  | void => rfl
  | issued k =>
    have slots : s.nodes.slots.modify k (Option.map f) = s.nodes.slots.modify k (Option.map g) := by
      refine List.ext_getElem? fun j ↦ ?_
      rw [List.getElem?_modify, List.getElem?_modify]
      by_cases hj : k = j
      · subst hj
        have here := h
        simp only [node?, Arena.get?] at here
        rcases hs : s.nodes.slots[k]? with _ | _ | n
        · rfl
        · rfl
        · simp [here n (by rw [hs]; rfl)]
      · simp [hj]
    simp only [modifyNode, Arena.modify, slots]

theorem modifyNode_of_none (h : s.node? id = none) : s.modifyNode id f = s := by
  rw [modifyNode_congr s id f (g := fun n ↦ n) fun n hn ↦ by cases h.symm.trans hn]
  cases id with
  | void => rfl
  | issued k =>
    have slots : s.nodes.slots.modify k (Option.map fun n ↦ n) = s.nodes.slots := by simp
    simp only [modifyNode, Arena.modify, slots]

@[simp] theorem spaces_modifyNode : (s.modifyNode id f).spaces = s.spaces := by cases id <;> rfl

@[simp] theorem space?_modifyNode (sp : SpaceId) :
    (s.modifyNode id f).space? sp = s.space? sp :=
  space?_congr (spaces_modifyNode s id f) sp

@[simp] theorem issued_modifyNode : (s.modifyNode id f).nodes.issued = s.nodes.issued := by
  cases id <;> simp [modifyNode]

@[simp] theorem pending_modifyNode : (s.modifyNode id f).pending = s.pending := by
  cases id <;> rfl

@[simp] theorem sensors_modifyNode : (s.modifyNode id f).sensors = s.sensors := by
  cases id <;> rfl

@[simp] theorem catalog_modifyNode : (s.modifyNode id f).catalog = s.catalog := by
  cases id <;> rfl

@[simp] theorem settings_modifyNode : (s.modifyNode id f).settings = s.settings := by
  cases id <;> rfl

@[simp] theorem loader_modifyNode : (s.modifyNode id f).loader = s.loader := by cases id <;> rfl

@[simp] theorem cache_modifyNode : (s.modifyNode id f).cache = s.cache := by cases id <;> rfl

@[simp] theorem time_modifyNode : (s.modifyNode id f).time = s.time := by cases id <;> rfl

@[simp] theorem journal_modifyNode : (s.modifyNode id f).journal = s.journal := by
  cases id <;> rfl

end modifyNode

section modifySpace

variable (s : Scene) (sp : SpaceId) (f : Space → Space)

theorem space?_modifySpace (q : SpaceId) :
    (s.modifySpace sp f).space? q = if q = sp then (s.space? q).map f else s.space? q := by
  cases q
  cases sp
  simp [modifySpace, space?, Arena.get?_modify]

theorem space?_modifySpace_self {x : Space} (h : s.space? sp = some x) :
    (s.modifySpace sp f).space? sp = some (f x) := by
  rw [space?_modifySpace, if_pos rfl, h]
  rfl

theorem space?_modifySpace_of_ne {q : SpaceId} (h : q ≠ sp) :
    (s.modifySpace sp f).space? q = s.space? q := by
  rw [space?_modifySpace, if_neg h]

@[simp] theorem node?_modifySpace (id : NodeId) : (s.modifySpace sp f).node? id = s.node? id := rfl

@[simp] theorem issued_modifySpace : (s.modifySpace sp f).spaces.issued = s.spaces.issued := by
  simp [modifySpace]

end modifySpace

section addNode

variable (s : Scene) (sp : SpaceId) (type : NodeType)

theorem node?_addNode (id : NodeId) :
    (s.addNode sp type).node? id =
      if id = s.nextNode then some (.new type sp s.nextPlace) else s.node? id := by
  cases id with
  | issued k => simp [addNode, modifySpace, node?, nextNode, Arena.get?_insert]
  | void => rfl

theorem space?_addNode (q : SpaceId) :
    (s.addNode sp type).space? q =
      if q = sp then (s.space? q).map (·.adopt s.nextNode) else s.space? q :=
  space?_modifySpace _ _ _ q

@[simp] theorem sensors_addNode :
    (s.addNode sp type).sensors =
      if type.has .sensor then s.sensors ++ [s.nextNode] else s.sensors := rfl

end addNode

section addSpace

variable (s : Scene) (kind : SpaceKind) (parent : SpaceId) (owner : Option NodeId)

theorem space?_addSpace {x : Space} (h : s.space? parent = some x) (q : SpaceId) :
    (s.addSpace kind parent owner).space? q =
      if q = s.nextSpace then some { kind, parent := some parent, owner }
      else if q = parent then some (x.addChild s.nextSpace) else s.space? q := by
  have hp : parent ≠ s.nextSpace := by
    intro he
    rw [he, space?_nextSpace] at h
    cases h
  have hi : ∀ q : SpaceId,
      ({ s with spaces := s.spaces.insert { kind, parent := some parent, owner } } :
        Scene).space? q = if q = s.nextSpace then some { kind, parent := some parent, owner }
        else s.space? q := by
    intro q
    cases q
    simp [space?, nextSpace, Arena.get?_insert]
  rw [addSpace, space?_modifySpace, hi]
  by_cases hq : q = parent
  · subst hq
    simp [hp, h]
  · simp [hq]

end addSpace

section dropNode

variable (s : Scene) (k : Nat) (n : Node)

theorem node?_dropNode (id : NodeId) :
    (s.dropNode k n).node? id = if id = .issued k then none else s.node? id := by
  cases id with
  | issued i => simp [node?, Arena.get?_erase]
  | void => rfl

@[simp] theorem space?_dropNode (sp : SpaceId) : (s.dropNode k n).space? sp = s.space? sp :=
  space?_congr (spaces_dropNode s k n) sp

@[simp] theorem node?_cancel (r : Option Request) (id : NodeId) :
    (s.cancel r).node? id = s.node? id :=
  node?_congr (nodes_cancel s r) id

@[simp] theorem space?_cancel (r : Option Request) (sp : SpaceId) :
    (s.cancel r).space? sp = s.space? sp :=
  space?_congr (spaces_cancel s r) sp

@[simp] theorem pending_cancel (r : Option Request) : (s.cancel r).pending = s.pending := by
  cases r <;> rfl

@[simp] theorem sensors_cancel (r : Option Request) : (s.cancel r).sensors = s.sensors := by
  cases r <;> rfl

@[simp] theorem catalog_cancel (r : Option Request) : (s.cancel r).catalog = s.catalog := by
  cases r <;> rfl

@[simp] theorem journal_cancel (r : Option Request) : (s.cancel r).journal = s.journal := by
  cases r <;> rfl

@[simp] theorem pending_dropNode :
    (s.dropNode k n).pending = s.pending.filter fun p => p.1 ≠ NodeId.issued k := by
  simp [dropNode]

@[simp] theorem sensors_dropNode :
    (s.dropNode k n).sensors = s.sensors.filter (· ≠ NodeId.issued k) := by
  simp [dropNode]

@[simp] theorem catalog_dropNode : (s.dropNode k n).catalog = s.catalog := by simp [dropNode]

@[simp] theorem journal_dropNode : (s.dropNode k n).journal = s.journal := by simp [dropNode]

end dropNode

section dropSpace

variable (s : Scene) (sp : SpaceId) (parent : Option SpaceId)

theorem space?_dropSpace (q : SpaceId) :
    (s.dropSpace sp parent).space? q =
      if q = sp then none
      else if parent = some q then (s.space? q).map (·.removeChild sp) else s.space? q := by
  have he : ∀ q : SpaceId, ({ s with spaces := s.spaces.erase sp.number } : Scene).space? q =
      if q = sp then none else s.space? q := by
    intro q
    cases q
    cases sp
    simp [space?, Arena.get?_erase]
  cases parent with
  | none => exact (he q).trans (by simp)
  | some p =>
    rw [dropSpace, space?_modifySpace, he]
    by_cases hq : q = p
    · subst hq
      by_cases hs : q = sp <;> simp [hs]
    · simp [hq, Ne.symm hq]

@[simp] theorem node?_dropSpace (id : NodeId) : (s.dropSpace sp parent).node? id = s.node? id :=
  node?_congr (nodes_dropSpace s sp parent) id

@[simp] theorem pending_dropSpace : (s.dropSpace sp parent).pending = s.pending := by
  cases parent <;> rfl

@[simp] theorem sensors_dropSpace : (s.dropSpace sp parent).sensors = s.sensors := by
  cases parent <;> rfl

@[simp] theorem catalog_dropSpace : (s.dropSpace sp parent).catalog = s.catalog := by
  cases parent <;> rfl

@[simp] theorem journal_dropSpace : (s.dropSpace sp parent).journal = s.journal := by
  cases parent <;> rfl

end dropSpace

end Scene

end SceneGraph
