import SceneGraph.Proofs.Passing

/-!
The fields of a node are what its type declares, so that values are looked up by position without
asking whether they are there.
-/

namespace SceneGraph

/-- A value fits its field just if it is of the field's kind, with all the components of a tuple and
whole vectors in an array. -/
theorem Declaration.checkShape_iff {d : Declaration} {owner : String} {v : Value} :
    d.checkShape owner v = .ok () ↔ v.kind = d.type.kind ∧
      (d.type.isFixedTuple → v.validCount = d.type.components) ∧
      (d.type.isMulti → d.type.components ∣ v.validCount) := by
  rw [checkShape_eq_ok]
  unfold shapeFault?
  dsimp only
  by_cases hk : v.kind = d.type.kind
  · rw [if_neg (not_not_intro hk)]
    by_cases hf : d.type.kind = ⟨true, .float⟩
    · rw [if_neg (not_not_intro hf)]
      by_cases ht : d.type.isFixedTuple ∧ v.validCount ≠ d.type.components
      · rw [if_pos ht]
        exact iff_of_false nofun fun h ↦ ht.2 (h.2.1 ht.1)
      rw [if_neg ht]
      by_cases hm : d.type.isMulti ∧ v.validCount % d.type.components ≠ 0
      · rw [if_pos hm]
        exact iff_of_false nofun fun h ↦ hm.2 (Nat.mod_eq_zero_of_dvd (h.2.2 hm.1))
      · rw [if_neg hm]
        refine iff_of_true rfl ⟨hk, fun h ↦ ?_, fun h ↦ ?_⟩
        · exact Decidable.not_not.mp fun he ↦ ht ⟨h, he⟩
        · exact Nat.dvd_of_mod_eq_zero (Decidable.not_not.mp fun he ↦ hm ⟨h, he⟩)
    · -- but for vectors of floats an element has one component
      rw [if_pos hf]
      have one : d.type.isMulti = true ∨ 1 < d.type.components → d.type.components = 1 := by
        revert hf
        rcases d.type with ⟨_ | _, e⟩ <;> cases e <;> decide
      refine iff_of_true rfl ⟨hk, fun h ↦ ?_, fun h ↦ one (.inl h) ▸ Nat.one_dvd _⟩
      have many : 1 < d.type.components := by
        simp only [FieldType.isFixedTuple, Bool.and_eq_true, decide_eq_true_eq] at h
        exact h.2
      exact absurd (one (.inr many)) (Nat.ne_of_gt many)
  · rw [if_pos hk]
    exact iff_of_false nofun fun h ↦ hk h.1

theorem FieldTable.lt_size_of_indexOf? {t : FieldTable} {name : String} {i : Nat}
    (h : t.indexOf? name = some i) : i < t.size :=
  (List.findIdx?_eq_some_iff_getElem.mp h).1

theorem NodeType.lt_size_of_standard? {t : NodeType} {c : Capability} {name : String} {i : Nat}
    (h : t.standard? c name = some i) : i < t.table.size := by
  unfold standard? at h
  split at h
  · exact FieldTable.lt_size_of_indexOf? h
  · cases h

namespace Node

/-- The positions at which the values of a node are looked up without asking whether they are there:
those of declared fields, of the fields that capabilities install, of the switch for loading, and of
the fields that hold references. -/
inductive Takes (n : Node) : Nat → Prop
  | declared {i d} (h : n.type.declaration i = .ok d) : Takes n i
  | children {i} (h : n.type.children? = some i) : Takes n i
  | addChildren {i} (h : n.type.addChildren? = some i) : Takes n i
  | removeChildren {i} (h : n.type.removeChildren? = some i) : Takes n i
  | enabled {i} (h : n.type.enabled? = some i) : Takes n i
  | url {i} (h : n.type.url? = some i) : Takes n i
  | load {i} (h : n.type.table.indexOf? "load" = some i) : Takes n i
  | refs {i} (h : i ∈ n.type.table.nodeFields) : Takes n i

/-- The node has what its type declares: a value and a flag for each field, each value in the shape
of its field, and a slot if it is loadable. -/
structure Furnished (n : Node) : Prop where
  values : n.values.length = n.type.table.size
  flags : n.changed.length = n.type.table.size
  shape : ∀ {i d}, n.type.table.get? i = some d →
    ∃ v, n.values[i]? = some v ∧ d.checkShape n.type.name v = .ok ()
  slot : n.load.isSome ↔ n.type.has .loadable

variable {n : Node} {i : Nat}

theorem Takes.lt_size (h : n.Takes i) : i < n.type.table.size := by
  cases h with
  | declared h => exact FieldTable.lt_size_of_get? (FieldTable.declaration_eq_ok.mp h)
  | children h | addChildren h | removeChildren h | enabled h | url h =>
    exact NodeType.lt_size_of_standard? h
  | load h => exact FieldTable.lt_size_of_indexOf? h
  | refs h => exact List.mem_range.mp (List.mem_filter.mp h).1

theorem Furnished.of_sound (h : n.Sound) : n.Furnished where
  values := h.values.length
  flags := h.flags
  shape hd := by
    obtain ⟨v, hv⟩ := h.values.exists_value (FieldTable.lt_size_of_get? hd)
    exact ⟨v, hv, Declaration.checkShape_eq_ok.mpr (h.values.shape hd hv)⟩
  slot := iff_of_eq (congrArg (· = true) h.slot)

end Node

namespace Scene

variable {s t : Scene} {id : NodeId} {n : Node}

theorem Met.sound (h : s.Met) (hn : s.node? id = some n) : n.Sound :=
  (h.forall_nodes (P := fun _ _ ↦ True) (fun _ _ _ _ _ _ ↦ trivial) (fun _ _ _ ↦ trivial) hn).1

/-- In the midst of operations as between them, the nodes have what their types declare, and where a
value or a flag is looked up, there is one. -/
theorem Reachable.furnished (h : s.Reachable) (passes : Passes s t) (hn : t.node? id = some n) :
    n.Furnished ∧ ∀ i, n.Takes i → ∃ v flag, n.values[i]? = some v ∧ n.changed[i]? = some flag := by
  have furnished := Node.Furnished.of_sound ((h.met.passes passes).sound hn)
  refine ⟨furnished, fun i hi ↦ ?_⟩
  have value : i < n.values.length := furnished.values ▸ hi.lt_size
  have flag : i < n.changed.length := furnished.flags ▸ hi.lt_size
  exact ⟨_, _, List.getElem?_eq_getElem value, List.getElem?_eq_getElem flag⟩

theorem furnished_switched : ∃ n v flag, switched.node? (.issued 0) = some n ∧
    n.values.length = 2 ∧ n.load.isSome = false ∧
    n.values[0]? = some v ∧ v.kind = ⟨false, .bool⟩ ∧ n.changed[0]? = some flag := by
  have hn : switched.node? (.issued 0) = some (.new switch ⟨1⟩ 0) := rfl
  obtain ⟨furnished, there⟩ := reachable_switched.furnished .refl hn
  obtain ⟨v, flag, hv, hf⟩ := there 0 (.enabled rfl)
  obtain ⟨w, hw, fits⟩ := furnished.shape (i := 0) rfl
  cases hv.symm.trans hw
  exact ⟨_, v, flag, hn, furnished.values, rfl, hv, (Declaration.checkShape_iff.mp fits).1, hf⟩

end Scene

end SceneGraph
