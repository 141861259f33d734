import SceneGraph.Number.Binary

/-!
The order of floating-point numbers. Without the values that are no numbers it is total.
-/

namespace SceneGraph.Binary

variable {f : Format} {x y z : Binary f}

theorem le_iff : x ≤ y ↔ ∃ a b, x.key? = some a ∧ y.key? = some b ∧ a ≤ b := by
  change x.le y = true ↔ _
  unfold le
  cases x.key? <;> cases y.key? <;> simp

theorem lt_iff : x < y ↔ ∃ a b, x.key? = some a ∧ y.key? = some b ∧ a < b := by
  change x.lt y = true ↔ _
  unfold lt
  cases x.key? <;> cases y.key? <;> simp

theorem exists_key_of_number (h : x.isNaN = false) : ∃ a, x.key? = some a :=
  ⟨_, by rw [key?, h, if_neg Bool.false_ne_true]⟩

theorem exists_key (h : x.isFinite) : ∃ a, x.key? = some a := by
  have finite : x.magnitude < f.infinity := of_decide_eq_true h
  exact exists_key_of_number (decide_eq_false (Nat.lt_asymm finite))

protected theorem le_trans (h : x ≤ y) (h' : y ≤ z) : x ≤ z := by
  obtain ⟨a, b, hx, hy, hab⟩ := le_iff.mp h
  obtain ⟨b', c, hy', hz, hbc⟩ := le_iff.mp h'
  cases hy.symm.trans hy'
  exact le_iff.mpr ⟨a, c, hx, hz, Int.le_trans hab hbc⟩

theorem le_of_not_lt (hx : x.isFinite) (hy : y.isFinite) (h : ¬x < y) : y ≤ x := by
  obtain ⟨a, ha⟩ := exists_key hx
  obtain ⟨b, hb⟩ := exists_key hy
  exact le_iff.mpr ⟨b, a, hb, ha, Int.not_lt.mp fun hab ↦ h (lt_iff.mpr ⟨a, b, ha, hb, hab⟩)⟩

protected theorem le_refl (h : x.isFinite) : x ≤ x :=
  have ⟨a, ha⟩ := exists_key h
  le_iff.mpr ⟨a, a, ha, ha, Int.le_refl a⟩

theorem le_or_lt (hx : x.isNaN = false) (hy : y.isNaN = false) : x ≤ y ∨ y < x := by
  obtain ⟨a, ha⟩ := exists_key_of_number hx
  obtain ⟨b, hb⟩ := exists_key_of_number hy
  rcases Int.lt_or_le b a with hba | hab
  · exact .inr (lt_iff.mpr ⟨b, a, hb, ha, hba⟩)
  · exact .inl (le_iff.mpr ⟨a, b, ha, hb, hab⟩)

protected theorem le_of_lt (h : x < y) : x ≤ y :=
  have ⟨a, b, hx, hy, hab⟩ := lt_iff.mp h
  le_iff.mpr ⟨a, b, hx, hy, Int.le_of_lt hab⟩

theorem not_le_of_lt (h : x < y) : ¬y ≤ x := fun h' ↦ by
  obtain ⟨a, b, hx, hy, hab⟩ := lt_iff.mp h
  obtain ⟨b', a', hy', hx', hba⟩ := le_iff.mp h'
  cases hx.symm.trans hx'
  cases hy.symm.trans hy'
  exact Int.not_le.mpr hab hba

end SceneGraph.Binary
