import SceneGraph.Proofs.Furnishing

/-!
Tables of fields. Declarations make a table just if each default fits its type and no spelling is
used twice. Then a spelling names the one field that has it; otherwise the first declaration that
does not go with those before it is to blame.
-/

namespace SceneGraph

theorem FieldType.isNode_kind {t : FieldType} :
    t.kind.isNode ↔ t = .single .node ∨ t = .multi .node := by
  rcases t with ⟨_ | _, e⟩ <;> cases e <;> decide

namespace Declaration

variable {d : Declaration} {s : String}

/-- Any field goes by its name, and an exposed one by the names of its input and its output too. -/
def AnswersTo (d : Declaration) (s : String) : Prop :=
  s = d.name ∨ d.access = .exposed ∧ (s = "set_" ++ d.name ∨ s = d.name ++ "_changed")

theorem mem_spellings : s ∈ d.spellings ↔ d.AnswersTo s := by
  unfold spellings AnswersTo
  cases d.access <;> simp

/-- No decoration gives a name back, nor do the two give the same, since all differ in length. -/
theorem nodup_spellings (d : Declaration) : d.spellings.Nodup := by
  have apart {a b : String} (h : a.length ≠ b.length) : a ≠ b := fun he ↦ h (congrArg _ he)
  have four : "set_".length = 4 := rfl
  have eight : "_changed".length = 8 := rfl
  have input : d.name ≠ "set_" ++ d.name := apart (by rw [String.length_append]; omega)
  have output : d.name ≠ d.name ++ "_changed" := apart (by rw [String.length_append]; omega)
  have both : "set_" ++ d.name ≠ d.name ++ "_changed" :=
    apart (by rw [String.length_append, String.length_append]; omega)
  unfold spellings
  cases d.access with
  | exposed => simp [input, output, both]
  | field | eventIn | eventOut => simp

/-- The default is of the kind of the field, with all the components of a tuple and whole vectors in
an array. -/
def DefaultFits (d : Declaration) : Prop :=
  d.default.kind = d.type.kind ∧
    (d.type.isFixedTuple → d.default.validCount = d.type.components) ∧
    (d.type.isMulti → d.type.components ∣ d.default.validCount)

end Declaration

namespace FieldTable

open Declaration

variable {t : FieldTable} {owner s : String} {ds earlier later : List Declaration}
  {d holder : Declaration} {e : Error} {i : Nat}

/-- The declarations go together. -/
structure Orderly (ds : List Declaration) : Prop where
  fits : ∀ d ∈ ds, d.DefaultFits
  nodup : (ds.flatMap spellings).Nodup

/-- The spelling is the first one of `d` that is taken already, by one of the declarations before or
by `d` itself. -/
inductive Taken (earlier : List Declaration) (d : Declaration) (s : String) :
    Declaration → Prop
  | intro {free rest : List String} {holder : Declaration} (split : d.spellings = free ++ s :: rest)
      (first : (earlier.flatMap spellings ++ free).Nodup)
      (held : holder ∈ earlier ∧ holder.AnswersTo s ∨ holder = d ∧ s ∈ free) :
      Taken earlier d s holder

/-- What is wrong with `d` after the declarations before it; the default comes first. -/
inductive Blames (owner : String) (earlier : List Declaration) (d : Declaration) : Error → Prop
  | badDefault {cause : Error} (bad : ¬d.DefaultFits)
      (shape : d.checkShape owner d.default = .error cause) :
      Blames owner earlier d (.field owner d.name (.badDefault cause.message))
  | nameTaken {s : String} {holder : Declaration} (fits : d.DefaultFits)
      (taken : Taken earlier d s holder) :
      Blames owner earlier d (.field owner d.name (.nameTaken s holder.name))

theorem Orderly.nil : Orderly [] := ⟨nofun, List.nodup_nil⟩

theorem Orderly.of_append (h : Orderly (earlier ++ later)) : Orderly earlier where
  fits d hd := h.fits d (List.mem_append_left _ hd)
  nodup := by
    have nodup := h.nodup
    rw [List.flatMap_append] at nodup
    exact nodup.of_append_left

theorem orderly_snoc : Orderly (earlier ++ [d]) ↔
    Orderly earlier ∧ d.DefaultFits ∧ ∀ s ∈ d.spellings, ∀ e ∈ earlier, s ∉ e.spellings := by
  constructor
  · intro h
    have nodup := h.nodup
    rw [List.flatMap_append, List.flatMap_singleton] at nodup
    exact ⟨h.of_append, h.fits d (List.mem_append_right _ (List.mem_singleton_self d)),
      fun s hs e he hm ↦
        List.disjoint_of_nodup_append nodup (List.mem_flatMap.mpr ⟨e, he, hm⟩) hs⟩
  · rintro ⟨⟨fits, nodup⟩, fit, free⟩
    refine ⟨fun e he ↦ ?_, ?_⟩
    · rcases List.mem_append.mp he with he | he
      · exact fits e he
      · exact List.mem_singleton.mp he ▸ fit
    · rw [List.flatMap_append, List.flatMap_singleton]
      refine nodup.append d.nodup_spellings fun s hs hd ↦ ?_
      obtain ⟨e, he, hm⟩ := List.mem_flatMap.mp hs
      exact free s hd e he hm

/-- Declarations that go together share no spelling. -/
theorem Orderly.position_eq (h : Orderly ds) {a b : Declaration} {i j : Nat}
    (hi : ds[i]? = some a) (hj : ds[j]? = some b) (ha : s ∈ a.spellings) (hb : s ∈ b.spellings) :
    i = j := by
  have apart := List.pairwise_iff_getElem.mp (List.nodup_flatMap.mp h.nodup).2
  obtain ⟨li, rfl⟩ := List.getElem?_eq_some_iff.mp hi
  obtain ⟨lj, rfl⟩ := List.getElem?_eq_some_iff.mp hj
  rcases Nat.lt_trichotomy i j with lt | eq | gt
  · exact absurd hb (apart i j li lj lt ha)
  · exact eq
  · exact absurd ha (apart j i lj li gt hb)

theorem Orderly.eq_of_mem (h : Orderly ds) {a b : Declaration} (hm : a ∈ ds) (hm' : b ∈ ds)
    (ha : s ∈ a.spellings) (hb : s ∈ b.spellings) : a = b := by
  obtain ⟨i, hi⟩ := List.mem_iff_getElem?.mp hm
  obtain ⟨j, hj⟩ := List.mem_iff_getElem?.mp hm'
  obtain rfl := h.position_eq hi hj ha hb
  exact Option.some.inj (hi.symm.trans hj)

/-- The first declaration with a spelling is the one that has it. -/
theorem Orderly.find?_eq_some (h : Orderly ds) :
    ds.find? (fun e ↦ s ∈ e.spellings) = some holder ↔ holder ∈ ds ∧ s ∈ holder.spellings := by
  constructor
  · intro hf
    exact ⟨List.mem_of_find?_eq_some hf, by simpa using List.find?_some hf⟩
  · rintro ⟨hm, hs⟩
    cases hf : ds.find? fun e ↦ s ∈ e.spellings with
    | none => exact absurd (decide_eq_true hs) (List.find?_eq_none.mp hf holder hm)
    | some first =>
      have hs' : s ∈ first.spellings := by simpa using List.find?_some hf
      rw [h.eq_of_mem (List.mem_of_find?_eq_some hf) hm hs' hs]

theorem clash?_eq_none :
    clash? earlier d = none ↔ ∀ s ∈ d.spellings, ∀ e ∈ earlier, s ∉ e.spellings := by
  simp [clash?, List.findSome?_eq_none_iff, List.find?_eq_none]

theorem Orderly.clash?_eq_some (h : Orderly earlier) {name : String} :
    clash? earlier d = some (s, name) ↔
      ∃ holder, Taken earlier d s holder ∧ holder.name = name := by
  have free {s : String} : (earlier.find? fun e ↦ s ∈ e.spellings) = none ↔
      s ∉ earlier.flatMap spellings := by
    simp [List.find?_eq_none]
  have nodup := d.nodup_spellings
  rw [clash?, List.findSome?_eq_some_iff]
  constructor
  · rintro ⟨before, s', rest, split, found, none⟩
    obtain ⟨holder, hf, he⟩ := Option.map_eq_some_iff.mp found
    cases he
    obtain ⟨hm, hs⟩ := h.find?_eq_some.mp hf
    rw [split] at nodup
    refine ⟨holder, .intro split (h.nodup.append nodup.of_append_left fun s hs hb ↦ ?_)
      (.inl ⟨hm, mem_spellings.mp hs⟩), rfl⟩
    exact free.mp (Option.map_eq_none_iff.mp (none s hb)) hs
  · rintro ⟨holder, ⟨split, first, ⟨hm, answers⟩ | ⟨-, hm⟩⟩, rfl⟩
    · have found := h.find?_eq_some.mpr ⟨hm, mem_spellings.mpr answers⟩
      refine ⟨_, s, _, split, by rw [found]; rfl, fun s' hs' ↦ Option.map_eq_none_iff.mpr ?_⟩
      exact free.mpr fun hs ↦ List.disjoint_of_nodup_append first hs hs'
    · -- no spelling of a declaration is another of its spellings
      rw [split] at nodup
      exact absurd List.mem_cons_self (List.disjoint_of_nodup_append nodup hm)

theorem Orderly.checkNext_eq_ok_iff (h : Orderly earlier) :
    checkNext owner earlier d = .ok () ↔ Orderly (earlier ++ [d]) := by
  have shape : d.DefaultFits ↔ d.checkShape owner d.default = .ok () := checkShape_iff.symm
  rw [orderly_snoc, ← clash?_eq_none, and_iff_right h, shape]
  unfold checkNext
  cases d.checkShape owner d.default with
  | error cause => simp
  | ok =>
    cases clash? earlier d <;> simp

theorem Orderly.checkNext_eq_error_iff (h : Orderly earlier) :
    checkNext owner earlier d = .error e ↔ Blames owner earlier d e := by
  unfold checkNext
  cases shape : d.checkShape owner d.default with
  | error cause =>
    have bad : ¬d.DefaultFits := fun fits ↦ by cases shape.symm.trans (checkShape_iff.mpr fits)
    refine ⟨fun he ↦ Except.error.inj he ▸ .badDefault bad shape, ?_⟩
    rintro (⟨-, shape'⟩ | ⟨fits, -⟩)
    · cases shape.symm.trans shape'
      rfl
    · exact absurd fits bad
  | ok =>
    have fits := checkShape_iff.mp shape
    cases hc : clash? earlier d with
    | none =>
      refine ⟨nofun, ?_⟩
      rintro (⟨bad, -⟩ | ⟨-, taken⟩)
      · exact absurd fits bad
      · cases hc.symm.trans (h.clash?_eq_some.mpr ⟨_, taken, rfl⟩)
    | some found =>
      constructor
      · rintro ⟨⟩
        obtain ⟨holder, taken, hn⟩ := h.clash?_eq_some.mp hc
        exact hn ▸ .nameTaken fits taken
      · rintro (⟨bad, -⟩ | ⟨-, taken⟩)
        · exact absurd fits bad
        · cases hc.symm.trans (h.clash?_eq_some.mpr ⟨_, taken, rfl⟩)
          rfl

theorem Orderly.admitAll_eq_ok (h : Orderly earlier) :
    admitAll owner earlier ds = .ok () ↔ Orderly (earlier ++ ds) := by
  induction ds generalizing earlier with
  | nil => simpa [admitAll] using h
  | cons d ds ih =>
    unfold admitAll
    split
    · next he =>
      refine iff_of_false (by simp) fun orderly ↦ ?_
      rw [List.append_cons] at orderly
      cases he.symm.trans (h.checkNext_eq_ok_iff.mpr orderly.of_append)
    · next hd => rw [ih (h.checkNext_eq_ok_iff.mp hd), ← List.append_cons]

theorem admitAll_append (h : admitAll owner earlier ds = .ok ()) :
    admitAll owner earlier (ds ++ later) = admitAll owner (earlier ++ ds) later := by
  induction ds generalizing earlier with
  | nil => simp
  | cons d ds ih =>
    unfold admitAll at h
    split at h
    · cases h
    · next hd =>
      rw [List.cons_append, admitAll, hd]
      exact (ih h).trans (by rw [← List.append_cons])

theorem Orderly.admitAll_eq_error (h : Orderly earlier) :
    admitAll owner earlier ds = .error e ↔ ∃ before d after, ds = before ++ d :: after ∧
      Orderly (earlier ++ before) ∧ Blames owner (earlier ++ before) d e := by
  constructor
  · intro he
    induction ds generalizing earlier with
    | nil => cases he
    | cons d ds ih =>
      unfold admitAll at he
      split at he
      · next hd =>
        cases he
        exact ⟨[], d, ds, rfl, by simpa using h, by simpa using h.checkNext_eq_error_iff.mp hd⟩
      · next hd =>
        obtain ⟨before, d', after, rfl, orderly, blames⟩ := ih (h.checkNext_eq_ok_iff.mp hd) he
        rw [← List.append_cons] at orderly blames
        exact ⟨d :: before, d', after, rfl, orderly, blames⟩
  · rintro ⟨before, d, after, rfl, orderly, blames⟩
    rw [admitAll_append (h.admitAll_eq_ok.mpr orderly), admitAll,
      orderly.checkNext_eq_error_iff.mpr blames]

theorem Orderly.indexOf?_eq_some (h : Orderly ds) :
    indexOf? ⟨ds⟩ s = some i ↔ ∃ d, ds[i]? = some d ∧ d.AnswersTo s := by
  rw [indexOf?, List.findIdx?_eq_some_iff_getElem]
  constructor
  · rintro ⟨hi, hs, -⟩
    exact ⟨ds[i], List.getElem?_eq_getElem hi, mem_spellings.mp (of_decide_eq_true hs)⟩
  · rintro ⟨d, hd, answers⟩
    have hs := mem_spellings.mpr answers
    obtain ⟨hi, rfl⟩ := List.getElem?_eq_some_iff.mp hd
    refine ⟨hi, decide_eq_true hs, fun j hj hs' ↦ Nat.ne_of_lt hj ?_⟩
    exact h.position_eq (List.getElem?_eq_getElem _) hd (of_decide_eq_true hs') hs

/-- The table lists the declarations: positions are as they were declared, spellings and the fields
for nodes lead there. -/
structure Lists (t : FieldTable) (ds : List Declaration) : Prop where
  size : t.size = ds.length
  get? : ∀ i, t.get? i = ds[i]?
  indexOf? : ∀ s i, t.indexOf? s = some i ↔ ∃ d, ds[i]? = some d ∧ d.AnswersTo s
  nodeFields : t.nodeFields.Pairwise (· < ·)
  mem_nodeFields : ∀ i, i ∈ t.nodeFields ↔
    ∃ d, ds[i]? = some d ∧ (d.type = .single .node ∨ d.type = .multi .node)

theorem Orderly.lists (h : Orderly ds) : Lists ⟨ds⟩ ds where
  size := rfl
  get? _ := rfl
  indexOf? _ _ := h.indexOf?_eq_some
  nodeFields := List.pairwise_lt_range.filter _
  mem_nodeFields i := by
    rw [FieldTable.nodeFields, List.mem_filter, List.mem_range, Option.any_eq_true]
    constructor
    · rintro ⟨-, d, hd, hn⟩
      exact ⟨d, hd, FieldType.isNode_kind.mp hn⟩
    · rintro ⟨d, hd, hn⟩
      exact ⟨lt_size_of_get? (t := ⟨ds⟩) hd, d, hd, FieldType.isNode_kind.mpr hn⟩

/-- A table is built just if the declarations go together, and then it lists them. Otherwise the
error is about the first declaration that does not go with those before it. -/
theorem build_exact (owner : String) (ds : List Declaration) :
    ((∃ t, build owner ds = .ok t) ↔
      (∀ d ∈ ds, d.DefaultFits) ∧ (ds.flatMap spellings).Nodup) ∧
    (∀ t, build owner ds = .ok t → t.Lists ds) ∧
    (∀ e, build owner ds = .error e ↔ ∃ earlier d later, ds = earlier ++ d :: later ∧
      Orderly earlier ∧ Blames owner earlier d e) := by
  have admitted : admitAll owner [] ds = .ok () ↔ Orderly ds := Orderly.nil.admitAll_eq_ok
  have refused (e : Error) : admitAll owner [] ds = .error e ↔
      ∃ earlier d later, ds = earlier ++ d :: later ∧ Orderly earlier ∧
        Blames owner earlier d e := Orderly.nil.admitAll_eq_error
  unfold build
  cases ha : admitAll owner [] ds with
  | ok =>
    have orderly := admitted.mp ha
    refine ⟨iff_of_true ⟨_, rfl⟩ ⟨orderly.fits, orderly.nodup⟩, ?_, fun e ↦ ?_⟩
    · rintro t ⟨⟩
      exact orderly.lists
    · rw [← refused, ha]
      exact iff_of_false nofun nofun
  | error e =>
    refine ⟨iff_of_false nofun fun h ↦ ?_, nofun, fun e' ↦ ?_⟩
    · cases ha.symm.trans (admitted.mpr ⟨h.1, h.2⟩)
    · rw [← refused, ha]
      simp

/-- The output of one field is the input of another. -/
example : (match build "Clash" [⟨.exposed, .single .bool, "set_on", .bool true⟩,
      ⟨.exposed, .single .bool, "on_changed", .bool true⟩] with
    | .error e => e.message
    | .ok _ => "") = "invalid field 'on_changed' on Clash: " ++
      "name 'set_on_changed' already resolves to field 'set_on'" := by
  decide +kernel

end FieldTable

end SceneGraph
