import SceneGraph.Node.Catalog
import SceneGraph.Proofs.Furnishing
import SceneGraph.Proofs.Order
import SceneGraph.Proofs.Validating

/-!
The domains of the fields of the standard types. Rotations have an axis, intensities lie in the unit
range, sizes and intervals are positive, indices point somewhere or end a face, and keys ascend.
-/

namespace SceneGraph

namespace Declaration

variable {d : Declaration} {name : String}

theorem name_ne_of_spelled (other : String) (h : name ∈ d.spellings)
    (ho : name ∉ [other, "set_" ++ other, other ++ "_changed"]) : d.name ≠ other := by
  rintro rfl
  refine ho ?_
  unfold spellings at h
  split at h
  · exact h
  all_goals
    rw [List.mem_singleton.mp h]
    exact List.mem_cons_self

theorem name_of_spelled_set_coordIndex (h : "set_coordIndex" ∈ d.spellings) :
    d.name = "coordIndex" ∨ d.name = "set_coordIndex" := by
  unfold spellings at h
  split at h
  · rcases List.mem_cons.mp h with he | h
    · exact .inr he.symm
    rcases List.mem_cons.mp h with he | h
    · refine .inl (String.toList_injective ?_)
      have same : "set_".toList ++ "coordIndex".toList = "set_".toList ++ d.name.toList := by
        rw [← String.toList_append, ← String.toList_append]
        exact congrArg String.toList he
      exact (List.append_cancel_left same).symm
    · have he := congrArg (fun s ↦ s.toList.getLast?) (List.mem_singleton.mp h)
      simp [String.toList_append] at he
  all_goals exact .inr (List.mem_singleton.mp h).symm

end Declaration

namespace Blueprint

def declarations (b : Blueprint) : List Declaration :=
  b.sortedCapabilities.flatMap Capability.fields ++ b.fields

theorem build_eq_ok {b : Blueprint} {t : NodeType} (h : b.build = .ok t) :
    t.name = b.name ∧ t.table.declarations = b.declarations ∧ t.behavior = b.behavior := by
  obtain ⟨table, ht, h⟩ := bind_eq_ok.mp h
  cases h
  exact ⟨rfl, (FieldTable.build_eq_ok ht).1, rfl⟩

end Blueprint

namespace Standard

variable {b : Behavior} {t : FieldTable} {type : NodeType} {d : Declaration} {v : Value}

section scripts

theorem restrained_of_quiet (steady : ∀ {issued index d v},
      b.validate issued index d v = .ok () → b.Accepts d v)
    (children : ∀ ids, b.Accepts .children (.ofNodes ids))
    (fieldChanged : ∀ index, b.fieldChanged index = .done) (tick : b.tick = .done)
    (setupFinished : b.setupFinished = .done) : b.Restrained t where
  steady := steady
  children := children
  fieldChanged index := fieldChanged index ▸ .done
  tick := tick ▸ .done
  setupFinished := setupFinished ▸ .done

theorem restrained_passive : Behavior.passive.Restrained t :=
  restrained_of_quiet (fun h _ _ ↦ h) (fun _ _ _ ↦ rfl) (fun _ ↦ rfl) rfl rfl

theorem restrained_transforming : transforming.Restrained t :=
  restrained_of_quiet (fun h _ _ ↦ h) (fun _ _ _ ↦ rfl) (fun _ ↦ rfl) rfl rfl

theorem restrained_bounded : bounded.Restrained t :=
  restrained_of_quiet (fun h _ _ ↦ h) (fun _ _ _ ↦ rfl) (fun _ ↦ rfl) rfl rfl

theorem restrained_primitive : primitive.Restrained t :=
  restrained_of_quiet (fun h _ _ ↦ h) (fun _ _ _ ↦ rfl) (fun _ ↦ rfl) rfl rfl

theorem restrained_toggling : toggling.Restrained t where
  steady h _ _ := h
  children _ _ _ := rfl
  fieldChanged index := .look fun v _ _ ↦ by
    split
    · exact .publish (fun _ _ _ ↦ rfl) .done
    · exact .done
  tick := .done
  setupFinished := .done

theorem restrained_interpolator : Interpolator.behavior.Restrained t where
  steady h _ _ := h
  children _ _ _ := rfl
  fieldChanged index := .look fun v _ _ ↦ by
    have free {d : Declaration} {v : Value} (h : "value_changed" ∈ d.spellings) :
        Interpolator.behavior.Accepts d v :=
      fun _ _ ↦ if_neg fun hk ↦ Declaration.name_ne_of_spelled "key" h (by decide) hk.1
    split
    · split
      · exact .publish free .done
      · exact .done
    · exact .done
  tick := .done
  setupFinished := .done

theorem restrained_indexed : indexed.Restrained t where
  steady h _ _ := h
  children _ _ _ := rfl
  fieldChanged index := .look fun view ht hv ↦ by
    subst ht
    split
    · next hi =>
      split
      · next v hx =>
        refine .publish (fun {d} hd _ _ ↦ ?_) .done
        have hd' := List.getElem?_eq_getElem (FieldTable.lt_size_of_indexOf? hi.1)
        have entries : checkEntries (-1) v = .ok () := by
          have accepted := hv index _ v hd' hx 0 0
          have spelled := FieldTable.spells_of_indexOf? hi.1 hd'
          have vertex := Declaration.name_ne_of_spelled "vertexCount" spelled (by decide)
          have coord := Declaration.name_of_spelled_set_coordIndex spelled
          exact (if_pos coord).symm.trans ((if_neg vertex).symm.trans accepted)
        have vertex := Declaration.name_ne_of_spelled "vertexCount" hd (by decide)
        have crease := Declaration.name_ne_of_spelled "creaseAngle" hd (by decide)
        refine (if_neg vertex).trans ?_
        split
        · exact entries
        · exact if_neg fun h ↦ crease h.1
      · exact .done
    · exact .done
  tick := .done
  setupFinished := .done

/-- The outputs of a time sensor, beside which it has settings. -/
def timings : List String := ["isActive", "cycleTime", "fraction_changed", "time"]

theorem restrained_publishAll {outputs : List (String × Value)}
    (h : ∀ o ∈ outputs, o.1 ∈ timings) :
    Script.Restrained TimeSensor.behavior t (TimeSensor.publishAll outputs) := by
  induction outputs with
  | nil => exact .done
  | cons o outputs ih =>
    obtain ⟨first, rest⟩ := List.forall_mem_cons.mp h
    refine .publish (fun {d} hd _ _ ↦ if_neg fun hc ↦ ?_) (ih rest)
    have free : ∀ name ∈ timings, name ∉
        ["cycleInterval", "set_" ++ "cycleInterval", "cycleInterval" ++ "_changed"] := by decide
    exact Declaration.name_ne_of_spelled _ hd (free _ first) hc.1

theorem name_mem_timings (timing : TimeSensor.Timing) : ∀ o ∈ timing.outputs, o.1 ∈ timings := by
  unfold TimeSensor.Timing.outputs
  split
  · exact List.forall_mem_nil _
  split
  · simp only [List.forall_mem_append, List.forall_mem_cons]
    refine ⟨⟨?_, ?_⟩, by simp [timings], by simp [timings], List.forall_mem_nil _⟩
    all_goals split <;> simp [timings]
  split
  · simp only [List.forall_mem_append, List.forall_mem_cons]
    refine ⟨?_, by simp [timings], by simp [timings], List.forall_mem_nil _⟩
    split <;> simp [timings]
  · exact List.forall_mem_nil _

theorem restrained_timeSensor : TimeSensor.behavior.Restrained t where
  steady h _ _ := h
  children _ _ _ := rfl
  fieldChanged index := .look fun v _ _ ↦ restrained_publishAll fun o ho ↦ by
    unfold TimeSensor.switched at ho
    split at ho
    · cases List.mem_singleton.mp ho
      exact List.mem_cons_self
    · cases ho
  tick := .look fun v _ _ ↦ restrained_publishAll (name_mem_timings _)
  setupFinished := .done

theorem restrained_behavior {b : Blueprint} (h : b ∈ blueprints) : b.behavior.Restrained t := by
  revert b
  simp only [blueprints, List.forall_mem_cons]
  exact ⟨restrained_passive, restrained_transforming, restrained_passive, restrained_passive,
    restrained_bounded, restrained_primitive, restrained_primitive, restrained_indexed,
    restrained_indexed, restrained_passive, restrained_passive, restrained_passive,
    restrained_timeSensor, restrained_interpolator, restrained_interpolator, restrained_toggling,
    restrained_passive, restrained_passive, List.forall_mem_nil _⟩

end scripts

section types

theorem exists_blueprint (h : type ∈ Catalog.standard.types) :
    ∃ b ∈ blueprints, b.build = .ok type := by
  obtain ⟨b, hb, h⟩ := List.mem_filterMap.mp h
  cases hr : b.build with
  | error =>
    rw [hr] at h
    cases h
  | ok =>
    rw [hr] at h
    cases h
    exact ⟨b, hb, hr⟩

theorem built_of_mem (h : type ∈ Catalog.standard.types) : type.Built := by
  obtain ⟨b, -, built⟩ := exists_blueprint h
  exact ⟨b, built⟩

theorem defaults_in_domain : ∀ b ∈ blueprints, ∀ d ∈ b.declarations,
    (b.behavior.validate 0 0 d d.default).toBool := by
  decide +kernel

/-- The standard types keep to the domains of their fields. -/
theorem restrained_of_mem (h : type ∈ Catalog.standard.types) : type.Restrained := by
  obtain ⟨b, hb, hr⟩ := exists_blueprint h
  obtain ⟨-, declarations, behavior⟩ := Blueprint.build_eq_ok hr
  refine ⟨behavior ▸ restrained_behavior hb, fun d hd ↦ ?_⟩
  have valid := defaults_in_domain b hb d (declarations ▸ hd)
  rw [behavior]
  cases hv : b.behavior.validate 0 0 d d.default with
  | ok => exact (restrained_behavior hb (t := type.table)).steady hv
  | error =>
    rw [hv] at valid
    cases valid

theorem build_of_name {b : Blueprint} (h : type ∈ Catalog.standard.types) (hb : b ∈ blueprints)
    (name : type.name = b.name) : b.build = .ok type := by
  obtain ⟨b', hb', hr⟩ := exists_blueprint h
  obtain ⟨name', -, -⟩ := Blueprint.build_eq_ok hr
  have nodup : (blueprints.map Blueprint.name).Nodup := by decide
  cases List.inj_on_of_nodup_map nodup hb hb' (name.symm.trans name')
  exact hr

end types

section domains

theorem ascending_iff {keys : List Single} :
    Interpolator.ascending keys ↔ keys.IsChain fun x y ↦ ¬y < x := by
  induction keys with
  | nil => exact iff_of_true rfl .nil
  | cons x keys ih =>
    cases keys with
    | nil => exact iff_of_true rfl (.singleton x)
    | cons y keys =>
      rw [Interpolator.ascending, Bool.and_eq_true, ih, List.isChain_cons_cons]
      exact and_congr_left' (by simp [LT.lt])

theorem checkEntries_eq_ok {least : Int} {a : Counted Int32} :
    checkEntries least (.ints a) = .ok () ↔ ∀ i ∈ a.toList, least ≤ i.toInt := by
  unfold checkEntries firstBelow?
  dsimp only [Value.asInts?, Option.getD_some]
  cases hk : a.toList.findIdx? fun i ↦ decide (i.toInt < least) with
  | none =>
    refine iff_of_true rfl fun i hi ↦ Int.not_lt.mp ?_
    exact of_decide_eq_false (List.findIdx?_eq_none_iff.mp hk i hi)
  | some k =>
    obtain ⟨hlt, below, -⟩ := List.findIdx?_eq_some_iff_getElem.mp hk
    rw [Option.bind_some, List.getElem?_eq_getElem hlt]
    refine iff_of_false nofun fun above ↦ ?_
    exact Int.not_lt.mpr (above _ (List.getElem_mem hlt)) (of_decide_eq_true below)

theorem guard_eq_ok {c : Prop} [Decidable c] {reason : String} {rest : Except String Unit} :
    (if c then .error reason else rest) = .ok () ↔ ¬c ∧ rest = .ok () := by
  by_cases hc : c
  · rw [if_pos hc]
    exact iff_of_false nofun fun h ↦ h.1 hc
  · rw [if_neg hc]
    exact (and_iff_right hc).symm

theorem of_guarded {α : Type} {named : Prop} {read : Option α} {a : α} {p : α → Bool}
    (h : ¬(named ∧ read.any fun a ↦ !p a)) (hn : named) (ha : read = some a) : p a := by
  simpa [hn, ha] using h

theorem exists_axis (h : transforming.Accepts d v) (hr : d.type = .single .rotation) :
    ∃ x y z angle, v.asFloats? = some [x, y, z, angle] ∧
      (squaredLength x y z).eqv 0 = false := by
  obtain ⟨valid, -⟩ := guard_eq_ok.mp (h 0 0)
  have axis : hasAxis v = true := by simpa [hr] using valid
  unfold hasAxis at axis
  split at axis
  · next x y z angle hv =>
    refine ⟨x, y, z, angle, ?_, by simpa using axis⟩
    exact (Option.filter_eq_some_iff.mp hv).1
  · cases axis

theorem inUnitRange_iff {x : Single} : inUnitRange x ↔ 0 ≤ x ∧ x ≤ 1 := by
  simp [inUnitRange, LE.le]

theorem of_ite_eq_ok {c : Prop} [Decidable c] {reason : String}
    (h : (if c then .ok () else .error reason : Except String Unit) = .ok ()) : c := by
  by_contra hc
  rw [if_neg hc] at h
  cases h

theorem intensities (h : bounded.Accepts d v) : (∀ x, v = .float x → 0 ≤ x ∧ x ≤ 1) ∧
    ∀ a, v = .floats a → ∀ x ∈ a.toList, 0 ≤ x ∧ x ≤ 1 := by
  have valid := of_ite_eq_ok (h 0 0)
  constructor
  · rintro x rfl
    exact inUnitRange_iff.mp valid
  · rintro a rfl x hx
    exact inUnitRange_iff.mp (List.all_eq_true.mp valid x hx)

theorem radius_pos {r : Single} (h : primitive.Accepts d (.float r)) (hd : d.name = "radius") :
    0 < r := by
  obtain ⟨valid, -⟩ := guard_eq_ok.mp (h 0 0)
  exact of_guarded valid hd rfl

theorem size_pos (h : primitive.Accepts d v) (hd : d.name = "size") {cs : List Single}
    (hv : v.asTuple? 3 = some cs) : ∀ c ∈ cs, 0 < c := by
  obtain ⟨-, rest⟩ := guard_eq_ok.mp (h 0 0)
  obtain ⟨valid, -⟩ := guard_eq_ok.mp rest
  have above : ∀ c ∈ cs, (0 : Single).lt c = true := by simpa [hd, hv] using valid
  exact above

theorem vertexCount_ge {a : Counted Int32} (h : indexed.Accepts d (.ints a))
    (hd : d.name = "vertexCount") : ∀ i ∈ a.toList, 2 ≤ i.toInt := by
  have valid : checkEntries 2 (.ints a) = .ok () := (if_pos hd).symm.trans (h 0 0)
  exact checkEntries_eq_ok.mp valid

theorem coordIndex_ge {a : Counted Int32} (h : indexed.Accepts d (.ints a))
    (hd : d.name = "coordIndex" ∨ d.name = "set_coordIndex") : ∀ i ∈ a.toList, -1 ≤ i.toInt := by
  have vertex : d.name ≠ "vertexCount" := by
    rcases hd with hd | hd <;> rw [hd] <;> decide
  have rest := (if_neg vertex).symm.trans (h 0 0)
  have valid : checkEntries (-1) (.ints a) = .ok () := (if_pos hd).symm.trans rest
  exact checkEntries_eq_ok.mp valid

theorem indexOf?_set_coordIndex :
    FieldTable.indexOf? ⟨indexedFaceSet.declarations⟩ "set_coordIndex" = some 3 := by decide

theorem indexOf?_coordIndex :
    FieldTable.indexOf? ⟨indexedFaceSet.declarations⟩ "coordIndex" = some 5 := by decide

theorem creaseAngle_nonneg {x : Single} (h : indexed.Accepts d (.float x))
    (hd : d.name = "creaseAngle") : 0 ≤ x := by
  have vertex : d.name ≠ "vertexCount" := by
    rw [hd]
    decide
  have coord : ¬(d.name = "coordIndex" ∨ d.name = "set_coordIndex") := by
    rw [hd]
    decide
  have rest := (if_neg coord).symm.trans ((if_neg vertex).symm.trans (h 0 0))
  obtain ⟨valid, -⟩ := guard_eq_ok.mp rest
  exact of_guarded valid hd rfl

theorem cycleInterval_pos {c : Double} (h : TimeSensor.behavior.Accepts d (.double c))
    (hd : d.name = "cycleInterval") : 0 < c := by
  obtain ⟨valid, -⟩ := guard_eq_ok.mp (h 0 0)
  exact of_guarded valid hd rfl

theorem keys_ascend {a : Counted Single} (h : Interpolator.behavior.Accepts d (.floats a))
    (hd : d.name = "key") : a.toList.IsChain fun x y ↦ ¬y < x := by
  obtain ⟨valid, -⟩ := guard_eq_ok.mp (h 0 0)
  exact ascending_iff.mp (of_guarded valid hd rfl)

section shapes

theorem exists_float (h : v.kind = ⟨false, .float⟩) : ∃ x, v = .float x := by
  cases v <;> cases h
  exact ⟨_, rfl⟩

theorem exists_double (h : v.kind = ⟨false, .double⟩) : ∃ x, v = .double x := by
  cases v <;> cases h
  exact ⟨_, rfl⟩

theorem exists_ints (h : v.kind = ⟨true, .int32⟩) : ∃ a, v = .ints a := by
  cases v <;> cases h
  exact ⟨_, rfl⟩

theorem exists_floats (h : v.kind = ⟨true, .float⟩) : ∃ a, v = .floats a := by
  cases v <;> cases h
  exact ⟨_, rfl⟩

end shapes

/-- The domains that the fields of the standard types have beside their shapes. -/
structure InDomain (type : NodeType) (d : Declaration) (v : Value) : Prop where
  rotation : type.name = "Transform" → d.type = .single .rotation → ∃ x y z angle,
    v.asFloats? = some [x, y, z, angle] ∧ (squaredLength x y z).eqv 0 = false
  intensity : type.name = "Material" → (∀ x, v = .float x → 0 ≤ x ∧ x ≤ 1) ∧
    ∀ a, v = .floats a → ∀ x ∈ a.toList, 0 ≤ x ∧ x ≤ 1
  radius : type.name = "Sphere" → d.name = "radius" → ∃ r, v = .float r ∧ 0 < r
  size : type.name = "Box" → d.name = "size" → ∃ x y z,
    v.asFloats? = some [x, y, z] ∧ 0 < x ∧ 0 < y ∧ 0 < z
  vertexCount : type.name = "LineSet" → d.name = "vertexCount" → ∃ a,
    v = .ints a ∧ ∀ i ∈ a.toList, 2 ≤ i.toInt
  coordIndex : type.name = "IndexedFaceSet" → d.name = "coordIndex" ∨ d.name = "set_coordIndex" →
    ∃ a, v = .ints a ∧ ∀ i ∈ a.toList, -1 ≤ i.toInt
  creaseAngle : type.name = "IndexedFaceSet" → d.name = "creaseAngle" → ∃ x, v = .float x ∧ 0 ≤ x
  cycleInterval : type.name = "TimeSensor" → d.name = "cycleInterval" → ∃ c, v = .double c ∧ 0 < c
  key : type.name = "ScalarInterpolator" ∨ type.name = "PositionInterpolator" → d.name = "key" →
    ∃ a, v = .floats a ∧ a.toList.IsChain fun x y ↦ ¬y < x

variable {b : Blueprint} {owner field : String} {kind : FieldType}

theorem accepts_of_name (h : type ∈ Catalog.standard.types) (accepted : type.behavior.Accepts d v)
    (hb : b ∈ blueprints) (name : type.name = b.name) : b.behavior.Accepts d v :=
  (Blueprint.build_eq_ok (build_of_name h hb name)).2.2 ▸ accepted

theorem type_of_name (h : type ∈ Catalog.standard.types) (hd : d ∈ type.table.declarations)
    (hb : b ∈ blueprints) (name : type.name = b.name) (hn : d.name = field)
    (typed : ∀ d ∈ b.declarations, d.name = field → d.type = kind) : d.type = kind :=
  typed d ((Blueprint.build_eq_ok (build_of_name h hb name)).2.1 ▸ hd) hn

theorem InDomain.of_accepts (h : type ∈ Catalog.standard.types)
    (hd : d ∈ type.table.declarations) (fits : d.checkShape owner v = .ok ())
    (accepted : type.behavior.Accepts d v) : InDomain type d v where
  rotation name hr :=
    exists_axis (accepts_of_name (b := transform) h accepted (by simp [blueprints]) name) hr
  intensity name :=
    intensities (accepts_of_name (b := material) h accepted (by simp [blueprints]) name)
  radius name hn := by
    have known : sphere ∈ blueprints := by simp [blueprints]
    have typed : d.type = .single .float := type_of_name h hd known name hn (by decide)
    obtain ⟨r, rfl⟩ := exists_float (typed ▸ (Declaration.checkShape_iff.mp fits).1)
    exact ⟨r, rfl, radius_pos (accepts_of_name h accepted known name) hn⟩
  size name hn := by
    have known : box ∈ blueprints := by simp [blueprints]
    have typed : d.type = .single .vec3f := type_of_name h hd known name hn (by decide)
    obtain ⟨kind, tuple, -⟩ := Declaration.checkShape_iff.mp fits
    rw [typed] at kind tuple
    obtain ⟨a, rfl⟩ := exists_floats kind
    obtain ⟨x, y, z, he⟩ := List.length_eq_three.mp ((Counted.length_toList a).trans (tuple rfl))
    have positive := size_pos (accepts_of_name h accepted known name) hn
      (show (Value.floats a).asTuple? 3 = some a.toList by
        simp [Value.asTuple?, Value.asFloats?, he])
    simp only [he, List.forall_mem_cons] at positive
    exact ⟨x, y, z, congrArg some he, positive.1, positive.2.1, positive.2.2.1⟩
  vertexCount name hn := by
    have known : lineSet ∈ blueprints := by simp [blueprints]
    have typed : d.type = .multi .int32 := type_of_name h hd known name hn (by decide)
    obtain ⟨a, rfl⟩ := exists_ints (typed ▸ (Declaration.checkShape_iff.mp fits).1)
    exact ⟨a, rfl, vertexCount_ge (accepts_of_name h accepted known name) hn⟩
  coordIndex name hn := by
    have known : indexedFaceSet ∈ blueprints := by simp [blueprints]
    have typed : d.type = .multi .int32 := by
      rcases hn with hn | hn <;> exact type_of_name h hd known name hn (by decide)
    obtain ⟨a, rfl⟩ := exists_ints (typed ▸ (Declaration.checkShape_iff.mp fits).1)
    exact ⟨a, rfl, coordIndex_ge (accepts_of_name h accepted known name) hn⟩
  creaseAngle name hn := by
    have known : indexedFaceSet ∈ blueprints := by simp [blueprints]
    have typed : d.type = .single .float := type_of_name h hd known name hn (by decide)
    obtain ⟨x, rfl⟩ := exists_float (typed ▸ (Declaration.checkShape_iff.mp fits).1)
    exact ⟨x, rfl, creaseAngle_nonneg (accepts_of_name h accepted known name) hn⟩
  cycleInterval name hn := by
    have known : timeSensor ∈ blueprints := by simp [blueprints]
    have typed : d.type = .single .time := type_of_name h hd known name hn (by decide)
    obtain ⟨c, rfl⟩ := exists_double (typed ▸ (Declaration.checkShape_iff.mp fits).1)
    exact ⟨c, rfl, cycleInterval_pos (accepts_of_name h accepted known name) hn⟩
  key name hn := by
    have scalar : scalarInterpolator ∈ blueprints := by simp [blueprints]
    have position : positionInterpolator ∈ blueprints := by simp [blueprints]
    have accepts : Interpolator.behavior.Accepts d v :=
      name.elim (accepts_of_name h accepted scalar) (accepts_of_name h accepted position)
    have typed : d.type = .multi .float := by
      rcases name with name | name
      · exact type_of_name h hd scalar name hn (by decide)
      · exact type_of_name h hd position name hn (by decide)
    obtain ⟨a, rfl⟩ := exists_floats (typed ▸ (Declaration.checkShape_iff.mp fits).1)
    exact ⟨a, rfl, keys_ascend accepts hn⟩

end domains

/-- A time sensor takes its interval from the field of that name. -/
theorem interval_ofView {view : NodeView} {c : Double}
    (declared : view.table.declarations = timeSensor.declarations)
    (hv : view.values[3]? = some (.double c)) : (TimeSensor.Timing.ofView view).interval = c := by
  have index : view.table.indexOf? "cycleInterval" = some 3 := by
    rw [FieldTable.indexOf?, declared]
    decide
  have found : view.named? "cycleInterval" = some (.double c) := by
    rw [NodeView.named?, index]
    exact hv
  change TimeSensor.doubleField view "cycleInterval" = c
  rw [TimeSensor.doubleField, found]
  rfl

end Standard

namespace Scene

open Standard (InDomain)
open Standard.TimeSensor (Timing)

variable {s t : Scene} {id : NodeId} {n : Node}

/-- In the midst of operations as between them, nodes of the standard types have values that their
behaviors accept, so that the interval of a time sensor is never found to be zero or less. -/
theorem Reachable.in_domains (h : s.Reachable)
    (standard : ∀ type ∈ s.catalog.types, type ∈ Catalog.standard.types) (passes : Passes s t)
    (hn : t.node? id = some n) :
    (∀ {i d}, n.type.table.get? i = some d → ∃ v, n.values[i]? = some v ∧
      (∀ issued, n.type.behavior.validate issued i d v = .ok ()) ∧ InDomain n.type d v) ∧
    (n.type.name = "TimeSensor" → (Timing.ofView (t.viewOf id n)).interval.le 0 = false) := by
  have met := h.met.passes passes
  rw [← Passes.catalog passes] at standard
  obtain ⟨known, approved⟩ :=
    met.approves (fun type ht ↦ Standard.restrained_of_mem (standard type ht)) hn
  have furnished := Node.Furnished.of_sound (met.sound hn)
  have values {i d} (hd : n.type.table.get? i = some d) : ∃ v, n.values[i]? = some v ∧
      (∀ issued, n.type.behavior.validate issued i d v = .ok ()) ∧ InDomain n.type d v := by
    obtain ⟨v, hv, fits⟩ := furnished.shape hd
    have accepted := approved i d v hd hv
    exact ⟨v, hv, fun issued ↦ accepted issued i,
      .of_accepts (standard _ known) (List.mem_of_getElem? hd) fits accepted⟩
  refine ⟨values, fun name ↦ ?_⟩
  have build := Standard.build_of_name (b := Standard.timeSensor) (standard _ known)
    (by simp [Standard.blueprints]) name
  obtain ⟨-, declared, -⟩ := Blueprint.build_eq_ok build
  have field : n.type.table.get? 3 =
      some ⟨.exposed, .single .time, "cycleInterval", .double 1⟩ := by
    rw [FieldTable.get?, declared]
    rfl
  obtain ⟨v, hv, -, domain⟩ := values field
  obtain ⟨c, rfl, positive⟩ := domain.cycleInterval name rfl
  rw [Standard.interval_ofView declared hv]
  exact Bool.eq_false_iff.mpr (Binary.not_le_of_lt positive)

def faceSet : NodeType :=
  ⟨"IndexedFaceSet", ⟨Standard.indexedFaceSet.declarations⟩, [.metadata], .bytes, Standard.indexed⟩

def clock : NodeType :=
  ⟨"TimeSensor", ⟨Standard.timeSensor.declarations⟩, [.metadata, .sensor], .bytes,
    Standard.TimeSensor.behavior⟩

theorem standard_meshing : ∀ t ∈ [faceSet, clock], t ∈ Catalog.standard.types := by
  simp only [List.forall_mem_cons]
  exact ⟨List.mem_filterMap.mpr ⟨Standard.indexedFaceSet, by simp [Standard.blueprints], rfl⟩,
    List.mem_filterMap.mpr ⟨Standard.timeSensor, by simp [Standard.blueprints], rfl⟩,
    List.forall_mem_nil _⟩

theorem reachable_meshing (ops : List Operation) :
    (ops.foldl Operation.run (start ⟨[faceSet, clock]⟩ {})).Reachable := by
  have built : ∀ t ∈ [faceSet, clock], t.Built := fun t ht ↦
    Standard.built_of_mem (standard_meshing t ht)
  have made : Scene.new ⟨[faceSet, clock]⟩ {} = .ok (start ⟨[faceSet, clock]⟩ {}) := rfl
  exact ((Story.new built made).trail ops).reachable

/-- A face set gets new indices, and there is a clock. -/
def meshing : List Operation :=
  [.createNode .main "IndexedFaceSet", .finishSetup (.issued 0),
    .setValue (.issued 0) 3 (.ofInts [0, 1, -1]), .createNode .main "TimeSensor",
    .finishSetup (.issued 1)]

def meshed : Scene := meshing.foldl Operation.run (start ⟨[faceSet, clock]⟩ {})

theorem in_domains_meshed : ∃ (n m : Node) (a : Counted Int32), meshed.node? (.issued 0) = some n ∧
    n.values[5]? = some (.ints a) ∧ a.toList = [0, 1, -1] ∧
    (∀ i ∈ a.toList, -1 ≤ i.toInt) ∧
    meshed.node? (.issued 1) = some m ∧
    (Timing.ofView (meshed.viewOf (.issued 1) m)).interval.le 0 = false := by
  have new := reachable_meshing []
  have standard := standard_meshing
  have passes : Passes (start ⟨[faceSet, clock]⟩ {}) meshed := new.coherent.passes_foldl meshing
  have faces : (meshed.node? (.issued 0)).map (fun n ↦ (n.type.name,
      (n.type.table.get? 5).map Declaration.name, (n.values[5]?).bind Value.asInts?)) =
        some ("IndexedFaceSet", some "coordIndex", some [0, 1, -1]) := by decide +kernel
  have ticker : (meshed.node? (.issued 1)).map (·.type.name) = some "TimeSensor" := by
    decide +kernel
  obtain ⟨n, hn, he⟩ := Option.map_eq_some_iff.mp faces
  obtain ⟨m, hm, ticker⟩ := Option.map_eq_some_iff.mp ticker
  obtain ⟨name, field, ints⟩ : n.type.name = "IndexedFaceSet" ∧
      (n.type.table.get? 5).map Declaration.name = some "coordIndex" ∧
      (n.values[5]?).bind Value.asInts? = some [0, 1, -1] := by simpa using he
  obtain ⟨d, hd, coordIndex⟩ := Option.map_eq_some_iff.mp field
  obtain ⟨v, hv, -, domain⟩ := (new.in_domains standard passes hn).1 hd
  obtain ⟨a, rfl, above⟩ := domain.coordIndex name (.inl coordIndex)
  rw [hv] at ints
  exact ⟨n, m, a, hn, hv, Option.some.inj ints, above, hm,
    (new.in_domains standard passes hm).2 ticker⟩

end Scene

end SceneGraph
