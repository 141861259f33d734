import SceneGraph.Proofs.Interpolating

/-!
Outputs that are taken.

A script that writes what its field cannot hold would only leave a note and go on. The scripts of the
standard types never do: they write to fields they have, and what they write has the shape of the
field, whatever the node holds by then. An interpolator looks no further than its lists of keys and
key values go, of whatever lengths these are.
-/

namespace SceneGraph

open Standard

section scripts

variable {t : FieldTable} {script : Script} {v : NodeView} {a : Activation}

namespace Script

/-- The writes that a script tries, each with the answer it gets. -/
def attempts : Script → Activation → List (Output × Except Error Unit)
  | .done, _ => []
  | .look next, a => attempts (next a.view) a
  | .act o next, a =>
    let answer := (Activation.host.act a o).2
    (o, answer) :: attempts (next answer) (Activation.host.act a o).1
  | .note text next, a => attempts next (Activation.host.note a text)

/-- Each write of the script is taken, and nothing is noted. -/
structure Taken (script : Script) (a : Activation) : Prop where
  attempts : ∀ w ∈ script.attempts a, w.2 = .ok ()
  notes : (script.run Activation.host a).notes = a.notes

/-- The script publishes what the fields take, whatever a node with the fields `t` holds. -/
inductive Fitting (t : FieldTable) : Script → Prop
  | done : Fitting t .done
  | look {next : NodeView → Script}
      (h : ∀ v, v.table = t → t.Holds v.values → Fitting t (next v)) : Fitting t (.look next)
  | publish {name : String} {value : Value} {next : Script}
      (fits : TimeSensor.Fits t (name, value)) (h : Fitting t next) :
      Fitting t (publish name value next)

theorem Fitting.taken (h : Fitting v.table script) (ha : Activation.Faithful v a) :
    script.Taken a := by
  induction h generalizing a with
  | done => exact ⟨List.forall_mem_nil _, rfl⟩
  | look _ ih =>
    have looked := ih a.view ha.table ha.holds ha
    exact ⟨looked.attempts, looked.notes⟩
  | @publish name value next fits _ ih =>
    obtain ⟨i, d, hi, hd, shape⟩ := fits
    rw [← ha.table] at hi hd
    obtain ⟨b, written, kept⟩ : ∃ b, a.write ⟨.name name, value⟩ = .ok b ∧ b.notes = a.notes :=
      ⟨_, TimeSensor.write_of_fits hi hd shape, rfl⟩
    have onward := ih (ha.write written)
    have answered : Activation.host.act a ⟨.name name, value⟩ = (b, .ok ()) := by
      simp only [Activation.host, written]
    constructor
    · rw [Script.publish, Script.attempts, answered]
      exact List.forall_mem_cons.mpr ⟨rfl, onward.attempts⟩
    · rw [Script.publish, Program.run, answered]
      exact onward.notes.trans kept

end Script

/-- Whatever a node holds, the scripts of its behavior publish what its fields take. -/
structure Behavior.Fitting (b : Behavior) (t : FieldTable) : Prop where
  fieldChanged : ∀ index, Script.Fitting t (b.fieldChanged index)
  tick : Script.Fitting t b.tick
  setupFinished : Script.Fitting t b.setupFinished

theorem Scene.Cued.fitting {n : Node} {b : Behavior} {script : Behavior → Script}
    (h : Scene.Cued n script) (hb : b.Fitting t) : Script.Fitting t (script b) := by
  cases h with
  | tick => exact hb.tick
  | fieldChanged index => exact hb.fieldChanged index
  | setupFinished => exact hb.setupFinished

end scripts

namespace Standard

variable {t : FieldTable} {d : Declaration} {value : Value} {type : NodeType}

theorem fitting_passive : Behavior.passive.Fitting t := ⟨fun _ ↦ .done, .done, .done⟩

theorem fitting_toggling : toggling.Fitting ⟨booleanToggle.declarations⟩ where
  fieldChanged index := .look fun v ht _ ↦ by
    have output : FieldTable.indexOf? ⟨booleanToggle.declarations⟩ "toggle" = some 2 := by decide
    split
    · exact .publish ⟨2, _, output, rfl, rfl⟩ .done
    · exact .done
  tick := .done
  setupFinished := .done

theorem fitting_publishAll {outputs : List (String × Value)}
    (h : ∀ o ∈ outputs, TimeSensor.Fits t o) :
    Script.Fitting t (TimeSensor.publishAll outputs) := by
  induction outputs with
  | nil => exact .done
  | cons o outputs ih =>
    obtain ⟨first, rest⟩ := List.forall_mem_cons.mp h
    exact .publish first (ih rest)

theorem fitting_timeSensor : TimeSensor.behavior.Fitting TimeSensor.fields where
  fieldChanged index := .look fun v _ _ ↦ fitting_publishAll fun o ho ↦ by
    unfold TimeSensor.switched at ho
    split at ho
    · cases List.mem_singleton.mp ho
      exact TimeSensor.fits_isActive false
    · cases ho
  tick := .look fun v _ _ ↦ fitting_publishAll TimeSensor.fits_outputs
  setupFinished := .done

theorem fitting_lineSet : indexed.Fitting ⟨lineSet.declarations⟩ where
  fieldChanged index := .look fun v ht _ ↦ by
    have none : v.table.indexOf? "set_coordIndex" = none := by
      rw [ht]
      decide
    rw [if_neg fun h ↦ by cases none.symm.trans h.1]
    exact .done
  tick := .done
  setupFinished := .done

/-- An index list that was written fits the field behind its input. -/
theorem fitting_indexedFaceSet : indexed.Fitting ⟨indexedFaceSet.declarations⟩ where
  fieldChanged index := .look fun v ht hv ↦ by
    split
    · next hi =>
      rw [ht, indexOf?_set_coordIndex] at hi
      cases hi.1
      split
      · next x hx =>
        have shape : (Declaration.mk .eventIn (.multi .int32) "set_coordIndex"
            (.ofType (.multi .int32))).shapeFault? x = none := hv.shape rfl hx
        exact .publish ⟨5, _, indexOf?_coordIndex, rfl, shape⟩ .done
      · exact .done
    · exact .done
  tick := .done
  setupFinished := .done

namespace Interpolator

variable {keys values r : List Single} {width i : Nat} {x : Single}

section reach

/-- The part of a list from one position to before another, if the list goes that far. -/
def slice? (l : List Single) (start stop : Nat) : Option (List Single) :=
  if start ≤ stop ∧ stop ≤ l.length then some ((l.drop start).take (stop - start)) else none

/-- Interpolation by positions in the lists. There is nothing where a position is past the end of a
list, and else the answer. -/
def interpolateWithin (keys values : List Single) (width : Nat) (x : Single) :
    Option (Option (List Single)) :=
  let n := min keys.length (values.length / max width 1)
  let row? (i : Nat) := slice? values (i * width) ((i + 1) * width)
  if n = 0 then some none
  else do
    let first ← keys[0]?
    if x.le first then (row? 0).map some
    else
      let last ← keys[n - 1]?
      if last.le x then (row? (n - 1)).map some
      else
        let used ← slice? keys 0 n
        match (used.zip used.tail).findIdx? fun w ↦ w.1.le x && x.lt w.2 with
        | none => some none
        | some i =>
          let a ← keys[i]?
          let b ← keys[i + 1]?
          let span := b - a
          let s := if (0 : Single).lt span then (x - a) / span else 0
          let lower ← row? i
          let upper ← row? (i + 1)
          some (some (List.zipWith (blend s) lower upper))

theorem slice?_row (h : (i + 1) * width ≤ values.length) :
    slice? values (i * width) ((i + 1) * width) = some (row values width i) := by
  have size : (i + 1) * width - i * width = width := by
    rw [Nat.succ_mul, Nat.add_sub_cancel_left]
  rw [slice?, if_pos ⟨Nat.mul_le_mul_right _ (Nat.le_succ i), h⟩, size, row]

theorem row_inside (hi : i < (used keys values width).length) :
    (i + 1) * width ≤ values.length := by
  rw [used, List.length_take] at hi
  exact Nat.mul_le_of_le_div _ _ _ (by omega)

/-- The first pair of neighbors around `x` by its position. -/
theorem segment?_eq_findIdx? (keys : List Single) (x : Single) : segment? x keys =
    ((keys.zip keys.tail).findIdx? fun w ↦ w.1.le x && x.lt w.2).bind fun i ↦
      keys[i]?.bind fun a ↦ keys[i + 1]?.map fun b ↦ (i, a, b) := by
  induction keys with
  | nil => rfl
  | cons k keys ih =>
    cases keys with
    | nil => rfl
    | cons l keys =>
      rw [segment?, ih]
      simp only [List.tail_cons, List.zip_cons_cons, List.findIdx?_cons]
      split
      · rfl
      · cases ((l :: keys).zip keys).findIdx? fun w ↦ w.1.le x && x.lt w.2 with
        | none => rfl
        | some i => simp [Option.map_bind, Function.comp_def]

/-- Interpolation does not reach past the ends of its lists. -/
theorem interpolateWithin_eq (hw : 0 < width) :
    interpolateWithin keys values width x = some (interpolate keys values width x) := by
  have count : min keys.length (values.length / max width 1) = (used keys values width).length := by
    rw [used, List.length_take, Nat.max_eq_left hw, Nat.min_comm]
  have same : keys.take (values.length / max width 1) = used keys values width := by
    rw [used, Nat.max_eq_left hw]
  have there {i : Nat} (hi : i < (used keys values width).length) :
      keys[i]? = (used keys values width)[i]? := by
    rw [used, List.length_take] at hi
    rw [used, List.getElem?_take_of_lt (by omega)]
  have rows {i : Nat} (hi : i < (used keys values width).length) :
      slice? values (i * width) ((i + 1) * width) = some (row values width i) :=
    slice?_row (row_inside hi)
  have whole : slice? keys 0 (used keys values width).length = some (used keys values width) := by
    rw [slice?, if_pos ⟨Nat.zero_le _, by rw [used, List.length_take]; omega⟩, List.drop_zero,
      Nat.sub_zero, used, List.length_take, ← List.take_eq_take_min]
  unfold interpolateWithin interpolate
  simp only [count, same, segment?_eq_findIdx?]
  generalize used keys values width = us at *
  by_cases hz : us.length = 0
  · rw [if_pos hz, List.eq_nil_of_length_eq_zero hz]
    rfl
  have start : 0 < us.length := Nat.pos_of_ne_zero hz
  have stop : us.length - 1 < us.length := Nat.sub_one_lt hz
  rw [if_neg hz, there start, there stop, List.head?_eq_getElem?, List.getLast?_eq_getElem?,
    List.getElem?_eq_getElem start, List.getElem?_eq_getElem stop, whole]
  simp only [Option.bind_eq_bind, Option.bind_some]
  split
  · rw [rows start, Option.map_some]
  split
  · rw [rows stop, Option.map_some]
  cases found : (us.zip us.tail).findIdx? fun w ↦ w.1.le x && x.lt w.2 with
  | none => rfl
  | some i =>
    have upper : i + 1 < us.length := by
      have inside := (List.findIdx?_eq_some_iff_getElem.mp found).1
      rw [List.length_zip, List.length_tail] at inside
      omega
    have lower : i < us.length := Nat.lt_of_succ_lt upper
    simp only [Option.bind_some, there lower, there upper, rows lower, rows upper,
      List.getElem?_eq_getElem lower, List.getElem?_eq_getElem upper]
    rfl

/-- An answer has the width that was asked for. -/
theorem length_interpolate (hw : 0 < width) (h : interpolate keys values width x = some r) :
    r.length = width := by
  by_cases hu : used keys values width = []
  · have same : keys.take (values.length / max width 1) = [] := by
      rw [Nat.max_eq_left hw]
      exact hu
    rw [interpolate, same] at h
    cases h
  · exact (h ▸ interpolate_answers hw hu).length

end reach

/-- The answer of an interpolator fits its output, from which the width of rows is guessed. -/
theorem fits_answer {v : NodeView} (laid : Laid v.table width) (hv : v.table.Holds v.values)
    {value : Value} (answer : answer? v 1 4 = some value) :
    TimeSensor.Fits v.table ("value_changed", value) := by
  obtain ⟨d, hd, typed⟩ := laid.output
  obtain ⟨input, hi, -, -, float⟩ := laid.input
  obtain ⟨old, ho⟩ := hv.exists_value (FieldTable.lt_size_of_get? hd)
  obtain ⟨fraction, hf⟩ := hv.exists_value (FieldTable.lt_size_of_get? hi)
  have fits : input.checkShape "" fraction = .ok () :=
    Declaration.checkShape_eq_ok.mpr (hv.shape hi hf)
  have kind := (Declaration.checkShape_iff.mp fits).1
  obtain ⟨x, rfl⟩ := exists_float (kind.trans (congrArg FieldType.kind float))
  have pos : 0 < width := by
    rcases typed with ⟨rfl, -⟩ | ⟨rfl, -⟩ <;> decide
  rw [answer?_eq typed ho (hv.shape hd ho) hf rfl rfl fun r ↦ length_interpolate pos] at answer
  obtain ⟨r, hr, rfl⟩ := Option.map_eq_some_iff.mp answer
  exact ⟨4, d, laid.value, hd, fits_carrier typed (length_interpolate pos hr)⟩

theorem fitting (laid : Laid t width) : behavior.Fitting t where
  fieldChanged index := .look fun v ht hv ↦ by
    subst ht
    split
    · next hi =>
      cases laid.fraction.symm.trans hi
      rw [laid.value, Option.bind_some]
      split
      · next value answer => exact .publish (fits_answer laid hv answer) .done
      · exact .done
    · exact .done
  tick := .done
  setupFinished := .done

end Interpolator

theorem fitting_behavior : ∀ b ∈ blueprints, b.behavior.Fitting ⟨b.declarations⟩ := by
  have quiet {b : Behavior} {t : FieldTable} (fieldChanged : ∀ index, b.fieldChanged index = .done)
      (tick : b.tick = .done) (setupFinished : b.setupFinished = .done) : b.Fitting t :=
    ⟨fun index ↦ fieldChanged index ▸ .done, tick ▸ .done, setupFinished ▸ .done⟩
  simp only [blueprints, List.forall_mem_cons]
  exact ⟨fitting_passive, quiet (fun _ ↦ rfl) rfl rfl, fitting_passive, fitting_passive,
    quiet (fun _ ↦ rfl) rfl rfl, quiet (fun _ ↦ rfl) rfl rfl, quiet (fun _ ↦ rfl) rfl rfl,
    fitting_lineSet, fitting_indexedFaceSet, fitting_passive, fitting_passive, fitting_passive,
    fitting_timeSensor, Interpolator.fitting Interpolator.laid_scalar,
    Interpolator.fitting Interpolator.laid_position, fitting_toggling, fitting_passive,
    fitting_passive, List.forall_mem_nil _⟩

/-- The scripts of the standard types publish what the fields take. -/
theorem fitting_of_mem (h : type ∈ Catalog.standard.types) : type.behavior.Fitting type.table := by
  obtain ⟨b, hb, built⟩ := exists_blueprint h
  obtain ⟨-, declarations, behavior⟩ := Blueprint.build_eq_ok built
  have table : type.table = ⟨b.declarations⟩ := congrArg FieldTable.mk declarations
  rw [behavior, table]
  exact fitting_behavior b hb

end Standard

namespace Scene

open Standard.Interpolator

variable {s t : Scene} {id : NodeId} {n : Node} {script : Behavior → Script}

/-- A script without notes only announces what it wrote. -/
theorem journal_perform_of_taken (hn : s.node? id = some n)
    (h : (script n.type.behavior).Taken { view := s.viewOf id n }) :
    ∃ js, (s.perform id script).journal = s.journal ++ js ∧
      ∀ e ∈ js, ∃ index, e = .event (.fieldChanged id index) := by
  have silent : ((script n.type.behavior).perform (s.viewOf id n)).notes = [] := h.notes
  unfold Scene.perform
  simp only [hn, silent]
  generalize (script n.type.behavior).perform (s.viewOf id n) = a
  split
  · exact ⟨[], congrArg (· ++ _) (journal_modifyNode ..), List.forall_mem_nil _⟩
  · refine ⟨a.outputs.map fun i ↦ .event (.fieldChanged id i), ?_, fun e he ↦ ?_⟩
    · refine (journal_markAll ..).trans (congrArg (· ++ _) ?_)
      exact (congrArg (· ++ _) (journal_modifyNode ..)).trans (List.append_nil _)
    · obtain ⟨index, -, rfl⟩ := List.mem_map.mp he
      exact ⟨index, rfl⟩

/-- In the midst of operations as between them, every write that a script of the standard types
makes to its node is taken, so that nothing is logged but the changes. Interpolation finds all the
positions it looks at, and its answer has the width that was asked for. -/
theorem outputs_taken :
    (∀ s t id n script, Reachable s → (∀ type ∈ s.catalog.types, type ∈ Catalog.standard.types) →
      Passes s t → t.node? id = some n → Cued n script →
        (script n.type.behavior).Taken { view := t.viewOf id n } ∧
        ∃ js, (t.perform id script).journal = t.journal ++ js ∧
          ∀ e ∈ js, ∃ index, e = .event (.fieldChanged id index)) ∧
    ∀ keys values width x, 0 < width →
      interpolateWithin keys values width x = some (interpolate keys values width x) ∧
      ∀ r, interpolate keys values width x = some r → r.length = width := by
  refine ⟨fun s t id n script h standard passes hn cue ↦ ?_, fun keys values width x hw ↦
    ⟨interpolateWithin_eq hw, fun r ↦ length_interpolate hw⟩⟩
  have met := h.met.passes passes
  rw [← Passes.catalog passes] at standard
  have fitting := cue.fitting (Standard.fitting_of_mem (standard _ (met.type_mem hn)))
  have taken : (script n.type.behavior).Taken { view := t.viewOf id n } :=
    fitting.taken ⟨rfl, rfl, (met.sound hn).values, List.forall_mem_nil _, List.nodup_nil⟩
  exact ⟨taken, journal_perform_of_taken hn taken⟩

/-- A face set hands on the indices it was given. There are two keys with key values, in twos. -/
theorem outputs_taken_meshed : (∃ n, meshed.node? (.issued 0) = some n ∧
      ((n.type.behavior.fieldChanged 3).attempts { view := meshed.viewOf (.issued 0) n }).map
        (fun w ↦ (w.1.target, w.1.value.asInts?)) = [(.name "coordIndex", some [0, 1, -1])] ∧
      (n.type.behavior.fieldChanged 3).Taken { view := meshed.viewOf (.issued 0) n }) ∧
    interpolateWithin [0, 1, 2] [1, 2, 4, 8, 16] 2 0.5 = some (some [2.5, 5]) := by
  have passes : Passes (start ⟨[faceSet, clock]⟩ {}) meshed :=
    (reachable_meshing []).coherent.passes_foldl meshing
  have tried : (meshed.node? (.issued 0)).map (fun n ↦
      ((n.type.behavior.fieldChanged 3).attempts { view := meshed.viewOf (.issued 0) n }).map
        fun w ↦ (w.1.target, w.1.value.asInts?)) =
          some [(.name "coordIndex", some [0, 1, -1])] := by
    decide +kernel
  obtain ⟨n, hn, he⟩ := Option.map_eq_some_iff.mp tried
  have answer : interpolate [0, 1, 2] [1, 2, 4, 8, 16] 2 0.5 = some [2.5, 5] := by decide +kernel
  refine ⟨⟨n, hn, he, ?_⟩, ?_⟩
  · exact (outputs_taken.1 _ _ _ n _ (reachable_meshing []) standard_meshing passes hn
      (.fieldChanged 3)).1
  · exact (outputs_taken.2 _ _ 2 _ (by decide)).1.trans (congrArg some answer)

end Scene

end SceneGraph
