import SceneGraph.Proofs.Domains
import SceneGraph.Proofs.Publishing
import SceneGraph.Proofs.Striding

/-!
Time sensors.

A tick leaves a time sensor active just if its time has come and it was not stopped and did not run
out. A sensor that is switched off is not active.
-/

namespace SceneGraph

namespace Standard.TimeSensor

variable {t : Timing} {v : NodeView} {outputs : List (String × Value)} {a : Activation}

/-- A sensor is active from its start on, before it is stopped, and for one cycle unless it loops.
A stop that is not after the start does not count. -/
theorem Timing.active_iff : t.active ↔ t.start ≤ t.now ∧ (t.stop ≤ t.start ∨ t.now < t.stop) ∧
    (t.loop ∨ t.now - t.start < t.interval) := by
  simp only [active, beforeStop, elapsed, Bool.and_eq_true, Bool.or_eq_true, and_assoc]
  rfl

section publishing

/-- The node has a field by the name of the output, and it takes the value. -/
def Fits (table : FieldTable) (o : String × Value) : Prop :=
  ∃ i d, table.indexOf? o.1 = some i ∧ table.get? i = some d ∧ d.shapeFault? o.2 = none

/-- The positions that outputs go to, each with its value. -/
def placed (table : FieldTable) (outputs : List (String × Value)) : List (Nat × Value) :=
  outputs.filterMap fun o ↦ (table.indexOf? o.1).map fun i ↦ (i, o.2)

/-- The values once others were put at their positions, in turn. -/
def written (values : List Value) (places : List (Nat × Value)) : List Value :=
  places.foldl (fun values p ↦ values.set p.1 p.2) values

theorem length_written (values : List Value) (places : List (Nat × Value)) :
    (written values places).length = values.length := by
  induction places generalizing values with
  | nil => rfl
  | cons p places ih => exact (ih _).trans (List.length_set ..)

theorem getElem?_written_of_forall_ne {values : List Value} {places : List (Nat × Value)} {i : Nat}
    (h : ∀ p ∈ places, p.1 ≠ i) : (written values places)[i]? = values[i]? := by
  induction places generalizing values with
  | nil => rfl
  | cons p places ih =>
    obtain ⟨first, rest⟩ := List.forall_mem_cons.mp h
    exact (ih rest).trans (List.getElem?_set_ne first)

/-- The last value that is put at a position stays. -/
theorem getElem?_written_last {values : List Value} (before after : List (Nat × Value)) {i : Nat}
    {x : Value} (hi : i < values.length) (h : ∀ p ∈ after, p.1 ≠ i) :
    (written values (before ++ (i, x) :: after))[i]? = some x := by
  rw [written, List.foldl_append]
  change (written ((written values before).set i x) after)[i]? = some x
  rw [getElem?_written_of_forall_ne h, List.getElem?_set_self]
  rwa [length_written]

theorem write_of_fits {o : String × Value} {i : Nat} {d : Declaration}
    (hi : a.view.table.indexOf? o.1 = some i) (hd : a.view.table.get? i = some d)
    (fits : d.shapeFault? o.2 = none) : a.write ⟨.name o.1, o.2⟩ = .ok { a with
      view := { a.view with values := a.view.values.set i o.2 }
      outputs := if i ∈ a.outputs then a.outputs else a.outputs ++ [i] } := by
  have found : a.view.table.locate a.view.owner (.name o.1) = .ok i := by
    rw [FieldTable.locate, FieldTable.lookup, hi]
  have declared : a.view.table.declaration a.view.owner i = .ok d :=
    FieldTable.declaration_eq_ok.mpr hd
  have shape : d.checkShape a.view.owner o.2 = .ok () := Declaration.checkShape_eq_ok.mpr fits
  rw [Activation.write]
  simp only [found, declared, shape, bind, Except.bind, pure, Except.pure]

/-- Outputs that fit are written, one after the other. -/
theorem run_publishAll (fits : ∀ o ∈ outputs, Fits a.view.table o) :
    (Program.run Activation.host (publishAll outputs) a).view.values =
      written a.view.values (placed a.view.table outputs) ∧
    ∀ i, i ∈ (Program.run Activation.host (publishAll outputs) a).outputs ↔
      i ∈ a.outputs ∨ i ∈ (placed a.view.table outputs).map Prod.fst := by
  induction outputs generalizing a with
  | nil => exact ⟨rfl, fun i ↦ (or_iff_left (List.not_mem_nil)).symm⟩
  | cons o outputs ih =>
    obtain ⟨⟨i, d, hi, hd, ho⟩, rest⟩ := List.forall_mem_cons.mp fits
    have written := write_of_fits hi hd ho
    have onward : Program.run Activation.host (publishAll (o :: outputs)) a =
        Program.run Activation.host (publishAll outputs) { a with
          view := { a.view with values := a.view.values.set i o.2 }
          outputs := if i ∈ a.outputs then a.outputs else a.outputs ++ [i] } := by
      change Program.run Activation.host (Script.publish o.1 o.2 (publishAll outputs)) a = _
      rw [Script.publish, Program.run, Activation.host]
      simp only [written]
    have first : placed a.view.table (o :: outputs) =
        (i, o.2) :: placed a.view.table outputs := by
      rw [placed, List.filterMap_cons, hi]
      rfl
    obtain ⟨values, listed⟩ := ih (a := { a with
      view := { a.view with values := a.view.values.set i o.2 }
      outputs := if i ∈ a.outputs then a.outputs else a.outputs ++ [i] }) rest
    rw [onward, first]
    refine ⟨values, fun j ↦ (listed j).trans ?_⟩
    rw [List.map_cons, List.mem_cons, ← or_assoc]
    refine or_congr_left ?_
    split
    · next hm => exact ⟨.inl, fun h ↦ h.elim id fun he ↦ he ▸ hm⟩
    · rw [List.mem_append, List.mem_singleton]

end publishing

section scripts

/-- The fields of a time sensor. -/
def fields : FieldTable := ⟨timeSensor.declarations⟩

@[simp] theorem indexOf?_enabled : fields.indexOf? "enabled" = some 1 := by decide

@[simp] theorem indexOf?_isActive : fields.indexOf? "isActive" = some 2 := by decide

@[simp] theorem indexOf?_cycleInterval : fields.indexOf? "cycleInterval" = some 3 := by decide

@[simp] theorem indexOf?_loop : fields.indexOf? "loop" = some 4 := by decide

@[simp] theorem indexOf?_startTime : fields.indexOf? "startTime" = some 5 := by decide

@[simp] theorem indexOf?_stopTime : fields.indexOf? "stopTime" = some 6 := by decide

@[simp] theorem indexOf?_cycleTime : fields.indexOf? "cycleTime" = some 7 := by decide

@[simp] theorem indexOf?_fraction_changed : fields.indexOf? "fraction_changed" = some 8 := by decide

@[simp] theorem indexOf?_time : fields.indexOf? "time" = some 9 := by decide

theorem fits_isActive (b : Bool) : Fits fields ("isActive", .bool b) :=
  ⟨2, _, indexOf?_isActive, rfl, rfl⟩

theorem fits_outputs : ∀ o ∈ t.outputs, Fits fields o := by
  have cycleTime x : Fits fields ("cycleTime", .double x) := ⟨7, _, indexOf?_cycleTime, rfl, rfl⟩
  have fraction x : Fits fields ("fraction_changed", .float x) :=
    ⟨8, _, indexOf?_fraction_changed, rfl, rfl⟩
  have time x : Fits fields ("time", .double x) := ⟨9, _, indexOf?_time, rfl, rfl⟩
  unfold Timing.outputs
  split
  · exact List.forall_mem_nil _
  split
  · simp only [List.forall_mem_append, List.forall_mem_cons]
    refine ⟨⟨?_, ?_⟩, fraction _, time _, List.forall_mem_nil _⟩
    all_goals split <;> simp [fits_isActive, cycleTime]
  split
  · simp only [List.forall_mem_append, List.forall_mem_cons]
    refine ⟨?_, time _, fits_isActive _, List.forall_mem_nil _⟩
    split <;> simp [fraction]
  · exact List.forall_mem_nil _

/-- What a sensor writes in a tick, and where. -/
inductive Course (t : Timing) : List (Nat × Value) → Prop
  | rests (ha : t.active = false) (hw : t.wasActive = false) : Course t []
  | stops {l} (ha : t.active = false) (hw : t.wasActive = true)
      (hi : ∀ p ∈ l, p.1 = 7 ∨ p.1 = 8) :
      Course t (l ++ [(9, .double t.now), (2, .bool false)])
  | starts {l} (ha : t.active = true) (hw : t.wasActive = false)
      (hi : ∀ p ∈ l, p.1 = 7 ∨ p.1 = 8) :
      Course t ((2, .bool true) :: l ++ [(9, .double t.now)])
  | continues {l} (ha : t.active = true) (hw : t.wasActive = true)
      (hi : ∀ p ∈ l, p.1 = 7 ∨ p.1 = 8) : Course t (l ++ [(9, .double t.now)])

theorem course_outputs (positive : t.interval.le 0 = false) :
    Course t (placed fields t.outputs) := by
  unfold Timing.outputs
  rw [if_neg (positive ▸ Bool.false_ne_true)]
  cases ha : t.active <;> cases hw : t.wasActive
  · exact .rests ha hw
  · simp only [Bool.false_eq_true, if_true, if_false]
    split
    · exact .stops (l := [(8, .float 1)]) ha hw (by simp)
    · exact .stops (l := []) ha hw (by simp)
  · exact .starts (l := [(7, .double t.cycleStart), (8, .float t.fraction)]) ha hw (by simp)
  · simp only [Bool.not_true, Bool.false_or, if_true]
    split
    · exact .continues (l := [(7, .double t.cycleStart), (8, .float t.fraction)]) ha hw
        (by simp)
    · exact .continues (l := [(8, .float t.fraction)]) ha hw (by simp)

/-- What a sensor does that found itself active or not, and leaves itself so or not. -/
structure Acts (was active : Bool) (v : NodeView) (a : Activation) : Prop where
  value : a.view.values[2]? = some (.bool active)
  news : 2 ∈ a.outputs ↔ active ≠ was
  settings : ∀ i < 7, i ≠ 2 → a.view.values[i]? = v.values[i]?

namespace Course

variable {l : List (Nat × Value)} {values : List Value}

theorem positions (h : Course t l) : ∀ p ∈ l, p.1 = 2 ∨ 7 ≤ p.1 := by
  have inner {l : List (Nat × Value)} (hl : ∀ p ∈ l, p.1 = 7 ∨ p.1 = 8) :
      ∀ p ∈ l, p.1 = 2 ∨ 7 ≤ p.1 := fun p hp ↦ .inr (by have := hl p hp; omega)
  cases h with
  | rests => exact List.forall_mem_nil _
  | stops _ _ hl => simpa [or_imp, forall_and] using inner hl
  | starts _ _ hl => simpa [or_imp, forall_and] using inner hl
  | continues _ _ hl => simpa [or_imp, forall_and] using inner hl

/-- What is news is written, and the time is if the sensor is or was active. -/
theorem mem (h : Course t l) : (2 ∈ l.map Prod.fst ↔ t.active ≠ t.wasActive) ∧
    (9 ∈ l.map Prod.fst ↔ t.wasActive ∨ t.active) := by
  have inner {l : List (Nat × Value)} (hl : ∀ p ∈ l, p.1 = 7 ∨ p.1 = 8) :
      2 ∉ l.map Prod.fst ∧ 9 ∉ l.map Prod.fst := by
    constructor <;> simp only [List.mem_map, not_exists, not_and] <;> intro p hp he <;>
      have := hl p hp <;> omega
  cases h with
  | rests ha hw => simp [ha, hw]
  | stops ha hw hl => simp [ha, hw]
  | starts ha hw hl => simp [ha, hw]
  | continues ha hw hl => simpa [ha, hw] using (inner hl).1

theorem isActive (h : Course t l) (was : values[2]? = some (.bool t.wasActive)) :
    (written values l)[2]? = some (.bool t.active) := by
  have inside : 2 < values.length := (List.getElem?_eq_some_iff.mp was).1
  cases h with
  | rests ha hw => rwa [ha, ← hw]
  | @stops l ha _ hl =>
    rw [ha, List.append_cons]
    exact getElem?_written_last _ [] inside (List.forall_mem_nil _)
  | @starts l ha _ hl =>
    rw [ha]
    refine getElem?_written_last [] (l ++ [(9, .double t.now)]) inside fun p hp he ↦ ?_
    rcases List.mem_append.mp hp with hp | hp
    · have := hl p hp
      omega
    · cases List.mem_singleton.mp hp
      cases he
  | @continues l ha hw hl =>
    rw [getElem?_written_of_forall_ne, was, ha, hw]
    intro p hp he
    rcases List.mem_append.mp hp with hp | hp
    · have := hl p hp
      omega
    · cases List.mem_singleton.mp hp
      cases he

theorem time (h : Course t l) (inside : 9 < values.length) (moved : t.wasActive ∨ t.active) :
    (written values l)[9]? = some (.double t.now) := by
  cases h with
  | rests ha hw => simp [ha, hw] at moved
  | @stops l ha _ hl => exact getElem?_written_last l [_] inside (by simp)
  | @starts l ha _ hl => exact getElem?_written_last (_ :: l) [] inside (by simp)
  | @continues l ha _ hl => exact getElem?_written_last l [] inside (by simp)

end Course

/-- A tick leaves the switch and the settings of a sensor alone. -/
theorem tick_settings (hv : v.table = fields) {i : Nat} (hi : i < 7) (ho : i ≠ 2) :
    (behavior.tick.perform v).view.values[i]? = v.values[i]? := by
  obtain ⟨values, -⟩ :=
    run_publishAll (a := { view := v }) (hv ▸ fits_outputs (t := .ofView v))
  refine (congrArg (·[i]?) values).trans (getElem?_written_of_forall_ne fun p hp he ↦ ?_)
  simp only [hv] at hp
  cases positive : (Timing.ofView v).interval.le 0 with
  | true =>
    rw [Timing.outputs, if_pos positive] at hp
    cases hp
  | false =>
    have := (course_outputs positive).positions p hp
    omega

/-- A tick leaves the sensor active or not, and gives the time if it is or was. -/
theorem tick_acts (hv : v.table = fields) (holds : fields.Holds v.values)
    (was : v.values[2]? = some (.bool (Timing.ofView v).wasActive))
    (positive : (Timing.ofView v).interval.le 0 = false) :
    Acts (Timing.ofView v).wasActive (Timing.ofView v).active v (behavior.tick.perform v) ∧
      (9 ∈ (behavior.tick.perform v).outputs ↔
        (Timing.ofView v).wasActive ∨ (Timing.ofView v).active) ∧
      ((Timing.ofView v).wasActive ∨ (Timing.ofView v).active →
        (behavior.tick.perform v).view.values[9]? = some (.double v.time)) := by
  have performed : behavior.tick.perform v = Program.run Activation.host
      (publishAll (Timing.ofView v).outputs) { view := v } := rfl
  obtain ⟨values, listed⟩ :=
    run_publishAll (a := { view := v }) (hv ▸ fits_outputs (t := .ofView v))
  have course := course_outputs positive
  have length : v.values.length = 10 := holds.length
  have settings : ∀ i < 7, i ≠ 2 → (behavior.tick.perform v).view.values[i]? = v.values[i]? :=
    fun i hi ho ↦ tick_settings hv hi ho
  rw [performed] at settings ⊢
  generalize Program.run Activation.host (publishAll (Timing.ofView v).outputs) { view := v } = a
    at values listed settings
  simp only [hv, List.not_mem_nil, false_or] at values listed
  refine ⟨⟨?_, (listed 2).trans course.mem.1, settings⟩, (listed 9).trans course.mem.2,
    fun moved ↦ ?_⟩
  · rw [values]
    exact course.isActive was
  · rw [values]
    exact course.time (by omega) moved

theorem named?_eq {name : String} {i : Nat} (hv : v.table = fields)
    (hi : fields.indexOf? name = some i) : v.named? name = v.values[i]? := by
  rw [NodeView.named?, hv, hi]
  rfl

theorem boolField_eq {name : String} {i : Nat} {b : Bool} (hv : v.table = fields)
    (hi : fields.indexOf? name = some i) (hb : v.values[i]? = some (.bool b)) :
    boolField v name = b := by
  rw [boolField, named?_eq hv hi, hb]
  rfl

theorem doubleField_eq {name : String} {i : Nat} {x : Double} (hv : v.table = fields)
    (hi : fields.indexOf? name = some i) (hx : v.values[i]? = some (.double x)) :
    doubleField v name = x := by
  rw [doubleField, named?_eq hv hi, hx]
  rfl

/-- A sensor that is switched off stops. -/
theorem fieldChanged_acts {on was : Bool} (hv : v.table = fields)
    (enabled : v.values[1]? = some (.bool on)) (isActive : v.values[2]? = some (.bool was))
    (index : Nat) :
    Acts was (was && (on || index ≠ 1)) v ((behavior.fieldChanged index).perform v) := by
  have performed : (behavior.fieldChanged index).perform v = Program.run Activation.host
      (publishAll (switched index v)) { view := v } := rfl
  rw [performed, switched, boolField_eq hv indexOf?_enabled enabled,
    boolField_eq hv indexOf?_isActive isActive, hv, indexOf?_enabled]
  by_cases off : index = 1 ∧ on = false ∧ was = true
  · obtain ⟨rfl, rfl, rfl⟩ := off
    rw [if_pos ⟨rfl, rfl, rfl⟩]
    have fits : ∀ o ∈ [("isActive", Value.bool false)], Fits v.table o :=
      List.forall_mem_singleton.mpr (hv ▸ fits_isActive false)
    have place : placed fields [("isActive", .bool false)] = [(2, .bool false)] := by simp [placed]
    have inside : 2 < v.values.length := (List.getElem?_eq_some_iff.mp isActive).1
    obtain ⟨values, listed⟩ := run_publishAll (a := { view := v }) fits
    simp only [hv, place, List.not_mem_nil, false_or] at values listed
    refine ⟨?_, (listed 2).trans (by simp), fun i _ ho ↦ ?_⟩
    · rw [values]
      exact getElem?_written_last [] [] inside (List.forall_mem_nil _)
    · rw [values]
      exact getElem?_written_of_forall_ne (List.forall_mem_singleton.mpr ho.symm)
  · rw [if_neg fun h ↦ off ⟨(Option.some.inj h.1).symm, by simpa using h.2.1, h.2.2⟩]
    have same : (was && (on || decide (index ≠ 1))) = was := by
      cases was <;> cases on <;> simp at off ⊢
      exact off
    rw [same]
    exact ⟨isActive, iff_of_false List.not_mem_nil fun h ↦ h rfl, fun _ _ _ ↦ rfl⟩

end scripts

end Standard.TimeSensor

namespace Node

open Standard.TimeSensor

/-- The type of the node is that of time sensors. -/
def IsTimeSensor (n : Node) : Prop := Standard.timeSensor.build = .ok n.type

/-- The fields that say when a time sensor is active. -/
structure Runs (n : Node) (start stop interval : Double) (loop : Bool) : Prop where
  startTime : n.valueOf? "startTime" = some (.double start)
  stopTime : n.valueOf? "stopTime" = some (.double stop)
  cycleInterval : n.valueOf? "cycleInterval" = some (.double interval)
  loop : n.valueOf? "loop" = some (.bool loop)

variable {n : Node} {name : String} {i : Nat}

namespace IsTimeSensor

theorem type_eq (h : n.IsTimeSensor) : n.type = Scene.clock := by
  have built : Standard.timeSensor.build = .ok Scene.clock := rfl
  exact Except.ok.inj (h.symm.trans built)

theorem table (h : n.IsTimeSensor) : n.type.table = fields := by rw [h.type_eq]; rfl

theorem behavior (h : n.IsTimeSensor) :
    n.type.behavior = Standard.TimeSensor.behavior := by rw [h.type_eq]; rfl

theorem valueOf?_eq (h : n.IsTimeSensor) (hi : fields.indexOf? name = some i) :
    n.valueOf? name = n.values[i]? := by
  rw [valueOf?, h.table, hi]
  rfl

theorem isEnabled_eq (h : n.IsTimeSensor) {on : Bool} (enabled : n.values[1]? = some (.bool on)) :
    Scene.isEnabled n = on := by
  have field : n.type.enabled? = some 1 := by
    rw [h.type_eq]
    decide
  rw [Scene.isEnabled, field, Option.bind_some, enabled]
  rfl

theorem exists_bool (h : n.IsTimeSensor) (sound : n.Sound) {d : Declaration}
    (hd : fields.get? i = some d) (kind : d.type.kind = ⟨false, .bool⟩) :
    ∃ b, n.values[i]? = some (.bool b) := by
  obtain ⟨v, hv, fits⟩ := (Furnished.of_sound sound).shape (h.table ▸ hd)
  have typed := (Declaration.checkShape_iff.mp fits).1
  rw [kind] at typed
  cases v <;> cases typed
  exact ⟨_, hv⟩

theorem exists_double (h : n.IsTimeSensor) (sound : n.Sound) {d : Declaration}
    (hd : fields.get? i = some d) (kind : d.type.kind = ⟨false, .double⟩) :
    ∃ x, n.values[i]? = some (.double x) := by
  obtain ⟨v, hv, fits⟩ := (Furnished.of_sound sound).shape (h.table ▸ hd)
  obtain ⟨x, rfl⟩ := Standard.exists_double ((Declaration.checkShape_iff.mp fits).1.trans kind)
  exact ⟨x, hv⟩

/-- Its activity is not for others to write. -/
theorem index_ne (h : n.IsTimeSensor) {issued : Nat} {v : Value}
    (ha : n.admits issued i v = .ok ()) : i ≠ 2 := by
  rintro rfl
  obtain ⟨d, hd, access, -⟩ := admits_eq_ok.mp ha
  rw [h.table] at hd
  cases hd
  exact access rfl

variable {start stop interval : Double} {loop was : Bool}

theorem exists_runs (h : n.IsTimeSensor) (sound : n.Sound) :
    ∃ start stop interval loop, n.Runs start stop interval loop := by
  obtain ⟨start, hs⟩ := h.exists_double sound (i := 5) rfl rfl
  obtain ⟨stop, hp⟩ := h.exists_double sound (i := 6) rfl rfl
  obtain ⟨interval, hi⟩ := h.exists_double sound (i := 3) rfl rfl
  obtain ⟨loop, hl⟩ := h.exists_bool sound (i := 4) rfl rfl
  exact ⟨start, stop, interval, loop, (h.valueOf?_eq indexOf?_startTime).trans hs,
    (h.valueOf?_eq indexOf?_stopTime).trans hp, (h.valueOf?_eq indexOf?_cycleInterval).trans hi,
    (h.valueOf?_eq indexOf?_loop).trans hl⟩

theorem runs_congr {m : Node} (h : n.IsTimeSensor) (type : m.type = n.type)
    (settings : ∀ i < 7, i ≠ 2 → m.values[i]? = n.values[i]?)
    (runs : n.Runs start stop interval loop) : m.Runs start stop interval loop := by
  have kept {name : String} {i : Nat} (hi : fields.indexOf? name = some i) (inside : i < 7)
      (ho : i ≠ 2) : m.valueOf? name = n.valueOf? name := by
    rw [valueOf?, valueOf?, type, h.table, hi]
    exact settings i inside ho
  exact ⟨(kept indexOf?_startTime (by decide) (by decide)).trans runs.startTime,
    (kept indexOf?_stopTime (by decide) (by decide)).trans runs.stopTime,
    (kept indexOf?_cycleInterval (by decide) (by decide)).trans runs.cycleInterval,
    (kept indexOf?_loop (by decide) (by decide)).trans runs.loop⟩

/-- What a sensor finds out when it is its turn. -/
theorem ofView_eq (h : n.IsTimeSensor) (runs : n.Runs start stop interval loop)
    (isActive : n.values[2]? = some (.bool was)) (s : Scene) (id : NodeId) :
    ∃ cycleTime, Timing.ofView (s.viewOf id n) =
      ⟨s.time.getD 0, start, stop, interval, loop, was, cycleTime⟩ := by
  refine ⟨doubleField (s.viewOf id n) "cycleTime", ?_⟩
  rw [Timing.ofView,
    doubleField_eq (v := s.viewOf id n) h.table indexOf?_startTime
      ((h.valueOf?_eq indexOf?_startTime).symm.trans runs.startTime),
    doubleField_eq (v := s.viewOf id n) h.table indexOf?_stopTime
      ((h.valueOf?_eq indexOf?_stopTime).symm.trans runs.stopTime),
    doubleField_eq (v := s.viewOf id n) h.table indexOf?_cycleInterval
      ((h.valueOf?_eq indexOf?_cycleInterval).symm.trans runs.cycleInterval),
    boolField_eq (v := s.viewOf id n) h.table indexOf?_loop
      ((h.valueOf?_eq indexOf?_loop).symm.trans runs.loop),
    boolField_eq (v := s.viewOf id n) h.table indexOf?_isActive isActive]
  rfl

theorem tick_settings (h : n.IsTimeSensor) (s : Scene) (id : NodeId) (hi : i < 7) (ho : i ≠ 2) :
    (n.type.behavior.tick.perform (s.viewOf id n)).view.values[i]? = n.values[i]? := by
  rw [h.behavior]
  exact Standard.TimeSensor.tick_settings (v := s.viewOf id n) h.table hi ho

theorem fieldChanged (h : n.IsTimeSensor) (s : Scene) (id : NodeId) {on was : Bool}
    (enabled : n.values[1]? = some (.bool on)) (isActive : n.values[2]? = some (.bool was))
    (index : Nat) : Acts was (was && (on || index ≠ 1)) (s.viewOf id n)
      ((n.type.behavior.fieldChanged index).perform (s.viewOf id n)) := by
  rw [h.behavior]
  exact fieldChanged_acts h.table enabled isActive index

end IsTimeSensor

end Node

namespace Scene

open Standard.TimeSensor

variable {s s' : Scene} {guest : Option SpaceId} {id : NodeId} {n m : Node}

/-- A sensor that is being set up or is switched off is not active. -/
def Dormant (n : Node) : Prop :=
  n.IsTimeSensor → n.inSetup = true ∨ n.values[1]? = some (.bool false) →
    n.values[2]? = some (.bool false)

theorem applyCapabilities_of_sensor (s : Scene) (id : NodeId) (index : Nat)
    (h : n.IsTimeSensor) : s.applyCapabilities id n.type index = s := by
  rw [h.type_eq]
  rfl

theorem Edited.isTimeSensor_iff (h : Edited guest id s s') (hn : s.node? id = some n)
    (hm : s'.node? id = some m) : m.IsTimeSensor ↔ n.IsTimeSensor := by
  obtain ⟨m', hm', type, -⟩ := h.exists_self hn
  cases hm.symm.trans hm'
  rw [Node.IsTimeSensor, Node.IsTimeSensor, type]

namespace Dormant

theorem new (type : NodeType) (sp : SpaceId) (place : Nat) : Dormant (.new type sp place) :=
  fun sensor _ ↦ by
    have he : type = clock := sensor.type_eq
    rw [he]
    rfl

theorem setValue {index : Nat} {v : Value} (hc : s.Coherent [] guest)
    (hs : s.setValue id index v = .ok s') (hn : s.node? id = some n) (hm : s'.node? id = some m)
    (h : Dormant n) : Dormant m := by
  intro sensor quiet
  have sensor : n.IsTimeSensor := ((Edited.setValue hc hs).isTimeSensor_iff hn hm).mp sensor
  have ha := admits_of_setValue hn hs
  have apart : index ≠ 2 := sensor.index_ne ha
  have kept : (n.values.set index v)[2]? = n.values[2]? := List.getElem?_set_ne apart
  obtain ⟨d, hd, -, -, fits, -⟩ := Node.admits_eq_ok.mp ha
  obtain ⟨n', hn', stages⟩ := Edited.setValue_stages hc hs
  cases hn.symm.trans hn'
  rcases stages with ⟨hi, -, rfl⟩ | ⟨hi, -, rfl⟩
  · cases (node?_modifyNode_self s id _ hn).symm.trans hm
    exact kept.trans (h sensor (.inl hi))
  rw [applyCapabilities_of_sensor _ id index sensor] at hm
  have stored := Remade.modifyNode hn fun n ↦ n.store index v
  have marked := stored.trans (.markAll stored.self [index])
  obtain ⟨flags, -, performed⟩ := Remade.perform marked.self fun b ↦ b.fieldChanged index
  cases performed.self.symm.trans hm
  have sound : (n.store index v).Sound := (hc.sound hn).store hd fits
  obtain ⟨on, enabled⟩ : ∃ on, (n.values.set index v)[1]? = some (.bool on) :=
    sensor.exists_bool (n := n.store index v) sound rfl rfl
  obtain ⟨was, isActive⟩ : ∃ was, (n.values.set index v)[2]? = some (.bool was) :=
    sensor.exists_bool (n := n.store index v) sound rfl rfl
  have acts := Node.IsTimeSensor.fieldChanged (n := (n.store index v).flagAll [index]) sensor
    ((s.modifyNode id fun n ↦ n.store index v).markAll id [index]) id enabled isActive index
  have off : on = false := by
    rcases quiet with quiet | quiet
    · cases hi.symm.trans quiet
    · cases (enabled.symm.trans (acts.settings 1 (by decide) (by decide)).symm).trans quiet
      rfl
  refine acts.value.trans ?_
  by_cases switch : index = 1
  · simp [off, switch]
  · have before : n.values[1]? = some (.bool false) := by
      rw [← List.getElem?_set_ne switch, enabled, off]
    have inactive : was = false := by
      cases (kept.symm.trans isActive).symm.trans (h sensor (.inr before))
      rfl
    rw [inactive, Bool.false_and]

theorem finishSetup (hc : s.Coherent [] guest) (hs : s.finishSetup id = .ok s')
    (hn : s.node? id = some n) (hm : s'.node? id = some m) (h : Dormant n) : Dormant m := by
  intro sensor quiet
  have sensor : n.IsTimeSensor := ((Edited.finishSetup hc hs).isTimeSensor_iff hn hm).mp sensor
  cases hi : n.inSetup with
  | false =>
    obtain ⟨n', hn', same⟩ := bind_eq_ok.mp hs
    cases hn.symm.trans (node_eq_ok.mp hn')
    rw [hi] at same
    cases same
    cases hn.symm.trans hm
    exact h sensor quiet
  | true =>
    obtain ⟨t, ht, ends⟩ := exists_ends hn hi
    cases ht.symm.trans hs
    obtain ⟨m', hm', settled⟩ := ends.node
    cases hm.symm.trans hm'
    have values : m.values = n.values := by
      rw [settled.values, Scene.settled, sensor.behavior]
      rfl
    rw [values]
    exact h sensor (.inl hi)

theorem tickSensor (hn : s.node? id = some n) (sound : n.Sound)
    (hm : (s.tickSensor id).node? id = some m) (h : Dormant n) : Dormant m := by
  intro sensor quiet
  unfold Scene.tickSensor at hm
  rw [hn] at hm
  dsimp only at hm
  split at hm
  · cases hn.symm.trans hm
    exact h sensor quiet
  next ready =>
  obtain ⟨out, on⟩ : n.inSetup = false ∧ isEnabled n = true := by simpa using ready
  obtain ⟨flags, -, performed⟩ := Remade.perform hn Behavior.tick
  cases performed.self.symm.trans hm
  have sensor : n.IsTimeSensor := sensor
  obtain ⟨b, enabled⟩ := sensor.exists_bool sound (i := 1) rfl rfl
  rw [sensor.isEnabled_eq enabled] at on
  rcases quiet with quiet | quiet
  · cases out.symm.trans quiet
  · have settings := (sensor.tick_settings s id (i := 1) (by decide) (by decide)).symm.trans quiet
    cases on ▸ enabled.symm.trans settings

end Dormant

theorem restful_dormant : Restful Dormant where
  new := .new
  aside h := h
  setValue := .setValue
  finishSetup := .finishSetup
  tickSensor hc hn := .tickSensor hn (hc.sound hn)

theorem Met.interval_pos (h : s.Met) (hn : s.node? id = some n) (sensor : n.IsTimeSensor)
    {interval : Double} (hi : n.valueOf? "cycleInterval" = some (.double interval)) :
    0 < interval := by
  have standard : clock ∈ Catalog.standard.types := standard_meshing clock (by simp)
  have restrained : n.type.Restrained := Standard.restrained_of_mem (sensor.type_eq ▸ standard)
  rw [sensor.valueOf?_eq indexOf?_cycleInterval] at hi
  have declared : n.type.table.get? 3 =
      some ⟨.exposed, .single .time, "cycleInterval", .double 1⟩ := by
    rw [sensor.table]
    rfl
  have accepted := h.approved hn restrained 3 _ _ declared hi
  rw [sensor.behavior] at accepted
  exact Standard.cycleInterval_pos accepted rfl

theorem Met.acts_tick {was : Bool} (h : s.Met) (hn : s.node? id = some n)
    (sensor : n.IsTimeSensor) (isActive : n.values[2]? = some (.bool was)) :
    Acts was (Timing.ofView (s.viewOf id n)).active (s.viewOf id n)
        (n.type.behavior.tick.perform (s.viewOf id n)) ∧
      (9 ∈ (n.type.behavior.tick.perform (s.viewOf id n)).outputs ↔
        was ∨ (Timing.ofView (s.viewOf id n)).active) ∧
      (was ∨ (Timing.ofView (s.viewOf id n)).active →
        (n.type.behavior.tick.perform (s.viewOf id n)).view.values[9]? =
          some (.double (s.viewOf id n).time)) := by
  obtain ⟨start, stop, interval, loop, runs⟩ := sensor.exists_runs (h.sound hn)
  obtain ⟨cycleTime, view⟩ := sensor.ofView_eq runs isActive s id
  have positive : interval.le 0 = false :=
    Bool.eq_false_iff.mpr (Binary.not_le_of_lt (h.interval_pos hn sensor runs.cycleInterval))
  have holds : fields.Holds n.values := sensor.table ▸ (h.sound hn).values
  have acts := tick_acts (v := s.viewOf id n) sensor.table holds (view ▸ isActive)
    (view ▸ positive)
  rw [sensor.behavior]
  rwa [show (Timing.ofView (s.viewOf id n)).wasActive = was by rw [view]] at acts

/-- The tick of a sensor at the time `now`. Afterwards it is active just if its time has come and it
was not stopped and did not run out, and it gives the time just if it is or was active. -/
structure Timed (s : Scene) (id : NodeId) (n : Node) (now : Double) (s' : Scene) (m : Node)
    (was active : Bool) : Prop where
  node : s'.node? id = some m
  before : n.valueOf? "isActive" = some (.bool was)
  after : m.valueOf? "isActive" = some (.bool active)
  due : ∃ start stop interval loop, m.Runs start stop interval loop ∧
    (active = true ↔ start ≤ now ∧ (stop ≤ start ∨ now < stop) ∧
      (loop = true ∨ now - start < interval))
  time : ∃ index js, n.type.table.indexOf? "time" = some index ∧
    s'.journal = s.journal ++ js ∧
    ((id, index) ∈ Journal.changes js ↔ was = true ∨ active = true) ∧
    (was = true ∨ active = true → m.valueOf? "time" = some (.double now))

theorem Met.timed (h : s.Met) (hn : s.node? id = some n) (sensor : n.IsTimeSensor)
    (out : n.inSetup = false) (on : isEnabled n = true) {now : Double} (ht : s.time = some now) :
    ∃ m was active, Timed s id n now (s.tickSensor id) m was active := by
  obtain ⟨start, stop, interval, loop, runs⟩ := sensor.exists_runs (h.sound hn)
  obtain ⟨was, isActive⟩ := sensor.exists_bool (h.sound hn) (i := 2) rfl rfl
  obtain ⟨cycleTime, view⟩ := sensor.ofView_eq runs isActive s id
  rw [ht, Option.getD_some] at view
  obtain ⟨acts, timed, time⟩ := h.acts_tick hn sensor isActive
  have active := Timing.active_iff (t := .ofView (s.viewOf id n))
  rw [view] at acts timed time active
  have ticked : s.tickSensor id = s.perform id Behavior.tick := by
    unfold Scene.tickSensor
    simp [hn, out, on]
  obtain ⟨js, journal, changes⟩ := journal_perform hn Behavior.tick
  obtain ⟨flags, -, performed⟩ := Remade.perform hn Behavior.tick
  rw [out, if_neg Bool.false_ne_true] at changes
  rw [ticked]
  generalize n.type.behavior.tick.perform (s.viewOf id n) = a at *
  generalize hm : { n with values := a.view.values, changed := flags } = m at performed
  have type : m.type = n.type := hm ▸ rfl
  have same : m.values = a.view.values := hm ▸ rfl
  have sensor' : m.IsTimeSensor := by rwa [Node.IsTimeSensor, type]
  refine ⟨m, was, _, {
    node := performed.self
    before := (sensor.valueOf?_eq indexOf?_isActive).trans isActive
    after := (sensor'.valueOf?_eq indexOf?_isActive).trans (same ▸ acts.value)
    due := ⟨start, stop, interval, loop,
      sensor.runs_congr type (same ▸ acts.settings) runs, active⟩
    time := ⟨9, js, sensor.table ▸ indexOf?_time, journal, ?_, fun moved ↦ ?_⟩ }⟩
  · rw [changes, ← timed]
    simp
  · rw [sensor'.valueOf?_eq indexOf?_time, same, time moved, viewOf, ht, Option.getD_some]

end Scene

end SceneGraph
