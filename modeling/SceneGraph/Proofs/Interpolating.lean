import SceneGraph.Proofs.Order
import SceneGraph.Proofs.Plain
import SceneGraph.Proofs.Timekeeping

/-!
Interpolators.

A fraction lies before the keys, behind them or between two neighbors, and an interpolator finds its
place among any keys that are numbers. The check of a list of keys is that none is less than the one
before it. That is never true of a key that is no number, so such keys pass, and the places beside
them are lost.
-/

namespace SceneGraph

namespace Standard.Interpolator

variable {keys values r : List Single} {width i j : Nat} {t a b : Single}

section places

/-- The neighbors at `i` are around `t`. -/
structure Segment (keys : List Single) (t : Single) (i : Nat) (a b : Single) : Prop where
  lower : keys[i]? = some a
  upper : keys[i + 1]? = some b
  le : a ≤ t
  lt : t < b

theorem segment_succ {k : Single} :
    Segment (k :: keys) t (i + 1) a b ↔ Segment keys t i a b :=
  ⟨fun h ↦ ⟨h.lower, h.upper, h.le, h.lt⟩, fun h ↦ ⟨h.lower, h.upper, h.le, h.lt⟩⟩

theorem segment_zero {k l : Single} :
    Segment (k :: l :: keys) t 0 a b ↔ (a = k ∧ b = l) ∧ k ≤ t ∧ t < l := by
  constructor
  · rintro ⟨⟨⟩, ⟨⟩, le, lt⟩
    exact ⟨⟨rfl, rfl⟩, le, lt⟩
  · rintro ⟨⟨rfl, rfl⟩, le, lt⟩
    exact ⟨rfl, rfl, le, lt⟩

/-- The first segment is found, if there is one. -/
theorem segment?_spec (keys : List Single) (t : Single) :
    (∃ i a b, segment? t keys = some (i, a, b) ∧ Segment keys t i a b ∧
      ∀ j < i, ∀ a b, ¬Segment keys t j a b) ∨
    segment? t keys = none ∧ ∀ i a b, ¬Segment keys t i a b := by
  induction keys with
  | nil => exact .inr ⟨rfl, fun i a b h ↦ nomatch h.lower⟩
  | cons k keys ih =>
    cases keys with
    | nil => exact .inr ⟨rfl, fun i a b h ↦ nomatch h.upper⟩
    | cons l keys =>
      rw [segment?]
      by_cases here : k ≤ t ∧ t < l
      · rw [if_pos (Bool.and_eq_true_iff.mpr here)]
        exact .inl ⟨0, k, l, rfl, segment_zero.mpr ⟨⟨rfl, rfl⟩, here⟩, nofun⟩
      rw [if_neg fun h ↦ here (Bool.and_eq_true_iff.mp h)]
      rcases ih with ⟨i, a, b, hf, hs, least⟩ | ⟨hf, never⟩
      · refine .inl ⟨i + 1, a, b, by rw [hf]; rfl, segment_succ.mpr hs, fun j hj a b h ↦ ?_⟩
        cases j with
        | zero => exact here (segment_zero.mp h).2
        | succ j => exact least j (Nat.lt_of_succ_lt_succ hj) a b (segment_succ.mp h)
      · refine .inr ⟨by rw [hf]; rfl, fun i a b h ↦ ?_⟩
        cases i with
        | zero => exact here (segment_zero.mp h).2
        | succ i => exact never i a b (segment_succ.mp h)

/-- Between numbers the keys pass `t` somewhere, in whatever order they are. -/
theorem exists_segment (numbers : ∀ k ∈ keys, k.isNaN = false) (number : t.isNaN = false)
    {first last : Single} (hf : keys.head? = some first) (hl : keys.getLast? = some last)
    (begun : first ≤ t) (sooner : ¬last ≤ t) : ∃ i a b, Segment keys t i a b := by
  induction keys generalizing first with
  | nil => cases hf
  | cons k keys ih =>
    cases hf
    cases keys with
    | nil =>
      cases hl
      exact absurd begun sooner
    | cons l keys =>
      obtain ⟨-, rest⟩ := List.forall_mem_cons.mp numbers
      rcases Binary.le_or_lt (rest l List.mem_cons_self) number with passed | ahead
      · obtain ⟨i, a, b, h⟩ := ih rest rfl (by rwa [List.getLast?_cons_cons] at hl) passed
        exact ⟨i + 1, a, b, segment_succ.mpr h⟩
      · exact ⟨0, k, l, segment_zero.mpr ⟨⟨rfl, rfl⟩, begun, ahead⟩⟩

end places

section answers

/-- The keys that have a key value. -/
def used (keys values : List Single) (width : Nat) : List Single :=
  keys.take (values.length / width)

/-- The key values at `i` and behind it, mixed for a place between their keys. -/
def mixed (values : List Single) (width i : Nat) (t a b : Single) : List Single :=
  List.zipWith (blend (if 0 < b - a then (t - a) / (b - a) else 0)) (row values width i)
    (row values width (i + 1))

/-- What an interpolator says at `t`, when each of its keys has a key value. -/
inductive Answers (keys values : List Single) (width : Nat) (t : Single) :
    Option (List Single) → Prop
  | before {first} (hf : keys.head? = some first) (early : t ≤ first) :
      Answers keys values width t (some (row values width 0))
  | after {first last} (hf : keys.head? = some first) (hl : keys.getLast? = some last)
      (later : ¬t ≤ first) (late : last ≤ t) :
      Answers keys values width t (some (row values width (keys.length - 1)))
  | within {first last i a b} (hf : keys.head? = some first) (hl : keys.getLast? = some last)
      (later : ¬t ≤ first) (sooner : ¬last ≤ t) (h : Segment keys t i a b)
      (least : ∀ j < i, ∀ a b, ¬Segment keys t j a b) :
      Answers keys values width t (some (mixed values width i t a b))
  | nowhere {first last} (hf : keys.head? = some first) (hl : keys.getLast? = some last)
      (later : ¬t ≤ first) (sooner : ¬last ≤ t) (never : ∀ i a b, ¬Segment keys t i a b) :
      Answers keys values width t none

theorem interpolate_answers (hw : 0 < width) (h : used keys values width ≠ []) :
    Answers (used keys values width) values width t (interpolate keys values width t) := by
  obtain ⟨first, hf⟩ := Option.ne_none_iff_exists'.mp (mt List.head?_eq_none_iff.mp h)
  obtain ⟨last, hl⟩ := Option.ne_none_iff_exists'.mp (mt List.getLast?_eq_none_iff.mp h)
  have same : keys.take (values.length / max width 1) = used keys values width := by
    rw [used, Nat.max_eq_left hw]
  simp only [interpolate, same, hf, hl]
  split
  · next early => exact .before hf early
  next later =>
  split
  · next late => exact .after hf hl later late
  next sooner =>
  rcases segment?_spec (used keys values width) t with ⟨i, a, b, he, hs, least⟩ | ⟨he, never⟩
  · rw [he]
    exact .within hf hl later sooner hs least
  · rw [he]
    exact .nowhere hf hl later sooner never

/-- Keys that are numbers leave no fraction without an answer. -/
theorem Answers.isSome {answer : Option (List Single)} (h : Answers keys values width t answer)
    (numbers : ∀ k ∈ keys, k.isNaN = false) (number : t.isNaN = false) : answer.isSome := by
  cases h with
  | before | after | within => rfl
  | nowhere hf hl later sooner never =>
    have begun := (Binary.le_or_lt number (numbers _ (List.mem_of_head? hf))).resolve_left later
    obtain ⟨i, a, b, hs⟩ := exists_segment numbers number hf hl (Binary.le_of_lt begun) sooner
    exact absurd hs (never i a b)

theorem length_row (h : (i + 1) * width ≤ values.length) : (row values width i).length = width := by
  rw [row, List.length_take, List.length_drop]
  rw [Nat.succ_mul] at h
  omega

/-- An answer has as many components as a key value. -/
theorem Answers.length (h : Answers (used keys values width) values width t (some r)) :
    r.length = width := by
  have inside {i : Nat} (hi : i < (used keys values width).length) :
      (row values width i).length = width := by
    refine length_row (Nat.mul_le_of_le_div _ _ _ ?_)
    rw [used, List.length_take] at hi
    omega
  have last {first : Single} (hf : (used keys values width).head? = some first) :
      (used keys values width).length - 1 < (used keys values width).length :=
    Nat.sub_one_lt_of_lt (List.length_pos_of_mem (List.mem_of_head? hf))
  cases h with
  | before hf early => exact inside (Nat.zero_lt_of_lt (last hf))
  | after hf hl later late => exact inside (last hf)
  | within hf hl later sooner hs least =>
    have upper := (List.getElem?_eq_some_iff.mp hs.upper).1
    rw [mixed, List.length_zipWith, inside upper, inside (Nat.lt_of_succ_lt upper), Nat.min_self]

end answers

section scripts

/-- The value that carries a row. -/
def carrier (width : Nat) (r : List Single) : Value :=
  if width = 1 then .float (r.headD 0) else .ofFloats r

/-- The fields of an interpolator. -/
structure Laid (table : FieldTable) (width : Nat) : Prop where
  fraction : table.indexOf? "set_fraction" = some 1
  key : table.indexOf? "key" = some 2
  keyValue : table.indexOf? "keyValue" = some 3
  value : table.indexOf? "value_changed" = some 4
  input : ∃ d, table.get? 1 = some d ∧ d.access = .eventIn ∧ d.name = "set_fraction" ∧
    d.type = .single .float
  output : ∃ d, table.get? 4 = some d ∧ (width = 1 ∧ d.type = .single .float ∨
    width = 3 ∧ d.type = .single .vec3f)

variable {v : NodeView} {d : Declaration} {x : Value}

theorem laid_scalar : Laid ⟨scalarInterpolator.declarations⟩ 1 where
  fraction := by decide
  key := by decide
  keyValue := by decide
  value := by decide
  input := ⟨_, rfl, rfl, rfl, rfl⟩
  output := ⟨_, rfl, .inl ⟨rfl, rfl⟩⟩

theorem laid_position : Laid ⟨positionInterpolator.declarations⟩ 3 where
  fraction := by decide
  key := by decide
  keyValue := by decide
  value := by decide
  input := ⟨_, rfl, rfl, rfl, rfl⟩
  output := ⟨_, rfl, .inr ⟨rfl, rfl⟩⟩

/-- A row of a key value fits the output. -/
theorem fits_carrier (h : width = 1 ∧ d.type = .single .float ∨ width = 3 ∧ d.type = .single .vec3f)
    (hr : r.length = width) : d.shapeFault? (carrier width r) = none := by
  rcases h with ⟨rfl, ht⟩ | ⟨rfl, ht⟩
  · rw [Declaration.shapeFault?, ht]
    rfl
  · have count : (carrier 3 r).validCount = 3 := hr
    rw [Declaration.shapeFault?, ht, count]
    rfl

/-- What an interpolator gives away for its keys and key values. -/
theorem answer?_eq (h : width = 1 ∧ d.type = .single .float ∨ width = 3 ∧ d.type = .single .vec3f)
    (hx : v.get? 4 = some x) (fits : d.shapeFault? x = none)
    (ht : v.get? 1 = some (.float t)) (hk : floatsField v "key" = keys)
    (hv : floatsField v "keyValue" = values)
    (length : ∀ r, interpolate keys values width t = some r → r.length = width) :
    answer? v 1 4 = (interpolate keys values width t).map (carrier width) := by
  have kind : x.kind = d.type.kind := by
    by_contra hk
    rw [Declaration.shapeFault?, if_pos hk] at fits
    cases fits
  unfold answer?
  rw [hx, ht, hk, hv]
  rcases h with ⟨rfl, hd⟩ | ⟨rfl, hd⟩
  · obtain ⟨y, rfl⟩ := exists_float (kind.trans (congrArg FieldType.kind hd))
    simp only [Option.bind_some, Value.asFloat?, Option.getD_some]
    cases hr : interpolate keys values 1 t with
    | none => rfl
    | some r =>
      obtain ⟨z, rfl⟩ := List.length_eq_one_iff.mp (length r hr)
      rfl
  · obtain ⟨a, rfl⟩ := exists_floats (kind.trans (congrArg FieldType.kind hd))
    rfl

/-- An answer was written to the output, if there is one. -/
structure Tells (width : Nat) (answer : Option (List Single)) (a : Activation) : Prop where
  outputs : a.outputs = answer.toList.map fun _ ↦ 4
  value : ∀ r, answer = some r → a.view.values[4]? = some (carrier width r)

theorem perform_fieldChanged (laid : Laid v.table width) :
    (behavior.fieldChanged 1).perform v = (answer? v 1 4).elim { view := v } fun value ↦
      Program.run Activation.host (Script.publish "value_changed" value .done) { view := v } := by
  simp only [behavior, Script.perform, Program.run, Activation.host, laid.fraction, laid.value,
    if_true, Option.bind_some]
  cases answer? v 1 4 <;> rfl

theorem tells_fieldChanged (laid : Laid v.table width) {answer : Option (List Single)}
    (ha : answer? v 1 4 = answer.map (carrier width))
    (length : ∀ r, answer = some r → r.length = width) (inside : 4 < v.values.length) :
    Tells width answer ((behavior.fieldChanged 1).perform v) := by
  rw [perform_fieldChanged laid, ha]
  cases answer with
  | none =>
    refine ⟨rfl, fun r hr ↦ ?_⟩
    cases hr
  | some r =>
    obtain ⟨d, hd, typed⟩ := laid.output
    have written := TimeSensor.write_of_fits (a := { view := v })
      (o := ("value_changed", carrier width r)) laid.value hd (fits_carrier typed (length r rfl))
    simp only [Option.map_some, Option.elim_some, Script.publish, Program.run, Activation.host,
      written]
    refine ⟨rfl, fun r' hr ↦ ?_⟩
    cases hr
    exact List.getElem?_set_self inside

end scripts

end Standard.Interpolator

namespace Node

open Standard.Interpolator

/-- The type of the node is that of interpolators with key values of `width` components. -/
def IsInterpolator (n : Node) (width : Nat) : Prop :=
  width = 1 ∧ Standard.scalarInterpolator.build = .ok n.type ∨
    width = 3 ∧ Standard.positionInterpolator.build = .ok n.type

/-- The numbers in a field that has some. -/
def floats (n : Node) (name : String) : List Single :=
  ((n.valueOf? name).bind Value.asFloats?).getD []

/-- The type that interpolators are built to. -/
def interpolatorType (b : Blueprint) : NodeType :=
  ⟨b.name, ⟨b.declarations⟩, [.metadata], .bytes, behavior⟩

variable {n : Node} {width issued : Nat} {t : Single}

namespace IsInterpolator

theorem type_eq (h : n.IsInterpolator width) :
    width = 1 ∧ n.type = interpolatorType Standard.scalarInterpolator ∨
      width = 3 ∧ n.type = interpolatorType Standard.positionInterpolator := by
  have scalar : Standard.scalarInterpolator.build =
    .ok (interpolatorType Standard.scalarInterpolator) := rfl
  have position : Standard.positionInterpolator.build =
    .ok (interpolatorType Standard.positionInterpolator) := rfl
  exact h.imp (And.imp_right fun built ↦ Except.ok.inj (built.symm.trans scalar))
    (And.imp_right fun built ↦ Except.ok.inj (built.symm.trans position))

theorem pos (h : n.IsInterpolator width) : 0 < width := by
  rcases h with ⟨rfl, -⟩ | ⟨rfl, -⟩ <;> decide

theorem laid (h : n.IsInterpolator width) : Laid n.type.table width := by
  rcases h.type_eq with ⟨rfl, he⟩ | ⟨rfl, he⟩ <;> rw [he]
  · exact laid_scalar
  · exact laid_position

theorem behavior_eq (h : n.IsInterpolator width) : n.type.behavior = behavior := by
  rcases h.type_eq with ⟨-, he⟩ | ⟨-, he⟩ <;> rw [he] <;> rfl

/-- A fraction can be written at any time. -/
theorem admits_fraction (h : n.IsInterpolator width) : n.admits issued 1 (.float t) = .ok () := by
  obtain ⟨d, hd, access, name, typed⟩ := h.laid.input
  refine Node.admits_eq_ok.mpr ⟨d, hd, by rw [access]; nofun, fun hl ↦ ?_, ?_, ?_⟩
  · cases access.symm.trans hl.1
  · rw [Declaration.shapeFault?, typed]
    rfl
  · rw [h.behavior_eq]
    exact if_neg fun hk ↦ by
      rw [name] at hk
      exact absurd hk.1 (by decide)

end IsInterpolator

end Node

namespace Scene

open Standard.Interpolator

variable {s s' : Scene} {guest : Option SpaceId} {id : NodeId} {n : Node} {width : Nat}
  {t : Single} {keys values : List Single}

theorem applyCapabilities_of_interpolator (s : Scene) (id : NodeId) (index : Nat)
    (h : n.IsInterpolator width) : s.applyCapabilities id n.type index = s := by
  rcases h.type_eq with ⟨-, he⟩ | ⟨-, he⟩ <;> rw [he] <;> rfl

/-- A fraction is taken, and the answer follows at once, if there is one. -/
structure Interpolates (s : Scene) (id : NodeId) (width : Nat) (answer : Option (List Single))
    (s' : Scene) : Prop where
  announced : ∃ js, s'.journal = s.journal ++ js ∧
    Journal.changes js = (id, 1) :: answer.toList.map fun _ ↦ (id, 4)
  value : ∀ r, answer = some r → s'.value id 4 = .ok (carrier width r)

theorem setValue_fraction (hn : s.node? id = some n) (h : n.IsInterpolator width)
    (out : n.inSetup = false) : s.setValue id 1 (.float t) =
      .ok (((s.modifyNode id fun n ↦ n.store 1 (.float t)).markChanged id 1).perform id
        fun b ↦ b.fieldChanged 1) := by
  rw [setValue, node_eq_ok.mpr hn]
  simp only [bind, Except.bind, h.admits_fraction, out, Bool.false_eq_true, if_false]
  rw [applyCapabilities_of_interpolator _ id 1 h]
  rfl

/-- The script of an interpolator finds the fraction that was written, and the keys as they were. -/
theorem tells_stored (s : Scene) (id : NodeId) (sound : n.Sound) (h : n.IsInterpolator width)
    (valued : used (n.floats "key") (n.floats "keyValue") width ≠ []) :
    Tells width (interpolate (n.floats "key") (n.floats "keyValue") width t)
      ((n.type.behavior.fieldChanged 1).perform
        (s.viewOf id ((n.store 1 (.float t)).flagAll [1]))) := by
  obtain ⟨d, hd, typed⟩ := h.laid.output
  obtain ⟨x, hx⟩ := sound.values.exists_value (FieldTable.lt_size_of_get? hd)
  have inside : 4 < n.values.length := (List.getElem?_eq_some_iff.mp hx).1
  have kept {i : Nat} (hi : i ≠ 1) : (n.values.set 1 (.float t))[i]? = n.values[i]? :=
    List.getElem?_set_ne hi.symm
  have floats {name : String} {i : Nat} (hi : n.type.table.indexOf? name = some i) (ho : i ≠ 1) :
      floatsField (s.viewOf id ((n.store 1 (.float t)).flagAll [1])) name = n.floats name := by
    have same : (s.viewOf id ((n.store 1 (.float t)).flagAll [1])).named? name =
        n.valueOf? name := by
      change (n.type.table.indexOf? name).bind (fun i ↦ (n.values.set 1 (.float t))[i]?) = _
      rw [Node.valueOf?, hi]
      exact kept ho
    rw [floatsField, same, Node.floats]
  have length : ∀ r, interpolate (n.floats "key") (n.floats "keyValue") width t = some r →
      r.length = width := fun r hr ↦ (hr ▸ interpolate_answers h.pos valued).length
  have answer := answer?_eq (v := s.viewOf id ((n.store 1 (.float t)).flagAll [1])) typed
    ((kept (by decide)).trans hx) (sound.values.shape hd hx) (List.getElem?_set_self (by omega))
    (floats h.laid.key (by decide)) (floats h.laid.keyValue (by decide)) length
  rw [h.behavior_eq]
  exact tells_fieldChanged h.laid answer length ((List.length_set ..).symm ▸ inside)

theorem interpolates_setValue (hn : s.node? id = some n) (sound : n.Sound)
    (h : n.IsInterpolator width) (out : n.inSetup = false)
    (valued : used (n.floats "key") (n.floats "keyValue") width ≠ []) :
    ∃ s', s.setValue id 1 (.float t) = .ok s' ∧ Interpolates s id width
      (interpolate (n.floats "key") (n.floats "keyValue") width t) s' := by
  refine ⟨_, setValue_fraction hn h out, ?_⟩
  have marked := Remade.stored hn 1 (.float t)
  have announced : ((s.modifyNode id fun n ↦ n.store 1 (.float t)).markChanged id 1).journal =
      s.journal ++ [.event (.fieldChanged id 1)] :=
    (journal_markAll (s.modifyNode id fun n ↦ n.store 1 (.float t)) id [1]).trans
      (by rw [journal_modifyNode]; rfl)
  generalize (s.modifyNode id fun n ↦ n.store 1 (.float t)).markChanged id 1 = s₁ at *
  have answered := tells_stored (t := t) s₁ id sound h valued
  obtain ⟨js, hj, changes⟩ := journal_perform marked.self fun b ↦ b.fieldChanged 1
  obtain ⟨flags, -, performed⟩ := Remade.perform marked.self fun b ↦ b.fieldChanged 1
  have done : ((n.store 1 (.float t)).flagAll [1]).inSetup = false := out
  rw [done, if_neg Bool.false_ne_true] at changes
  refine ⟨⟨.event (.fieldChanged id 1) :: js, ?_, ?_⟩, fun r hr ↦ ?_⟩
  · rw [hj, announced, List.append_assoc]
    rfl
  · change (id, 1) :: js.changes = _
    refine congrArg _ (changes.trans ((congrArg _ answered.outputs).trans ?_))
    rw [List.map_map]
    rfl
  · refine value_eq_ok (k := (id, 4)).mpr ?_
    rw [held?, performed.self, Option.bind_some]
    exact answered.value r hr

/-- At any fraction an interpolator says what the first key value is before the first key, what the
last is behind the last key that has a value, and a mixture of neighbors in between, and it says
nothing just if neither is the case, which takes a key that is no number. A fraction that is written
is taken, and answered by what there is to say. -/
theorem interpolates (keys values : List Single) (width : Nat) (t : Single)
    (hw : width = 1 ∨ width = 3) (valued : 0 < min keys.length (values.length / width)) :
    Answers (used keys values width) values width t (interpolate keys values width t) ∧
    (t.isNaN = false → (∀ k ∈ used keys values width, k.isNaN = false) →
      (interpolate keys values width t).isSome) ∧
    ∀ s : Scene, s.Met → ∀ id n, s.node? id = some n → n.IsInterpolator width →
      n.inSetup = false → n.floats "key" = keys → n.floats "keyValue" = values →
      ∃ s', s.setValue id 1 (.float t) = .ok s' ∧
        Interpolates s id width (interpolate keys values width t) s' := by
  have valued : used keys values width ≠ [] := List.ne_nil_of_length_pos (by
    rw [used, List.length_take, Nat.min_comm]
    exact valued)
  have answers := interpolate_answers (t := t) (hw.elim (by omega) (by omega)) valued
  refine ⟨answers, fun number numbers ↦ answers.isSome numbers number, ?_⟩
  rintro s met id n hn h out rfl rfl
  exact interpolates_setValue hn (met.sound hn) h out valued

/-- A scalar interpolator that is ready to go. -/
def eased (keys values : List Single) : Scene :=
  [.createNode .main "ScalarInterpolator", .setValue (.issued 0) 2 (.ofFloats keys),
    .setValue (.issued 0) 3 (.ofFloats values), .finishSetup (.issued 0)].foldl Operation.run
    (start ⟨[Node.interpolatorType Standard.scalarInterpolator]⟩ {})

theorem story_easing :
    Story [] (start ⟨[Node.interpolatorType Standard.scalarInterpolator]⟩ {}) := by
  have built : ∀ t ∈ [Node.interpolatorType Standard.scalarInterpolator], t.Built := by
    simpa using ⟨Standard.scalarInterpolator, rfl⟩
  have made : Scene.new ⟨[Node.interpolatorType Standard.scalarInterpolator]⟩ {} =
      .ok (start ⟨[Node.interpolatorType Standard.scalarInterpolator]⟩ {}) := rfl
  exact .new built made

theorem met_eased : (eased keys values).Met := (story_easing.trail _).met

theorem isInterpolator_eased (hn : (eased keys values).node? id = some n) :
    n.IsInterpolator 1 := by
  have passes : Passes _ (eased keys values) := story_easing.coherent.passes_foldl _
  have known := met_eased.type_mem hn
  rw [passes.catalog] at known
  exact .inl ⟨rfl, by rw [List.mem_singleton.mp known]; rfl⟩

/-- Two keys are the same, and one is left over. -/
theorem interpolates_eased :
    Answers [0, 0, 1] [1, 2, 4] 1 0.5 (some [3]) ∧
      (interpolate [0, 0, 1, 2] [1, 2, 4] 1 0.5).isSome ∧
    ∃ s' js, (eased [0, 0, 1, 2] [1, 2, 4]).setValue (.issued 0) 1 (.float 0.5) = .ok s' ∧
      s'.journal = (eased [0, 0, 1, 2] [1, 2, 4]).journal ++ js ∧
      Journal.changes js = [(.issued 0, 1), (.issued 0, 4)] ∧
      s'.value (.issued 0) 4 = .ok (.float 3) := by
  obtain ⟨answers, answered, written⟩ :=
    interpolates [0, 0, 1, 2] [1, 2, 4] 1 0.5 (.inl rfl) (by decide)
  have answer : interpolate [0, 0, 1, 2] [1, 2, 4] 1 0.5 = some [3] := by decide +kernel
  have seen : ((eased [0, 0, 1, 2] [1, 2, 4]).node? (.issued 0)).map (fun n ↦
      (n.inSetup, n.floats "key", n.floats "keyValue")) =
        some (false, [0, 0, 1, 2], [1, 2, 4]) := by
    decide +kernel
  obtain ⟨n, hn, he⟩ := Option.map_eq_some_iff.mp seen
  obtain ⟨out, lists⟩ := Prod.mk.inj he
  obtain ⟨key, keyValue⟩ := Prod.mk.inj lists
  obtain ⟨s', hs, ⟨js, hj, changes⟩, value⟩ :=
    written _ met_eased _ n hn (isInterpolator_eased hn) out key keyValue
  rw [answer] at answers changes
  exact ⟨answers, answered (by decide +kernel) (by decide +kernel), s', js, hs, hj, changes,
    value [3] answer⟩

/-- The check of keys lets one through that is no number. -/
theorem unanswered_eased :
    (∀ d, Standard.Interpolator.behavior.Accepts d (.ofFloats [0, Binary.nan, 1])) ∧
    0 < min [(0 : Single), Binary.nan, 1].length ([(0 : Single), 1, 2].length / 1) ∧
    interpolate [0, Binary.nan, 1] [0, 1, 2] 1 0.5 = none ∧
    (eased [0, Binary.nan, 1] [0, 1, 2]).Met ∧
    ((eased [0, Binary.nan, 1] [0, 1, 2]).node? (.issued 0)).map (fun n ↦
      (n.inSetup, n.floats "key", n.floats "keyValue")) =
        some (false, [0, Binary.nan, 1], [0, 1, 2]) ∧
    ((eased [0, Binary.nan, 1] [0, 1, 2]).setValue (.issued 0) 1 (.float 0.5)).isOk ∧
    ((Operation.setValue (.issued 0) 1 (.float 0.5)).run
        (eased [0, Binary.nan, 1] [0, 1, 2])).journal =
      (eased [0, Binary.nan, 1] [0, 1, 2]).journal ++ [.event (.fieldChanged (.issued 0) 1)] := by
  have ascends : ascending [0, Binary.nan, 1] = true := by decide +kernel
  refine ⟨fun d _ _ ↦ if_neg fun h ↦ ?_, by decide, by decide +kernel, met_eased,
    by decide +kernel, by decide +kernel, by decide +kernel⟩
  have refused : (!ascending [0, Binary.nan, 1]) = true := h.2
  rw [ascends] at refused
  cases refused

end Scene

end SceneGraph
