import SceneGraph.Proofs.Storing
import SceneGraph.Proofs.Timekeeping

/-!
Fields that are set for good.

A plain field is neither an input nor an output nor exposed, and once its node is set up the setter
refuses it. Nothing else writes it: the children of a node are in an exposed field, and the scripts
of the standard types write outputs. One of these is a plain field, the index list of a face set,
which takes over what is written to the input beside it and nothing else.
-/

namespace SceneGraph

namespace Standard

variable {t : FieldTable} {type : NodeType} {d : Declaration} {n : Node} {i : Nat}
  {script : Behavior → Script}

/-- The fields that scripts of the standard types write. -/
def outputs : List String := reactions.map Prod.snd ++ timings

/-- The field is set for good when the setup of its node ends. -/
structure Locks (type : NodeType) (d : Declaration) : Prop where
  access : d.access = .field
  single : ¬(type.name = "IndexedFaceSet" ∧ d.name = "coordIndex")

theorem outputs_unlocked : ∀ b ∈ blueprints, ∀ name ∈ outputs,
    ((FieldTable.indexOf? ⟨b.declarations⟩ name).bind (FieldTable.get? ⟨b.declarations⟩)).all
      fun d ↦ decide (d.access ≠ .field ∨ b.name = "IndexedFaceSet" ∧ d.name = "coordIndex") := by
  decide +kernel

theorem Locks.not_output (locks : Locks type d) (h : type ∈ Catalog.standard.types)
    (hd : type.table.get? i = some d) : ∀ name ∈ outputs, type.table.indexOf? name ≠ some i := by
  intro name hm hi
  obtain ⟨b, hb, built⟩ := exists_blueprint h
  obtain ⟨owner, declarations, -⟩ := Blueprint.build_eq_ok built
  have unlocked := outputs_unlocked b hb name hm
  rw [← declarations] at unlocked
  change ((type.table.indexOf? name).bind type.table.get?).all _ = true at unlocked
  rw [hi, Option.bind_some, hd, Option.all_some, decide_eq_true_eq, ← owner] at unlocked
  exact unlocked.elim (fun h ↦ h locks.access) locks.single

theorem spares_publishAll {outputs : List (String × Value)}
    (h : ∀ o ∈ outputs, t.indexOf? o.1 ≠ some i) :
    Script.Spares t i (TimeSensor.publishAll outputs) := by
  induction outputs with
  | nil => exact .done
  | cons o outputs ih =>
    obtain ⟨first, rest⟩ := List.forall_mem_cons.mp h
    exact .publish first (ih rest)

theorem spares_tick (h : type ∈ Catalog.standard.types)
    (free : ∀ name ∈ timings, type.table.indexOf? name ≠ some i) :
    Script.Spares type.table i type.behavior.tick := by
  have timed : Script.Spares type.table i TimeSensor.behavior.tick :=
    .look fun v _ ↦ spares_publishAll fun o ho ↦ free o.1 (name_mem_timings _ o ho)
  obtain ⟨b, hb, built⟩ := exists_blueprint h
  rw [(Blueprint.build_eq_ok built).2.2]
  clear built
  revert b
  simp only [blueprints, List.forall_mem_cons]
  exact ⟨.done, .done, .done, .done, .done, .done, .done, .done, .done, .done, .done, .done, timed,
    .done, .done, .done, .done, .done, List.forall_mem_nil _⟩

theorem setupFinished_eq (h : type ∈ Catalog.standard.types) :
    type.behavior.setupFinished = .done := by
  obtain ⟨b, hb, built⟩ := exists_blueprint h
  rw [(Blueprint.build_eq_ok built).2.2]
  clear built
  revert b
  simp only [blueprints, List.forall_mem_cons]
  exact ⟨rfl, rfl, rfl, rfl, rfl, rfl, rfl, rfl, rfl, rfl, rfl, rfl, rfl, rfl, rfl, rfl, rfl, rfl,
    List.forall_mem_nil _⟩

/-- The scripts of the standard types write outputs. -/
theorem spares_cued (h : type ∈ Catalog.standard.types) (cue : Scene.Cued n script)
    (free : ∀ name ∈ outputs, type.table.indexOf? name ≠ some i) :
    Script.Spares type.table i (script type.behavior) := by
  cases cue with
  | tick =>
    exact spares_tick h fun name hm ↦ free name (List.mem_append_right _ hm)
  | fieldChanged index =>
    exact spares_reacting h fun r hr _ ↦
      free r.2 (List.mem_append_left _ (List.mem_map_of_mem hr))
  | setupFinished =>
    rw [setupFinished_eq h]
    exact .done

end Standard

namespace Scene

open Standard (Locks)

/-- What is done beside the writes. -/
inductive Meanwhile : Scene → Scene → Prop
  | aside {s s'} (h : Resembles s s') : Meanwhile s s'
  | addNode (s : Scene) (sp : SpaceId) (type : NodeType) : Meanwhile s (s.addNode sp type)
  | finishSetup {s s' guest} (id : NodeId) (hc : s.Coherent [] guest)
      (h : s.finishSetup id = .ok s') : Meanwhile s s'
  | tickSensor {s guest} (id : NodeId) (hc : s.Coherent [] guest) : Meanwhile s (s.tickSensor id)

/-- The writes that were taken from a scene on, the last one first, and the scene that they led to,
with what was done meanwhile. -/
inductive Ledger (s : Scene) : List (Port × Value) → Scene → Prop
  | start : Ledger s [] s
  | write {ws t u guest id index v} (h : Ledger s ws t) (hc : t.Coherent [] guest)
      (hv : t.setValue id index v = .ok u) : Ledger s (((id, index), v) :: ws) u
  | meanwhile {ws t u} (h : Ledger s ws t) (hb : Meanwhile t u) (hp : Passes t u) : Ledger s ws u

variable {s t u : Scene} {guest : Option SpaceId} {id k : NodeId} {n m : Node} {i index : Nat}
  {d : Declaration} {v : Value} {asked : NodeId → Prop}

section locking

/-- The second node is the first at a later time after its setup. -/
structure Locked (n m : Node) : Prop where
  type : m.type = n.type
  out : m.inSetup = false
  values : ∀ i d, n.type.table.get? i = some d → Locks n.type d → m.values[i]? = n.values[i]?

theorem Locked.refl (out : n.inSetup = false) : Locked n n := ⟨rfl, out, fun _ _ _ _ ↦ rfl⟩

theorem Locked.trans {n' : Node} (h : Locked n m) (h' : Locked m n') : Locked n n' where
  type := h'.type.trans h.type
  out := h'.out
  values i d hd locks :=
    (h'.values i d (h.type.symm ▸ hd) (h.type.symm ▸ locks)).trans (h.values i d hd locks)

theorem Altered.locks (ha : Altered s id n m) (sound : n.Sound) (out : n.inSetup = false)
    (known : n.type ∈ Catalog.standard.types) : Locked n m := by
  have kept := Locked.refl out
  cases ha with
  | same => exact kept
  | flagged | load => exact ⟨rfl, out, kept.values⟩
  | @stored index v flags ha hf =>
    obtain ⟨d, hd, -, unlocked, -⟩ := Node.admits_eq_ok.mp ha
    refine ⟨rfl, out, fun i e he locks ↦ List.getElem?_set_ne ?_⟩
    rintro rfl
    cases hd.symm.trans he
    exact unlocked ⟨locks.access, out⟩
  | performed cue =>
    refine ⟨rfl, out, fun i d hd locks ↦ ?_⟩
    exact (Standard.spares_cued known cue (locks.not_output known hd)).perform
  | @edited input children edit flags hc =>
    refine ⟨rfl, out, fun i d hd locks ↦ List.getElem?_set_ne ?_⟩
    rintro rfl
    cases hd.symm.trans
      (sound.built.get?_standard (c := .children) (d := .children) List.mem_cons_self hc)
    cases locks.access
  | opened hi => cases hi.symm.trans out

theorem Passes.locks (h : Passes s t) (sound : n.Sound) (hn : s.node? id = some n)
    (out : n.inSetup = false) (known : n.type ∈ Catalog.standard.types)
    (hm : t.node? id = some m) : Locked n m := by
  refine (h.keep (P := fun m ↦ m.Sound ∧ Locked n m) hn ⟨sound, .refl out⟩ ?_ hm).2
  rintro u m m' ⟨sound, locked⟩ ha
  exact ⟨ha.sound sound, locked.trans (ha.locks sound locked.out (locked.type ▸ known))⟩

end locking

section ledgers

variable {ws : List (Port × Value)}

theorem Ledger.passes (h : Ledger s ws t) : Passes s t := by
  induction h with
  | start => exact .refl
  | write _ hc hv ih => exact ih.trans (Touches.setValue (l := .free) hc hv).passes
  | meanwhile _ _ hp ih => exact ih.trans hp

theorem Ledger.travels (h : Ledger s ws t) (ht : Travels asked t u) : ∃ ws, Ledger s ws u := by
  induction ht with
  | refl => exact ⟨ws, h⟩
  | tail _ leg ih =>
    obtain ⟨ws, h⟩ := ih
    obtain ⟨leg, passes⟩ := leg
    cases leg with
    | aside fares => exact ⟨ws, .meanwhile h (.aside fares.resembles) passes⟩
    | addNode => exact ⟨ws, .meanwhile h (.addNode ..) passes⟩
    | setValue hc hv => exact ⟨_, .write h hc hv⟩
    | finishSetup hc hf => exact ⟨ws, .meanwhile h (.finishSetup _ hc hf) passes⟩
    | tickSensor hc id => exact ⟨ws, .meanwhile h (.tickSensor id hc) passes⟩

/-- A ledger can be kept of operations. -/
theorem Coherent.exists_ledger (h : s.Coherent [] none) (ops : List Operation) :
    ∃ ws, Ledger s ws (ops.foldl Operation.run s) := by
  suffices onward : ∀ {ws t}, Ledger s ws t → t.Coherent [] none →
      ∃ ws, Ledger s ws (ops.foldl Operation.run t) from onward .start h
  intro ws t ledger coherent
  induction ops generalizing ws t with
  | nil => exact ⟨ws, ledger⟩
  | cons op ops ih =>
    obtain ⟨ws, onward⟩ := ledger.travels (coherent.travels op)
    exact ih onward (coherent.run op)

end ledgers

section indices

theorem eq_faceSet {type : NodeType} (h : type ∈ Catalog.standard.types)
    (name : type.name = "IndexedFaceSet") : type = faceSet := by
  have built : Standard.indexedFaceSet.build = .ok faceSet := rfl
  have same := Standard.build_of_name h (b := Standard.indexedFaceSet)
    (by simp [Standard.blueprints]) name
  exact Except.ok.inj (same.symm.trans built)

/-- What comes in replaces the index list. -/
theorem perform_set_coordIndex {view : NodeView} (table : view.table = faceSet.table)
    (hv : view.get? 3 = some v) (hd : faceSet.table.get? 3 = some d)
    (fits : d.shapeFault? v = none) :
    ((faceSet.behavior.fieldChanged 3).perform view).view.values = view.values.set 5 v := by
  cases hd
  have input : view.table.indexOf? "set_coordIndex" = some 3 :=
    table ▸ Standard.indexOf?_set_coordIndex
  have output : view.table.indexOf? "coordIndex" = some 5 := table ▸ Standard.indexOf?_coordIndex
  have listed : ∀ o ∈ [("coordIndex", v)], Standard.TimeSensor.Fits view.table o :=
    List.forall_mem_singleton.mpr ⟨5, ⟨.field, .multi .int32, "coordIndex", Standard.indices⟩,
      output, table ▸ rfl, fits⟩
  have placed : Standard.TimeSensor.placed view.table [("coordIndex", v)] = [(5, v)] := by
    rw [Standard.TimeSensor.placed, List.filterMap_cons, output]
    rfl
  have reacts : (faceSet.behavior.fieldChanged 3).perform view =
      Program.run Activation.host (Standard.TimeSensor.publishAll [("coordIndex", v)]) { view } := by
    change (Standard.indexed.fieldChanged 3).perform view = _
    simp only [Standard.indexed, Script.perform, Program.run, Activation.host, hv, input, output]
    rfl
  rw [reacts, (Standard.TimeSensor.run_publishAll listed).1, placed]
  rfl

/-- Only a write to the input makes a face set write its index list. -/
theorem spares_coordIndex (hi : index ≠ 3) :
    Script.Spares faceSet.table 5 (faceSet.behavior.fieldChanged index) := by
  have inputs : ∀ r ∈ Standard.reactions,
      faceSet.table.indexOf? r.1 = none ∨ faceSet.table.indexOf? r.1 = some 3 := by decide
  refine Standard.spares_indexed fun r hr he ↦ ?_
  rcases inputs r hr with input | input
  · cases input.symm.trans he
  · cases input.symm.trans he
    exact absurd rfl hi

/-- What was stored in a face set reaches its index list if it came in at the input, and else it
does not. -/
theorem perform_stored {view : NodeView} {values : List Value}
    (table : view.table = faceSet.table) (stored : view.values = values.set index v)
    (length : values.length = faceSet.table.size) (hd : faceSet.table.get? index = some d)
    (unlocked : d.access ≠ .field) (fits : d.shapeFault? v = none) :
    ((faceSet.behavior.fieldChanged index).perform view).view.values[5]? =
      if index = 3 then some v else values[5]? := by
  by_cases hi : index = 3
  · subst hi
    have input : view.get? 3 = some v := by
      rw [NodeView.get?, stored]
      exact List.getElem?_set_self (length ▸ FieldTable.lt_size_of_get? hd)
    have inside : 5 < view.values.length := by
      rw [stored, List.length_set, length]
      decide
    rw [if_pos rfl, perform_set_coordIndex table input hd fits, List.getElem?_set_self inside]
  · have apart : index ≠ 5 := by
      rintro rfl
      cases hd
      exact unlocked rfl
    have spares := spares_coordIndex hi
    rw [← table] at spares
    rw [if_neg hi, spares.perform, stored, List.getElem?_set_ne apart]

theorem setValue_faceSet (hc : s.Coherent [] guest) (hn : s.node? id = some n)
    (type : n.type = faceSet) (out : n.inSetup = false) (hv : s.setValue id index v = .ok t)
    (hm : t.node? id = some m) :
    m.values[5]? = if index = 3 then some v else n.values[5]? := by
  obtain ⟨d, hd, -, unlocked, fits, -⟩ := Node.admits_eq_ok.mp (admits_of_setValue hn hv)
  have length := (hc.sound hn).values.length
  obtain ⟨n', hn', ⟨hi, -⟩ | ⟨-, -, rfl⟩⟩ := Edited.setValue_stages hc hv
  · cases hn.symm.trans hn'
    cases hi.symm.trans out
  cases hn.symm.trans hn'
  -- a face set has no children and loads nothing
  have inert (u : Scene) : u.applyCapabilities id n.type index = u := by
    rw [type]
    rfl
  rw [inert] at hm
  have marked := Remade.stored hn index v
  obtain ⟨flags, -, performed⟩ := Remade.perform marked.self fun b ↦ b.fieldChanged index
  cases hm.symm.trans performed.self
  rw [type] at hd length
  change ((n.type.behavior.fieldChanged index).perform (viewOf _ id
    ((n.store index v).flagAll [index]))).view.values[5]? = _
  rw [type]
  exact perform_stored (congrArg NodeType.table type) rfl length hd (fun ha ↦ unlocked ⟨ha, out⟩)
    fits

/-- What is done beside writes leaves the index list of a face set as it is. -/
theorem Meanwhile.coordIndex (h : Meanwhile s t) (hn : s.node? id = some n)
    (type : n.type = faceSet) (out : n.inSetup = false) (hm : t.node? id = some m) :
    m.values[5]? = n.values[5]? := by
  have same (hs : s.node? id = some m) : m.values[5]? = n.values[5]? := by
    rw [Option.some.inj (hs.symm.trans hn)]
  cases h with
  | aside resembles =>
    obtain ⟨n', hn', he⟩ := resembles.node hm
    cases hn.symm.trans hn'
    rw [he]
  | addNode =>
    rcases of_node?_addNode hm with ⟨rfl, -⟩ | hs
    · cases (node?_nextNode s).symm.trans hn
    · exact same hs
  | finishSetup k hc hf =>
    by_cases hk : id = k
    · subst hk
      rcases Touches.finishSetup (l := .free) hc hf with rfl | ⟨n', hn', hi, -⟩
      · exact same hm
      · cases hn.symm.trans hn'
        cases hi.symm.trans out
    · exact same ((Edited.finishSetup hc hf).node hk hm)
  | tickSensor k hc =>
    by_cases hk : id = k
    · subst hk
      unfold Scene.tickSensor at hm
      simp only [hn] at hm
      split at hm
      · exact same hm
      · obtain ⟨flags, -, performed⟩ := Remade.perform hn Behavior.tick
        cases hm.symm.trans performed.self
        change ((n.type.behavior.tick).perform (s.viewOf id n)).view.values[5]? = _
        rw [type]
        rfl
    · exact same ((Edited.tickSensor hc).node hk hm)

/-- A face set has the indices that were written last, and its own before that. -/
theorem Ledger.coordIndex {ws : List (Port × Value)} (h : Ledger s ws t) (sound : n.Sound)
    (hn : s.node? id = some n) (type : n.type = faceSet) (out : n.inSetup = false)
    (hm : t.node? id = some m) : m.values[5]? = (ws.lookup (id, 3)).or n.values[5]? := by
  have there {u : Scene} {o : Node} (hp : Passes s u) (ho : u.node? id = some o) :
      o.type = faceSet ∧ o.inSetup = false := by
    have locked := hp.locks sound hn out (type ▸ standard_meshing _ List.mem_cons_self) ho
    exact ⟨locked.type.trans type, locked.out⟩
  have known : ¬s.Fresh id := fun fresh ↦ by cases hn.symm.trans fresh.node?
  induction h generalizing m with
  | start =>
    cases hn.symm.trans hm
    rfl
  | @write ws t u guest k index v ledger hc hv ih =>
    by_cases hk : id = k
    · subst hk
      obtain ⟨o, ho, -⟩ := Edited.setValue_stages hc hv
      obtain ⟨like, done⟩ := there ledger.passes ho
      rw [setValue_faceSet hc ho like done hv hm, List.lookup_cons]
      by_cases hi : index = 3
      · rw [if_pos hi, hi, beq_self_eq_true]
        rfl
      · rw [if_neg hi, ih ho, beq_eq_false_iff_ne.mpr fun he ↦ hi (congrArg Prod.snd he).symm]
    · rw [ih ((Edited.setValue hc hv).node hk hm), List.lookup_cons,
        beq_eq_false_iff_ne.mpr fun he ↦ hk (congrArg Prod.fst he)]
  | meanwhile ledger hb hp ih =>
    have later : ¬Scene.Fresh _ id := fun fresh ↦ known (fresh.of_issued ledger.passes.issued_le)
    obtain ⟨o, ho⟩ := Passes.exists_node hp later hm
    obtain ⟨like, done⟩ := there ledger.passes ho
    exact (hb.coordIndex ho like done hm).trans (ih ho)

end indices

/-- In the midst of operations as between them, what was set in a plain field when the setup of its
node ended stays there. Only the index list of a face set changes, and what it holds is what was
written last to the input beside it. -/
theorem Reachable.plain_fields_locked (h : s.Reachable)
    (standard : ∀ type ∈ s.catalog.types, type ∈ Catalog.standard.types)
    (hn : s.node? id = some n) (out : n.inSetup = false) :
    (∀ t m, Passes s t → t.node? id = some m → Locked n m) ∧
    (∀ ops : List Operation, ∃ ws, Ledger s ws (ops.foldl Operation.run s)) ∧
    ∀ ws t, Ledger s ws t → Passes s t ∧
      ∀ m, t.node? id = some m → n.type.name = "IndexedFaceSet" → ∃ input target,
        n.type.table.indexOf? "set_coordIndex" = some input ∧
        n.type.table.indexOf? "coordIndex" = some target ∧
        m.values[target]? = (ws.lookup (id, input)).or n.values[target]? := by
  have known := standard _ (h.met.type_mem hn)
  have sound := h.met.sound hn
  refine ⟨fun t m passes ↦ passes.locks sound hn out known, h.coherent.exists_ledger,
    fun ws t ledger ↦ ⟨ledger.passes, fun m hm name ↦ ?_⟩⟩
  have type := eq_faceSet known name
  refine ⟨3, 5, ?_, ?_, ledger.coordIndex sound hn type out hm⟩
  · rw [type]
    exact Standard.indexOf?_set_coordIndex
  · rw [type]
    exact Standard.indexOf?_coordIndex

/-- A face set that is set up, without indices. -/
def faced : Scene :=
  [Operation.createNode .main "IndexedFaceSet", .finishSetup (.issued 0)].foldl Operation.run
    (start ⟨[faceSet, clock]⟩ {})

/-- The face set takes over indices, and its other fields stay. -/
theorem plain_fields_locked_faced : faced.Reachable ∧ ∃ n m t,
    faced.node? (.issued 0) = some n ∧ n.inSetup = false ∧ n.values[5]? = some (.ofInts []) ∧
    faced.setValue (.issued 0) 3 (.ofInts [0, 1, -1]) = .ok t ∧ t.node? (.issued 0) = some m ∧
    Locked n m ∧ m.values[5]? = some (.ofInts [0, 1, -1]) := by
  have reachable : faced.Reachable := reachable_meshing _
  have before : (faced.node? (.issued 0)).map (fun n ↦
      (n.inSetup, n.type.name, n.type.table.indexOf? "set_coordIndex",
        n.type.table.indexOf? "coordIndex")) =
          some (false, "IndexedFaceSet", some 3, some 5) := by decide +kernel
  have empty : (faced.node? (.issued 0)).bind (·.values[5]?) = some (.ofInts []) := rfl
  obtain ⟨n, hn, he⟩ := Option.map_eq_some_iff.mp before
  simp only [Prod.mk.injEq] at he
  obtain ⟨out, name, input, output⟩ := he
  rw [hn, Option.bind_some] at empty
  have written : ((faced.setValue (.issued 0) 3 (.ofInts [0, 1, -1])).toOption.bind
      (·.node? (.issued 0))).isSome := by decide +kernel
  obtain ⟨kept, -, led⟩ := reachable.plain_fields_locked standard_meshing hn out
  cases hv : faced.setValue (.issued 0) 3 (.ofInts [0, 1, -1]) with
  | error => cases hv ▸ written
  | ok t =>
    rw [hv] at written
    obtain ⟨m, hm⟩ := Option.isSome_iff_exists.mp written
    have ledger : Ledger faced [((.issued 0, 3), .ofInts [0, 1, -1])] t :=
      .write .start reachable.coherent hv
    obtain ⟨passes, indices⟩ := led _ t ledger
    obtain ⟨i, j, hi, hj, last⟩ := indices m hm name
    cases hi.symm.trans input
    cases hj.symm.trans output
    exact ⟨reachable, n, m, t, hn, out, empty, rfl, hm, kept t m passes hm, last⟩

end Scene

end SceneGraph
