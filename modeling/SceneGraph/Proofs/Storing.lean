import SceneGraph.Proofs.Concealing
import SceneGraph.Proofs.Plain
import SceneGraph.Proofs.Reloading

/-!
Writes from outside.

A write is refused by the first check that finds fault with it, and then nothing is done. Otherwise
the value is stored, and nothing that reacts to it takes it back.
-/

namespace SceneGraph

section sparing

variable {t : FieldTable} {i : Nat}

/-- The script never writes the field at `i` of a node with the fields `t`. -/
inductive Script.Spares (t : FieldTable) (i : Nat) : Script → Prop
  | done : Spares t i .done
  | look {next : NodeView → Script} (h : ∀ v, v.table = t → Spares t i (next v)) :
      Spares t i (.look next)
  | act {o : Output} {next : Except Error Unit → Script}
      (ho : ∀ owner, t.locate owner o.target ≠ .ok i) (h : ∀ answer, Spares t i (next answer)) :
      Spares t i (.act o next)
  | note {text : String} {next : Script} (h : Spares t i next) : Spares t i (.note text next)

namespace Script.Spares

theorem run {script : Script} (h : Spares t i script) {a : Activation} (ht : a.view.table = t) :
    (Program.run Activation.host script a).view.values[i]? = a.view.values[i]? := by
  induction h generalizing a with
  | done => rfl
  | look _ ih => exact ih a.view ht ht
  | note _ ih => exact ih (a := { a with notes := _ }) ht
  | @act o next ho _ ih =>
    have written : (Activation.host.act a o).1.view.table = t ∧
        (Activation.host.act a o).1.view.values[i]? = a.view.values[i]? := by
      unfold Activation.host
      dsimp only
      split
      · next b hb =>
        obtain ⟨j, d, hj, -, -, rfl⟩ := Activation.write_eq_ok hb
        rw [ht] at hj
        refine ⟨ht, List.getElem?_set_ne ?_⟩
        rintro rfl
        exact ho _ hj
      · exact ⟨ht, rfl⟩
    exact (ih (Activation.host.act a o).2 written.1).trans written.2

theorem perform {script : Script} {v : NodeView} (h : Spares v.table i script) :
    (script.perform v).view.values[i]? = v.values[i]? :=
  h.run rfl

theorem publish {name : String} {value : Value} {next : Script} (hi : t.indexOf? name ≠ some i)
    (h : Spares t i next) : Spares t i (Script.publish name value next) := by
  refine .act (fun owner ↦ ?_) fun answer ↦ ?_
  · change t.lookup owner name ≠ .ok i
    unfold FieldTable.lookup
    split
    · next hj =>
      rintro ⟨⟩
      exact hi hj
    · nofun
  · cases answer with
    | ok => exact h
    | error => exact .note h

end Script.Spares

end sparing

namespace Standard

variable {t : FieldTable} {type : NodeType} {index : Nat}

/-- The inputs that scripts of the standard types react to, each with the output that they write
then. -/
def reactions : List (String × String) :=
  [("set_coordIndex", "coordIndex"), ("set_fraction", "value_changed"), ("enabled", "isActive"),
    ("set_boolean", "toggle")]

/-- No reaction is written to the field that it is a reaction to. -/
def Apart (t : FieldTable) : Prop :=
  ∀ r ∈ reactions, ∀ i, t.indexOf? r.1 = some i → t.indexOf? r.2 ≠ some i

theorem apart_blueprints : ∀ b ∈ blueprints, ∀ r ∈ reactions,
    (FieldTable.indexOf? ⟨b.declarations⟩ r.1).all fun i ↦
      decide (FieldTable.indexOf? ⟨b.declarations⟩ r.2 ≠ some i) := by
  decide +kernel

theorem apart_of_mem (h : type ∈ Catalog.standard.types) : Apart type.table := by
  obtain ⟨b, hb, built⟩ := exists_blueprint h
  obtain ⟨-, declarations, -⟩ := Blueprint.build_eq_ok built
  intro r hr i hi
  have apart := apart_blueprints b hb r hr
  rw [← declarations] at apart
  exact of_decide_eq_true ((Option.all_eq_true _ _).mp apart i hi)

section scripts

variable {i : Nat}
  (spared : ∀ r ∈ reactions, t.indexOf? r.1 = some index → t.indexOf? r.2 ≠ some i)

include spared

theorem spares_indexed : Script.Spares t i (indexed.fieldChanged index) := by
  refine .look fun view ht ↦ ?_
  subst ht
  split
  · next hi =>
    split
    · exact .publish (spared ("set_coordIndex", "coordIndex") (by simp [reactions]) hi.1) .done
    · exact .done
  · exact .done

theorem spares_interpolator : Script.Spares t i (Interpolator.behavior.fieldChanged index) := by
  refine .look fun view ht ↦ ?_
  subst ht
  split
  · next hi =>
    split
    · exact .publish (spared ("set_fraction", "value_changed") (by simp [reactions]) hi) .done
    · exact .done
  · exact .done

theorem spares_timeSensor : Script.Spares t i (TimeSensor.behavior.fieldChanged index) := by
  refine .look fun view ht ↦ ?_
  subst ht
  unfold TimeSensor.switched
  split
  · next hi =>
    exact .publish (spared ("enabled", "isActive") (by simp [reactions]) hi.1) .done
  · exact .done

theorem spares_toggling : Script.Spares t i (toggling.fieldChanged index) := by
  refine .look fun view ht ↦ ?_
  subst ht
  split
  · next hi => exact .publish (spared ("set_boolean", "toggle") (by simp [reactions]) hi.1) .done
  · exact .done

end scripts

/-- A script of a standard type that reacts to a field only writes the output of the reaction. -/
theorem spares_reacting (h : type ∈ Catalog.standard.types) {i : Nat}
    (spared : ∀ r ∈ reactions, type.table.indexOf? r.1 = some index →
      type.table.indexOf? r.2 ≠ some i) :
    Script.Spares type.table i (type.behavior.fieldChanged index) := by
  obtain ⟨b, hb, built⟩ := exists_blueprint h
  rw [(Blueprint.build_eq_ok built).2.2]
  clear built
  revert b
  simp only [blueprints, List.forall_mem_cons]
  exact ⟨.done, .done, .done, .done, .done, .done, .done, spares_indexed spared,
    spares_indexed spared, .done, .done, .done, spares_timeSensor spared,
    spares_interpolator spared, spares_interpolator spared, spares_toggling spared, .done, .done,
    List.forall_mem_nil _⟩

/-- The standard types leave a field that was set as it is. -/
theorem spares_fieldChanged (h : type ∈ Catalog.standard.types) :
    Script.Spares type.table index (type.behavior.fieldChanged index) :=
  spares_reacting h fun r hr ↦ apart_of_mem h r hr index

end Standard

theorem bind_eq_error {ε α β : Type} {x : Except ε α} {f : α → Except ε β} {e : ε} :
    (x >>= f) = .error e ↔ x = .error e ∨ ∃ a, x = .ok a ∧ f a = .error e := by
  cases x <;> simp [bind, Except.bind]

section shapes

variable {d : Declaration} {owner : String} {v : Value}

theorem FieldType.not_isMulti_of_isFixedTuple {t : FieldType} (h : t.isFixedTuple) :
    ¬t.isMulti := by
  intro hm
  simp [isFixedTuple, hm] at h

/-- A value that does not fit is of another kind than its field, or it is of the kind and has not
the components for a tuple, or for whole vectors. -/
theorem Declaration.checkShape_cases (d : Declaration) (owner : String) (v : Value) :
    d.checkShape owner v = .ok () ∨
    v.kind ≠ d.type.kind ∧
      d.checkShape owner v = .error (.field owner d.name (.kind d.type v.kind)) ∨
    v.kind = d.type.kind ∧ d.type.isFixedTuple ∧ v.validCount ≠ d.type.components ∧
      d.checkShape owner v = .error (.value owner d.name (.notExactly d.type v.validCount)) ∨
    v.kind = d.type.kind ∧ d.type.isMulti ∧ ¬d.type.components ∣ v.validCount ∧
      d.checkShape owner v = .error (.value owner d.name (.notMultiple d.type v.validCount)) := by
  unfold checkShape shapeFault?
  dsimp only
  by_cases hk : v.kind = d.type.kind
  · rw [if_neg (not_not_intro hk)]
    by_cases hf : d.type.kind = ⟨true, .float⟩
    · rw [if_neg (not_not_intro hf)]
      by_cases ht : d.type.isFixedTuple ∧ v.validCount ≠ d.type.components
      · rw [if_pos ht]
        exact .inr (.inr (.inl ⟨hk, ht.1, ht.2, rfl⟩))
      rw [if_neg ht]
      by_cases hm : d.type.isMulti ∧ v.validCount % d.type.components ≠ 0
      · rw [if_pos hm]
        exact .inr (.inr (.inr ⟨hk, hm.1, fun h ↦ hm.2 (Nat.mod_eq_zero_of_dvd h), rfl⟩))
      · rw [if_neg hm]
        exact .inl rfl
    · rw [if_pos hf]
      exact .inl rfl
  · rw [if_pos hk]
    exact .inr (.inl ⟨hk, rfl⟩)

theorem Node.admits_of_undeclared {n : Node} {issued index : Nat}
    (hd : n.type.table.get? index = none) : n.admits issued index v =
      .error (.field n.type.name s!"#{index}" (.outOfRange n.type.table.size)) := by
  unfold admits NodeType.declaration FieldTable.declaration
  rw [hd]
  rfl

/-- The checks of a write, in their order. -/
theorem Node.admits_eq_error {n : Node} {issued index : Nat} {e : Error}
    (hd : n.type.table.get? index = some d) (h : n.admits issued index v = .error e) :
    d.access = .eventOut ∧ e = .field n.type.name d.name .eventOut ∨
    d.access ≠ .eventOut ∧ (d.access = .field ∧ n.inSetup = false) ∧
      e = .field n.type.name d.name .locked ∨
    d.access ≠ .eventOut ∧ ¬(d.access = .field ∧ n.inSetup = false) ∧
      d.checkShape n.type.name v = .error e ∨
    d.access ≠ .eventOut ∧ ¬(d.access = .field ∧ n.inSetup = false) ∧
      d.checkShape n.type.name v = .ok () ∧ ∃ reason,
        n.type.behavior.validate issued index d v = .error reason ∧
        e = .value n.type.name d.name (.refused reason) := by
  unfold admits at h
  rw [show n.type.declaration index = .ok d from FieldTable.declaration_eq_ok.mpr hd] at h
  by_cases ho : d.access = .eventOut
  · simp only [ho, throw, throwThe, MonadExceptOf.throw, bind, Except.bind, if_true] at h
    exact .inl ⟨ho, (Except.error.inj h).symm⟩
  by_cases hl : d.access = .field ∧ n.inSetup = false
  · simp only [hl, throw, throwThe, MonadExceptOf.throw, bind, Except.bind] at h
    exact .inr (.inl ⟨ho, hl, (Except.error.inj h).symm⟩)
  cases shape : d.checkShape n.type.name v with
  | error e' =>
    refine .inr (.inr (.inl ⟨ho, hl, ?_⟩))
    simpa [ho, hl, shape, pure, Except.pure, bind, Except.bind] using h
  | ok =>
    refine .inr (.inr (.inr ⟨ho, hl, rfl, ?_⟩))
    cases hv : n.type.behavior.validate issued index d v with
    | ok =>
      simp [ho, hl, shape, hv, pure, Except.pure, bind, Except.bind] at h
    | error reason =>
      refine ⟨reason, rfl, ?_⟩
      simp [ho, hl, shape, hv, bind, Except.bind, throw, throwThe, MonadExceptOf.throw] at h
      exact h.symm

end shapes

namespace Scene

/-- What there is to object to a write, with the rank of the objection. -/
inductive Objects (s : Scene) (id : NodeId) (index : Nat) (v : Value) : Nat → Error → Prop
  | unknownNode (hn : s.node? id = none) : Objects s id index v 0 .unknownNode
  | outOfRange {n} (hn : s.node? id = some n) (hd : n.type.table.get? index = none) :
      Objects s id index v 1 (.field n.type.name s!"#{index}" (.outOfRange n.type.table.size))
  | eventOut {n d} (hn : s.node? id = some n) (hd : n.type.table.get? index = some d)
      (ho : d.access = .eventOut) :
      Objects s id index v 2 (.field n.type.name d.name .eventOut)
  | locked {n d} (hn : s.node? id = some n) (hd : n.type.table.get? index = some d)
      (hf : d.access = .field) (out : n.inSetup = false) :
      Objects s id index v 3 (.field n.type.name d.name .locked)
  | kind {n d} (hn : s.node? id = some n) (hd : n.type.table.get? index = some d)
      (hk : v.kind ≠ d.type.kind) :
      Objects s id index v 4 (.field n.type.name d.name (.kind d.type v.kind))
  | notExactly {n d} (hn : s.node? id = some n) (hd : n.type.table.get? index = some d)
      (ht : d.type.isFixedTuple) (hc : v.validCount ≠ d.type.components) :
      Objects s id index v 5 (.value n.type.name d.name (.notExactly d.type v.validCount))
  | notMultiple {n d} (hn : s.node? id = some n) (hd : n.type.table.get? index = some d)
      (hm : d.type.isMulti) (hc : ¬d.type.components ∣ v.validCount) :
      Objects s id index v 5 (.value n.type.name d.name (.notMultiple d.type v.validCount))
  | refused {n d reason} (hn : s.node? id = some n) (hd : n.type.table.get? index = some d)
      (hv : n.type.behavior.validate s.nodes.issued index d v = .error reason) :
      Objects s id index v 6 (.value n.type.name d.name (.refused reason))

variable {s s' t : Scene} {id : NodeId} {index : Nat} {v : Value} {n m : Node} {d : Declaration}
  {e e' : Error} {r r' : Nat}

section refusing

/-- The objections to a write of a declared field. -/
theorem Objects.rank (h : Objects s id index v r e) (hn : s.node? id = some n)
    (hd : n.type.table.get? index = some d) :
    r = 2 ∧ d.access = .eventOut ∨ r = 3 ∧ d.access = .field ∧ n.inSetup = false ∨
      r = 4 ∧ v.kind ≠ d.type.kind ∨
      r = 5 ∧ (d.type.isFixedTuple ∧ v.validCount ≠ d.type.components ∨
        d.type.isMulti ∧ ¬d.type.components ∣ v.validCount) ∨
      r = 6 ∧ ∃ reason, n.type.behavior.validate s.nodes.issued index d v = .error reason := by
  cases h with
  | unknownNode hn' => cases hn.symm.trans hn'
  | outOfRange hn' hd' =>
    cases hn.symm.trans hn'
    cases hd.symm.trans hd'
  | eventOut hn' hd' | locked hn' hd' | kind hn' hd' | notExactly hn' hd' | notMultiple hn' hd'
  | refused hn' hd' =>
    cases hn.symm.trans hn'
    cases hd.symm.trans hd'
    simp_all

/-- There is one objection of each rank at most. -/
theorem Objects.unique (h : Objects s id index v r e) (h' : Objects s id index v r e') :
    e = e' := by
  cases h with
  | unknownNode =>
    cases h'
    rfl
  | outOfRange hn =>
    cases h' with
    | outOfRange hn' =>
      cases hn.symm.trans hn'
      rfl
  | eventOut hn hd =>
    cases h' with
    | eventOut hn' hd' =>
      cases hn.symm.trans hn'
      cases hd.symm.trans hd'
      rfl
  | locked hn hd =>
    cases h' with
    | locked hn' hd' =>
      cases hn.symm.trans hn'
      cases hd.symm.trans hd'
      rfl
  | kind hn hd =>
    cases h' with
    | kind hn' hd' =>
      cases hn.symm.trans hn'
      cases hd.symm.trans hd'
      rfl
  | notExactly hn hd ht =>
    cases h' with
    | notExactly hn' hd' =>
      cases hn.symm.trans hn'
      cases hd.symm.trans hd'
      rfl
    | notMultiple hn' hd' hm =>
      cases hn.symm.trans hn'
      cases hd.symm.trans hd'
      exact absurd hm (FieldType.not_isMulti_of_isFixedTuple ht)
  | notMultiple hn hd hm =>
    cases h' with
    | notExactly hn' hd' ht =>
      cases hn.symm.trans hn'
      cases hd.symm.trans hd'
      exact absurd hm (FieldType.not_isMulti_of_isFixedTuple ht)
    | notMultiple hn' hd' =>
      cases hn.symm.trans hn'
      cases hd.symm.trans hd'
      rfl
  | refused hn hd hv =>
    cases h' with
    | refused hn' hd' hv' =>
      cases hn.symm.trans hn'
      cases hd.symm.trans hd'
      cases hv.symm.trans hv'
      rfl

theorem Objects.not_ok (h : Objects s id index v r e) : s.setValue id index v ≠ .ok s' := by
  intro hs
  obtain ⟨n, hn, hs⟩ := bind_eq_ok.mp hs
  obtain ⟨⟨⟩, ha, -⟩ := bind_eq_ok.mp hs
  obtain ⟨d, hd, access, unlocked, fits, valid⟩ := Node.admits_eq_ok.mp ha
  have shape : d.checkShape n.type.name v = .ok () := Declaration.checkShape_eq_ok.mpr fits
  obtain ⟨kind, tuple, vectors⟩ := Declaration.checkShape_iff.mp shape
  rcases h.rank (node_eq_ok.mp hn) hd with ⟨-, ho⟩ | ⟨-, hl⟩ | ⟨-, hk⟩ | ⟨-, hc⟩ | ⟨-, reason, hv⟩
  · exact access ho
  · exact unlocked hl
  · exact hk kind
  · exact hc.elim (fun hc ↦ hc.2 (tuple hc.1)) fun hc ↦ hc.2 (vectors hc.1)
  · cases hv.symm.trans valid

/-- A write that is refused is refused for the objection of the least rank. -/
theorem exists_objection (h : s.setValue id index v = .error e) :
    ∃ r, Objects s id index v r e ∧ ∀ {r' e'}, Objects s id index v r' e' → r ≤ r' := by
  cases hn : s.node? id with
  | none =>
    have he : e = .unknownNode := by
      simpa [setValue, node, hn, bind, Except.bind, eq_comm] using h
    exact ⟨0, he ▸ .unknownNode hn, fun _ ↦ Nat.zero_le _⟩
  | some n =>
  have refused : n.admits s.nodes.issued index v = .error e := by
    rcases bind_eq_error.mp h with h | ⟨n', hn', h⟩
    · cases (node_eq_ok.mpr hn).symm.trans h
    cases hn.symm.trans (node_eq_ok.mp hn')
    rcases bind_eq_error.mp h with h | ⟨⟨⟩, -, h⟩
    · exact h
    · dsimp only at h
      split at h <;> cases h
  cases hd : n.type.table.get? index with
  | none =>
    rw [Node.admits_of_undeclared hd] at refused
    cases refused
    refine ⟨1, .outOfRange hn hd, fun h ↦ ?_⟩
    cases h with
    | unknownNode hn' => cases hn.symm.trans hn'
    | _ => omega
  | some d =>
  have rank {r' e'} (h : Objects s id index v r' e') := h.rank hn hd
  rcases Node.admits_eq_error hd refused with ⟨ho, rfl⟩ | ⟨ho, hl, rfl⟩ | ⟨ho, hl, shape⟩ |
    ⟨ho, hl, shape, reason, hv, rfl⟩
  · refine ⟨2, .eventOut hn hd ho, fun h ↦ ?_⟩
    have := rank h
    omega
  · refine ⟨3, .locked hn hd hl.1 hl.2, fun h ↦ ?_⟩
    rcases rank h with ⟨-, h⟩ | h
    · exact absurd h ho
    · omega
  · rcases d.checkShape_cases n.type.name v with
      fits | ⟨hk, he⟩ | ⟨hk, ht, hc, he⟩ | ⟨hk, hm, hc, he⟩
    · cases fits.symm.trans shape
    · cases he.symm.trans shape
      refine ⟨4, .kind hn hd hk, fun h ↦ ?_⟩
      rcases rank h with ⟨-, h⟩ | ⟨-, h⟩ | h
      · exact absurd h ho
      · exact absurd h hl
      · omega
    · cases he.symm.trans shape
      refine ⟨5, .notExactly hn hd ht hc, fun h ↦ ?_⟩
      rcases rank h with ⟨-, h⟩ | ⟨-, h⟩ | ⟨-, h⟩ | h
      · exact absurd h ho
      · exact absurd h hl
      · exact absurd hk h
      · omega
    · cases he.symm.trans shape
      refine ⟨5, .notMultiple hn hd hm hc, fun h ↦ ?_⟩
      rcases rank h with ⟨-, h⟩ | ⟨-, h⟩ | ⟨-, h⟩ | h
      · exact absurd h ho
      · exact absurd h hl
      · exact absurd hk h
      · omega
  · refine ⟨6, .refused hn hd hv, fun h ↦ ?_⟩
    obtain ⟨kind, tuple, vectors⟩ := Declaration.checkShape_iff.mp shape
    rcases rank h with ⟨-, h⟩ | ⟨-, h⟩ | ⟨-, h⟩ | ⟨-, h⟩ | h
    · exact absurd h ho
    · exact absurd h hl
    · exact absurd kind h
    · exact (h.elim (fun h ↦ h.2 (tuple h.1)) fun h ↦ h.2 (vectors h.1)).elim
    · omega

theorem setValue_eq_error : s.setValue id index v = .error e ↔
    ∃ r, Objects s id index v r e ∧ ∀ r' e', Objects s id index v r' e' → r ≤ r' := by
  constructor
  · intro h
    obtain ⟨r, ho, least⟩ := exists_objection h
    exact ⟨r, ho, fun _ _ ↦ least⟩
  · rintro ⟨r, ho, least⟩
    cases hs : s.setValue id index v with
    | ok s' => exact absurd hs ho.not_ok
    | error e' =>
      obtain ⟨r', ho', least'⟩ := exists_objection hs
      cases Nat.le_antisymm (least r' e' ho') (least' ho)
      rw [ho.unique ho']

end refusing

section storing

variable {guest : Option SpaceId}

/-- The field of the children of a node is none of the inputs that edit them. -/
theorem children_ne_input {type : NodeType} {children : Nat} (built : type.Built)
    (hc : type.children? = some children)
    (hi : type.addChildren? = some index ∨ type.removeChildren? = some index) :
    children ≠ index := by
  rintro rfl
  have hd := built.get?_standard (c := .children) (d := .children) List.mem_cons_self hc
  rcases hi with hi | hi
  · cases hd.symm.trans (built.get?_standard (c := .children)
      (d := ⟨.eventIn, .multi .node, "addChildren", .ofNodes []⟩) (by decide) hi)
  · cases hd.symm.trans (built.get?_standard (c := .children)
      (d := ⟨.eventIn, .multi .node, "removeChildren", .ofNodes []⟩) (by decide) hi)

/-- The field at `index` holds what it held in the node `n`. -/
def Retains (s : Scene) (id : NodeId) (n : Node) (index : Nat) : Prop :=
  ∃ m, s.node? id = some m ∧ m.type = n.type ∧ m.values[index]? = n.values[index]?

theorem retains_editChildren (hn : s.node? id = some n) {children : Nat} (hc : children ≠ index)
    (input : Nat) (edit : List NodeId → List NodeId → List NodeId) :
    (s.editChildren id input children edit).Retains id n index := by
  rcases Remade.editChildren hn input children edit with he | ⟨flags, -, remade⟩
  · rw [he]
    exact ⟨n, hn, rfl, rfl⟩
  · exact ⟨_, remade.self, rfl, List.getElem?_set_ne hc⟩

theorem retains_applyLoadable (h : s.Coherent [] guest) (hn : s.node? id = some n)
    (type : NodeType) (input : Nat) : (s.applyLoadable id type input).Retains id n index := by
  obtain ⟨m, hm, ht, -⟩ := (Edited.applyLoadable h type input).exists_self hn
  obtain ⟨n', hn', he⟩ := (Reloads.applyLoadable s id type input).node hm
  cases hn.symm.trans hn'
  exact ⟨m, hm, ht, by rw [he]⟩

/-- What the capabilities of a type do with an input leaves the input itself alone. -/
theorem retains_applyCapabilities {type : NodeType} (h : s.Coherent [] guest)
    (hn : s.node? id = some n) (ht : n.type = type) :
    (s.applyCapabilities id type index).Retains id n index := by
  have built : type.Built := ht ▸ (h.sound hn).built
  unfold applyCapabilities
  split
  · next children hc =>
    split
    · next hi => exact retains_editChildren hn (children_ne_input built hc (.inl hi)) ..
    split
    · next hi => exact retains_editChildren hn (children_ne_input built hc (.inr hi)) ..
    · exact retains_applyLoadable h hn ..
  · exact retains_applyLoadable h hn ..

theorem retains_perform (hn : s.node? id = some n) {script : Behavior → Script}
    (spares : Script.Spares n.type.table index (script n.type.behavior)) :
    (s.perform id script).Retains id n index := by
  obtain ⟨flags, -, remade⟩ := Remade.perform hn script
  have written := spares.perform (v := s.viewOf id n)
  exact ⟨_, remade.self, rfl, written⟩

/-- A value stays where it was written, unless the script of the node takes it back. -/
theorem setValue_kept (h : s.Coherent [] guest) (hn : s.node? id = some n)
    (hs : s.setValue id index v = .ok s')
    (spares : n.inSetup = false →
      Script.Spares n.type.table index (n.type.behavior.fieldChanged index)) :
    s'.value id index = .ok v := by
  obtain ⟨d, hd, -⟩ := Node.admits_eq_ok.mp (admits_of_setValue hn hs)
  have inside : index < n.values.length :=
    (h.sound hn).values.length ▸ FieldTable.lt_size_of_get? hd
  have stored := node?_modifyNode_self s id (fun n ↦ n.store index v) hn
  have held : (n.store index v).values[index]? = some v := List.getElem?_set_self inside
  refine value_eq_ok (k := (id, index)).mpr ?_
  obtain ⟨n', hn', ⟨-, -, rfl⟩ | ⟨out, marked, rfl⟩⟩ := Edited.setValue_stages h hs
  · rw [held?, stored, Option.bind_some, held]
  cases hn.symm.trans hn'
  let s₁ := (s.modifyNode id fun n ↦ n.store index v).markChanged id index
  let n₁ : Node := { n.store index v with changed := n.changed.set index true }
  have written : s₁.node? id = some n₁ := node?_modifyNode_self _ _ _ stored
  obtain ⟨m, hm, type, applied⟩ : (s₁.applyCapabilities id n.type index).Retains id n₁ index :=
    retains_applyCapabilities marked.coherent written rfl
  obtain ⟨m', hm', -, performed⟩ : (((s₁.applyCapabilities id n.type index).perform id
      fun b ↦ b.fieldChanged index).Retains id m index) :=
    retains_perform hm (type ▸ spares out)
  rw [held?, hm', Option.bind_some, performed, applied]
  exact held

/-- A value is put in its slot, and nobody hears of that. -/
structure Filled (s : Scene) (id : NodeId) (index : Nat) (v : Value) (s' : Scene) : Prop where
  slot : s' = s.modifyNode id fun n ↦ n.store index v
  pending : s'.pending = s.pending
  journal : s'.journal = s.journal
  value : s'.value id index = .ok v

/-- A value is announced first of all that comes of it, and no other node that is left is touched.
The built-in types do not take it back. -/
structure Taken (s : Scene) (id : NodeId) (index : Nat) (v : Value) (s' : Scene) : Prop where
  journal : ∃ js, s'.journal = s.journal ++ .event (.fieldChanged id index) :: js
  other : ∀ {k m}, k ≠ id → s'.node? k = some m → s.node? k = some m
  value : ∀ n, s.node? id = some n → n.type ∈ Catalog.standard.types → s'.value id index = .ok v

theorem setValue_filled (h : s.Coherent [] guest) (hn : s.node? id = some n) (hi : n.inSetup = true)
    (hs : s.setValue id index v = .ok s') : Filled s id index v s' := by
  obtain ⟨n', hn', ⟨-, -, he⟩ | ⟨out, -⟩⟩ := Edited.setValue_stages h hs
  · exact {
      slot := he
      pending := by rw [he, pending_modifyNode]
      journal := by rw [he, journal_modifyNode]
      value := setValue_kept h hn hs fun out ↦ nomatch hi.symm.trans out }
  · cases hn.symm.trans hn'
    cases hi.symm.trans out

theorem setValue_taken (h : s.Coherent [] guest) (hn : s.node? id = some n)
    (out : n.inSetup = false) (hs : s.setValue id index v = .ok s') : Taken s id index v s' where
  journal := by
    obtain ⟨n', hn', ⟨hi, -⟩ | ⟨-, marked, rfl⟩⟩ := Edited.setValue_stages h hs
    · cases hn.symm.trans hn'
      cases hi.symm.trans out
    have written : ∀ m, ((s.modifyNode id fun n ↦ n.store index v).markChanged id index).node? id =
        some m → m.type = n'.type := by
      intro m hm
      obtain ⟨m', hm', type, -⟩ := marked.exists_self hn'
      cases hm.symm.trans hm'
      exact type
    have applied := Edited.applyCapabilities marked.coherent written index
    have reacted := applied.trans (Edited.perform applied.coherent fun b ↦ b.fieldChanged index)
    obtain ⟨js, hj, -⟩ := reacted.queue
    have announced := journal_markAll (s.modifyNode id fun n ↦ n.store index v) id [index]
    rw [journal_modifyNode] at announced
    exact ⟨js, hj.trans ((congrArg (· ++ js) announced).trans (List.append_assoc ..))⟩
  other := (Edited.setValue h hs).node
  value m hm hb := by
    cases hn.symm.trans hm
    exact setValue_kept h hn hs fun _ ↦ Standard.spares_fieldChanged hb

end storing

section counting

variable {α : Type} {data : List α} {count : Nat}

/-- What a refusal to count calls the type and the field. -/
def label (s : Scene) (id : NodeId) (index : Nat) : String × String :=
  match s.node? id with
  | none => ("", "")
  | some n => (n.type.name, ((n.type.table.get? index).map Declaration.name).getD s!"#{index}")

/-- The setter takes the first elements of an array for a value, if the array has so many. -/
structure SetsFirst (s : Scene) (id : NodeId) (index : Nat) (make : Counted α → Value)
    (set : List α → Nat → Except Error Scene) : Prop where
  refused : ∀ {data count}, data.length < count → set data count = .error
    (.value (s.label id index).1 (s.label id index).2 (.countTooLarge count data.length))
  exact : ∀ {data count} (h : count ≤ data.length),
    set data count = s.setValue id index (make ⟨data, count, h⟩)
  /-- The rest of the array does not matter to types that do not look at it. -/
  first : (∀ type ∈ s.catalog.types, type.behavior.Blind) → ∀ {data count},
    count ≤ data.length → Both Eq Indistinct (set data count)
      (s.setValue id index (make (.ofList (data.take count))))
  unchanged : ∀ {data count e}, set data count = .error e → s.after (set data count) = s

theorem Met.alike_self (h : s.Met) (blind : ∀ type ∈ s.catalog.types, type.behavior.Blind) :
    s.Alike s := by
  refine ⟨⟨rfl, fun k ↦ ?_⟩, blind⟩
  cases hn : s.nodes.get? k with
  | none => exact .none
  | some n =>
    have there : s.node? (.issued k) = some n := hn
    have known : n.type ∈ s.catalog.types := h.type_mem there
    exact .some ⟨.refl n.values, blind _ known⟩

theorem counted_of_le (h : count ≤ data.length) :
    s.counted id index data count = .ok ⟨data, count, h⟩ := by
  unfold counted Counted.withCount?
  rw [dif_pos h]

theorem counted_of_lt (h : data.length < count) : s.counted id index data count = .error
    (.value (s.label id index).1 (s.label id index).2 (.countTooLarge count data.length)) := by
  unfold counted
  split
  · next he =>
    rw [Counted.withCount?, dif_neg (Nat.not_le.mpr h)] at he
    cases he
  · rfl

theorem Met.setsFirst (h : s.Met) (id : NodeId) (index : Nat) {make : Counted α → Value}
    (hm : ∀ {a b}, a.toList = b.toList → (make a).Alike (make b)) :
    SetsFirst s id index make fun data count ↦
      s.counted id index data count >>= fun a ↦ s.setValue id index (make a) where
  refused hc := by
    rw [counted_of_lt hc]
    rfl
  exact hc := by
    rw [counted_of_le hc]
    rfl
  first blind {data count} hc := by
    rw [counted_of_le hc]
    have same : Counted.toList ⟨data, count, hc⟩ = (Counted.ofList (data.take count)).toList :=
      (Counted.toList_ofList _).symm
    exact ((h.alike_self blind).setValue id index (hm same)).mono fun _ _ alike ↦ alike.indistinct
  unchanged he := by
    rw [he]
    rfl

end counting

/-- A write is refused just if there is an objection, for the first that there is, and then nothing
is done. Otherwise the value is put in its slot. In setup that is all; out of setup listeners hear
of it first, and what reacts to it leaves the other nodes alone, and the value itself if the type is
built in. -/
theorem Reachable.setValue_exact (h : s.Reachable) (id : NodeId) (index : Nat) :
    (∀ v e, s.setValue id index v = .error e ↔
      ∃ r, Objects s id index v r e ∧ ∀ r' e', Objects s id index v r' e' → r ≤ r') ∧
    (∀ v e, s.setValue id index v = .error e → (Operation.setValue id index v).run s = s) ∧
    (∀ v s', s.setValue id index v = .ok s' → ∃ n, s.node? id = some n ∧
      (n.inSetup = true ∧ Filled s id index v s' ∨
        n.inSetup = false ∧ Taken s id index v s')) ∧
    SetsFirst s id index .ints (s.setInts id index) ∧
    SetsFirst s id index .floats (s.setFloats id index) ∧
    SetsFirst s id index .strings (s.setStrings id index) := by
  refine ⟨fun v e ↦ setValue_eq_error, fun v e he ↦ ?_, fun v s' hs ↦ ?_,
    h.met.setsFirst id index (congrArg Value.ofInts),
    h.met.setsFirst id index (congrArg Value.ofFloats),
    h.met.setsFirst id index (congrArg Value.ofStrings)⟩
  · rw [Operation.run, he]
    rfl
  · obtain ⟨n, hn, -⟩ := bind_eq_ok.mp hs
    have hn := node_eq_ok.mp hn
    cases hi : n.inSetup with
    | true => exact ⟨n, hn, .inl ⟨hi, setValue_filled h.coherent hn hi hs⟩⟩
    | false => exact ⟨n, hn, .inr ⟨hi, setValue_taken h.coherent hn hi hs⟩⟩

/-- Beside a face set and a clock there is a face set in setup. -/
def molded : Scene := [.createNode .main "IndexedFaceSet"].foldl Operation.run meshed

theorem reachable_molded : molded.Reachable := by
  rw [molded, meshed, ← List.foldl_append]
  exact reachable_meshing _

/-- The indices of a face set are fixed, which is the first objection to a truth value there. In
setup they can be set, and so can the input for new ones, to the first elements of an array. -/
theorem setValue_exact_molded : molded.Reachable ∧
    (∃ r, Objects molded (.issued 0) 5 (.bool true) r
        (.field "IndexedFaceSet" "coordIndex" .locked) ∧
      ∀ r' e', Objects molded (.issued 0) 5 (.bool true) r' e' → r ≤ r') ∧
    (Operation.setValue (.issued 0) 5 (.bool true)).run molded = molded ∧
    (∃ s', molded.setValue (.issued 2) 5 (.ofInts [0, -1]) = .ok s' ∧
      s'.value (.issued 2) 5 = .ok (.ofInts [0, -1]) ∧ s'.journal = molded.journal) ∧
    (∃ s' js, molded.setInts (.issued 0) 3 [0, 1, -1, 7] 3 = .ok s' ∧
      s'.value (.issued 0) 3 = .ok (.ints ⟨[0, 1, -1, 7], 3, Nat.le_succ 3⟩) ∧
      s'.journal = molded.journal ++ .event (.fieldChanged (.issued 0) 3) :: js) ∧
    molded.setInts (.issued 9) 3 [] 1 = .error (.value "" "" (.countTooLarge 1 0)) := by
  obtain ⟨refused, unchanged, -⟩ := reachable_molded.setValue_exact (.issued 0) 5
  obtain ⟨-, -, written, -⟩ := reachable_molded.setValue_exact (.issued 2) 5
  obtain ⟨-, -, announced, ints, -⟩ := reachable_molded.setValue_exact (.issued 0) 3
  obtain ⟨-, -, -, unknown, -⟩ := reachable_molded.setValue_exact (.issued 9) 3
  have locked : molded.setValue (.issued 0) 5 (.bool true) =
      .error (.field "IndexedFaceSet" "coordIndex" .locked) := by
    have told : ((molded.setValue (.issued 0) 5 (.bool true)).map fun _ ↦ ()) =
      .error (.field "IndexedFaceSet" "coordIndex" .locked) := by decide +kernel
    cases hs : molded.setValue (.issued 0) 5 (.bool true) <;> rw [hs] at told <;> cases told
    rfl
  refine ⟨reachable_molded, (refused _ _).mp locked, unchanged _ _ locked, ?_, ?_,
    unknown.refused Nat.one_pos⟩
  · have done : (molded.setValue (.issued 2) 5 (.ofInts [0, -1])).isOk := by decide +kernel
    cases hs : molded.setValue (.issued 2) 5 (.ofInts [0, -1]) with
    | error => cases hs ▸ done
    | ok s' =>
      obtain ⟨n, hn, ⟨-, filled⟩ | ⟨out, -⟩⟩ := written _ s' hs
      · exact ⟨s', rfl, filled.value, filled.journal⟩
      · have begun : (molded.node? (.issued 2)).map Node.inSetup = some true := by decide +kernel
        rw [hn] at begun
        cases out.symm.trans (Option.some.inj begun)
  · have done : (molded.setInts (.issued 0) 3 [0, 1, -1, 7] 3).isOk := by decide +kernel
    rw [ints.exact (Nat.le_succ 3)] at done ⊢
    cases hs : molded.setValue (.issued 0) 3 (.ints ⟨[0, 1, -1, 7], 3, Nat.le_succ 3⟩) with
    | error => cases hs ▸ done
    | ok s' =>
      obtain ⟨n, hn, ⟨begun, -⟩ | ⟨-, taken⟩⟩ := announced _ s' hs
      · have out : (molded.node? (.issued 0)).map Node.inSetup = some false := by decide +kernel
        rw [hn] at out
        cases begun.symm.trans (Option.some.inj out)
      · obtain ⟨js, hj⟩ := taken.journal
        have known := standard_meshing n.type (reachable_molded.met.type_mem hn)
        exact ⟨s', js, rfl, taken.value n hn known, hj⟩

end Scene

end SceneGraph
