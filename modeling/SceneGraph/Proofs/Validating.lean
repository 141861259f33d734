import SceneGraph.Proofs.Passing

/-!
Values in the domains of their fields.

Only what is written from outside is validated. Where the scripts of a type, its defaults and the
edits of its children keep to the same domains, every value that a node ever has is one that its
behavior accepts.
-/

namespace SceneGraph

/-- The behavior finds no fault with a value of the field. -/
def Behavior.Accepts (b : Behavior) (d : Declaration) (v : Value) : Prop :=
  ∀ issued index, b.validate issued index d v = .ok ()

/-- The behavior accepts the values, each for its field. -/
def Behavior.Approves (b : Behavior) (t : FieldTable) (values : List Value) : Prop :=
  ∀ i d v, t.get? i = some d → values[i]? = some v → b.Accepts d v

variable {b : Behavior} {t : FieldTable} {values : List Value}

theorem Behavior.Approves.set (h : b.Approves t values) {i : Nat} {d : Declaration} {v : Value}
    (hd : t.get? i = some d) (hv : b.Accepts d v) : b.Approves t (values.set i v) := by
  intro j e w he hw
  by_cases hj : i = j
  · subst hj
    cases hd.symm.trans he
    obtain ⟨hi, rfl⟩ := List.getElem?_eq_some_iff.mp hw
    rwa [List.getElem_set_self]
  · rw [List.getElem?_set_ne hj] at hw
    exact h j e w he hw

theorem FieldTable.spells_of_indexOf? {name : String} {i : Nat} {d : Declaration}
    (h : t.indexOf? name = some i) (hd : t.get? i = some d) : name ∈ d.spellings := by
  rw [get?_of_indexOf? h] at hd
  have spelled := List.find?_some (p := fun d : Declaration ↦ decide (name ∈ d.spellings)) hd
  exact of_decide_eq_true spelled

namespace Script

/-- Wherever the script writes, the behavior accepts what it writes. -/
inductive Restrained (b : Behavior) (t : FieldTable) : Script → Prop
  | done : Restrained b t .done
  | look {next : NodeView → Script}
      (h : ∀ v, v.table = t → b.Approves t v.values → Restrained b t (next v)) :
      Restrained b t (.look next)
  | act {o : Output} {next : Except Error Unit → Script}
      (hw : ∀ owner i d, t.locate owner o.target = .ok i → t.get? i = some d → b.Accepts d o.value)
      (h : ∀ answer, Restrained b t (next answer)) : Restrained b t (.act o next)
  | note {text : String} {next : Script} (h : Restrained b t next) :
      Restrained b t (.note text next)

theorem Restrained.run {script : Script} (h : Restrained b t script) {a : Activation}
    (ht : a.view.table = t) (ha : b.Approves t a.view.values) :
    b.Approves t (Program.run Activation.host script a).view.values := by
  induction h generalizing a with
  | done => exact ha
  | look _ ih => exact ih a.view ht ha ht ha
  | note _ ih => exact ih (a := { a with notes := _ }) ht ha
  | @act o next hw _ ih =>
    have written : (Activation.host.act a o).1.view.table = t ∧
        b.Approves t (Activation.host.act a o).1.view.values := by
      unfold Activation.host
      dsimp only
      split
      · next a' ho =>
        obtain ⟨i, d, hi, hd, -, rfl⟩ := Activation.write_eq_ok ho
        rw [ht] at hi hd
        exact ⟨ht, ha.set hd (hw _ i d hi hd)⟩
      · exact ⟨ht, ha⟩
    exact ih (Activation.host.act a o).2 written.1 written.2

/-- Publishing a value is no fault if the fields that go by the name take it. -/
theorem Restrained.publish {name : String} {value : Value} {next : Script}
    (hw : ∀ {d}, name ∈ d.spellings → b.Accepts d value) (h : Restrained b t next) :
    Restrained b t (publish name value next) := by
  refine .act (fun owner i d hi hd ↦ ?_) fun answer ↦ ?_
  · change t.lookup owner name = .ok i at hi
    unfold FieldTable.lookup at hi
    split at hi
    · next hj =>
      cases hi
      exact hw (FieldTable.spells_of_indexOf? hj hd)
    · cases hi
  · cases answer with
    | ok => exact h
    | error => exact .note h

end Script

/-- The field of a node's children. -/
def Declaration.children : Declaration := ⟨.exposed, .multi .node, "children", .ofNodes []⟩

/-- What a node writes by itself is held to the domains of its fields. -/
structure Behavior.Restrained (b : Behavior) (t : FieldTable) : Prop where
  steady : ∀ {issued index d v}, b.validate issued index d v = .ok () → b.Accepts d v
  children : ∀ ids, b.Accepts .children (.ofNodes ids)
  fieldChanged : ∀ index, Script.Restrained b t (b.fieldChanged index)
  tick : Script.Restrained b t b.tick
  setupFinished : Script.Restrained b t b.setupFinished

/-- The values of a type start and stay in the domains that its behavior sets. -/
structure NodeType.Restrained (type : NodeType) : Prop where
  behavior : type.behavior.Restrained type.table
  defaults : ∀ d ∈ type.table.declarations, type.behavior.Accepts d d.default

namespace Scene

variable {s : Scene} {id : NodeId} {n m : Node}

theorem Cued.restrained {script : Behavior → Script} (h : Cued n script)
    (hb : b.Restrained t) : Script.Restrained b t (script b) := by
  cases h with
  | tick => exact hb.tick
  | fieldChanged index => exact hb.fieldChanged index
  | setupFinished => exact hb.setupFinished

theorem Altered.approves (h : n.type.Restrained) (sound : n.Sound)
    (hv : n.type.behavior.Approves n.type.table n.values) (ha : Altered s id n m) :
    m.type = n.type ∧ m.type.behavior.Approves m.type.table m.values := by
  cases ha with
  | same | flagged | load | opened => exact ⟨rfl, hv⟩
  | stored ha =>
    obtain ⟨d, hd, -, -, -, valid⟩ := Node.admits_eq_ok.mp ha
    exact ⟨rfl, hv.set hd (h.behavior.steady valid)⟩
  | performed hc => exact ⟨rfl, (hc.restrained h.behavior).run rfl hv⟩
  | edited hc =>
    have hd := sound.built.get?_standard (c := .children) (d := .children) List.mem_cons_self hc
    exact ⟨rfl, hv.set hd (h.behavior.children _)⟩

/-- The values of a node whose type is held to the domains of its fields are in their domains. -/
theorem Met.approved (h : s.Met) (hn : s.node? id = some n) (restrained : n.type.Restrained) :
    n.type.behavior.Approves n.type.table n.values := by
  refine (h.forall_nodes (P := fun _ n ↦ n.type.Restrained →
    n.type.behavior.Approves n.type.table n.values) ?_ ?_ hn).2 restrained
  · intro type _ _ id sp place restrained i d v hd hv
    change type.table.declarations[i]? = some d at hd
    change (type.table.declarations.map Declaration.default)[i]? = some v at hv
    rw [List.getElem?_map, hd] at hv
    cases hv
    exact restrained.defaults d (List.mem_of_getElem? hd)
  · intro t id n m sound hv ha restrained
    have same : m.type = n.type := ha.type
    exact (ha.approves (same ▸ restrained) sound (hv (same ▸ restrained))).2

/-- Where every type is held to the domains of its fields, every value is in its domain. -/
theorem Met.approves (h : s.Met) (restrained : ∀ type ∈ s.catalog.types, type.Restrained)
    (hn : s.node? id = some n) :
    n.type ∈ s.catalog.types ∧ n.type.behavior.Approves n.type.table n.values := by
  have known := h.type_mem hn
  exact ⟨known, h.approved hn (restrained _ known)⟩

end Scene

end SceneGraph
