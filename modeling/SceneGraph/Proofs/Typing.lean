import SceneGraph.Node.Basic

namespace SceneGraph

theorem bind_eq_ok {ε α β : Type} {x : Except ε α} {f : α → Except ε β} {b : β} :
    (x >>= f) = .ok b ↔ ∃ a, x = .ok a ∧ f a = .ok b := by
  cases x <;> simp [bind, Except.bind]

theorem nodup_append_singleton {α : Type} {l : List α} {a : α} (hl : l.Nodup) (ha : a ∉ l) :
    (l ++ [a]).Nodup := by
  refine List.nodup_append.mpr ⟨hl, by simp, ?_⟩
  rintro b hb c hc rfl
  exact ha (List.mem_singleton.mp hc ▸ hb)

theorem Declaration.checkShape_eq_ok {d : Declaration} {owner : String} {v : Value} :
    d.checkShape owner v = .ok () ↔ d.shapeFault? v = none := by
  unfold Declaration.checkShape
  rcases d.shapeFault? v with _ | _ | _ <;> simp

namespace FieldTable

/-- The values of a node are one for each field, in the shape that the field has. -/
structure Holds (t : FieldTable) (values : List Value) : Prop where
  length : values.length = t.size
  shape : ∀ {i d v}, t.get? i = some d → values[i]? = some v → d.shapeFault? v = none

variable {t : FieldTable} {values : List Value}

theorem lt_size_of_get? {i : Nat} {d : Declaration} (h : t.get? i = some d) : i < t.size :=
  (List.getElem?_eq_some_iff.mp h).1

theorem declaration_eq_ok {owner : String} {i : Nat} {d : Declaration} :
    t.declaration owner i = .ok d ↔ t.get? i = some d := by
  unfold declaration
  cases t.get? i <;> simp

theorem Holds.set (h : t.Holds values) {i : Nat} {d : Declaration} {v : Value}
    (hd : t.get? i = some d) (hv : d.shapeFault? v = none) : t.Holds (values.set i v) where
  length := by rw [List.length_set, h.length]
  shape {j e w} he hw := by
    rw [List.getElem?_set] at hw
    by_cases hj : i = j
    · subst hj
      have hi : i < values.length := h.length ▸ lt_size_of_get? hd
      rw [if_pos rfl, if_pos hi] at hw
      cases hw
      rw [hd] at he
      cases he
      exact hv
    · rw [if_neg hj] at hw
      exact h.shape he hw

theorem Holds.exists_value (h : t.Holds values) {i : Nat} (hi : i < t.size) :
    ∃ v, values[i]? = some v :=
  Option.isSome_iff_exists.mp (by simp [h.length, hi])

theorem checkNext_eq_ok {owner : String} {earlier : List Declaration} {d : Declaration}
    (h : checkNext owner earlier d = .ok ()) : d.shapeFault? d.default = none := by
  unfold checkNext at h
  split at h
  · cases h
  · next hs => exact Declaration.checkShape_eq_ok.mp hs

theorem shape_of_admitAll {owner : String} {earlier ds : List Declaration}
    (h : admitAll owner earlier ds = .ok ()) : ∀ d ∈ ds, d.shapeFault? d.default = none := by
  induction ds generalizing earlier with
  | nil => simp
  | cons d ds ih =>
    unfold admitAll at h
    split at h
    · cases h
    · next hd =>
      intro e he
      rcases List.mem_cons.mp he with rfl | he
      · exact checkNext_eq_ok hd
      · exact ih h e he

theorem build_eq_ok {owner : String} {ds : List Declaration} (h : build owner ds = .ok t) :
    t.declarations = ds ∧ ∀ d ∈ ds, d.shapeFault? d.default = none := by
  unfold build at h
  split at h
  · cases h
  · next ha =>
    cases h
    exact ⟨rfl, shape_of_admitAll ha⟩

/-- The field that a spelling names is the first one with it. -/
theorem get?_of_indexOf? {name : String} {i : Nat} (h : t.indexOf? name = some i) :
    t.get? i = t.declarations.find? fun d => name ∈ d.spellings := by
  rw [indexOf?, List.findIdx?_eq_some_iff_findIdx_eq] at h
  obtain ⟨-, rfl⟩ := h
  exact (List.find?_eq_getElem?_findIdx ..).symm

end FieldTable

namespace NodeType

/-- A type that came out of a blueprint. -/
def Built (t : NodeType) : Prop := ∃ b : Blueprint, b.build = .ok t

variable {t : NodeType}

theorem Built.exists_capabilities (h : t.Built) :
    ∃ (p : Capability → Bool) (own : List Declaration),
      t.capabilities = Capability.all.filter p ∧
      t.table.declarations = t.capabilities.flatMap Capability.fields ++ own ∧
      ∀ d ∈ t.table.declarations, d.shapeFault? d.default = none := by
  obtain ⟨b, hb⟩ := h
  unfold Blueprint.build at hb
  cases ht : FieldTable.build b.name
      (b.sortedCapabilities.flatMap Capability.fields ++ b.fields) with
  | error e => simp [ht, bind, Except.bind] at hb
  | ok table =>
    simp only [ht, bind, Except.bind, pure, Except.pure, Except.ok.injEq] at hb
    subst hb
    obtain ⟨hd, hs⟩ := FieldTable.build_eq_ok ht
    exact ⟨fun c => c ∈ b.capabilities, b.fields, rfl, hd, hd ▸ hs⟩

theorem Built.holds_defaults (h : t.Built) : t.table.Holds t.table.defaults where
  length := by simp [FieldTable.defaults, FieldTable.size]
  shape {i d v} hd hv := by
    obtain ⟨-, -, -, -, hs⟩ := h.exists_capabilities
    have hd' : t.table.declarations[i]? = some d := hd
    rw [FieldTable.defaults, List.getElem?_map, hd'] at hv
    cases hv
    exact hs d (List.mem_of_getElem? hd')

def picks (metadata children sensor loadable : Bool) : Capability → Bool
  | .metadata => metadata
  | .children => children
  | .sensor => sensor
  | .loadable => loadable

/-- Among the fields of capabilities a name is the spelling of its own field alone. -/
theorem find?_capability_fields (p : Capability → Bool) {d : Declaration}
    (h : d ∈ (Capability.all.filter p).flatMap Capability.fields) :
    ((Capability.all.filter p).flatMap Capability.fields).find? (fun e => d.name ∈ e.spellings) =
      some d := by
  have key : ∀ m c s l : Bool,
      let chosen := Capability.all.filter (picks m c s l)
      ∀ d ∈ chosen.flatMap Capability.fields,
        (chosen.flatMap Capability.fields).find? (fun e => d.name ∈ e.spellings) = some d := by
    decide
  have hp : p = picks (p .metadata) (p .children) (p .sensor) (p .loadable) := by
    funext c
    cases c <;> rfl
  rw [hp] at h ⊢
  exact key _ _ _ _ d h

/-- The name of a capability's field designates that field. -/
theorem Built.get?_standard (h : t.Built) {c : Capability} {d : Declaration} (hd : d ∈ c.fields)
    {i : Nat} (hi : t.standard? c d.name = some i) : t.table.get? i = some d := by
  unfold standard? at hi
  split at hi
  · next hc =>
    obtain ⟨p, own, hp, hs, -⟩ := h.exists_capabilities
    have hm : d ∈ (Capability.all.filter p).flatMap Capability.fields :=
      List.mem_flatMap.mpr ⟨c, hp ▸ of_decide_eq_true hc, hd⟩
    rw [FieldTable.get?_of_indexOf? hi, hs, hp, List.find?_append, find?_capability_fields p hm]
    rfl
  · cases hi

theorem has_of_standard? {c : Capability} {name : String} {i : Nat}
    (h : t.standard? c name = some i) : t.has c := by
  unfold standard? at h
  split at h
  · assumption
  · cases h

theorem Built.children_shape (h : t.Built) {i : Nat} (hi : t.children? = some i) :
    ∃ d, t.table.get? i = some d ∧ ∀ ids, d.shapeFault? (.ofNodes ids) = none := by
  let d : Declaration := ⟨.exposed, .multi .node, "children", .ofNodes []⟩
  have hd : d ∈ Capability.children.fields := List.mem_cons_self
  exact ⟨d, h.get?_standard hd hi, fun _ => rfl⟩

theorem indexOf?_of_url? {i : Nat} (h : t.url? = some i) : t.table.indexOf? "url" = some i := by
  unfold url? standard? at h
  split at h
  · exact h
  · cases h

/-- The inputs of children have names of their own. -/
theorem Built.children_input_ne (h : t.Built) {name : String} {i : Nat}
    (hi : t.table.indexOf? name = some i) (hn : name = "url" ∨ name = "load") :
    t.addChildren? ≠ some i ∧ t.removeChildren? ≠ some i := by
  obtain ⟨d, hd, hm⟩ : ∃ d, t.table.get? i = some d ∧ name ∈ d.spellings := by
    obtain ⟨hlt, hm, -⟩ := List.findIdx?_eq_some_iff_getElem.mp hi
    exact ⟨_, List.getElem?_eq_getElem hlt, of_decide_eq_true hm⟩
  constructor
  · intro ha
    cases hd.symm.trans (h.get?_standard (c := .children)
      (d := ⟨.eventIn, .multi .node, "addChildren", .ofNodes []⟩) (by decide) ha)
    rcases hn with rfl | rfl <;> revert hm <;> decide
  · intro ha
    cases hd.symm.trans (h.get?_standard (c := .children)
      (d := ⟨.eventIn, .multi .node, "removeChildren", .ofNodes []⟩) (by decide) ha)
    rcases hn with rfl | rfl <;> revert hm <;> decide

end NodeType

namespace Node

/-- What holds of each node by itself: its type was built, its fields have their shapes, and only
complete content has a space. -/
structure Sound (n : Node) : Prop where
  built : n.type.Built
  values : n.type.table.Holds n.values
  flags : n.changed.length = n.type.table.size
  slot : n.load.isSome = n.type.has .loadable
  content : ∀ slot, n.load = some slot → slot.space.isSome → slot.state = .complete

theorem Sound.new {type : NodeType} (h : type.Built) (sp : SpaceId) (place : Nat) :
    (Node.new type sp place).Sound where
  built := h
  values := h.holds_defaults
  flags := by simp [Node.new]
  slot := by
    simp only [Node.new]
    split <;> simp_all
  content slot hs hsp := by
    simp only [Node.new] at hs
    split at hs
    · cases hs
      cases hsp
    · cases hs

theorem Sound.space_eq_none {n : Node} {slot : LoadSlot} (h : n.Sound) (hl : n.load = some slot)
    (hs : slot.state ≠ .complete) : slot.space = none :=
  Option.not_isSome_iff_eq_none.mp fun hsp ↦ hs (h.content slot hl hsp)

def contentSpace? (n : Node) : Option SpaceId := n.load.bind LoadSlot.space

theorem contentSpace?_new (type : NodeType) (sp : SpaceId) (place : Nat) :
    (Node.new type sp place).contentSpace? = none := by
  unfold contentSpace? Node.new
  split <;> rfl

end Node

namespace Program

variable {View Write Answer State : Type} {host : Host View Write Answer State}

/-- What each write and each note keeps, a run keeps. -/
theorem run_induction {P : State → Prop} (act : ∀ s w, P s → P (host.act s w).1)
    (note : ∀ s text, P s → P (host.note s text)) (p : Program View Write Answer) {s : State}
    (h : P s) : P (p.run host s) := by
  induction p generalizing s with
  | done => exact h
  | look next ih => exact ih _ h
  | act w next ih => exact ih _ (act s w h)
  | note text next ih => exact ih (note s text h)

end Program

namespace Activation

/-- What a script keeps of its node: whose it is, and the shapes of the fields. The fields it wrote
are fields of the node, each listed once. -/
structure Faithful (v : NodeView) (a : Activation) : Prop where
  table : a.view.table = v.table
  owner : a.view.owner = v.owner
  holds : v.table.Holds a.view.values
  outputs : ∀ i ∈ a.outputs, i < v.table.size
  nodup : a.outputs.Nodup

variable {v : NodeView} {a b : Activation}

theorem write_eq_ok {o : Output} (h : a.write o = .ok b) :
    ∃ i d, a.view.table.locate a.view.owner o.target = .ok i ∧ a.view.table.get? i = some d ∧
      d.shapeFault? o.value = none ∧
      b = { a with
        view := { a.view with values := a.view.values.set i o.value }
        outputs := if i ∈ a.outputs then a.outputs else a.outputs ++ [i] } := by
  unfold write at h
  obtain ⟨i, hi, h⟩ := bind_eq_ok.mp h
  obtain ⟨d, hd, h⟩ := bind_eq_ok.mp h
  obtain ⟨⟨⟩, hs, h⟩ := bind_eq_ok.mp h
  cases h
  exact ⟨i, d, hi, FieldTable.declaration_eq_ok.mp hd, Declaration.checkShape_eq_ok.mp hs, rfl⟩

theorem Faithful.write (h : Faithful v a) {o : Output} (ho : a.write o = .ok b) :
    Faithful v b := by
  obtain ⟨i, d, -, hd, hs, rfl⟩ := write_eq_ok ho
  rw [h.table] at hd
  exact {
    table := h.table
    owner := h.owner
    holds := h.holds.set hd hs
    outputs := by
      intro j hj
      dsimp only at hj
      split at hj
      · exact h.outputs j hj
      · rcases List.mem_append.mp hj with hj | hj
        · exact h.outputs j hj
        · rw [List.mem_singleton.mp hj]
          exact FieldTable.lt_size_of_get? hd
    nodup := by
      dsimp only
      split
      · exact h.nodup
      · next hi => exact nodup_append_singleton h.nodup hi }

theorem Faithful.act (h : Faithful v a) (o : Output) : Faithful v (host.act a o).1 := by
  unfold host
  dsimp only
  split
  · next hb => exact h.write hb
  · exact h

end Activation

theorem Script.perform_faithful (script : Script) {v : NodeView} (h : v.table.Holds v.values) :
    Activation.Faithful v (script.perform v) :=
  Program.run_induction (P := Activation.Faithful v) (fun _ o ha => ha.act o)
    (fun _ _ ha => ⟨ha.table, ha.owner, ha.holds, ha.outputs, ha.nodup⟩) script
    ⟨rfl, rfl, h, by simp, by simp⟩

/-- What a script did not write is as it was. -/
theorem Script.perform_others (script : Script) (v : NodeView) :
    ∀ i, i ∉ (script.perform v).outputs → (script.perform v).view.values[i]? = v.values[i]? := by
  refine Program.run_induction
    (P := fun a : Activation => ∀ i, i ∉ a.outputs → a.view.values[i]? = v.values[i]?)
    (fun a o ha i hi => ?_) (fun _ _ ha => ha) script fun _ _ => rfl
  unfold Activation.host at hi ⊢
  dsimp only at hi ⊢
  split at hi
  · next b hb =>
    obtain ⟨j, d, -, -, -, rfl⟩ := Activation.write_eq_ok hb
    dsimp only at hi ⊢
    have hj : j ∈ if j ∈ a.outputs then a.outputs else a.outputs ++ [j] := by
      split
      · assumption
      · exact List.mem_append_right _ (List.mem_singleton_self j)
    rw [List.getElem?_set_ne (ne_of_mem_of_not_mem hj hi)]
    refine ha i fun hm => hi ?_
    split
    · exact hm
    · exact List.mem_append_left _ hm
  · exact ha i hi

end SceneGraph
