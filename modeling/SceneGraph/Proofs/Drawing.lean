import SceneGraph.Proofs.Spelling

/-!
The draft of a text has what the text has said so far.
-/

namespace SceneGraph

namespace Space

variable (names : List (String × NodeId)) (x : Space) (name other : String) (id : NodeId)

theorem lookup_filter_ne : (names.filter (·.1 ≠ name)).lookup other =
    if other = name then none else names.lookup other := by
  induction names with
  | nil => simp
  | cons b names ih =>
    obtain ⟨key, k⟩ := b
    by_cases ho : other = key
    · subst ho
      by_cases hk : other = name
      · subst hk
        simpa using ih
      · simp [hk]
    · have hb : (other == key) = false := beq_false_of_ne ho
      by_cases hk : key = name
      · simpa [hk, List.lookup_cons, hk ▸ hb] using ih
      · simpa [hk, List.lookup_cons, hb] using ih

theorem named?_bind : (x.bind name id).named? other =
    if other = name then some id else x.named? other := by
  unfold named? bind
  rw [List.lookup_append, lookup_filter_ne]
  by_cases ho : other = name
  · simp [ho]
  · simp [List.lookup_cons, beq_false_of_ne ho, ho]

end Space

namespace Gist

variable {l : Language} {g : Gist} {id : NodeId} {type : NodeType} {i : Nat} {v : Value}

theorem mem_nodes : id ∈ g.nodes l ↔ ∃ type, g.type? l id = some type := by
  cases id with
  | void => simp [nodes, type?]
  | issued k =>
    simp only [nodes, type?, List.mem_map, List.mem_range, NodeId.issued.injEq]
    constructor
    · rintro ⟨j, hj, rfl⟩
      rw [if_pos (Nat.le_add_right ..), Nat.add_sub_cancel_left]
      exact ⟨_, List.getElem?_eq_getElem hj⟩
    · rintro ⟨type, ht⟩
      split at ht
      · next hk =>
        obtain ⟨hj, -⟩ := List.getElem?_eq_some_iff.mp ht
        exact ⟨_, hj, Nat.add_sub_cancel' hk⟩
      · cases ht

theorem nodes_create : (g.create type).nodes l = g.nodes l ++ [g.next l] := by
  simp [nodes, create, next, List.range_succ]

theorem next_not_mem_nodes : g.next l ∉ g.nodes l := by
  simp [nodes, next]

theorem type?_create :
    (g.create type).type? l id = if id = g.next l then some type else g.type? l id := by
  cases id with
  | void => rfl
  | issued k =>
    simp only [type?, create, next, NodeId.issued.injEq, List.getElem?_append]
    split
    · next hk =>
      by_cases he : k = l.first + g.types.length
      · simp [he]
      · by_cases hl : k - l.first < g.types.length
        · simp [hl, he]
        · have : k - l.first - g.types.length ≠ 0 := by omega
          simp [hl, he, this]
    · next hk => rw [if_neg (by omega)]

theorem values_write :
    (g.write id i v).values id type = (g.values id type).set i v := by
  refine List.ext_getElem? fun j ↦ ?_
  rw [List.getElem?_set, values, values, List.getElem?_mapIdx, List.length_mapIdx]
  by_cases hj : i = j
  · subst hj
    by_cases hl : i < type.table.defaults.length
    · simp [given?, write, hl]
    · simp [hl]
  · have hb : ((id, j) == (id, i)) = false := beq_false_of_ne (by simp [Ne.symm hj])
    simp [given?, write, hj, List.lookup_cons, hb]

theorem values_write_of_ne {k : NodeId} (hk : k ≠ id) :
    (g.write id i v).values k type = g.values k type := by
  have hb (j : Nat) : ((k, j) == (id, i)) = false := beq_false_of_ne (by simp [hk])
  simp [values, given?, write, List.lookup_cons, hb]

end Gist

theorem Reader.keeping_eq_ok {α : Type} {d : Draft} {x : Except Fault α} {a : α} :
    keeping d x = .ok a ↔ x = .ok a := by
  cases x <;> simp [keeping, Except.mapError]

variable {l : Language} {env : Surroundings} {s₀ : Scene} {g g' : Gist} {d d' : Draft}
  {id : NodeId} {type : NodeType} {start index : Nat} {name : String} {v : Value}

/-- The draft of a text that has said `g`. -/
structure Draws (l : Language) (env : Surroundings) (s₀ : Scene) (g : Gist) (d : Draft) :
    Prop where
  drafting : ∃ guest x₀, s₀.Coherent [] guest ∧ s₀.space? env.space = some x₀ ∧
    Scene.Drafting s₀ guest env.space x₀ d
  catalog : d.scene.catalog = l.types
  issued : d.scene.nodes.issued = l.first + g.types.length
  created : d.created = g.nodes l
  node : ∀ {id type}, g.type? l id = some type →
    ∃ n, d.scene.node? id = some n ∧ n.type = type ∧ n.values = g.values id type
  written : ∀ w ∈ g.writes, w.1.1 ∈ d.created
  named : ∀ name, d.named? env name = g.named? l name
  routes : d.routes = g.routes

namespace Draws

theorem step (h : Draws l env s₀ g d) (hs : Draft.Step env d d') :
    ∃ guest x₀, s₀.Coherent [] guest ∧ s₀.space? env.space = some x₀ ∧
      Scene.Drafting s₀ guest env.space x₀ d' := by
  obtain ⟨guest, x₀, base, hx, hd⟩ := h.drafting
  exact ⟨guest, x₀, base, hx, hd.step base hx hs⟩

theorem exists_space (h : Draws l env s₀ g d) :
    ∃ x, d.scene.space? env.space = some x ∧ ∀ id ∈ d.created, id ∈ x.nodes := by
  obtain ⟨_, _, -, -, hd⟩ := h.drafting
  obtain ⟨names, hd, -⟩ := hd.drafted
  exact ⟨_, hd.home, fun id hid ↦ List.mem_append_right _ hid⟩

theorem inSetup (h : Draws l env s₀ g d) (typed : g.type? l id = some type) :
    ∃ n, d.scene.node? id = some n ∧ n.type = type ∧ n.values = g.values id type ∧ n.inSetup := by
  obtain ⟨n, hn, ht, hv⟩ := h.node typed
  obtain ⟨_, _, -, -, hd⟩ := h.drafting
  obtain ⟨names, hd, -⟩ := hd.drafted
  obtain ⟨m, hm, hb⟩ := hd.blank (h.created ▸ Gist.mem_nodes.mpr ⟨type, typed⟩)
  cases hn.symm.trans hm
  exact ⟨n, hn, ht, hv, hb.inSetup⟩

theorem exists_create (h : Draws l env s₀ g d) (start : Nat)
    (known : l.types.get? name = some type) :
    ∃ d', d.create env start name = .ok (g.next l, d') := by
  obtain ⟨x, hx, -⟩ := h.exists_space
  have next : d.scene.nextNode = g.next l := congrArg NodeId.issued h.issued
  exact ⟨_, Draft.create_eq_ok.mpr ⟨_, Scene.createNode_eq_ok.mpr
    ⟨x, type, hx, h.catalog ▸ known, next.symm, rfl⟩, rfl⟩⟩

theorem create (h : Draws l env s₀ g d) (hc : d.create env start name = .ok (id, d')) :
    ∃ type, l.types.get? name = some type ∧ id = g.next l ∧ Draws l env s₀ (g.create type) d' := by
  have hs := h.step (.create hc)
  obtain ⟨s, hk, rfl⟩ := Draft.create_eq_ok.mp hc
  obtain ⟨x, type, hx, known, rfl, rfl⟩ := Scene.createNode_eq_ok.mp hk
  have next : d.scene.nextNode = g.next l := congrArg NodeId.issued h.issued
  refine ⟨type, h.catalog ▸ known, next, ?_⟩
  exact {
    drafting := hs
    catalog := h.catalog
    issued := by
      have more : (d.scene.addNode env.space type).nodes.issued = d.scene.nodes.issued + 1 :=
        Arena.issued_insert ..
      rw [more, h.issued, Gist.create, List.length_append]
      rfl
    created := by rw [Gist.nodes_create, ← h.created, ← next]
    node := by
      intro k t ht
      rw [Gist.type?_create] at ht
      rw [Scene.node?_addNode, next]
      split at ht
      · next hk =>
        cases ht
        -- nothing was given to the node before it was there
        have unwritten (i : Nat) : g.given? k i = none := by
          refine List.lookup_eq_none_iff.mpr fun w hw ↦ bne_iff_ne.mpr fun he ↦ ?_
          have : w.1.1 = k := congrArg Prod.fst he.symm
          exact Gist.next_not_mem_nodes (hk ▸ this ▸ h.created ▸ h.written w hw)
        have values : (g.create type).values k type = type.table.defaults := by
          refine List.mapIdx_eq_iff.mpr fun i ↦ ?_
          simp [show (g.create type).given? k i = none from unwritten i]
        exact ⟨_, if_pos hk, rfl, values.symm⟩
      · next hk =>
        rw [if_neg hk]
        exact h.node ht
    written := fun w hw ↦ List.mem_append_left _ (h.written w hw)
    named := by
      intro other
      rw [← show g.named? l other = (g.create type).named? l other from rfl, ← h.named]
      unfold Draft.named? Scene.named?
      rw [Scene.space?_addNode_of_some hx, hx]
      rfl
    routes := h.routes }

theorem exists_nameNode (h : Draws l env s₀ g d) (hid : id ∈ d.created) (name : Option String) :
    ∃ d', Reader.nameNode env d id name = .ok d' := by
  cases name with
  | none => exact ⟨d, rfl⟩
  | some name =>
    obtain ⟨x, hx, hm⟩ := h.exists_space
    have hd : d.define env name id = .ok _ := Draft.define_eq_ok.mpr
      ⟨_, Scene.define_eq_ok.mpr ⟨x, hx, hm id hid, rfl⟩, rfl⟩
    exact ⟨_, Reader.keeping_eq_ok.mpr hd⟩

theorem nameNode (h : Draws l env s₀ g d) (hid : id ∈ d.created) {name : Option String}
    (hn : Reader.nameNode env d id name = .ok d') : Draws l env s₀ (g.label id name) d' := by
  cases name with
  | none =>
    cases hn
    exact ⟨h.drafting, h.catalog, h.issued, h.created, h.node, h.written, h.named, h.routes⟩
  | some name =>
    have hd : d.define env name id = .ok d' := Reader.keeping_eq_ok.mp hn
    have hs := h.step (.define hid hd)
    obtain ⟨s, hk, rfl⟩ := Draft.define_eq_ok.mp hd
    obtain ⟨x, hx, -, rfl⟩ := Scene.define_eq_ok.mp hk
    refine ⟨hs, h.catalog, h.issued, h.created, h.node, h.written, fun other ↦ ?_, h.routes⟩
    have bound : (g.label id (some name)).named? l other =
        if other = name then some id else g.named? l other := by
      by_cases ho : other = name
      · simp [Gist.named?, Gist.label, ho]
      · simp [Gist.named?, Gist.label, ho, List.lookup_cons, beq_false_of_ne ho]
    rw [bound, ← h.named]
    unfold Draft.named? Scene.named?
    rw [Scene.space?_modifySpace_self _ _ _ hx, hx]
    exact x.named?_bind ..

theorem locate_eq_ok (h : Draws l env s₀ g d) (typed : g.type? l id = some type) {t : FieldType} :
    d.locate id start name = .ok (index, t) ↔
      type.table.indexOf? name = some index ∧ ∃ e, type.table.get? index = some e ∧ e.type = t := by
  obtain ⟨n, hn, rfl, -⟩ := h.node typed
  have sought : d.scene.fieldIndex id name = n.type.lookup name := by
    rw [Scene.fieldIndex, Scene.node, hn]
    rfl
  unfold Draft.locate
  rw [sought, NodeType.lookup, FieldTable.lookup, hn]
  cases hi : n.type.table.indexOf? name with
  | none => simp
  | some i =>
    cases he : n.type.table.get? i with
    | none =>
      simp only [Option.bind_some, he]
      constructor
      · rintro ⟨⟩
      · rintro ⟨⟨⟩, e, hd, -⟩
        cases he.symm.trans hd
    | some e =>
      simp only [Option.bind_some, he]
      constructor
      · rintro ⟨⟩
        exact ⟨rfl, e, he, rfl⟩
      · rintro ⟨⟨⟩, e, hd, rfl⟩
        cases he.symm.trans hd
        rfl

theorem exists_set (h : Draws l env s₀ g d) (start : Nat) (typed : g.type? l id = some type)
    (accepted : g.Accepts l type index v) : ∃ d', d.set id index start v = .ok d' := by
  obtain ⟨n, hn, rfl, -, hi⟩ := h.inSetup typed
  obtain ⟨e, he, output, shape, valid⟩ := accepted
  have admitted : n.admits d.scene.nodes.issued index v = .ok () :=
    Node.admits_eq_ok.mpr ⟨e, he, output, by simp [hi], shape, h.issued ▸ valid⟩
  exact ⟨_, Draft.set_eq_ok.mpr ⟨_, (Scene.setValue_eq_ok_of_inSetup hn hi).mpr ⟨admitted, rfl⟩,
    rfl⟩⟩

theorem set (h : Draws l env s₀ g d) (typed : g.type? l id = some type)
    (hs : d.set id index start v = .ok d') :
    g.Accepts l type index v ∧ Draws l env s₀ (g.write id index v) d' := by
  have hid : id ∈ d.created := h.created ▸ Gist.mem_nodes.mpr ⟨type, typed⟩
  have drafting := h.step (.set hid hs)
  obtain ⟨n, hn, rfl, hv, hi⟩ := h.inSetup typed
  obtain ⟨s, hk, rfl⟩ := Draft.set_eq_ok.mp hs
  obtain ⟨admitted, rfl⟩ := (Scene.setValue_eq_ok_of_inSetup hn hi).mp hk
  obtain ⟨e, he, output, -, shape, valid⟩ := Node.admits_eq_ok.mp admitted
  refine ⟨⟨e, he, output, shape, h.issued ▸ valid⟩, ?_⟩
  exact {
    drafting
    catalog := (Scene.catalog_modifyNode ..).trans h.catalog
    issued := (Scene.issued_modifyNode ..).trans h.issued
    created := h.created
    node := by
      intro k t ht
      by_cases hk : k = id
      · subst hk
        cases typed.symm.trans ht
        exact ⟨_, Scene.node?_modifyNode_self _ _ _ hn, rfl,
          (congrArg (·.set index v) hv).trans Gist.values_write.symm⟩
      · rw [Scene.node?_modifyNode_of_ne _ _ _ hk, Gist.values_write_of_ne hk]
        exact h.node ht
    written := by
      intro w hw
      rcases List.mem_cons.mp hw with rfl | hw
      · exact hid
      · exact h.written w hw
    named := by
      intro other
      rw [← show g.named? l other = (g.write id index v).named? l other from rfl, ← h.named]
      unfold Draft.named? Scene.named?
      rw [Scene.space?_modifyNode]
    routes := h.routes }

theorem addRoute (h : Draws l env s₀ g d) (r : Statement) (start : Nat) :
    Draws l env s₀ (g.addRoute r start) (d.addRoute r start) :=
  ⟨h.step (.addRoute ..), h.catalog, h.issued, h.created, h.node, h.written, h.named,
    congrArg (· ++ [(r, start)]) h.routes⟩

end Draws

end SceneGraph
