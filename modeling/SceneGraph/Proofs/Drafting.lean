import Mathlib.Data.List.Nodup
import SceneGraph.Proofs.Demolition
import SceneGraph.Proofs.Reading
import SceneGraph.Proofs.Wiring

namespace SceneGraph

/-- A node that nobody but a reader has worked on. -/
structure Node.Blank (sp : SpaceId) (n : Node) : Prop where
  space : n.space = sp
  inSetup : n.inSetup
  content : n.contentSpace? = none
  pending : n.load.bind LoadSlot.pending = none

theorem Node.Blank.new (type : NodeType) (sp : SpaceId) (place : Nat) :
    Node.Blank sp (.new type sp place) where
  space := rfl
  inSetup := rfl
  content := Node.contentSpace?_new ..
  pending := by
    unfold Node.new
    split <;> rfl

namespace Scene

variable {s₀ s s' : Scene} {guest : Option SpaceId} {sp : SpaceId} {x₀ : Space}
  {names : List (String × NodeId)} {created : List NodeId} {id : NodeId}

def bindings (s : Scene) (sp : SpaceId) : List (String × NodeId) :=
  ((s.space? sp).map Space.names).getD []

theorem bindings_eq {x : Space} (hx : s.space? sp = some x) : s.bindings sp = x.names := by
  rw [bindings, hx]
  rfl

/-- What is not about single nodes and spaces. -/
def aside (s : Scene) := (s.pending, s.loader, s.cache, s.time, s.journal, s.settings, s.catalog,
  s.spaces.issued)

/-- The scene is `s₀` with the nodes `created` added to its space `sp`, which binds `names` now. -/
structure Drafted (s₀ : Scene) (sp : SpaceId) (x₀ : Space) (names : List (String × NodeId))
    (created : List NodeId) (s : Scene) : Prop where
  nodup : created.Nodup
  fresh : ∀ {id}, id ∈ created → s₀.node? id = none
  old : ∀ {id}, id ∉ created → s.node? id = s₀.node? id
  blank : ∀ {id}, id ∈ created → ∃ n, s.node? id = some n ∧ Node.Blank sp n
  home : s.space? sp = some { x₀ with nodes := x₀.nodes ++ created, names }
  other : ∀ {q}, q ≠ sp → s.space? q = s₀.space? q
  sensors : (s.sensors.filter fun id ↦ decide (id ∉ created)) = s₀.sensors
  aside : s.aside = s₀.aside

namespace Drafted

protected theorem refl (hx : s₀.space? sp = some x₀) : Drafted s₀ sp x₀ x₀.names [] s₀ where
  nodup := List.nodup_nil
  fresh := nofun
  old _ := rfl
  blank := nofun
  home := by simpa using hx
  other _ := rfl
  sensors := by simp
  aside := rfl

theorem nextNode_not_mem (h : Drafted s₀ sp x₀ names created s) : s.nextNode ∉ created := by
  intro hm
  obtain ⟨n, hn, -⟩ := h.blank hm
  rw [node?_nextNode] at hn
  cases hn

theorem filter_sensors_nextNode (hs : s.Coherent [] guest) (ids : List NodeId) :
    (s.sensors.filter fun id ↦ decide (id ∉ ids ++ [s.nextNode])) =
      s.sensors.filter fun id ↦ decide (id ∉ ids) := by
  refine List.filter_congr fun id hid ↦ ?_
  have hne : id ≠ s.nextNode := by
    rintro rfl
    obtain ⟨n, hn, -⟩ := hs.tracked.sensor.mp hid
    rw [node?_nextNode] at hn
    cases hn
  simp [hne]

theorem addNode (h : Drafted s₀ sp x₀ names created s) (hs : s.Coherent [] guest)
    (type : NodeType) :
    Drafted s₀ sp x₀ names (created ++ [s.nextNode]) (s.addNode sp type) := by
  have fresh := h.nextNode_not_mem
  exact {
    nodup := nodup_append_singleton h.nodup fresh
    fresh := by
      intro id hid
      rcases List.mem_append.mp hid with hid | hid
      · exact h.fresh hid
      · rw [List.mem_singleton.mp hid, ← h.old fresh, node?_nextNode]
    old := by
      intro id hid
      simp only [List.mem_append, List.mem_singleton, not_or] at hid
      rw [node?_addNode, if_neg hid.2, h.old hid.1]
    blank := by
      intro id hid
      rcases List.mem_append.mp hid with hid | hid
      · obtain ⟨n, hn, hb⟩ := h.blank hid
        exact ⟨n, node?_addNode_of_some hn, hb⟩
      · rw [List.mem_singleton.mp hid, node?_addNode, if_pos rfl]
        exact ⟨_, rfl, .new ..⟩
    home := by
      rw [space?_addNode_of_some h.home, if_pos rfl, List.append_assoc]
    other := by
      intro q hq
      rw [space?_addNode, if_neg hq, h.other hq]
    sensors := by
      have hf := filter_sensors_nextNode hs created
      rw [← h.sensors, sensors_addNode]
      split
      · rw [List.filter_append, hf]
        simp
      · exact hf
    aside := by
      rw [← h.aside]
      simp [Scene.aside, Scene.addNode, modifySpace] }

theorem bind (h : Drafted s₀ sp x₀ names created s) (name : String) (id : NodeId) :
    Drafted s₀ sp x₀ (names.filter (·.1 ≠ name) ++ [(name, id)]) created
      (s.modifySpace sp (·.bind name id)) where
  nodup := h.nodup
  fresh := h.fresh
  old := h.old
  blank := h.blank
  home := by
    rw [space?_modifySpace_self _ _ _ h.home]
    rfl
  other hq := by rw [space?_modifySpace_of_ne _ _ _ hq, h.other hq]
  sensors := h.sensors
  aside := by
    rw [← h.aside]
    simp [Scene.aside, modifySpace]

theorem store (h : Drafted s₀ sp x₀ names created s) (hid : id ∈ created) (index : Nat)
    (v : Value) :
    Drafted s₀ sp x₀ names created (s.modifyNode id fun n ↦ n.store index v) where
  nodup := h.nodup
  fresh := h.fresh
  old hk := by
    rw [node?_modifyNode_of_ne _ _ _ (ne_of_mem_of_not_mem hid hk).symm, h.old hk]
  blank {k} hk := by
    obtain ⟨n, hn, hb⟩ := h.blank hk
    by_cases he : k = id
    · subst he
      exact ⟨_, node?_modifyNode_self _ _ _ hn, hb.space, hb.inSetup, hb.content, hb.pending⟩
    · exact ⟨n, by rwa [node?_modifyNode_of_ne _ _ _ he], hb⟩
  home := by rw [space?_modifyNode, h.home]
  other hq := by rw [space?_modifyNode, h.other hq]
  sensors := by rw [sensors_modifyNode, h.sensors]
  aside := by
    rw [← h.aside]
    simp [Scene.aside]

end Drafted

/-- A node in setup only stores what it is given. -/
theorem setValue_eq_ok_of_inSetup {n : Node} {index : Nat} {v : Value}
    (hn : s.node? id = some n) (hi : n.inSetup) : s.setValue id index v = .ok s' ↔
      n.admits s.nodes.issued index v = .ok () ∧
        s' = s.modifyNode id fun n ↦ n.store index v := by
  unfold setValue
  simp only [bind_eq_ok, node_eq_ok]
  constructor
  · rintro ⟨m, hm, ⟨⟩, ha, h⟩
    cases hn.symm.trans hm
    rw [if_pos hi] at h
    cases h
    exact ⟨ha, rfl⟩
  · rintro ⟨ha, rfl⟩
    exact ⟨n, hn, (), ha, by rw [if_pos hi]; rfl⟩

/-- A text is being read into the space: nodes were added to it, and of the bindings that the space
had those are left that were not replaced. -/
structure Drafting (s₀ : Scene) (guest : Option SpaceId) (sp : SpaceId) (x₀ : Space)
    (d : Draft) : Prop where
  coherent : d.scene.Coherent [] guest
  drafted : ∃ names, Drafted s₀ sp x₀ names d.created d.scene ∧
    (names.filter fun b ↦ decide (b.2 ∉ d.created)) =
      x₀.names.filter fun b ↦ decide (b ∈ names)

theorem Drafting.refl (h : s₀.Coherent [] guest) (hx : s₀.space? sp = some x₀) :
    Drafting s₀ guest sp x₀ ⟨s₀, [], []⟩ :=
  ⟨h, x₀.names, .refl hx, by simp [List.filter_eq_self.mpr]⟩

/-- Old names are bound to nodes that were there before. -/
theorem Drafted.old_name (h : Drafted s₀ sp x₀ names created s) (h₀ : s₀.Coherent [] guest)
    (hx : s₀.space? sp = some x₀) {b : String × NodeId} (hb : b ∈ x₀.names) : b.2 ∉ created := by
  intro hm
  obtain ⟨n, hn, -⟩ := h₀.housed.lodged hx ((h₀.wired hx).names b hb)
  rw [h.fresh hm] at hn
  cases hn

theorem Drafting.step {env : Surroundings} {d d' : Draft} (h : Drafting s₀ guest env.space x₀ d)
    (h₀ : s₀.Coherent [] guest) (hx : s₀.space? env.space = some x₀) (hs : Draft.Step env d d') :
    Drafting s₀ guest env.space x₀ d' := by
  obtain ⟨names, hd, hk⟩ := h.drafted
  cases hs with
  | create hc =>
    obtain ⟨t, ht, rfl⟩ := Draft.create_eq_ok.mp hc
    refine ⟨h.coherent.createNode ht, names, ?_, ?_⟩
    · obtain ⟨x, type, -, -, rfl, rfl⟩ := createNode_eq_ok.mp ht
      exact hd.addNode h.coherent type
    · obtain ⟨x, type, -, -, rfl, rfl⟩ := createNode_eq_ok.mp ht
      rw [← hk]
      -- no name was bound to the new node before
      refine List.filter_congr fun b hb ↦ ?_
      have hm := (h.coherent.wired hd.home).names b hb
      have := ne_of_mem_of_not_mem hm (h.coherent.housed.nextNode_not_mem hd.home)
      simp [this]
  | @define _ name id hid hc =>
    obtain ⟨t, ht, rfl⟩ := Draft.define_eq_ok.mp hc
    refine ⟨h.coherent.define ht, names.filter (·.1 ≠ name) ++ [(name, id)], ?_, ?_⟩
    · obtain ⟨x, -, -, rfl⟩ := define_eq_ok.mp ht
      exact hd.bind name id
    · have hl : (names.filter (·.1 ≠ name) ++ [(name, id)]).filter
          (fun b ↦ decide (b.2 ∉ d.created)) =
          (x₀.names.filter fun b ↦ decide (b ∈ names)).filter (·.1 ≠ name) := by
        rw [← hk, List.filter_append, List.filter_filter, List.filter_filter,
          List.filter_cons_of_neg (by simpa using hid), List.filter_nil, List.append_nil]
        exact List.filter_congr fun b _ ↦ Bool.and_comm ..
      rw [hl, List.filter_filter]
      refine List.filter_congr fun b hb ↦ ?_
      have : b ≠ (name, id) := by
        rintro rfl
        exact hd.old_name h₀ hx hb hid
      simp [this, and_comm]
  | set hid hc =>
    obtain ⟨t, ht, rfl⟩ := Draft.set_eq_ok.mp hc
    obtain ⟨n, hn, hb⟩ := hd.blank hid
    refine ⟨(Edited.setValue h.coherent ht).coherent, names, ?_, hk⟩
    rw [((setValue_eq_ok_of_inSetup hn hb.inSetup).mp ht).2]
    exact hd.store hid ..
  | addRoute => exact ⟨h.coherent, names, hd, hk⟩

theorem Drafting.steps {env : Surroundings} {d d' : Draft} (h : Drafting s₀ guest env.space x₀ d)
    (h₀ : s₀.Coherent [] guest) (hx : s₀.space? env.space = some x₀)
    (hs : Draft.Steps env d d') : Drafting s₀ guest env.space x₀ d' := by
  induction hs with
  | refl => exact h
  | tail _ hs ih => exact ih.step h₀ hx hs

section rollBack

theorem removeNode_of_blank {k : Nat} {n : Node} (hn : s.node? (.issued k) = some n)
    (hc : n.contentSpace? = none) : s.removeNode (.issued k) =
      .ok ((s.modifySpace n.space (·.detach (.issued k))).dropNode k n) := by
  rw [removeNode_eq_ok]
  refine ⟨n, hn, ?_⟩
  have hb : Belongings n [] = [] := by
    simp only [Belongings, List.append_nil, List.map_eq_nil_iff]
    exact Option.toList_eq_nil_iff.mpr hc
  rw [demolish_node (by rwa [node?_modifySpace]), hb, demolish_nil]

/-- A node that was not of the space leaves its roots and its routes as they are. -/
theorem Wired.detach_of_not_mem {x : Space} (hw : s.Wired x) (hid : id ∉ x.nodes)
    (nodes : List NodeId) (names : List (String × NodeId)) :
    ({ x with nodes, names } : Space).detach id =
      { x with
        nodes := nodes.filter fun j ↦ decide (j ≠ id)
        names := names.filter fun b ↦ decide (b.2 ≠ id) } := by
  have untouched : ∀ r ∈ x.routes, (!r.touches id) = true := by
    intro r hr
    obtain ⟨hs, hd⟩ := hw.ends r hr
    simp [Route.touches, ne_of_mem_of_not_mem hs hid, ne_of_mem_of_not_mem hd hid]
  have hr : x.roots.erase id = x.roots :=
    List.erase_of_not_mem fun hm ↦ hid (hw.roots _ hm)
  have hs : (x.routes.filter fun r ↦ !r.touches id) = x.routes :=
    List.filter_eq_self.mpr untouched
  have hd : (fun source i ↦ (x.departures source i).filter fun r ↦ !r.touches id) =
      x.departures := by
    funext source i
    refine List.filter_eq_self.mpr fun r hr ↦ untouched r ?_
    rw [hw.departures] at hr
    exact (List.mem_filter.mp hr).1
  simp only [Space.detach, hr, hs, hd]

theorem Coherent.filter_pending (h : s.Coherent [] guest) (hid : s.node? id = none) :
    (s.pending.filter fun p ↦ decide (p.1 ≠ id)) = s.pending := by
  have live : ∀ p ∈ s.pending, p.1 ≠ id := by
    rintro ⟨j, i⟩ hp rfl
    obtain ⟨m, hm, -⟩ := h.tracked.queued hp
    rw [hid] at hm
    cases hm
  exact List.filter_eq_self.mpr fun p hp ↦ by simpa using live p hp

theorem Drafted.home_detach (h : Drafted s₀ sp x₀ names created s) (h₀ : s₀.Coherent [] guest)
    (hx : s₀.space? sp = some x₀) (hid : id ∈ created) :
    (s.modifySpace sp (·.detach id)).space? sp = some { x₀ with
      nodes := x₀.nodes ++ created.filter fun j ↦ decide (j ≠ id)
      names := names.filter fun b ↦ decide (b.2 ≠ id) } := by
  have mem : id ∉ x₀.nodes := by
    intro hm
    obtain ⟨m, hm, -⟩ := h₀.housed.lodged hx hm
    rw [h.fresh hid] at hm
    cases hm
  have hn : (x₀.nodes.filter fun j ↦ decide (j ≠ id)) = x₀.nodes :=
    List.filter_eq_self.mpr fun j hj ↦ by simpa using ne_of_mem_of_not_mem hj mem
  rw [space?_modifySpace_self _ _ _ h.home, (h₀.wired hx).detach_of_not_mem mem,
    List.filter_append, hn]

theorem Drafted.removeNode (h : Drafted s₀ sp x₀ names created s) (h₀ : s₀.Coherent [] guest)
    (hx : s₀.space? sp = some x₀) (hid : id ∈ created) : ∃ s', s.removeNode id = .ok s' ∧
      Drafted s₀ sp x₀ (names.filter fun b ↦ decide (b.2 ≠ id))
        (created.filter fun k ↦ decide (k ≠ id)) s' := by
  obtain ⟨n, hn, hb⟩ := h.blank hid
  obtain ⟨k, rfl, -⟩ := issued_of_node? hn
  refine ⟨_, removeNode_of_blank hn hb.content, ?_⟩
  rw [hb.space]
  exact {
    nodup := h.nodup.filter _
    fresh := fun hj ↦ h.fresh (List.mem_filter.mp hj).1
    old := by
      intro j hj
      rw [node?_dropNode, node?_modifySpace]
      split
      · next hj => rw [hj, h.fresh hid]
      · next hne =>
        refine h.old fun hm ↦ hj (List.mem_filter.mpr ⟨hm, by simpa using hne⟩)
    blank := by
      intro j hj
      obtain ⟨hj, hne⟩ := List.mem_filter.mp hj
      obtain ⟨m, hm, hb⟩ := h.blank hj
      exact ⟨m, by rwa [node?_dropNode_of_ne (by simpa using hne)], hb⟩
    home := by rw [space?_dropNode, h.home_detach h₀ hx hid]
    other := by
      intro q hq
      rw [space?_dropNode, space?_modifySpace_of_ne _ _ _ hq, h.other hq]
    sensors := by
      rw [← h.sensors, sensors_dropNode, List.filter_filter]
      refine List.filter_congr fun j _ ↦ ?_
      by_cases hj : j = .issued k
      · subst hj
        simp [hid]
      · simp [hj]
    aside := by
      have ha := h.aside
      simp only [Scene.aside, Prod.mk.injEq] at ha ⊢
      obtain ⟨h1, h2, h3, h4, h5, h6, h7, h8⟩ := ha
      simp only [dropNode, hb.pending, Scene.cancel, modifySpace, Arena.issued_modify]
      exact ⟨by rw [h1, h₀.filter_pending (h.fresh hid)], h2, h3, h4, h5, h6, h7, h8⟩ }

theorem Drafted.removeNodes {ids : List NodeId} (h : Drafted s₀ sp x₀ names created s)
    (h₀ : s₀.Coherent [] guest) (hx : s₀.space? sp = some x₀) (hs : s.Coherent [] guest)
    (hn : ids.Nodup) (hm : ∀ id ∈ ids, id ∈ created) :
    let s' := ids.foldl (fun s id ↦ (s.removeNode id).toOption.getD s) s
    s'.Coherent [] guest ∧ Drafted s₀ sp x₀ (names.filter fun b ↦ decide (b.2 ∉ ids))
      (created.filter fun k ↦ decide (k ∉ ids)) s' := by
  induction ids generalizing s names created with
  | nil =>
    have keep {α : Type} (l : List α) : (l.filter fun _ ↦ true) = l :=
      List.filter_eq_self.mpr fun _ _ ↦ rfl
    simpa [keep] using ⟨hs, h⟩
  | cons id ids ih =>
    obtain ⟨t, ht, hd⟩ := h.removeNode h₀ hx (hm id List.mem_cons_self)
    obtain ⟨hid, hn⟩ := List.nodup_cons.mp hn
    have rest := ih hd (hs.removeNode ht) hn fun k hk ↦
      List.mem_filter.mpr ⟨hm k (List.mem_cons_of_mem _ hk), by
        simpa using ne_of_mem_of_not_mem hk hid⟩
    rw [List.foldl_cons, ht]
    simpa [Except.toOption, List.filter_filter, Bool.and_comm, not_or] using rest

/-- Giving up a text takes all of its nodes out again; the bindings that were replaced stay lost. -/
theorem Drafting.rollBack {d : Draft} (h : Drafting s₀ guest sp x₀ d)
    (h₀ : s₀.Coherent [] guest) (hx : s₀.space? sp = some x₀) :
    d.rollBack.Coherent [] guest ∧ ∃ names, d.scene.bindings sp = names ∧
      Drafted s₀ sp x₀ (x₀.names.filter fun b ↦ decide (b ∈ names)) [] d.rollBack := by
  obtain ⟨names, hd, hk⟩ := h.drafted
  obtain ⟨hc, hr⟩ := hd.removeNodes h₀ hx h.coherent (List.nodup_reverse.mpr hd.nodup)
    fun id hid ↦ List.mem_reverse.mp hid
  refine ⟨hc, names, bindings_eq hd.home, ?_⟩
  simp only [List.mem_reverse, hk] at hr
  have he : (d.created.filter fun k ↦ decide (k ∉ d.created)) = [] :=
    List.filter_eq_nil_iff.mpr fun k hk ↦ by simpa using hk
  rwa [he] at hr

end rollBack

end Scene

end SceneGraph
