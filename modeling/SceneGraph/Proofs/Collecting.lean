import Mathlib.Data.List.Basic
import SceneGraph.Proofs.Confining
import SceneGraph.Proofs.Pruning

/-!
A collection takes exactly those nodes of a space that no chain of references within the space
leads to from its roots, each with the spaces of its content.
-/

namespace SceneGraph

/-- The value refers to the node. -/
def Value.Holds (v : Value) (id : NodeId) : Prop :=
  v = .node (some id) ∨ ∃ a, v = .nodes a ∧ id ∈ a.toList

theorem Value.mem_refs {v : Value} {id : NodeId} : id ∈ v.refs ↔ v.Holds id := by
  unfold refs Holds
  split <;> simp_all [eq_comm]

namespace Scene

variable {s s' t : Scene} {guest : Option SpaceId} {id k a b : NodeId} {n m : Node}
  {sp p q c : SpaceId} {x y : Space} {ids : List NodeId} {P Q : NodeId → Prop}

/-- A field of the first node, of type node or nodes and of whatever access, refers to the second
node. -/
def Refers (s : Scene) (a b : NodeId) : Prop :=
  ∃ n i d v, s.node? a = some n ∧ n.type.table.get? i = some d ∧ d.type.kind.scalar = .node ∧
    n.values[i]? = some v ∧ v.Holds b

/-- A chain of references leads from a root of the space to the node, and all nodes of the chain
satisfy `P`. -/
inductive Attained (s : Scene) (sp : SpaceId) (P : NodeId → Prop) : NodeId → Prop
  | root {id : NodeId} (h : id ∈ s.roots sp) (hp : P id) : Attained s sp P id
  | refer {a b : NodeId} (ha : Attained s sp P a) (h : s.Refers a b) (hp : P b) : Attained s sp P b

theorem Attained.holds (h : s.Attained sp P id) : P id := by
  cases h <;> assumption

theorem Attained.mono (h : s.Attained sp P id) (hpq : ∀ k, P k → Q k) : s.Attained sp Q id := by
  induction h with
  | root hr hp => exact .root hr (hpq _ hp)
  | refer _ hr hp ih => exact .refer ih hr (hpq _ hp)

theorem mem_refsOf : b ∈ s.refsOf a ↔ s.Refers a b := by
  unfold refsOf Refers
  cases hn : s.node? a with
  | none => simp
  | some n =>
    simp only [Option.map_some, Option.getD_some, Node.refs, FieldTable.nodeFields,
      List.mem_flatMap, List.mem_filter, List.mem_range, Option.any_eq_true, Kind.isNode,
      decide_eq_true_eq, Option.some.injEq]
    constructor
    · rintro ⟨i, ⟨-, d, hd, hk⟩, hb⟩
      cases hv : n.values[i]? with
      | none => simp [hv] at hb
      | some v =>
        rw [hv] at hb
        exact ⟨n, i, d, v, rfl, hd, hk, hv, Value.mem_refs.mp hb⟩
    · rintro ⟨n, i, d, v, rfl, hd, hk, hv, hb⟩
      have hi : i < n.type.table.size := (List.getElem?_eq_some_iff.mp hd).1
      exact ⟨i, ⟨hi, d, hd, hk⟩, by rw [hv]; exact Value.mem_refs.mpr hb⟩

section search

variable {next : NodeId → List NodeId} {scope stack : List NodeId}

theorem search_of_mem {rest : List NodeId} (h : id ∈ scope) :
    search next scope (id :: rest) = id :: search next (scope.erase id) (next id ++ rest) := by
  rw [search, dif_pos h]

theorem search_of_not_mem {rest : List NodeId} (h : id ∉ scope) :
    search next scope (id :: rest) = search next scope rest := by
  rw [search, dif_neg h]

/-- What is found is in the scope, and it satisfies what the nodes on the stack satisfy and a node
found hands on. -/
theorem search_sound (start : ∀ k ∈ stack, k ∈ scope → P k)
    (step : ∀ a, P a → ∀ b ∈ next a, b ∈ scope → P b) :
    ∀ k ∈ search next scope stack, k ∈ scope ∧ P k := by
  induction scope, stack using search.induct next with
  | case1 => simp [search]
  | case2 scope id stack hid ih =>
    rw [search_of_mem hid]
    have first : P id := start id List.mem_cons_self hid
    have rest := ih (fun k hk hs ↦ ?_) fun a ha b hb hs ↦ step a ha b hb (List.mem_of_mem_erase hs)
    · intro k hk
      rcases List.mem_cons.mp hk with rfl | hk
      · exact ⟨hid, first⟩
      · obtain ⟨hs, hp⟩ := rest k hk
        exact ⟨List.mem_of_mem_erase hs, hp⟩
    · have hs := List.mem_of_mem_erase hs
      rcases List.mem_append.mp hk with hk | hk
      · exact step id first k hk hs
      · exact start k (List.mem_cons_of_mem _ hk) hs
  | case3 scope id stack hid ih =>
    rw [search_of_not_mem hid]
    exact ih (fun k hk ↦ start k (List.mem_cons_of_mem _ hk)) step

/-- With a node the search finds those of the scope that come next, and it starts with the stack. -/
theorem search_closed (next : NodeId → List NodeId) (scope stack : List NodeId) :
    (∀ k ∈ stack, k ∈ scope → k ∈ search next scope stack) ∧
      ∀ a ∈ search next scope stack, ∀ b ∈ next a, b ∈ scope → b ∈ search next scope stack := by
  induction scope, stack using search.induct next with
  | case1 => simp [search]
  | case2 scope id stack hid ih =>
    rw [search_of_mem hid]
    obtain ⟨start, step⟩ := ih
    -- the node itself is found, so it may leave the scope
    have other {k} (hs : k ∈ scope) (h : k ∈ scope.erase id →
        k ∈ search next (scope.erase id) (next id ++ stack)) :
        k ∈ id :: search next (scope.erase id) (next id ++ stack) := by
      by_cases hk : k = id
      · exact hk ▸ List.mem_cons_self
      · exact List.mem_cons_of_mem _ (h ((List.mem_erase_of_ne hk).mpr hs))
    constructor
    · intro k hk hs
      rcases List.mem_cons.mp hk with rfl | hk
      · exact List.mem_cons_self
      · exact other hs (start k (List.mem_append_right _ hk))
    · intro a ha b hb hs
      rcases List.mem_cons.mp ha with rfl | ha
      · exact other hs (start b (List.mem_append_left _ hb))
      · exact other hs (step a ha b hb)
  | case3 scope id stack hid ih =>
    rw [search_of_not_mem hid]
    refine ⟨fun k hk hs ↦ ?_, ih.2⟩
    rcases List.mem_cons.mp hk with rfl | hk
    · exact absurd hs hid
    · exact ih.1 k hk hs

end search

theorem mem_reachable : id ∈ s.reachable sp ↔ s.Attained sp (· ∈ s.members sp) id := by
  unfold reachable
  constructor
  · intro h
    refine (search_sound (P := s.Attained sp (· ∈ s.members sp)) (fun k hk hs ↦ .root hk hs)
      (fun a ha b hb hs ↦ .refer ha (mem_refsOf.mp hb) hs) id h).2
  · obtain ⟨start, step⟩ :=
      search_closed s.refsOf (s.members sp) (s.roots sp)
    intro h
    induction h with
    | root hr hs => exact start _ hr hs
    | refer _ hr hs ih => exact step _ ih _ (mem_refsOf.mpr hr) hs

theorem mem_unreachable :
    id ∈ s.unreachable sp ↔ id ∈ s.members sp ∧ ¬s.Attained sp (· ∈ s.members sp) id := by
  rw [unreachable, List.mem_filter, decide_eq_true_eq, mem_reachable]

theorem members_eq (hx : s.space? sp = some x) : s.members sp = x.nodes := by
  rw [members, hx]
  rfl

theorem roots_eq (hx : s.space? sp = some x) : s.roots sp = x.roots := by
  rw [roots, hx]
  rfl

/-- The space is in the content of one of the nodes. -/
def Sunk (s : Scene) (ids : List NodeId) (q : SpaceId) : Prop :=
  ∃ id ∈ ids, ∃ n c, s.node? id = some n ∧ n.contentSpace? = some c ∧ s.Beneath c q

/-- The node is one of these or lives in the content of one. -/
def Swept (s : Scene) (ids : List NodeId) (id : NodeId) : Prop :=
  id ∈ ids ∨ ∃ n, s.node? id = some n ∧ s.Sunk ids n.space

theorem Sunk.mono {ids' : List NodeId} (h : s.Sunk ids q) (hs : ∀ id ∈ ids, id ∈ ids') :
    s.Sunk ids' q := by
  obtain ⟨id, hid, hc⟩ := h
  exact ⟨id, hs id hid, hc⟩

theorem Swept.mono {ids' : List NodeId} (h : s.Swept ids id) (hs : ∀ id ∈ ids, id ∈ ids') :
    s.Swept ids' id := by
  rcases h with h | ⟨n, hn, h⟩
  · exact .inl (hs id h)
  · exact .inr ⟨n, hn, h.mono hs⟩

theorem swept_iff : s.Swept ids k ↔ ∃ u ∈ ids, s.Swept [u] k := by
  constructor
  · rintro (hk | ⟨n, hn, u, hu, hc⟩)
    · exact ⟨k, hk, .inl (List.mem_singleton_self _)⟩
    · exact ⟨u, hu, .inr ⟨n, hn, u, List.mem_singleton_self _, hc⟩⟩
  · rintro ⟨u, hu, hk⟩
    exact hk.mono fun id hid ↦ List.mem_singleton.mp hid ▸ hu

theorem swept_congr {ids' : List NodeId} (he : ∀ id, id ∈ ids' ↔ id ∈ ids) :
    (∀ q, s.Sunk ids' q ↔ s.Sunk ids q) ∧ ∀ k, s.Swept ids' k ↔ s.Swept ids k :=
  ⟨fun _ ↦ ⟨(·.mono fun id ↦ (he id).mp), (·.mono fun id ↦ (he id).mpr)⟩,
    fun _ ↦ ⟨(·.mono fun id ↦ (he id).mp), (·.mono fun id ↦ (he id).mpr)⟩⟩

namespace Pruned

theorem parent (h : Pruned s s') (hy : s'.space? q = some y) :
    ∃ x, s.space? q = some x ∧ y.parent = x.parent := by
  obtain ⟨x, hx, f, g, rfl⟩ := h.space hy
  exact ⟨x, hx, rfl⟩

theorem beneath (h : Pruned s s') (hb : s'.Beneath c q) : s.Beneath c q := by
  refine Relation.ReflTransGen.mono (fun p q hq ↦ ?_) _ _ hb
  obtain ⟨y, hy, hp⟩ := hq
  obtain ⟨x, hx, he⟩ := h.parent hy
  exact ⟨x, hx, he ▸ hp⟩

theorem sunk (h : Pruned s s') (hq : s'.Sunk ids q) : s.Sunk ids q := by
  obtain ⟨id, hid, n, c, hn, hc, hb⟩ := hq
  exact ⟨id, hid, n, c, h.node hn, hc, h.beneath hb⟩

theorem swept (h : Pruned s s') (hk : s'.Swept ids k) : s.Swept ids k := by
  rcases hk with hk | ⟨n, hn, hq⟩
  · exact .inl hk
  · exact .inr ⟨n, h.node hn, h.sunk hq⟩

/-- With a node goes all of its content. -/
theorem space?_of_sunk (h : Pruned s s') (hs : s.Coherent [] none) (hs' : s'.Coherent [] none)
    (gone : ∀ id ∈ ids, s'.node? id = none) (hq : s.Sunk ids q) : s'.space? q = none := by
  obtain ⟨id, hid, n, c, hn, hc, hb⟩ := hq
  refine hs'.razed_of_parent h.parent hb (Option.eq_none_iff_forall_ne_some.mpr fun y hy ↦ ?_)
  obtain ⟨x, hx, f, g, rfl⟩ := h.space hy
  obtain ⟨-, owner, -⟩ := (hs.claimed.content hn hc).2 x hx
  rcases hs'.claimed.owned hy owner with hd | hg | ⟨m, hm, -⟩
  · cases hd
  · cases hg
  · cases (gone id hid).symm.trans hm

theorem node?_of_swept (h : Pruned s s') (hs : s.Coherent [] none) (hs' : s'.Coherent [] none)
    (gone : ∀ id ∈ ids, s'.node? id = none) (hk : s.Swept ids k) : s'.node? k = none := by
  rcases hk with hk | ⟨n, hn, hq⟩
  · exact gone k hk
  · refine Option.eq_none_iff_forall_ne_some.mpr fun m hm ↦ ?_
    cases hn.symm.trans (h.node hm)
    obtain ⟨y, hy, -⟩ := hs'.home hm
    cases (h.space?_of_sunk hs hs' gone hq).symm.trans hy

end Pruned

section removal

theorem removeNode_eq (hn : s.node? id = some n) : ∃ k, id = .issued k ∧ s.removeNode id =
    .ok (((s.modifySpace n.space (·.detach id)).dropNode k n).demolish (Belongings n [])) := by
  obtain ⟨k, rfl, -⟩ := issued_of_node? hn
  refine ⟨k, rfl, removeNode_eq_ok.mpr ⟨n, hn, ?_⟩⟩
  rw [demolish_node (by rwa [node?_modifySpace])]

theorem node?_removeNode (hr : s.removeNode id = .ok t) : t.node? id = none := by
  obtain ⟨n, hn, -⟩ := removeNode_eq_ok.mp hr
  obtain ⟨k, rfl, he⟩ := removeNode_eq hn
  cases hr.symm.trans he
  refine Option.eq_none_iff_forall_ne_some.mpr fun m hm ↦ ?_
  exact (of_node?_dropNode ((Pruned.demolish _ _).node hm)).1 rfl

/-- A removal takes no more than the node and its content. -/
theorem spared_removeNode (h : s.Coherent [] guest) (hr : s.removeNode id = .ok t) :
    (∀ {k m}, s.node? k = some m → ¬s.Swept [id] k → t.node? k = some m) ∧
      ∀ {q}, s.hasSpace q → ¬s.Sunk [id] q → t.hasSpace q := by
  obtain ⟨n, hn, -⟩ := removeNode_eq_ok.mp hr
  obtain ⟨j, rfl, he⟩ := removeNode_eq hn
  cases hr.symm.trans he
  have hn' : (s.modifySpace n.space (·.detach (.issued j))).node? (.issued j) = some n := hn
  have coherent := (h.detach hn).dropNode hn'
  have pruned : Pruned s ((s.modifySpace n.space (·.detach (.issued j))).dropNode j n) :=
    (Pruned.modifySpace fun x hx ↦ ⟨_, _, Space.detach_eq_prune (h.wired hx).roots_nodup _⟩).trans
      (Pruned.dropNode hn')
  have closed : Closed (s.Sunk [.issued j])
      ((s.modifySpace n.space (·.detach (.issued j))).dropNode j n) := by
    rintro q y p hy hp ⟨id, hid, m, c, hm, hc, hb⟩
    obtain ⟨x, hx, he⟩ := pruned.parent hy
    exact ⟨id, hid, m, c, hm, hc, hb.tail ⟨x, hx, he ▸ hp⟩⟩
  have within : Within (s.Sunk [.issued j])
      ((s.modifySpace n.space (·.detach (.issued j))).dropNode j n) (Belongings n []) := by
    refine ⟨fun q y hq _ ↦ ?_, fun k m hk ↦ ?_⟩
    · have hc := (space_mem_belongings.mp hq).resolve_right List.not_mem_nil
      exact ⟨_, List.mem_singleton_self _, n, q, hn, hc, .refl⟩
    · exact absurd (node_mem_belongings.mp hk) List.not_mem_nil
  obtain ⟨node, space⟩ := spared_demolish coherent closed within
  refine ⟨fun {k m} hm kept ↦ node ?_ fun hq ↦ kept (.inr ⟨m, hm, hq⟩), fun {q} hq kept ↦ ?_⟩
  · rw [node?_dropNode_of_ne fun hk ↦ kept (.inl (by simp [hk]))]
    exact hm
  · have hq' : ((s.modifySpace n.space (·.detach (.issued j))).dropNode j n).hasSpace q := by
      obtain ⟨x, hx⟩ := hasSpace_iff.mp hq
      rw [hasSpace, space?_dropNode, space?_modifySpace]
      split <;> simp [hx]
    obtain ⟨y, hy⟩ := hasSpace_iff.mp hq'
    obtain ⟨cs, hcs⟩ := space hy kept
    exact hasSpace_iff.mpr ⟨_, hcs⟩

theorem gone_removeNodes (h : s.Coherent [] guest) (hr : ids.foldlM Scene.removeNode s = .ok t) :
    ∀ id ∈ ids, t.node? id = none := by
  induction ids generalizing s with
  | nil => exact nofun
  | cons id ids ih =>
    obtain ⟨u, hu, hr'⟩ := bind_eq_ok.mp hr
    have first : t.node? id = none := by
      refine Option.eq_none_iff_forall_ne_some.mpr fun m hm ↦ ?_
      have live := (Pruned.removeNodes (h.removeNode hu) hr').node hm
      cases (node?_removeNode hu).symm.trans live
    exact List.forall_mem_cons.mpr ⟨first, ih (h.removeNode hu) hr'⟩

theorem spared_removeNodes (h : s.Coherent [] guest) (hr : ids.foldlM Scene.removeNode s = .ok t) :
    (∀ {k m}, s.node? k = some m → ¬s.Swept ids k → t.node? k = some m) ∧
      ∀ {q}, s.hasSpace q → ¬s.Sunk ids q → t.hasSpace q := by
  induction ids generalizing s with
  | nil =>
    cases hr
    exact ⟨fun hm _ ↦ hm, fun hq _ ↦ hq⟩
  | cons id ids ih =>
    obtain ⟨u, hu, hr⟩ := bind_eq_ok.mp hr
    have pruned := Pruned.removeNode h hu
    obtain ⟨node, space⟩ := spared_removeNode h hu
    obtain ⟨node', space'⟩ := ih (h.removeNode hu) hr
    have first : ∀ k ∈ [id], k ∈ id :: ids := by simp
    have others : ∀ k ∈ ids, k ∈ id :: ids := fun k ↦ List.mem_cons_of_mem _
    refine ⟨fun hm kept ↦ ?_, fun hq kept ↦ ?_⟩
    · exact node' (node hm fun hs ↦ kept (hs.mono first))
        fun hs ↦ kept ((pruned.swept hs).mono others)
    · exact space' (space hq fun hs ↦ kept (hs.mono first))
        fun hs ↦ kept ((pruned.sunk hs).mono others)

section

variable (h : s.Coherent [] none) (hr : ids.foldlM Scene.removeNode s = .ok t)

include h hr

/-- Removals take the nodes and what is in their contents, and nothing else. -/
theorem hasNode_removeNodes (k : NodeId) : t.hasNode k ↔ s.hasNode k ∧ ¬s.Swept ids k := by
  have pruned := Pruned.removeNodes h hr
  constructor
  · intro hk
    refine ⟨pruned.hasNode hk, fun hs ↦ ?_⟩
    obtain ⟨m, hm⟩ := hasNode_iff.mp hk
    have gone := pruned.node?_of_swept h (h.removeNodes hr) (gone_removeNodes h hr) hs
    cases gone.symm.trans hm
  · rintro ⟨hk, kept⟩
    obtain ⟨m, hm⟩ := hasNode_iff.mp hk
    exact hasNode_iff.mpr ⟨m, (spared_removeNodes h hr).1 hm kept⟩

theorem hasSpace_removeNodes (q : SpaceId) : t.hasSpace q ↔ s.hasSpace q ∧ ¬s.Sunk ids q := by
  have pruned := Pruned.removeNodes h hr
  constructor
  · intro hq
    obtain ⟨y, hy⟩ := hasSpace_iff.mp hq
    obtain ⟨x, hx, -⟩ := pruned.space hy
    refine ⟨hasSpace_iff.mpr ⟨x, hx⟩, fun hs ↦ ?_⟩
    have gone := pruned.space?_of_sunk h (h.removeNodes hr) (gone_removeNodes h hr) hs
    cases gone.symm.trans hy
  · rintro ⟨hq, kept⟩
    exact (spared_removeNodes h hr).2 hq kept

end

theorem Coherent.number_le_of_beneath (h : s.Coherent [] guest) (hb : s.Beneath c q) :
    c.number ≤ q.number := by
  induction hb with
  | refl => exact Nat.le_refl _
  | tail _ hq ih =>
    obtain ⟨x, hx, hp⟩ := hq
    exact Nat.le_trans ih (Nat.le_of_lt (h.rooted.lt_of_child hx hp))

/-- A space is in no content of its own nodes. -/
theorem Coherent.not_sunk (h : s.Coherent [] none) (hx : s.space? sp = some x)
    (home : ∀ id ∈ ids, s.Lodges sp id) : ¬s.Sunk ids sp := by
  rintro ⟨id, hid, n, c, hn, hc, hb⟩
  obtain ⟨m, hm, hs⟩ := home id hid
  cases hn.symm.trans hm
  cases hy : s.space? c with
  | none =>
    have gone := h.razed_of_parent (fun hy ↦ ⟨_, hy, rfl⟩) hb hy
    cases gone.symm.trans hx
  | some y =>
    obtain ⟨-, -, hp⟩ := (h.claimed.content hn hc).2 y hy
    have below := h.rooted.lt_of_child hy hp
    have above := h.number_le_of_beneath hb
    rw [hs] at below
    exact absurd below (Nat.not_lt.mpr above)

theorem exists_removeNodes (h : s.Coherent [] none) (hx : s.space? sp = some x)
    (nodup : ids.Nodup) (home : ∀ id ∈ ids, s.Lodges sp id) :
    ∃ t, ids.foldlM Scene.removeNode s = .ok t := by
  induction ids generalizing s x with
  | nil => exact ⟨s, rfl⟩
  | cons id ids ih =>
    obtain ⟨n, hn, hs⟩ := home id List.mem_cons_self
    have hu := removeNode_eq_ok.mpr ⟨n, hn, rfl⟩
    have single : [id].foldlM Scene.removeNode s = .ok _ := bind_eq_ok.mpr ⟨_, hu, rfl⟩
    have stays : ¬s.Sunk [id] sp := h.not_sunk hx fun k hk ↦ List.mem_singleton.mp hk ▸ ⟨n, hn, hs⟩
    obtain ⟨y, hy⟩ := hasSpace_iff.mp ((hasSpace_removeNodes h single sp).mpr
      ⟨hasSpace_iff.mpr ⟨x, hx⟩, stays⟩)
    obtain ⟨hid, nodup⟩ := List.nodup_cons.mp nodup
    obtain ⟨t, ht⟩ := ih (h.removeNode hu) hy nodup (by
      intro k hk
      obtain ⟨m, hm, hms⟩ := home k (List.mem_cons_of_mem _ hk)
      refine ⟨m, (spared_removeNode h hu).1 hm ?_, hms⟩
      rintro (hk' | ⟨m', hm', hq⟩)
      · exact hid (List.mem_singleton.mp hk' ▸ hk)
      · cases hm.symm.trans hm'
        exact stays (hms ▸ hq))
    exact ⟨t, bind_eq_ok.mpr ⟨_, hu, ht⟩⟩

end removal

/-- The second scene is what is left of the first without some nodes of a space and without all that
is in their contents. -/
structure Cleared (s : Scene) (sp : SpaceId) (ids : List NodeId) (t : Scene) : Prop where
  gone : ∀ {id}, s.Swept ids id → t.node? id = none
  sunk : ∀ {q}, s.Sunk ids q → t.space? q = none
  node : ∀ {id}, ¬s.Swept ids id → t.node? id = s.node? id
  space : ∀ {q}, ¬s.Sunk ids q → q ≠ sp → t.space? q = s.space? q
  home : ∀ {x}, s.space? sp = some x → t.space? sp = some (x.prune (· ∉ ids) t.hasSpace)
  names : ∀ {q y}, t.space? q = some y → ∀ b ∈ y.names, ¬s.Swept ids b.2
  routes : ∀ {q y}, t.space? q = some y →
    ∀ r ∈ y.routes, ¬s.Swept ids r.source ∧ ¬s.Swept ids r.dest
  sensors : t.sensors = s.sensors.filter t.hasNode
  pending : t.pending = s.pending.filter fun p ↦ t.hasNode p.1
  /-- The loads of the nodes are called off. -/
  loader : ∃ requests, t.loader = s.loader.map (·.flag requests) ∧
    ∀ r, r ∈ requests ↔
      ∃ id n, s.node? id = some n ∧ s.Swept ids id ∧ n.load.bind LoadSlot.pending = some r
  rest : t = { s with
    nodes := t.nodes
    spaces := t.spaces
    sensors := t.sensors
    pending := t.pending
    loader := t.loader
    freePlaces := t.freePlaces }

section collect

theorem collect_eq_ok (hx : s.space? sp = some x) : s.collect sp = .ok (ids, t) ↔
    ids = s.unreachable sp ∧ ids.foldlM Scene.removeNode s = .ok t := by
  unfold collect
  simp only [bind_eq_ok, space_eq_ok]
  constructor
  · rintro ⟨-, -, u, hu, he⟩
    cases he
    exact ⟨rfl, hu⟩
  · rintro ⟨rfl, hr⟩
    exact ⟨x, hx, t, hr, rfl⟩

theorem Coherent.lodges (h : s.Coherent [] guest) (hx : s.space? sp = some x) :
    id ∈ s.members sp ↔ s.Lodges sp id := by
  rw [members_eq hx]
  constructor
  · exact h.housed.lodged hx
  · rintro ⟨n, hn, hs⟩
    obtain ⟨y, hy, hid⟩ := h.home hn
    rw [hs] at hy
    cases hx.symm.trans hy
    exact hid

section

variable (h : s.Coherent [] none) (home : ∀ id ∈ ids, s.Lodges sp id)
  (hr : ids.foldlM Scene.removeNode s = .ok t)

include h hr

theorem node?_removeNodes_eq_none (hn : s.node? k = some n) :
    t.node? k = none ↔ s.Swept ids k := by
  constructor
  · intro gone
    by_contra kept
    cases gone.symm.trans ((spared_removeNodes h hr).1 hn kept)
  · exact (Pruned.removeNodes h hr).node?_of_swept h (h.removeNodes hr) (gone_removeNodes h hr)

theorem space?_removeNodes (hq : ¬s.Sunk ids q) (hy : s.space? q = some y) :
    t.space? q = some (y.prune t.hasNode t.hasSpace) :=
  (Pruned.removeNodes h hr).space?_eq h (h.removeNodes hr) hy
    ((hasSpace_removeNodes h hr q).mpr ⟨hasSpace_iff.mpr ⟨y, hy⟩, hq⟩)

include home

/-- The spaces beside that of the nodes are not affected, but for those that go. -/
theorem space?_removeNodes_of_ne (hq : ¬s.Sunk ids q) (hne : q ≠ sp) (hy : s.space? q = some y) :
    t.space? q = some y := by
  rw [space?_removeNodes h hr hq hy, (h.wired hy).prune_congr (p := fun _ ↦ true)
    (q := fun _ ↦ true), y.prune_all]
  · intro k hk
    obtain ⟨m, hm, rfl⟩ := h.housed.lodged hy hk
    refine (hasNode_removeNodes h hr k).mpr ⟨hasNode_iff.mpr ⟨m, hm⟩, ?_⟩
    rintro (hk | ⟨m', hm', hs⟩)
    · obtain ⟨m', hm', hs⟩ := home k hk
      cases hm.symm.trans hm'
      exact hne hs
    · cases hm.symm.trans hm'
      exact hq hs
  · intro c hc
    obtain ⟨z, hz, hp⟩ := h.rooted.child hy hc
    refine (hasSpace_removeNodes h hr c).mpr ⟨hasSpace_iff.mpr ⟨z, hz⟩, ?_⟩
    rintro ⟨id, hid, n, b, hn, hb, hbc⟩
    -- a content is right below the space of its node, and what else goes is below what goes
    rcases Relation.ReflTransGen.cases_tail hbc with rfl | ⟨d, hd, w, hw, hwp⟩
    · obtain ⟨-, -, hp'⟩ := (h.claimed.content hn hb).2 z hz
      obtain ⟨n', hn', hs⟩ := home id hid
      cases hn.symm.trans hn'
      cases hp.symm.trans hp'
      exact hne hs
    · cases hz.symm.trans hw
      cases hp.symm.trans hwp
      exact hq ⟨id, hid, n, b, hn, hb, hd⟩

theorem hasNode_removeNodes_of_mem (hx : s.space? sp = some x) (hk : k ∈ x.nodes) :
    t.hasNode k = decide (k ∉ ids) := by
  obtain ⟨m, hm, hs⟩ := h.housed.lodged hx hk
  rw [Bool.eq_iff_iff, hasNode_removeNodes h hr, decide_eq_true_eq]
  refine ⟨fun hk ↦ fun hid ↦ hk.2 (.inl hid), fun hid ↦ ⟨hasNode_iff.mpr ⟨m, hm⟩, ?_⟩⟩
  rintro (hk | ⟨m', hm', hq⟩)
  · exact hid hk
  · cases hm.symm.trans hm'
    exact h.not_sunk hx home (hs ▸ hq)

theorem space?_removeNodes_home (hx : s.space? sp = some x) :
    t.space? sp = some (x.prune (· ∉ ids) t.hasSpace) := by
  rw [space?_removeNodes h hr (h.not_sunk hx home) hx, (h.wired hx).prune_congr]
  · exact fun k hk ↦ hasNode_removeNodes_of_mem h home hr hx hk
  · exact fun _ _ ↦ rfl

/-- What removals leave of the scene. -/
theorem cleared_removeNodes : Cleared s sp ids t := by
  have pruned := Pruned.removeNodes h hr
  have coherent := h.removeNodes hr
  have gone := gone_removeNodes h hr
  have lives {q : SpaceId} {y : Space} (hy : t.space? q = some y) {k : NodeId} (hk : k ∈ y.nodes) :
      ¬s.Swept ids k := by
    obtain ⟨m, hm, -⟩ := coherent.housed.lodged hy hk
    exact ((hasNode_removeNodes h hr k).mp (hasNode_iff.mpr ⟨m, hm⟩)).2
  exact {
    gone := fun hk ↦ pruned.node?_of_swept h coherent gone hk
    sunk := fun hq ↦ pruned.space?_of_sunk h coherent gone hq
    node := by
      intro k hk
      cases hm : s.node? k with
      | some m => exact (spared_removeNodes h hr).1 hm hk
      | none =>
        refine Option.eq_none_iff_forall_ne_some.mpr fun m hm' ↦ ?_
        cases hm.symm.trans (pruned.node hm')
    space := by
      intro q hq hne
      cases hy : s.space? q with
      | some y => exact space?_removeNodes_of_ne h home hr hq hne hy
      | none =>
        refine Option.eq_none_iff_forall_ne_some.mpr fun y hy' ↦ ?_
        obtain ⟨z, hz, -⟩ := pruned.space hy'
        cases hy.symm.trans hz
    home := fun hy ↦ space?_removeNodes_home h home hr hy
    names := fun hy b hb ↦ lives hy ((coherent.wired hy).names b hb)
    routes := fun hy r hr ↦
      ⟨lives hy ((coherent.wired hy).ends r hr).1, lives hy ((coherent.wired hy).ends r hr).2⟩
    sensors := pruned.sensors_eq h
    pending := pruned.pending_eq h
    loader := by
      obtain ⟨requests, hl, hrs⟩ := pruned.loader
      refine ⟨requests, hl, fun r ↦ (hrs r).trans ?_⟩
      refine exists_congr fun k ↦ exists_congr fun n ↦ ?_
      exact and_congr_right fun hn ↦ and_congr_left' (node?_removeNodes_eq_none h hr hn)
    rest := pruned.rest }

end

section

variable (h : s.Coherent [] none) (hx : s.space? sp = some x)

include h hx

theorem lodges_of_unreachable : ∀ id ∈ s.unreachable sp, s.Lodges sp id :=
  fun _ hid ↦ (h.lodges hx).mp (mem_unreachable.mp hid).1

theorem nodup_unreachable : (s.unreachable sp).Nodup := by
  rw [unreachable, members_eq hx]
  exact (h.housed.nodup hx).filter _

/-- What is reached within the space stays. -/
theorem not_swept_of_attained (hk : s.Attained sp (· ∈ s.members sp) k) :
    ¬s.Swept (s.unreachable sp) k := by
  rintro (hid | ⟨n, hn, hq⟩)
  · exact (mem_unreachable.mp hid).2 hk
  · obtain ⟨m, hm, hs⟩ := (h.lodges hx).mp hk.holds
    cases hn.symm.trans hm
    exact h.not_sunk hx (lodges_of_unreachable h hx) (hs ▸ hq)

theorem exists_collect : ∃ t, s.collect sp = .ok (s.unreachable sp, t) ∧
    (s.unreachable sp).foldlM Scene.removeNode s = .ok t := by
  obtain ⟨t, hr⟩ :=
    exists_removeNodes h hx (nodup_unreachable h hx) (lodges_of_unreachable h hx)
  exact ⟨t, (collect_eq_ok hx).mpr ⟨rfl, hr⟩, hr⟩

/-- What the roots reach they still reach afterwards. -/
theorem Cleared.attained (hc : Cleared s sp (s.unreachable sp) t)
    (hk : s.Attained sp (· ∈ s.members sp) k) : t.Attained sp (· ∈ t.members sp) k := by
  have member {k} (hk : s.Attained sp (· ∈ s.members sp) k) : k ∈ t.members sp := by
    rw [members_eq (hc.home hx)]
    refine List.mem_filter.mpr ⟨members_eq hx ▸ hk.holds, ?_⟩
    simpa using fun hid ↦ not_swept_of_attained h hx hk (.inl hid)
  induction hk with
  | @root k hr hs =>
    have attained : s.Attained sp (· ∈ s.members sp) k := .root hr hs
    refine .root ?_ (member attained)
    rw [roots_eq (hc.home hx)]
    refine List.mem_filter.mpr ⟨roots_eq hx ▸ hr, ?_⟩
    simpa using fun hid ↦ not_swept_of_attained h hx attained (.inl hid)
  | refer ha hr hs ih =>
    refine .refer ih ?_ (member (.refer ha hr hs))
    unfold Refers
    rw [hc.node (not_swept_of_attained h hx ha)]
    exact hr

theorem Cleared.unreachable_eq_nil (hc : Cleared s sp (s.unreachable sp) t) :
    t.unreachable sp = [] := by
  refine List.eq_nil_iff_forall_not_mem.mpr fun k hk ↦ ?_
  obtain ⟨hm, missed⟩ := mem_unreachable.mp hk
  rw [members_eq (hc.home hx)] at hm
  obtain ⟨hm, kept⟩ := List.mem_filter.mp hm
  rw [decide_eq_true_eq, mem_unreachable, members_eq hx] at kept
  by_cases attained : s.Attained sp (· ∈ s.members sp) k
  · exact missed (hc.attained h hx attained)
  · exact kept ⟨hm, members_eq hx ▸ attained⟩

/-- Removals in another order leave the same but for the order of the free places. -/
theorem removeNodes_perm {ids' : List NodeId} (nodup : ids.Nodup)
    (home : ∀ id ∈ ids, s.Lodges sp id) (hr : ids.foldlM Scene.removeNode s = .ok t)
    (hp : ids'.Perm ids) : ∃ t', ids'.foldlM Scene.removeNode s = .ok t' ∧
      t' = { t with freePlaces := t'.freePlaces } ∧ t'.freePlaces.Perm t.freePlaces := by
  have mem (id : NodeId) : id ∈ ids' ↔ id ∈ ids := hp.mem_iff
  obtain ⟨t', hr'⟩ := exists_removeNodes h hx (hp.nodup_iff.mpr nodup)
    fun id hid ↦ home id ((mem id).mp hid)
  obtain ⟨sunk, swept⟩ := swept_congr (s := s) mem
  have same := (Pruned.removeNodes h hr).eq_of_left (Pruned.removeNodes h hr') h
    (h.removeNodes hr) (h.removeNodes hr') (fun k ↦ ?_) fun q ↦ ?_
  · exact ⟨t', hr', same⟩
  · rw [Bool.eq_iff_iff, hasNode_removeNodes h hr', hasNode_removeNodes h hr, swept]
  · rw [Bool.eq_iff_iff, hasSpace_removeNodes h hr', hasSpace_removeNodes h hr, sunk]

end

/-- A collection removes the nodes of the space that no root of the space reaches within the space,
with what is in their contents, and leaves all else. Whatever the order of the removals, the same is
left, and nothing for a second collection. -/
theorem Reachable.collect_sweeps (h : s.Reachable) (live : s.hasSpace sp) :
    ∃ ids t, s.collect sp = .ok (ids, t) ∧ ids.Nodup ∧
      (∀ id, id ∈ ids ↔ id ∈ s.members sp ∧ ¬s.Attained sp (· ∈ s.members sp) id) ∧
      Cleared s sp ids t ∧
      (∀ ids' : List NodeId, ids'.Perm ids → ∃ t', ids'.foldlM Scene.removeNode s = .ok t' ∧
        t' = { t with freePlaces := t'.freePlaces } ∧ t'.freePlaces.Perm t.freePlaces) ∧
      t.collect sp = .ok ([], t) := by
  have hc := h.coherent
  obtain ⟨x, hx⟩ := hasSpace_iff.mp live
  obtain ⟨t, ht, hr⟩ := exists_collect hc hx
  have home := lodges_of_unreachable hc hx
  have cleared := cleared_removeNodes hc home hr
  refine ⟨_, t, ht, nodup_unreachable hc hx, fun _ ↦ mem_unreachable, cleared, fun ids' hp ↦ ?_, ?_⟩
  · exact removeNodes_perm hc hx (nodup_unreachable hc hx) home hr hp
  · exact (collect_eq_ok (cleared.home hx)).mpr ⟨(cleared.unreachable_eq_nil hc hx).symm, rfl⟩

def group : NodeType :=
  ⟨"Group", ⟨Capability.children.fields⟩, [.children], .bytes, .passive⟩

theorem built_group : group.Built := ⟨Blueprint.of "Group" [.children], rfl⟩

/-- Two groups that hold each other, the first a root. Another group holds itself and the root, is
named and has a route to the root, and nothing holds the frame with its content. -/
def littered : Scene :=
  List.foldl Operation.run (start ⟨[group, frame]⟩ {})
    ([.setProvider light, .createNode .main "Group", .createNode .main "Group",
      .createNode .main "Group", .createNode .main "Inline", .addRoot .main (.issued 0),
      .setValue (.issued 0) 0 (.ofNodes [.issued 1, .issued 1]),
      .setValue (.issued 1) 0 (.ofNodes [.issued 0]),
      .setValue (.issued 2) 0 (.ofNodes [.issued 2, .issued 0]), .define .main "A" (.issued 2),
      .addRoute ⟨.issued 2, 0, .issued 0, 0⟩, .setValue (.issued 3) 0 (.ofStrings ["a"]),
      .finishSetup (.issued 3)] ++ takeOne ++ [.tick [] 0])

theorem reachable_littered : littered.Reachable := by
  have built : ∀ t ∈ [group, frame], t.Built := by simpa using ⟨built_group, built_frame⟩
  exact (story_start built rfl _).reachable

theorem collect_sweeps_littered : ∃ t, littered.Reachable ∧ littered.hasSpace .main ∧
    littered.collect .main = .ok ([.issued 2, .issued 3], t) ∧
    Cleared littered .main [.issued 2, .issued 3] t ∧ littered.hasSpace ⟨1⟩ ∧
    t.hasSpace ⟨1⟩ = false ∧ t.collect .main = .ok ([], t) := by
  have live : littered.hasSpace .main := by cbv
  have found : littered.unreachable .main = [.issued 2, .issued 3] := by cbv
  have content : (littered.node? (.issued 3)).bind Node.contentSpace? = some ⟨1⟩ := by cbv
  have filled : littered.hasSpace ⟨1⟩ := by cbv
  obtain ⟨ids, t, ht, -, -, cleared, -, again⟩ := reachable_littered.collect_sweeps live
  obtain ⟨x, hx⟩ := hasSpace_iff.mp live
  obtain ⟨rfl, -⟩ := (collect_eq_ok hx).mp ht
  obtain ⟨n, hn, hc⟩ := Option.bind_eq_some_iff.mp content
  rw [found] at ht cleared
  have gone : t.space? ⟨1⟩ = none := cleared.sunk ⟨.issued 3, by simp, n, _, hn, hc, .refl⟩
  exact ⟨t, reachable_littered, live, ht, cleared, filled, by rw [hasSpace, gone]; rfl, again⟩

/-- Of the nodes that the roots reach through live nodes of any space, a collection destroys those
that are, or are in the content of, nodes of the space that are not reached within it. -/
theorem Reachable.collect_destroys_iff (h : s.Reachable) (live : s.hasSpace sp) :
    ∃ ids t, s.collect sp = .ok (ids, t) ∧
      (∀ id, s.Attained sp (s.hasNode ·) id → (t.node? id = none ↔
        ∃ u ∈ s.members sp, ¬s.Attained sp (· ∈ s.members sp) u ∧ s.Swept [u] id)) ∧
      ∀ id, s.Attained sp (· ∈ s.members sp) id → t.node? id = s.node? id := by
  have hc := h.coherent
  obtain ⟨x, hx⟩ := hasSpace_iff.mp live
  obtain ⟨t, ht, hr⟩ := exists_collect hc hx
  have home := lodges_of_unreachable hc hx
  have cleared := cleared_removeNodes hc home hr
  refine ⟨_, t, ht, fun id attained ↦ ?_,
    fun id attained ↦ cleared.node (not_swept_of_attained hc hx attained)⟩
  obtain ⟨n, hn⟩ := hasNode_iff.mp attained.holds
  rw [node?_removeNodes_eq_none hc hr hn, swept_iff]
  simp only [mem_unreachable, and_assoc]

/-- A root holds a group of another space, which holds a group of the root's space. -/
def straggling : Scene :=
  List.foldl Operation.run (start ⟨[group]⟩ {})
    [.createNode .main "Group", .createNode .main "Group", .createSpace .scene .main,
      .createNode ⟨1⟩ "Group", .setValue (.issued 0) 0 (.ofNodes [.issued 2]),
      .setValue (.issued 2) 0 (.ofNodes [.issued 1]), .addRoot .main (.issued 0)]

theorem reachable_straggling : straggling.Reachable := by
  have built : ∀ t ∈ [group], t.Built := by simpa using built_group
  exact (story_start built rfl _).reachable

theorem attained_straggling : straggling.Attained .main (straggling.hasNode ·) (.issued 1) := by
  have root : NodeId.issued 0 ∈ straggling.roots .main := by
    have he : straggling.roots .main = [.issued 0] := by cbv
    simp [he]
  have out : straggling.Refers (.issued 0) (.issued 2) := by
    have he : straggling.refsOf (.issued 0) = [.issued 2] := by cbv
    exact mem_refsOf.mp (by simp [he])
  have back : straggling.Refers (.issued 2) (.issued 1) := by
    have he : straggling.refsOf (.issued 2) = [.issued 1] := by cbv
    exact mem_refsOf.mp (by simp [he])
  exact .refer (.refer (.root root (by cbv)) out (by cbv)) back (by cbv)

/-- The group goes though the root reaches it, for it is not reached within the space. -/
theorem collect_destroys_iff_straggling : ∃ t, straggling.Reachable ∧ straggling.hasSpace .main ∧
    straggling.collect .main = .ok ([.issued 1], t) ∧
    straggling.Attained .main (straggling.hasNode ·) (.issued 1) ∧ t.node? (.issued 1) = none := by
  have live : straggling.hasSpace .main := by cbv
  have found : straggling.unreachable .main = [.issued 1] := by cbv
  obtain ⟨ids, t, ht, destroyed, -⟩ := reachable_straggling.collect_destroys_iff live
  obtain ⟨x, hx⟩ := hasSpace_iff.mp live
  obtain ⟨rfl, -⟩ := (collect_eq_ok hx).mp ht
  have missed : .issued 1 ∈ straggling.unreachable .main := by simp [found]
  obtain ⟨hm, missed⟩ := mem_unreachable.mp missed
  have gone := (destroyed _ attained_straggling).mpr
    ⟨_, hm, missed, .inl (List.mem_singleton_self _)⟩
  exact ⟨t, reachable_straggling, live, found ▸ ht, attained_straggling, gone⟩

theorem not_kept_of_attained : ¬∀ (s : Scene) sp ids t id, s.Reachable →
    s.collect sp = .ok (ids, t) → s.Attained sp (s.hasNode ·) id → t.hasNode id := by
  intro kept
  have live : straggling.hasSpace .main := by cbv
  have found : straggling.unreachable .main = [.issued 1] := by cbv
  obtain ⟨x, hx⟩ := hasSpace_iff.mp live
  obtain ⟨t, ht, hr⟩ := exists_collect reachable_straggling.coherent hx
  obtain ⟨n, hn⟩ := hasNode_iff.mp (kept _ _ _ _ _ reachable_straggling ht attained_straggling)
  have gone := gone_removeNodes reachable_straggling.coherent hr (.issued 1) (by simp [found])
  cases gone.symm.trans hn

end collect

end Scene

end SceneGraph
