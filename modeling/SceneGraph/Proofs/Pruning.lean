import Mathlib.Data.List.Basic
import SceneGraph.Proofs.Wiring

/-!
A removal prunes the scene: the nodes that stay are as they were, and the spaces that stay have
lost what is gone and nothing else. So which nodes and spaces are left says all of what is left, up
to the order in which the free places are taken again.
-/

namespace SceneGraph

namespace Arena

variable {α : Type}

theorem ext {a b : Arena α} (issued : a.issued = b.issued) (get : ∀ k, a.get? k = b.get? k) :
    a = b := by
  have slots : a.slots = b.slots := by
    refine List.ext_getElem issued fun k ha hb ↦ ?_
    have hk := get k
    rwa [get?, get?, List.getElem?_eq_getElem ha, List.getElem?_eq_getElem hb, Option.join_some,
      Option.join_some] at hk
  cases a
  cases b
  exact congrArg mk slots

theorem toList_erase_perm {a : Arena α} {k : Nat} {v : α} (h : a.get? k = some v) :
    a.toList.Perm ((k, v) :: (a.erase k).toList) := by
  have hk : k ∈ List.range a.issued := List.mem_range.mpr (lt_issued_of_get? h)
  have first := List.perm_cons_erase hk
  have others : ∀ j ∈ (List.range a.issued).erase k,
      ((a.erase k).get? j).map (j, ·) = (a.get? j).map (j, ·) := by
    intro j hj
    rw [get?_erase, if_neg (List.nodup_range.mem_erase_iff.mp hj).1]
  have before := first.filterMap fun j ↦ (a.get? j).map (j, ·)
  have after := first.filterMap fun j ↦ ((a.erase k).get? j).map (j, ·)
  rw [List.filterMap_cons_some (by rw [h]; rfl)] at before
  rw [List.filterMap_cons_none (by rw [get?_erase, if_pos rfl]; rfl),
    List.filterMap_congr others] at after
  rw [toList, toList, issued_erase]
  exact before.trans (after.symm.cons _)

end Arena

namespace Space

/-- What is left of a space when some of its nodes and of the spaces below it are left. -/
def prune (x : Space) (node : NodeId → Bool) (space : SpaceId → Bool) : Space :=
  { x with
    nodes := x.nodes.filter node
    children := x.children.filter space
    roots := x.roots.filter node
    names := x.names.filter fun b ↦ node b.2
    routes := x.routes.filter fun r ↦ node r.source && node r.dest
    departures := fun id i ↦ (x.departures id i).filter fun r ↦ node r.source && node r.dest }

theorem prune_all (x : Space) : x.prune (fun _ ↦ true) (fun _ ↦ true) = x := by
  simp only [prune, List.filter_true, Bool.and_true]

theorem prune_prune (x : Space) (f f' : NodeId → Bool) (g g' : SpaceId → Bool) :
    (x.prune f g).prune f' g' = x.prune (fun id ↦ f id && f' id) fun q ↦ g q && g' q := by
  simp only [prune, List.filter_filter]
  simp only [Bool.and_comm, Bool.and_left_comm]

theorem removeChild_eq_prune (x : Space) (c : SpaceId) :
    x.removeChild c = x.prune (fun _ ↦ true) fun q ↦ decide (q ≠ c) := by
  simp only [prune, removeChild, List.filter_true, Bool.and_true]

theorem detach_eq_prune {x : Space} (h : x.roots.Nodup) (id : NodeId) :
    x.detach id = x.prune (fun k ↦ decide (k ≠ id)) fun _ ↦ true := by
  simp [prune, detach, h.erase_eq_filter, List.filter_true, Route.touches, bne, beq_eq_decide]

end Space

theorem Pool.flag_flag (p : Pool) (rs rs' : List Request) :
    (p.flag rs).flag rs' = p.flag (rs ++ rs') := by
  simp [flag, mark, Function.comp_def, Bool.or_assoc, Bool.decide_or]

theorem Pool.flag_nil (p : Pool) : p.flag [] = p := by
  simp [flag, mark]

theorem Pool.flag_congr (p : Pool) {rs rs' : List Request} (h : ∀ r, r ∈ rs ↔ r ∈ rs') :
    p.flag rs = p.flag rs' := by
  simp only [flag, h]

namespace Scene

variable {s s' s'' t t' : Scene} {doomed : List Doomed} {guest guest' : Option SpaceId}
  {sp q : SpaceId} {x : Space} {id : NodeId}

theorem Wired.prune_congr (h : s.Wired x) {f p : NodeId → Bool} {g q : SpaceId → Bool}
    (node : ∀ id ∈ x.nodes, f id = p id) (space : ∀ c ∈ x.children, g c = q c) :
    x.prune f g = x.prune p q := by
  have routes : ∀ r ∈ x.routes, (f r.source && f r.dest) = (p r.source && p r.dest) := by
    intro r hr
    obtain ⟨hs, hd⟩ := h.ends r hr
    rw [node _ hs, node _ hd]
  simp only [Space.prune]
  congr 1
  · exact List.filter_congr node
  · exact List.filter_congr space
  · exact List.filter_congr fun id hid ↦ node id (h.roots id hid)
  · exact List.filter_congr fun b hb ↦ node _ (h.names b hb)
  · exact List.filter_congr routes
  · funext id i
    refine List.filter_congr fun r hr ↦ routes r ?_
    rw [h.departures, List.mem_filter] at hr
    exact hr.1

/-- The places of the nodes. -/
def taken (s : Scene) : List Nat := s.nodes.toList.map fun e ↦ e.2.place

/-- The loads that a removal calls off are those of the nodes that are gone. -/
def CalledOff (s s' : Scene) (r : Request) : Prop :=
  ∃ id n, s.node? id = some n ∧ s'.node? id = none ∧ n.load.bind LoadSlot.pending = some r

/-- The second scene is left of the first when some nodes and spaces are removed. -/
structure Pruned (s s' : Scene) : Prop where
  node : ∀ {id n}, s'.node? id = some n → s.node? id = some n
  space : ∀ {q y}, s'.space? q = some y →
    ∃ x, s.space? q = some x ∧ ∃ node space, y = x.prune node space
  sensors : (∀ id ∈ s.sensors, s.hasNode id) → s'.sensors = s.sensors.filter s'.hasNode
  pending : (∀ p ∈ s.pending, s.hasNode p.1) →
    s'.pending = s.pending.filter fun p ↦ s'.hasNode p.1
  loader : ∃ requests, s'.loader = s.loader.map (·.flag requests) ∧
    ∀ r, r ∈ requests ↔ s.CalledOff s' r
  freed : (s'.taken ++ s'.freePlaces).Perm (s.taken ++ s.freePlaces)
  nodesIssued : s'.nodes.issued = s.nodes.issued
  spacesIssued : s'.spaces.issued = s.spaces.issued
  settings : s'.settings = s.settings
  catalog : s'.catalog = s.catalog
  places : s'.places = s.places
  cache : s'.cache = s.cache
  time : s'.time = s.time
  journal : s'.journal = s.journal

namespace Pruned

theorem rest (h : Pruned s s') : s' = { s with
    nodes := s'.nodes
    spaces := s'.spaces
    sensors := s'.sensors
    pending := s'.pending
    loader := s'.loader
    freePlaces := s'.freePlaces } := by
  obtain ⟨-, -, -, -, -, -, -, -, settings, catalog, places, cache, time, journal⟩ := h
  cases s'
  simp only at settings catalog places cache time journal
  subst settings catalog places cache time journal
  rfl

theorem hasNode (h : Pruned s s') (hn : s'.hasNode id) : s.hasNode id := by
  obtain ⟨n, hn⟩ := hasNode_iff.mp hn
  exact hasNode_iff.mpr ⟨n, h.node hn⟩

theorem calledOff_trans (h : Pruned s s') (h' : Pruned s' s'') (r : Request) :
    s.CalledOff s'' r ↔ s.CalledOff s' r ∨ s'.CalledOff s'' r := by
  constructor
  · rintro ⟨id, n, hn, gone, hr⟩
    cases hs' : s'.node? id with
    | none => exact .inl ⟨id, n, hn, hs', hr⟩
    | some m =>
      cases hn.symm.trans (h.node hs')
      exact .inr ⟨id, n, hs', gone, hr⟩
  · rintro (⟨id, n, hn, gone, hr⟩ | ⟨id, n, hn, gone, hr⟩)
    · refine ⟨id, n, hn, Option.eq_none_iff_forall_ne_some.mpr fun m hm ↦ ?_, hr⟩
      cases gone.symm.trans (h'.node hm)
    · exact ⟨id, n, h.node hn, gone, hr⟩

theorem trans (h : Pruned s s') (h' : Pruned s' s'') : Pruned s s'' where
  node hn := h.node (h'.node hn)
  space hz := by
    obtain ⟨y, hy, f', g', rfl⟩ := h'.space hz
    obtain ⟨x, hx, f, g, rfl⟩ := h.space hy
    exact ⟨x, hx, _, _, Space.prune_prune ..⟩
  sensors hs := by
    have live : ∀ id ∈ s'.sensors, s'.hasNode id := by
      rw [h.sensors hs]
      exact fun id hid ↦ (List.mem_filter.mp hid).2
    rw [h'.sensors live, h.sensors hs, List.filter_filter]
    refine List.filter_congr fun id _ ↦ ?_
    cases hl : s''.hasNode id with
    | false => rfl
    | true => rw [h'.hasNode hl, Bool.and_self]
  pending hp := by
    have live : ∀ p ∈ s'.pending, s'.hasNode p.1 := by
      rw [h.pending hp]
      exact fun p hm ↦ (List.mem_filter.mp hm).2
    rw [h'.pending live, h.pending hp, List.filter_filter]
    refine List.filter_congr fun p _ ↦ ?_
    cases hl : s''.hasNode p.1 with
    | false => rfl
    | true => rw [h'.hasNode hl, Bool.and_self]
  loader := by
    obtain ⟨rs, hl, hr⟩ := h.loader
    obtain ⟨rs', hl', hr'⟩ := h'.loader
    refine ⟨rs ++ rs', ?_, fun r ↦ ?_⟩
    · rw [hl', hl, Option.map_map]
      exact congrArg (Option.map · s.loader) (funext fun p ↦ Pool.flag_flag p rs rs')
    · rw [List.mem_append, hr, hr', h.calledOff_trans h']
  freed := h'.freed.trans h.freed
  nodesIssued := h'.nodesIssued.trans h.nodesIssued
  spacesIssued := h'.spacesIssued.trans h.spacesIssued
  settings := h'.settings.trans h.settings
  catalog := h'.catalog.trans h.catalog
  places := h'.places.trans h.places
  cache := h'.cache.trans h.cache
  time := h'.time.trans h.time
  journal := h'.journal.trans h.journal

/-- Only the spaces change. -/
theorem of_spaces {spaces : Arena Space} (issued : spaces.issued = s.spaces.issued)
    (space : ∀ {q : SpaceId} {y}, spaces.get? q.number = some y →
      ∃ x, s.space? q = some x ∧ ∃ node space, y = x.prune node space) :
    Pruned s { s with spaces } where
  node hn := hn
  space hy := space hy
  sensors hs := (List.filter_eq_self.mpr hs).symm
  pending hp := (List.filter_eq_self.mpr hp).symm
  loader := by
    refine ⟨[], ?_, fun r ↦ ⟨nofun, ?_⟩⟩
    · cases hl : s.loader with
      | none => rfl
      | some p => exact congrArg some (Pool.flag_nil p).symm
    · rintro ⟨id, n, hn, gone, -⟩
      cases hn.symm.trans gone
  freed := .refl _
  nodesIssued := rfl
  spacesIssued := issued
  settings := rfl
  catalog := rfl
  places := rfl
  cache := rfl
  time := rfl
  journal := rfl

theorem refl (s : Scene) : Pruned s s :=
  of_spaces rfl fun {_ y} hy ↦ ⟨y, hy, _, _, y.prune_all.symm⟩

theorem modifySpace {f : Space → Space}
    (hf : ∀ x, s.space? sp = some x → ∃ node space, f x = x.prune node space) :
    Pruned s (s.modifySpace sp f) := by
  refine of_spaces (issued_modifySpace ..) fun {q y} hy ↦ ?_
  rcases of_space?_modifySpace hy with ⟨rfl, x, hx, rfl⟩ | ⟨-, hy⟩
  · exact ⟨x, hx, hf x hx⟩
  · exact ⟨y, hy, _, _, y.prune_all.symm⟩

theorem dropSpace (s : Scene) (sp : SpaceId) (p : Option SpaceId) :
    Pruned s (s.dropSpace sp p) := by
  have dropped : Pruned s { s with spaces := s.spaces.erase sp.number } := by
    refine of_spaces (Arena.issued_erase ..) fun {q y} hy ↦ ?_
    rw [Arena.get?_erase] at hy
    split at hy
    · cases hy
    · exact ⟨y, hy, _, _, y.prune_all.symm⟩
  cases p with
  | none => exact dropped
  | some p => exact dropped.trans (modifySpace fun x _ ↦ ⟨_, _, x.removeChild_eq_prune sp⟩)

theorem dropNode {k : Nat} {n : Node} (hn : s.node? (.issued k) = some n) :
    Pruned s (s.dropNode k n) where
  node hm := (of_node?_dropNode hm).2
  space {q y} hy := ⟨y, by rwa [space?_dropNode] at hy, _, _, y.prune_all.symm⟩
  sensors hs := by
    rw [sensors_dropNode]
    refine List.filter_congr fun id hid ↦ ?_
    by_cases hk : id = .issued k
    · simp [Scene.hasNode, node?_dropNode, hk]
    · simpa [Scene.hasNode, node?_dropNode, hk] using hs id hid
  pending hp := by
    rw [pending_dropNode]
    refine List.filter_congr fun p hm ↦ ?_
    by_cases hk : p.1 = .issued k
    · simp [Scene.hasNode, node?_dropNode, hk]
    · simpa [Scene.hasNode, node?_dropNode, hk] using hp p hm
  loader := by
    have gone (id : NodeId) (m : Node) (hm : s.node? id = some m) :
        (s.dropNode k n).node? id = none ↔ id = .issued k := by
      rw [node?_dropNode, hm]
      split <;> simp [*]
    refine ⟨(n.load.bind LoadSlot.pending).toList, ?_, fun r ↦ ?_⟩
    · cases hr : n.load.bind LoadSlot.pending with
      | none => cases hl : s.loader <;> simp [Scene.dropNode, cancel, hr, hl, Pool.flag_nil]
      | some r => simp [Scene.dropNode, cancel, hr]
    · rw [Option.mem_toList]
      constructor
      · exact fun hr ↦ ⟨_, n, hn, (gone _ n hn).mpr rfl, hr⟩
      · rintro ⟨id, m, hm, hg, hr⟩
        cases (gone id m hm).mp hg
        cases hn.symm.trans hm
        exact hr
  freed := by
    have erased : s.taken.Perm (n.place :: (s.dropNode k n).taken) := by
      unfold taken
      rw [nodes_dropNode]
      exact (Arena.toList_erase_perm hn).map _
    have free : (s.dropNode k n).freePlaces = n.place :: s.freePlaces := by
      unfold Scene.dropNode cancel
      split <;> rfl
    rw [free]
    exact List.perm_middle.trans (erased.symm.append_right _)
  nodesIssued := by rw [nodes_dropNode, Arena.issued_erase]
  spacesIssued := by rw [spaces_dropNode]
  settings := by unfold Scene.dropNode cancel; split <;> rfl
  catalog := catalog_dropNode ..
  places := by unfold Scene.dropNode cancel; split <;> rfl
  cache := by unfold Scene.dropNode cancel; split <;> rfl
  time := by unfold Scene.dropNode cancel; split <;> rfl
  journal := journal_dropNode ..

theorem demolish (doomed : List Doomed) (s : Scene) : Pruned s (s.demolish doomed) := by
  refine demolish_induction (motive := fun _ s s' ↦ Pruned s s') ?_ ?_ ?_ ?_ doomed s
  · exact refl
  · exact fun _ _ _ _ _ ih ↦ ih
  · exact fun sp x _ s _ _ _ ih ↦ (dropSpace s sp x.parent).trans ih
  · exact fun _ _ _ _ _ hn ih ↦ (dropNode hn).trans ih

theorem removeNode (hs : s.Coherent [] guest) (hr : s.removeNode id = .ok s') : Pruned s s' := by
  obtain ⟨n, hn, rfl⟩ := removeNode_eq_ok.mp hr
  refine (modifySpace fun x hx ↦ ?_).trans (demolish _ _)
  exact ⟨_, _, Space.detach_eq_prune (hs.wired hx).roots_nodup id⟩

theorem removeNodes (hs : s.Coherent [] guest) {ids : List NodeId}
    (hr : ids.foldlM Scene.removeNode s = .ok s') : Pruned s s' := by
  induction ids generalizing s with
  | nil =>
    cases hr
    exact refl _
  | cons id ids ih =>
    obtain ⟨t, ht, hr⟩ := bind_eq_ok.mp hr
    exact (removeNode hs ht).trans (ih (hs.removeNode ht) hr)

section left

/-! What is left is known from which nodes and spaces are left. -/

theorem sensors_eq (h : Pruned s s') (hs : s.Coherent doomed guest) :
    s'.sensors = s.sensors.filter s'.hasNode :=
  h.sensors fun id hid ↦ by
    obtain ⟨n, hn, -⟩ := hs.tracked.sensor.mp hid
    exact hasNode_iff.mpr ⟨n, hn⟩

theorem pending_eq (h : Pruned s s') (hs : s.Coherent doomed guest) :
    s'.pending = s.pending.filter fun p ↦ s'.hasNode p.1 :=
  h.pending fun p hp ↦ by
    obtain ⟨n, hn, -⟩ := hs.tracked.queued hp
    exact hasNode_iff.mpr ⟨n, hn⟩

theorem node?_eq (h : Pruned s s') (id : NodeId) :
    s'.node? id = if s'.hasNode id then s.node? id else none := by
  unfold Scene.hasNode
  cases hn : s'.node? id with
  | none => rfl
  | some n => exact (h.node hn).symm

theorem space?_eq (h : Pruned s s') (hs : s.Coherent [] guest) (hs' : s'.Coherent [] guest')
    (hx : s.space? q = some x) (hq : s'.hasSpace q) :
    s'.space? q = some (x.prune s'.hasNode s'.hasSpace) := by
  obtain ⟨y, hy⟩ := hasSpace_iff.mp hq
  obtain ⟨z, hz, f, g, rfl⟩ := h.space hy
  cases hx.symm.trans hz
  rw [hy]
  congr 1
  refine (hs.wired hx).prune_congr (fun id hid ↦ ?_) fun c hc ↦ ?_
  · refine Bool.eq_iff_iff.mpr ⟨fun hf ↦ ?_, fun hl ↦ ?_⟩
    · obtain ⟨n, hn, -⟩ := hs'.housed.lodged hy (List.mem_filter.mpr ⟨hid, hf⟩)
      exact hasNode_iff.mpr ⟨n, hn⟩
    · obtain ⟨n, hn⟩ := hasNode_iff.mp hl
      obtain ⟨m, hm, rfl⟩ := hs.housed.lodged hx hid
      cases hm.symm.trans (h.node hn)
      obtain ⟨w, hw, hid'⟩ := hs'.home hn
      cases hy.symm.trans hw
      exact (List.mem_filter.mp hid').2
  · refine Bool.eq_iff_iff.mpr ⟨fun hg ↦ ?_, fun hl ↦ ?_⟩
    · obtain ⟨w, hw, -⟩ := hs'.rooted.child hy (List.mem_filter.mpr ⟨hc, hg⟩)
      exact hasSpace_iff.mpr ⟨w, hw⟩
    · obtain ⟨w, hw⟩ := hasSpace_iff.mp hl
      obtain ⟨v, hv, hvp⟩ := hs.rooted.child hx hc
      obtain ⟨v', hv', f', g', rfl⟩ := h.space hw
      cases hv.symm.trans hv'
      have hm : c ≠ .main := by
        rintro rfl
        obtain ⟨m, hm, hp, -⟩ := hs'.rooted.main
        cases hw.symm.trans hm
        exact absurd (hp.symm.trans hvp) nofun
      obtain ⟨p, hp, -, hd⟩ := hs'.rooted.below hw hm
      obtain ⟨u, hu, hcu⟩ := hd.resolve_left List.not_mem_nil
      cases hp.symm.trans hvp
      cases hy.symm.trans hu
      exact (List.mem_filter.mp hcu).2

theorem eq_of_left (h : Pruned s t) (h' : Pruned s t') (hs : s.Coherent [] guest)
    (ht : t.Coherent [] guest) (ht' : t'.Coherent [] guest)
    (node : ∀ id, t'.hasNode id = t.hasNode id) (space : ∀ q, t'.hasSpace q = t.hasSpace q) :
    t' = { t with freePlaces := t'.freePlaces } ∧ t'.freePlaces.Perm t.freePlaces := by
  have nodes : t'.nodes = t.nodes := by
    refine Arena.ext (h'.nodesIssued.trans h.nodesIssued.symm) fun k ↦ ?_
    have he : t'.node? (.issued k) = t.node? (.issued k) := by
      rw [h'.node?_eq, h.node?_eq, node]
    exact he
  have spaces : t'.spaces = t.spaces := by
    refine Arena.ext (h'.spacesIssued.trans h.spacesIssued.symm) fun k ↦ ?_
    change t'.space? ⟨k⟩ = t.space? ⟨k⟩
    cases hl : t.hasSpace ⟨k⟩ with
    | false =>
      rw [Option.not_isSome_iff_eq_none.mp (Bool.eq_false_iff.mp hl),
        Option.not_isSome_iff_eq_none.mp (Bool.eq_false_iff.mp ((space _).trans hl))]
    | true =>
      obtain ⟨y, hy⟩ := hasSpace_iff.mp hl
      obtain ⟨x, hx, -⟩ := h.space hy
      rw [h.space?_eq hs ht hx hl, h'.space?_eq hs ht' hx ((space _).trans hl), funext node,
        funext space]
  have loader : t'.loader = t.loader := by
    obtain ⟨rs, hl, hr⟩ := h.loader
    obtain ⟨rs', hl', hr'⟩ := h'.loader
    have same : ∀ r, r ∈ rs' ↔ r ∈ rs := fun r ↦ by
      rw [hr, hr']
      simp only [CalledOff, node?_congr nodes]
    rw [hl, hl']
    exact congrArg (Option.map · s.loader) (funext fun p ↦ p.flag_congr same)
  have freed : t'.freePlaces.Perm t.freePlaces := by
    have both := h'.freed.trans h.freed.symm
    rwa [taken, taken, nodes, List.perm_append_left_iff] at both
  refine ⟨?_, freed⟩
  have sensors : t'.sensors = t.sensors := by
    rw [h'.sensors_eq hs, h.sensors_eq hs, funext node]
  have pending : t'.pending = t.pending := by
    rw [h'.pending_eq hs, h.pending_eq hs]
    simp only [node]
  rw [h'.rest, h.rest, nodes, spaces, sensors, pending, loader]

end left

end Pruned

end Scene

end SceneGraph
