import SceneGraph.Proofs.Lookup
import SceneGraph.Proofs.Typing

/-!
What holds of a scene between operations, but for what is on the way to be taken down.

The tables of nodes and of spaces refer to each other, to the sensors and to the queued changes.
`Coherent` says that all these references agree. While spaces and nodes are being destroyed some
of them are broken; the `doomed` items are those that may be. A `guest` is a space whose owner does
not know of it yet.
-/

namespace SceneGraph

namespace Scene

/-- Nodes and spaces agree on who lives where. -/
structure Housed (doomed : List Doomed) (s : Scene) : Prop where
  listed : ∀ {id n}, s.node? id = some n →
    .node id ∈ doomed ∨ ∃ x, s.space? n.space = some x ∧ id ∈ x.nodes
  lodged : ∀ {sp x id}, s.space? sp = some x → id ∈ x.nodes →
    ∃ n, s.node? id = some n ∧ n.space = sp
  evicted : ∀ {sp x id}, .node id ∈ doomed → s.space? sp = some x → id ∉ x.nodes
  nodup : ∀ {sp x}, s.space? sp = some x → x.nodes.Nodup

/-- The spaces form a tree below the main one. Parents are older than their children. -/
structure Rooted (doomed : List Doomed) (s : Scene) : Prop where
  main : ∃ x, s.space? .main = some x ∧ x.parent = none ∧ x.owner = none
  below : ∀ {sp x}, s.space? sp = some x → sp ≠ .main →
    ∃ p, x.parent = some p ∧ p.number < sp.number ∧
      (.space sp ∈ doomed ∨ ∃ y, s.space? p = some y ∧ sp ∈ y.children)
  child : ∀ {sp x c}, s.space? sp = some x → c ∈ x.children →
    ∃ y, s.space? c = some y ∧ y.parent = some sp
  nodup : ∀ {sp x}, s.space? sp = some x → x.children.Nodup

/-- Spaces with an owner and nodes with content agree on who owns what. -/
structure Claimed (doomed : List Doomed) (guest : Option SpaceId) (s : Scene) : Prop where
  owned : ∀ {sp x o}, s.space? sp = some x → x.owner = some o →
    .space sp ∈ doomed ∨ guest = some sp ∨
      ∃ n, s.node? o = some n ∧ x.parent = some n.space ∧ n.contentSpace? = some sp
  content : ∀ {id n sp}, s.node? id = some n → n.contentSpace? = some sp →
    sp.number < s.spaces.issued ∧
      ∀ x, s.space? sp = some x → x.kind = .inline ∧ x.owner = some id ∧ x.parent = some n.space

/-- The sensors are listed, and only changes of live nodes are queued. -/
structure Tracked (s : Scene) : Prop where
  nodup : s.sensors.Nodup
  sensor : ∀ {id}, id ∈ s.sensors ↔ ∃ n, s.node? id = some n ∧ n.type.has .sensor
  queued : ∀ {id i}, (id, i) ∈ s.pending → ∃ n, s.node? id = some n ∧ i < n.type.table.size

/-- A route leads from a readable to a writable field of the same type. -/
def Fits (s : Scene) (r : Route) : Prop :=
  ∃ n m a b, s.node? r.source = some n ∧ s.node? r.dest = some m ∧
    n.type.table.get? r.sourceField = some a ∧ m.type.table.get? r.destField = some b ∧
    a.access.isReadable ∧ b.access.isWritable ∧ a.type = b.type

/-- Roots, names and routes of a space are about its own nodes, and the routes are found again by
the field they leave. -/
structure Wired (s : Scene) (x : Space) : Prop where
  roots : ∀ id ∈ x.roots, id ∈ x.nodes
  roots_nodup : x.roots.Nodup
  names : ∀ b ∈ x.names, b.2 ∈ x.nodes
  names_nodup : (x.names.map Prod.fst).Nodup
  ends : ∀ r ∈ x.routes, r.source ∈ x.nodes ∧ r.dest ∈ x.nodes
  fits : ∀ r ∈ x.routes, s.Fits r
  routes_nodup : x.routes.Nodup
  departures : ∀ id i, x.departures id i = x.routes.filter fun r => r.leaves id i

structure Coherent (doomed : List Doomed) (guest : Option SpaceId) (s : Scene) : Prop where
  housed : s.Housed doomed
  rooted : s.Rooted doomed
  claimed : s.Claimed doomed guest
  tracked : s.Tracked
  wired : ∀ {sp x}, s.space? sp = some x → s.Wired x
  sound : ∀ {id n}, s.node? id = some n → n.Sound
  catalog : ∀ t ∈ s.catalog.types, t.Built

/-- The scenes have the same spaces and sensors, and the same nodes in them: at most the fields of
the nodes and their slots differ. -/
structure SameFrame (s s' : Scene) : Prop where
  node : ∀ id, (s'.node? id).map (fun n ↦ (n.type, n.space)) =
    (s.node? id).map fun n ↦ (n.type, n.space)
  space : ∀ sp, s'.space? sp = s.space? sp
  issued : s'.spaces.issued = s.spaces.issued
  sensors : s'.sensors = s.sensors
  catalog : s'.catalog = s.catalog

variable {s s' s'' : Scene} {doomed : List Doomed} {guest : Option SpaceId}

namespace SameFrame

theorem symm (h : SameFrame s s') : SameFrame s' s where
  node id := (h.node id).symm
  space sp := (h.space sp).symm
  issued := h.issued.symm
  sensors := h.sensors.symm
  catalog := h.catalog.symm

theorem trans (h : SameFrame s s') (h' : SameFrame s' s'') : SameFrame s s'' where
  node id := (h'.node id).trans (h.node id)
  space sp := (h'.space sp).trans (h.space sp)
  issued := h'.issued.trans h.issued
  sensors := h'.sensors.trans h.sensors
  catalog := h'.catalog.trans h.catalog

theorem exists_node (h : SameFrame s s') {id : NodeId} {n : Node} (hn : s.node? id = some n) :
    ∃ m, s'.node? id = some m ∧ m.type = n.type ∧ m.space = n.space := by
  have hm := h.node id
  rw [hn] at hm
  obtain ⟨m, hm, he⟩ := Option.map_eq_some_iff.mp hm
  simp only [Prod.mk.injEq] at he
  exact ⟨m, hm, he⟩

theorem modifyNode (id : NodeId) (f : Node → Node)
    (h : ∀ n, s.node? id = some n → (f n).type = n.type ∧ (f n).space = n.space) :
    SameFrame s (s.modifyNode id f) where
  node k := by
    rw [node?_modifyNode]
    split
    · next hk =>
      subst hk
      cases hn : s.node? k with
      | none => rfl
      | some n =>
        obtain ⟨ht, hs⟩ := h n hn
        simp [ht, hs]
    · rfl
  space sp := space?_modifyNode s id f sp
  issued := by rw [spaces_modifyNode]
  sensors := sensors_modifyNode s id f
  catalog := catalog_modifyNode s id f

theorem of_tables (nodes : s'.nodes = s.nodes) (spaces : s'.spaces = s.spaces)
    (sensors : s'.sensors = s.sensors) (catalog : s'.catalog = s.catalog) : SameFrame s s' where
  node id := by rw [node?_congr nodes]
  space := space?_congr spaces
  issued := by rw [spaces]
  sensors := sensors
  catalog := catalog

end SameFrame

theorem Fits.frame (h : SameFrame s s') {r : Route} (hr : s.Fits r) : s'.Fits r := by
  obtain ⟨n, m, a, b, hn, hm, ha, hb, hw⟩ := hr
  obtain ⟨n', hn', ht, -⟩ := h.exists_node hn
  obtain ⟨m', hm', ht', -⟩ := h.exists_node hm
  exact ⟨n', m', a, b, hn', hm', ht ▸ ha, ht' ▸ hb, hw⟩

theorem Wired.congr {x : Space} (h : s.Wired x) (hf : ∀ r ∈ x.routes, s.Fits r → s'.Fits r) :
    s'.Wired x where
  roots := h.roots
  roots_nodup := h.roots_nodup
  names := h.names
  names_nodup := h.names_nodup
  ends := h.ends
  fits r hr := hf r hr (h.fits r hr)
  routes_nodup := h.routes_nodup
  departures := h.departures

/-- Owners are not affected while the spaces of their contents are the same. -/
theorem Claimed.frame (h : s.Claimed doomed guest) (hf : SameFrame s s')
    (content : ∀ {id n m}, s.node? id = some n → s'.node? id = some m →
      m.contentSpace? = n.contentSpace?) : s'.Claimed doomed guest where
  owned := by
    intro sp x o hx ho
    rcases h.owned (hf.space sp ▸ hx) ho with hd | hg | ⟨n, hn, hp, hc⟩
    · exact .inl hd
    · exact .inr (.inl hg)
    · obtain ⟨m, hm, -, hs⟩ := hf.exists_node hn
      exact .inr (.inr ⟨m, hm, hs ▸ hp, (content hn hm).trans hc⟩)
  content := by
    intro id m sp hm hc
    obtain ⟨n, hn, -, hs⟩ := hf.symm.exists_node hm
    obtain ⟨hlt, hx⟩ := h.content hn ((content hn hm).symm.trans hc)
    refine ⟨hf.issued ▸ hlt, fun x hx' ↦ ?_⟩
    rw [← hs]
    exact hx x (hf.space sp ▸ hx')

/-- What is queued, what the nodes hold and who owns what has to be seen to; the rest of a coherent
scene depends on its frame alone. -/
theorem Coherent.frame {guest' : Option SpaceId} (h : s.Coherent doomed guest)
    (hf : SameFrame s s') (claimed : s'.Claimed doomed guest')
    (queued : ∀ {id i}, (id, i) ∈ s'.pending → ∃ n, s'.node? id = some n ∧ i < n.type.table.size)
    (sound : ∀ {id n}, s'.node? id = some n → n.Sound) : s'.Coherent doomed guest' where
  housed := {
    listed := by
      intro id n hn
      obtain ⟨m, hm, -, hsp⟩ := hf.symm.exists_node hn
      rw [← hsp, hf.space]
      exact h.housed.listed hm
    lodged := by
      intro sp x id hx hid
      obtain ⟨m, hm, hsp⟩ := h.housed.lodged (hf.space sp ▸ hx) hid
      obtain ⟨n, hn, -, he⟩ := hf.exists_node hm
      exact ⟨n, hn, he.trans hsp⟩
    evicted := fun hd hx ↦ h.housed.evicted hd (hf.space _ ▸ hx)
    nodup := fun hx ↦ h.housed.nodup (hf.space _ ▸ hx) }
  rooted := {
    main := by
      obtain ⟨x, hx, hp⟩ := h.rooted.main
      exact ⟨x, (hf.space _).trans hx, hp⟩
    below := by
      intro sp x hx hsp
      obtain ⟨p, hp, hlt, hd⟩ := h.rooted.below (hf.space sp ▸ hx) hsp
      refine ⟨p, hp, hlt, hd.imp_right ?_⟩
      rintro ⟨y, hy, hc⟩
      exact ⟨y, (hf.space p).trans hy, hc⟩
    child := by
      intro sp x c hx hc
      obtain ⟨y, hy, hp⟩ := h.rooted.child (hf.space sp ▸ hx) hc
      exact ⟨y, (hf.space c).trans hy, hp⟩
    nodup := fun hx ↦ h.rooted.nodup (hf.space _ ▸ hx) }
  claimed := claimed
  tracked := {
    nodup := hf.sensors ▸ h.tracked.nodup
    sensor := by
      intro id
      rw [hf.sensors, h.tracked.sensor]
      constructor
      · rintro ⟨n, hn, ht⟩
        obtain ⟨m, hm, he, -⟩ := hf.exists_node hn
        exact ⟨m, hm, he ▸ ht⟩
      · rintro ⟨n, hn, ht⟩
        obtain ⟨m, hm, he, -⟩ := hf.symm.exists_node hn
        exact ⟨m, hm, he ▸ ht⟩
    queued := queued }
  wired := fun hx ↦ (h.wired (hf.space _ ▸ hx)).congr fun _ _ hr ↦ hr.frame hf
  sound := sound
  catalog := hf.catalog ▸ h.catalog

theorem Coherent.requeue (h : s.Coherent doomed guest) (nodes : s'.nodes = s.nodes)
    (spaces : s'.spaces = s.spaces) (sensors : s'.sensors = s.sensors)
    (catalog : s'.catalog = s.catalog)
    (queued : ∀ {id i}, (id, i) ∈ s'.pending →
      ∃ n, s.node? id = some n ∧ i < n.type.table.size) : s'.Coherent doomed guest := by
  have hf : SameFrame s s' := .of_tables nodes spaces sensors catalog
  refine h.frame hf (h.claimed.frame hf fun hn hm ↦ ?_) (fun hp ↦ ?_)
    (fun hn ↦ h.sound (node?_congr nodes _ ▸ hn))
  · rw [node?_congr nodes, hn] at hm
    cases hm
    rfl
  · rw [node?_congr nodes]
    exact queued hp

theorem Coherent.congr (h : s.Coherent doomed guest) (nodes : s'.nodes = s.nodes)
    (spaces : s'.spaces = s.spaces) (sensors : s'.sensors = s.sensors)
    (catalog : s'.catalog = s.catalog) (pending : ∀ p ∈ s'.pending, p ∈ s.pending) :
    s'.Coherent doomed guest :=
  h.requeue nodes spaces sensors catalog fun hp ↦ h.tracked.queued (pending _ hp)

/-- A change to one node that keeps its type, its space and the space of its content. -/
theorem Coherent.modifyNode (h : s.Coherent doomed guest) {id : NodeId} {f : Node → Node}
    (hf : ∀ n, s.node? id = some n → (f n).type = n.type ∧ (f n).space = n.space ∧
      (f n).contentSpace? = n.contentSpace? ∧ (f n).Sound) :
    (s.modifyNode id f).Coherent doomed guest := by
  have frame : SameFrame s (s.modifyNode id f) :=
    .modifyNode id f fun n hn ↦ ⟨(hf n hn).1, (hf n hn).2.1⟩
  have new {k m} (hm : (s.modifyNode id f).node? k = some m) :
      (k = id ∧ ∃ n, s.node? id = some n ∧ m = f n) ∨ s.node? k = some m := by
    by_cases hk : k = id
    · subst hk
      rw [node?_modifyNode, if_pos rfl] at hm
      obtain ⟨n, hn, rfl⟩ := Option.map_eq_some_iff.mp hm
      exact .inl ⟨rfl, n, hn, rfl⟩
    · exact .inr (by rwa [node?_modifyNode_of_ne _ _ _ hk] at hm)
  refine h.frame frame (h.claimed.frame frame fun hn hm ↦ ?_) (fun hp ↦ ?_) fun hm ↦ ?_
  · rcases new hm with ⟨rfl, n', hn', rfl⟩ | hm
    · cases hn.symm.trans hn'
      exact (hf _ hn').2.2.1
    · cases hn.symm.trans hm
      rfl
  · obtain ⟨n, hn, hi⟩ := h.tracked.queued (pending_modifyNode s id f ▸ hp)
    obtain ⟨m, hm, ht, -⟩ := frame.exists_node hn
    exact ⟨m, hm, ht ▸ hi⟩
  · rcases new hm with ⟨rfl, n, hn, rfl⟩ | hm
    · exact (hf n hn).2.2.2
    · exact h.sound hm

/-- The second scene differs from the first in one node, which is `n'` now: its fields and its slot
may have changed. -/
structure Retouched (id : NodeId) (n' : Node) (s s' : Scene) : Prop where
  self : s'.node? id = some n'
  other : ∀ {k}, k ≠ id → s'.node? k = s.node? k
  frame : SameFrame s s'
  pending : s'.pending = s.pending

theorem Coherent.retouch {guest' : Option SpaceId} {id : NodeId} {n' : Node}
    (h : s.Coherent doomed guest) (hr : Retouched id n' s s') (claimed : s'.Claimed doomed guest')
    (sound : n'.Sound) : s'.Coherent doomed guest' := by
  refine h.frame hr.frame claimed (fun hp ↦ ?_) fun {k m} hm ↦ ?_
  · obtain ⟨m, hm, hi⟩ := h.tracked.queued (hr.pending ▸ hp)
    obtain ⟨m', hm', ht, -⟩ := hr.frame.exists_node hm
    exact ⟨m', hm', ht ▸ hi⟩
  · by_cases hk : k = id
    · subst hk
      cases hr.self.symm.trans hm
      exact sound
    · exact h.sound (hr.other hk ▸ hm)

/-- A node that has let go of its content leaves the space of the content to be taken down. -/
theorem Claimed.release {id : NodeId} {n n' : Node} (h : s.Claimed [] guest)
    (hn : s.node? id = some n) (hr : Retouched id n' s s') (empty : n'.contentSpace? = none) :
    s'.Claimed (n.contentSpace?.toList.map .space) guest where
  owned := by
    intro q x o hx ho
    rcases h.owned (hr.frame.space q ▸ hx) ho with hd | hg | ⟨m, hm, hp, hc⟩
    · cases hd
    · exact .inr (.inl hg)
    · by_cases ho : o = id
      · subst ho
        cases hn.symm.trans hm
        exact .inl (by simp [hc])
      · exact .inr (.inr ⟨m, (hr.other ho).trans hm, hp, hc⟩)
  content := by
    intro k m q hm hc
    have hk : k ≠ id := by
      rintro rfl
      cases hr.self.symm.trans hm
      rw [empty] at hc
      cases hc
    rw [hr.frame.issued, hr.frame.space]
    exact h.content (hr.other hk ▸ hm) hc

/-- A node without content takes in the guest that was made for it. -/
theorem Claimed.takeIn {id : NodeId} {n n' : Node} {sp : SpaceId} {x : Space}
    (h : s.Claimed [] (some sp)) (hn : s.node? id = some n) (empty : n.contentSpace? = none)
    (hr : Retouched id n' s s') (full : n'.contentSpace? = some sp) (hs : n'.space = n.space)
    (hx : s.space? sp = some x) (hk : x.kind = .inline) (ho : x.owner = some id)
    (hp : x.parent = some n.space) : s'.Claimed [] none where
  owned := by
    intro q y o hy hyo
    rcases h.owned (hr.frame.space q ▸ hy) hyo with hd | hg | ⟨m, hm, hmp, hmc⟩
    · cases hd
    · cases hg
      rw [hr.frame.space, hx] at hy
      cases hy
      rw [ho] at hyo
      cases hyo
      exact .inr (.inr ⟨n', hr.self, hs ▸ hp, full⟩)
    · by_cases hoi : o = id
      · subst hoi
        cases hn.symm.trans hm
        rw [empty] at hmc
        cases hmc
      · exact .inr (.inr ⟨m, (hr.other hoi).trans hm, hmp, hmc⟩)
  content := by
    intro k m q hm hmc
    rw [hr.frame.issued, hr.frame.space]
    by_cases hki : k = id
    · subst hki
      cases hr.self.symm.trans hm
      cases full.symm.trans hmc
      refine ⟨number_lt_of_space? hx, fun y hy ↦ ?_⟩
      cases hx.symm.trans hy
      exact ⟨hk, ho, hs ▸ hp⟩
    · exact h.content (hr.other hki ▸ hm) hmc

theorem Coherent.doom (h : s.Coherent doomed guest) (sp : SpaceId) :
    s.Coherent (.space sp :: doomed) guest where
  housed := {
    listed := fun hn ↦ (h.housed.listed hn).imp_left (List.mem_cons_of_mem _)
    lodged := h.housed.lodged
    evicted := fun hd ↦ h.housed.evicted (by simpa using hd)
    nodup := h.housed.nodup }
  rooted := {
    main := h.rooted.main
    below := by
      intro q x hx hq
      obtain ⟨p, hp, hlt, hd⟩ := h.rooted.below hx hq
      exact ⟨p, hp, hlt, hd.imp_left (List.mem_cons_of_mem _)⟩
    child := h.rooted.child
    nodup := h.rooted.nodup }
  claimed := {
    owned := fun hx ho ↦ (h.claimed.owned hx ho).imp_left (List.mem_cons_of_mem _)
    content := h.claimed.content }
  tracked := h.tracked
  wired := h.wired
  sound := h.sound
  catalog := h.catalog

/-- Nodes of a space are live, nodes of different spaces differ. -/
theorem Coherent.home (h : s.Coherent [] guest) {id : NodeId} {n : Node}
    (hn : s.node? id = some n) : ∃ x, s.space? n.space = some x ∧ id ∈ x.nodes :=
  (h.housed.listed hn).resolve_left (List.not_mem_nil)

end Scene

end SceneGraph
