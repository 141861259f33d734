import SceneGraph.Proofs.Creation
import SceneGraph.Proofs.Writing
import SceneGraph.Scene.Reachability

namespace SceneGraph

namespace Scene

variable {s s' : Scene} {doomed : List Doomed} {guest : Option SpaceId} {sp : SpaceId} {x : Space}
  {id : NodeId} {r : Route}

theorem of_space?_modifySpace {f : Space → Space} {q : SpaceId} {y : Space}
    (hy : (s.modifySpace sp f).space? q = some y) :
    (q = sp ∧ ∃ x, s.space? sp = some x ∧ y = f x) ∨ (q ≠ sp ∧ s.space? q = some y) := by
  rw [space?_modifySpace] at hy
  split at hy
  · next hq =>
    subst hq
    obtain ⟨x, hx, rfl⟩ := Option.map_eq_some_iff.mp hy
    exact .inl ⟨rfl, x, hx, rfl⟩
  · next hq => exact .inr ⟨hq, hy⟩

/-- A change to the roots, the names or the routes of a space. -/
theorem Coherent.rewire (h : s.Coherent doomed guest) {f : Space → Space}
    (hx : s.space? sp = some x) (hl : (f x).links = x.links) (hn : (f x).nodes = x.nodes)
    (hw : s.Wired (f x)) : (s.modifySpace sp f).Coherent doomed guest := by
  have links : SameLinks s (s.modifySpace sp f) := by
    refine SameLinks.modifySpace fun y hy ↦ ?_
    cases hx.symm.trans hy
    exact hl
  have nodes {q y} (hy : (s.modifySpace sp f).space? q = some y) :
      ∃ z, s.space? q = some z ∧ y.nodes = z.nodes := by
    rcases of_space?_modifySpace hy with ⟨rfl, z, hz, rfl⟩ | ⟨-, hy⟩
    · cases hx.symm.trans hz
      exact ⟨x, hx, hn⟩
    · exact ⟨y, hy, rfl⟩
  exact {
    housed := {
      listed := by
        intro id n hid
        apply (h.housed.listed hid).imp_right
        rintro ⟨y, hy, hm⟩
        by_cases hq : n.space = sp
        · rw [hq, hx] at hy
          cases hy
          exact ⟨f x, by rw [hq, space?_modifySpace_self _ _ _ hx], hn ▸ hm⟩
        · exact ⟨y, by rwa [space?_modifySpace_of_ne _ _ _ hq], hm⟩
      lodged := by
        intro q y id hy hid
        obtain ⟨z, hz, he⟩ := nodes hy
        exact h.housed.lodged hz (he ▸ hid)
      evicted := by
        intro q y id hd hy
        obtain ⟨z, hz, he⟩ := nodes hy
        exact he ▸ h.housed.evicted hd hz
      nodup := by
        intro q y hy
        obtain ⟨z, hz, he⟩ := nodes hy
        exact he ▸ h.housed.nodup hz }
    rooted := h.rooted.congr links
    claimed := h.claimed.congr links (issued_modifySpace ..) (fun hn ↦ hn) (fun hn ↦ .inl hn)
    tracked := ⟨h.tracked.nodup, h.tracked.sensor, h.tracked.queued⟩
    wired := by
      intro q y hy
      rcases of_space?_modifySpace hy with ⟨rfl, z, hz, rfl⟩ | ⟨-, hy⟩
      · cases hx.symm.trans hz
        exact hw.congr fun _ _ hr ↦ hr
      · exact (h.wired hy).congr fun _ _ hr ↦ hr
    sound := fun hn ↦ h.sound hn
    catalog := h.catalog }

section Space

theorem Wired.addRoot (h : s.Wired x) (hm : id ∈ x.nodes) (hr : id ∉ x.roots) :
    s.Wired (x.addRoot id) where
  roots k hk := by
    rcases List.mem_append.mp hk with hk | hk
    · exact h.roots k hk
    · exact List.mem_singleton.mp hk ▸ hm
  roots_nodup := nodup_append_singleton h.roots_nodup hr
  names := h.names
  names_nodup := h.names_nodup
  ends := h.ends
  fits := h.fits
  routes_nodup := h.routes_nodup
  departures := h.departures

theorem Wired.removeRoot (h : s.Wired x) (id : NodeId) : s.Wired (x.removeRoot id) where
  roots k hk := h.roots k (List.mem_of_mem_erase hk)
  roots_nodup := h.roots_nodup.erase id
  names := h.names
  names_nodup := h.names_nodup
  ends := h.ends
  fits := h.fits
  routes_nodup := h.routes_nodup
  departures := h.departures

theorem Wired.bind (h : s.Wired x) (hm : id ∈ x.nodes) (name : String) :
    s.Wired (x.bind name id) where
  roots := h.roots
  roots_nodup := h.roots_nodup
  names b hb := by
    rcases List.mem_append.mp hb with hb | hb
    · exact h.names b (List.mem_filter.mp hb).1
    · exact List.mem_singleton.mp hb ▸ hm
  names_nodup := by
    simp only [Space.bind, List.map_append, List.map_singleton]
    apply nodup_append_singleton (h.names_nodup.sublist (List.filter_sublist.map _))
    simp
  ends := h.ends
  fits := h.fits
  routes_nodup := h.routes_nodup
  departures := h.departures

theorem Wired.hasRoute_iff (h : s.Wired x) : x.hasRoute r ↔ r ∈ x.routes := by
  simp [Space.hasRoute, Space.routesFrom, h.departures, Route.leaves]

theorem Wired.addRoute (h : s.Wired x) (hs : r.source ∈ x.nodes) (hd : r.dest ∈ x.nodes)
    (hf : s.Fits r) (hr : r ∉ x.routes) : s.Wired (x.addRoute r) where
  roots := h.roots
  roots_nodup := h.roots_nodup
  names := h.names
  names_nodup := h.names_nodup
  ends q hq := by
    rcases List.mem_append.mp hq with hq | hq
    · exact h.ends q hq
    · rw [List.mem_singleton.mp hq]
      exact ⟨hs, hd⟩
  fits q hq := by
    rcases List.mem_append.mp hq with hq | hq
    · exact h.fits q hq
    · exact List.mem_singleton.mp hq ▸ hf
  routes_nodup := nodup_append_singleton h.routes_nodup hr
  departures id i := by
    simp only [Space.addRoute, h.departures, List.filter_append]
    split <;> simp [*]

theorem Wired.removeRoute (h : s.Wired x) (r : Route) : s.Wired (x.removeRoute r) where
  roots := h.roots
  roots_nodup := h.roots_nodup
  names := h.names
  names_nodup := h.names_nodup
  ends q hq := h.ends q (List.mem_filter.mp hq).1
  fits q hq := h.fits q (List.mem_filter.mp hq).1
  routes_nodup := h.routes_nodup.filter _
  departures id i := by
    simp only [Space.removeRoute, h.departures]
    split
    · rw [List.Nodup.erase_eq_filter (h.routes_nodup.filter _), List.filter_filter,
        List.filter_filter]
      refine List.filter_congr fun q _ ↦ ?_
      by_cases hq : q = r <;> simp [hq]
    · next hr =>
      rw [List.filter_filter]
      refine List.filter_congr fun q _ ↦ ?_
      by_cases hq : q = r
      · simp [hq, hr]
      · simp [hq]

theorem Wired.detach (h : s.Wired x) (id : NodeId) : s.Wired (x.detach id) where
  roots k hk := by
    rw [Space.detach, h.roots_nodup.erase_eq_filter, List.mem_filter] at hk
    exact List.mem_filter.mpr ⟨h.roots k hk.1, by simpa using hk.2⟩
  roots_nodup := h.roots_nodup.erase id
  names b hb := by
    obtain ⟨hb, hid⟩ := List.mem_filter.mp hb
    exact List.mem_filter.mpr ⟨h.names b hb, hid⟩
  names_nodup := h.names_nodup.sublist (List.filter_sublist.map _)
  ends r hr := by
    obtain ⟨hr, ht⟩ := List.mem_filter.mp hr
    simp only [Route.touches, Bool.not_or, Bool.and_eq_true, Bool.not_eq_true',
      decide_eq_false_iff_not] at ht
    obtain ⟨hs, hd⟩ := h.ends r hr
    exact ⟨List.mem_filter.mpr ⟨hs, by simpa using ht.1⟩,
      List.mem_filter.mpr ⟨hd, by simpa using ht.2⟩⟩
  fits r hr := h.fits r (List.mem_filter.mp hr).1
  routes_nodup := h.routes_nodup.filter _
  departures source i := by
    simp only [Space.detach, h.departures, List.filter_filter]
    exact List.filter_congr fun q _ ↦ Bool.and_comm ..

end Space

theorem mem_nodes_detach (h : s.Coherent [] guest) {n : Node} {q : SpaceId} {y : Space}
    (hn : s.node? id = some n)
    (hy : (s.modifySpace n.space (·.detach id)).space? q = some y) :
    ∃ z, s.space? q = some z ∧ ∀ k, k ∈ y.nodes ↔ k ∈ z.nodes ∧ k ≠ id := by
  rcases of_space?_modifySpace hy with ⟨rfl, z, hz, rfl⟩ | ⟨hq, hy'⟩
  · exact ⟨z, hz, fun k ↦ by simp [Space.detach]⟩
  · refine ⟨y, hy', fun k ↦ ⟨fun hk ↦ ⟨hk, ?_⟩, And.left⟩⟩
    rintro rfl
    obtain ⟨m, hm, hs⟩ := h.housed.lodged hy' hk
    cases hn.symm.trans hm
    exact hq hs.symm

theorem Coherent.housed_detach (h : s.Coherent [] guest) {n : Node} (hn : s.node? id = some n) :
    (s.modifySpace n.space (·.detach id)).Housed [.node id] where
  listed := by
    intro k m hk
    by_cases he : k = id
    · exact .inl (by rw [he]; exact List.mem_singleton_self _)
    obtain ⟨y, hy, hm⟩ := h.home hk
    by_cases hq : m.space = n.space
    · refine .inr ⟨y.detach id, ?_, List.mem_filter.mpr ⟨hm, by simpa using he⟩⟩
      rw [hq] at hy ⊢
      exact space?_modifySpace_self _ _ _ hy
    · exact .inr ⟨y, by rwa [space?_modifySpace_of_ne _ _ _ hq], hm⟩
  lodged := by
    intro q y k hy hk
    obtain ⟨z, hz, he⟩ := mem_nodes_detach h hn hy
    exact h.housed.lodged hz ((he k).mp hk).1
  evicted := by
    intro q y k hd hy hk
    obtain ⟨z, hz, he⟩ := mem_nodes_detach h hn hy
    exact ((he k).mp hk).2 (by simpa using hd)
  nodup := by
    intro q y hy
    rcases of_space?_modifySpace hy with ⟨rfl, z, hz, rfl⟩ | ⟨-, hy⟩
    · exact (h.housed.nodup hz).filter _
    · exact h.housed.nodup hy

/-- A node cut off from its space is still in the table, and to be taken down. -/
theorem Coherent.detach (h : s.Coherent [] guest) {n : Node} (hn : s.node? id = some n) :
    (s.modifySpace n.space (·.detach id)).Coherent [.node id] guest := by
  have links : SameLinks s (s.modifySpace n.space (·.detach id)) :=
    SameLinks.modifySpace fun _ _ ↦ rfl
  exact {
    housed := h.housed_detach hn
    rooted := by
      have hr := h.rooted.congr links
      exact ⟨hr.main, fun hx hq ↦ by
        obtain ⟨p, hp, hlt, hd⟩ := hr.below hx hq
        exact ⟨p, hp, hlt, hd.imp_left (by simp)⟩, hr.child, hr.nodup⟩
    claimed := by
      have hc := h.claimed.congr links (issued_modifySpace ..) (fun hn ↦ hn) (fun hn ↦ .inl hn)
      exact ⟨fun hx ho ↦ (hc.owned hx ho).imp_left (by simp), hc.content⟩
    tracked := ⟨h.tracked.nodup, h.tracked.sensor, h.tracked.queued⟩
    wired := by
      intro q y hy
      rcases of_space?_modifySpace hy with ⟨rfl, z, hz, rfl⟩ | ⟨-, hy⟩
      · exact ((h.wired hz).detach id).congr fun _ _ hr ↦ hr
      · exact (h.wired hy).congr fun _ _ hr ↦ hr
    sound := fun hn ↦ h.sound hn
    catalog := h.catalog }

section operations

theorem createNode_eq_ok {typeName : String} {k : NodeId} :
    s.createNode sp typeName = .ok (k, s') ↔ ∃ x type, s.space? sp = some x ∧
      s.catalog.get? typeName = some type ∧ k = s.nextNode ∧ s' = s.addNode sp type := by
  unfold createNode
  simp only [bind_eq_ok, space_eq_ok, Catalog.resolve]
  constructor
  · rintro ⟨x, hx, type, ht, h⟩
    cases hc : s.catalog.get? typeName with
    | none =>
      rw [hc] at ht
      cases ht
    | some t =>
      rw [hc] at ht
      cases ht
      cases h
      exact ⟨x, _, hx, rfl, rfl, rfl⟩
  · rintro ⟨x, type, hx, ht, rfl, rfl⟩
    exact ⟨x, hx, type, by rw [ht], rfl⟩

theorem built_of_get? (h : s.Coherent doomed guest) {name : String} {type : NodeType}
    (ht : s.catalog.get? name = some type) : type.Built :=
  h.catalog type (List.mem_of_find?_eq_some ht)

theorem Coherent.createNode (h : s.Coherent [] guest) {typeName : String} {k : NodeId}
    (hc : s.createNode sp typeName = .ok (k, s')) : s'.Coherent [] guest := by
  obtain ⟨x, type, hx, ht, -, rfl⟩ := createNode_eq_ok.mp hc
  exact h.addNode hx (built_of_get? h ht)

theorem openSpace_eq_ok {kind : SpaceKind} {parent : SpaceId} {owner : Option NodeId}
    {q : SpaceId} : s.openSpace kind parent owner = .ok (q, s') ↔
      ∃ x, s.space? parent = some x ∧ q = s.nextSpace ∧ s' = s.addSpace kind parent owner := by
  unfold openSpace
  simp only [bind_eq_ok, space_eq_ok]
  constructor
  · rintro ⟨x, hx, h⟩
    cases h
    exact ⟨x, hx, rfl, rfl⟩
  · rintro ⟨x, hx, rfl, rfl⟩
    exact ⟨x, hx, rfl⟩

theorem Coherent.createSpace (h : s.Coherent [] guest) {kind : SpaceKind} {parent q : SpaceId}
    (hc : s.createSpace kind parent = .ok (q, s')) : s'.Coherent [] guest := by
  obtain ⟨x, hx, -, rfl⟩ := openSpace_eq_ok.mp hc
  exact h.addSpace hx nofun (.inl rfl)

theorem addRoot_eq_ok {b : Bool} : s.addRoot sp id = .ok (b, s') ↔
    s.hasNode id ∧ ∃ x, s.space? sp = some x ∧ id ∈ x.nodes ∧
      (id ∈ x.roots ∧ b = false ∧ s' = s ∨
        id ∉ x.roots ∧ b = true ∧ s' = s.modifySpace sp (·.addRoot id)) := by
  unfold addRoot
  simp only [bind_eq_ok, node_eq_ok, space_eq_ok, hasNode_iff]
  constructor
  · rintro ⟨n, hn, x, hx, h⟩
    refine ⟨⟨n, hn⟩, x, hx, ?_⟩
    by_cases hm : id ∈ x.nodes
    · simp only [hm, not_true, if_false, true_and] at h ⊢
      split at h
      · next hr =>
        cases h
        exact .inl ⟨hr, rfl, rfl⟩
      · next hr =>
        cases h
        exact .inr ⟨hr, rfl, rfl⟩
    · simp [hm, throw, throwThe, MonadExceptOf.throw, bind, Except.bind] at h
  · rintro ⟨⟨n, hn⟩, x, hx, hm, ⟨hr, rfl, rfl⟩ | ⟨hr, rfl, rfl⟩⟩
    · exact ⟨n, hn, x, hx, by simp [hm, hr, pure, Except.pure]⟩
    · exact ⟨n, hn, x, hx, by simp [hm, hr, pure, Except.pure]⟩

theorem Coherent.addRoot (h : s.Coherent [] guest) {b : Bool}
    (ha : s.addRoot sp id = .ok (b, s')) : s'.Coherent [] guest := by
  obtain ⟨-, x, hx, hm, ⟨-, -, rfl⟩ | ⟨hr, -, rfl⟩⟩ := addRoot_eq_ok.mp ha
  · exact h
  · exact h.rewire hx rfl rfl ((h.wired hx).addRoot hm hr)

theorem Coherent.removeRoot (h : s.Coherent [] guest) {b : Bool}
    (hr : s.removeRoot sp id = .ok (b, s')) : s'.Coherent [] guest := by
  obtain ⟨x, hx, hr⟩ := bind_eq_ok.mp hr
  cases hr
  rw [space_eq_ok] at hx
  exact h.rewire hx rfl rfl ((h.wired hx).removeRoot id)

theorem define_eq_ok {name : String} : s.define sp name id = .ok s' ↔
    ∃ x, s.space? sp = some x ∧ id ∈ x.nodes ∧ s' = s.modifySpace sp (·.bind name id) := by
  unfold define
  simp only [bind_eq_ok, space_eq_ok]
  constructor
  · rintro ⟨x, hx, h⟩
    by_cases hm : id ∈ x.nodes
    · simp only [hm, not_true, if_false] at h
      cases h
      exact ⟨x, hx, hm, rfl⟩
    · simp [hm, throw, throwThe, MonadExceptOf.throw, bind, Except.bind] at h
  · rintro ⟨x, hx, hm, rfl⟩
    exact ⟨x, hx, by simp [hm, pure, Except.pure]⟩

theorem Coherent.define (h : s.Coherent [] guest) {name : String}
    (hd : s.define sp name id = .ok s') : s'.Coherent [] guest := by
  obtain ⟨x, hx, hm, rfl⟩ := define_eq_ok.mp hd
  exact h.rewire hx rfl rfl ((h.wired hx).bind hm name)

theorem fits_of_checkRoute (hx : s.space? sp = some x) (h : s.checkRoute sp r = .ok ()) :
    r.source ∈ x.nodes ∧ r.dest ∈ x.nodes ∧ s.Fits r := by
  unfold checkRoute at h
  obtain ⟨n, hn, h⟩ := bind_eq_ok.mp h
  obtain ⟨m, hm, h⟩ := bind_eq_ok.mp h
  rw [node_eq_ok] at hn hm
  simp only [isMember, members, hx, Option.map_some, Option.getD_some] at h
  split at h
  · cases h
  next hmem =>
  simp only [Bool.or_eq_true, Bool.not_eq_true', decide_eq_false_iff_not, not_or,
    Decidable.not_not] at hmem
  refine ⟨hmem.1, hmem.2, ?_⟩
  cases ha : n.type.table.get? r.sourceField with
  | none =>
    rw [ha] at h
    cases h
  | some a =>
    cases hb : m.type.table.get? r.destField with
    | none =>
      rw [ha, hb] at h
      cases h
    | some b =>
      rw [ha, hb] at h
      simp only [pure, Except.pure, bind, Except.bind] at h
      refine ⟨n, m, a, b, hn, hm, ha, hb, ?_⟩
      by_cases hread : a.access.isReadable
      · by_cases hwrite : b.access.isWritable
        · by_cases ht : a.type = b.type
          · exact ⟨hread, hwrite, ht⟩
          · simp [hread, hwrite, ht, throw, throwThe, MonadExceptOf.throw] at h
        · simp [hread, hwrite, throw, throwThe, MonadExceptOf.throw] at h
      · simp [hread, throw, throwThe, MonadExceptOf.throw] at h

theorem Coherent.addRouteIn (h : s.Coherent [] guest) {b : Bool}
    (ha : s.addRouteIn sp r = .ok (b, s')) : s'.Coherent [] guest := by
  unfold Scene.addRouteIn at ha
  obtain ⟨x, hx, ha⟩ := bind_eq_ok.mp ha
  obtain ⟨⟨⟩, hc, ha⟩ := bind_eq_ok.mp ha
  rw [space_eq_ok] at hx
  split at ha
  · cases ha
    exact h
  · next hr =>
    cases ha
    obtain ⟨hs, hd, hf⟩ := fits_of_checkRoute hx hc
    exact h.rewire hx rfl rfl ((h.wired hx).addRoute hs hd hf
      fun hm ↦ hr ((h.wired hx).hasRoute_iff.mpr hm))

theorem Coherent.addRoute (h : s.Coherent [] guest) {b : Bool}
    (ha : s.addRoute r = .ok (b, s')) : s'.Coherent [] guest := by
  obtain ⟨n, -, ha⟩ := bind_eq_ok.mp ha
  exact h.addRouteIn ha

theorem Coherent.addStatement (h : s.Coherent [] guest) {statement : Statement} {b : Bool}
    (ha : s.addStatement sp statement = .ok (b, s')) : s'.Coherent [] guest := by
  obtain ⟨r, -, ha⟩ := bind_eq_ok.mp ha
  exact h.addRouteIn ha

theorem Coherent.removeRoute (h : s.Coherent [] guest) (r : Route) :
    (s.removeRoute r).2.Coherent [] guest := by
  unfold Scene.removeRoute
  split
  · exact h
  next q x he =>
  obtain ⟨n, -, he⟩ := Option.bind_eq_some_iff.mp he
  obtain ⟨y, hy, he⟩ := Option.map_eq_some_iff.mp he
  cases he
  split
  · exact h.rewire hy rfl rfl ((h.wired hy).removeRoute r)
  · exact h

theorem Coherent.log (h : s.Coherent doomed guest) (js : List Entry) :
    (s.log js).Coherent doomed guest :=
  h.congr rfl rfl rfl rfl fun _ hp ↦ hp

theorem Coherent.checkChanged (h : s.Coherent [] guest) {index : Nat} {b : Bool}
    (hc : s.checkChanged id index = .ok (b, s')) : s'.Coherent [] guest := by
  obtain ⟨n, -, hc⟩ := bind_eq_ok.mp hc
  cases hc
  refine h.modifyNode fun n hn ↦ ⟨rfl, rfl, rfl, ?_⟩
  have hs := h.sound hn
  exact ⟨hs.built, hs.values, by simpa using hs.flags, hs.slot, hs.content⟩

theorem removeNode_eq_ok : s.removeNode id = .ok s' ↔ ∃ n, s.node? id = some n ∧
    s' = (s.modifySpace n.space (·.detach id)).demolish [.node id] := by
  unfold removeNode
  simp only [bind_eq_ok, node_eq_ok]
  refine exists_congr fun n ↦ and_congr_right fun _ ↦ ?_
  simp [pure, Except.pure, eq_comm]

theorem Coherent.removeNode (h : s.Coherent [] guest) (hr : s.removeNode id = .ok s') :
    s'.Coherent [] guest := by
  obtain ⟨n, hn, rfl⟩ := removeNode_eq_ok.mp hr
  exact (h.detach hn).demolish

theorem Coherent.removeSpace (h : s.Coherent [] guest) (hr : s.removeSpace sp = .ok s') :
    s'.Coherent [] guest := by
  unfold Scene.removeSpace at hr
  split at hr
  · cases hr
  obtain ⟨x, -, hr⟩ := bind_eq_ok.mp hr
  cases hr
  exact (h.doom sp).demolish

theorem Coherent.removeNodes (h : s.Coherent [] guest) {ids : List NodeId}
    (hr : ids.foldlM Scene.removeNode s = .ok s') : s'.Coherent [] guest := by
  induction ids generalizing s with
  | nil =>
    cases hr
    exact h
  | cons id ids ih =>
    obtain ⟨t, ht, hr⟩ := bind_eq_ok.mp hr
    exact ih (h.removeNode ht) hr

theorem Coherent.collect (h : s.Coherent [] guest) {ids : List NodeId}
    (hc : s.collect sp = .ok (ids, s')) : s'.Coherent [] guest := by
  unfold Scene.collect at hc
  obtain ⟨x, -, hc⟩ := bind_eq_ok.mp hc
  obtain ⟨t, ht, hc⟩ := bind_eq_ok.mp hc
  cases hc
  exact h.removeNodes ht

end operations

end Scene

end SceneGraph
