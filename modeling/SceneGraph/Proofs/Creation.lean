import SceneGraph.Proofs.Coherence

namespace SceneGraph

/-- How a space is tied to other spaces and to its owner. -/
def Space.links (x : Space) : SpaceKind × Option SpaceId × Option NodeId × List SpaceId :=
  (x.kind, x.parent, x.owner, x.children)

theorem Space.links_eq_iff {x y : Space} : y.links = x.links ↔
    y.kind = x.kind ∧ y.parent = x.parent ∧ y.owner = x.owner ∧ y.children = x.children := by
  simp [Space.links]

namespace Scene

variable {s s' : Scene} {doomed : List Doomed} {guest : Option SpaceId} {sp : SpaceId} {x : Space}

/-- The scenes have the same spaces with the same ties. -/
def SameLinks (s s' : Scene) : Prop :=
  ∀ q, (s'.space? q).map Space.links = (s.space? q).map Space.links

theorem SameLinks.symm (h : SameLinks s s') : SameLinks s' s := fun q ↦ (h q).symm

theorem SameLinks.exists_space (h : SameLinks s s') {q : SpaceId} {x : Space}
    (hx : s.space? q = some x) : ∃ y, s'.space? q = some y ∧
      y.kind = x.kind ∧ y.parent = x.parent ∧ y.owner = x.owner ∧ y.children = x.children := by
  have hq := h q
  rw [hx] at hq
  obtain ⟨y, hy, he⟩ := Option.map_eq_some_iff.mp hq
  exact ⟨y, hy, Space.links_eq_iff.mp he⟩

theorem SameLinks.modifySpace {f : Space → Space}
    (hf : ∀ x, s.space? sp = some x → (f x).links = x.links) :
    SameLinks s (s.modifySpace sp f) := by
  intro q
  rw [space?_modifySpace]
  split
  · next hq =>
    subst hq
    cases hx : s.space? q with
    | none => rfl
    | some x => exact congrArg some (hf x hx)
  · rfl

theorem Rooted.congr (h : s.Rooted doomed) (hl : SameLinks s s') : s'.Rooted doomed where
  main := by
    obtain ⟨x, hx, hp, ho⟩ := h.main
    obtain ⟨y, hy, -, hp', ho', -⟩ := hl.exists_space hx
    exact ⟨y, hy, hp'.trans hp, ho'.trans ho⟩
  below := by
    intro q y hy hq
    obtain ⟨x, hx, -, hp', -⟩ := hl.symm.exists_space hy
    obtain ⟨p, hp, hlt, hd⟩ := h.below hx hq
    refine ⟨p, hp' ▸ hp, hlt, hd.imp_right ?_⟩
    rintro ⟨z, hz, hc⟩
    obtain ⟨w, hw, -, -, -, hc'⟩ := hl.exists_space hz
    exact ⟨w, hw, hc' ▸ hc⟩
  child := by
    intro q y c hy hc
    obtain ⟨x, hx, -, -, -, hc'⟩ := hl.symm.exists_space hy
    obtain ⟨z, hz, hp⟩ := h.child hx (hc' ▸ hc)
    obtain ⟨w, hw, -, hp', -⟩ := hl.exists_space hz
    exact ⟨w, hw, hp'.trans hp⟩
  nodup := by
    intro q y hy
    obtain ⟨x, hx, -, -, -, hc'⟩ := hl.symm.exists_space hy
    rw [← hc']
    exact h.nodup hx

/-- New nodes own nothing yet. -/
theorem Claimed.congr (h : s.Claimed doomed guest) (hl : SameLinks s s')
    (hi : s'.spaces.issued = s.spaces.issued)
    (old : ∀ {id n}, s.node? id = some n → s'.node? id = some n)
    (new : ∀ {id n}, s'.node? id = some n → s.node? id = some n ∨ n.contentSpace? = none) :
    s'.Claimed doomed guest where
  owned := by
    intro q y o hy ho
    obtain ⟨x, hx, -, hp', ho', -⟩ := hl.symm.exists_space hy
    rw [← hp']
    rcases h.owned hx (ho'.trans ho) with hd | hg | ⟨n, hn, hp, hc⟩
    · exact .inl hd
    · exact .inr (.inl hg)
    · exact .inr (.inr ⟨n, old hn, hp, hc⟩)
  content := by
    intro id n q hn hc
    rcases new hn with hn | hno
    · obtain ⟨hlt, hx⟩ := h.content hn hc
      refine ⟨hi ▸ hlt, fun y hy ↦ ?_⟩
      obtain ⟨x, hx', hk, hp', ho', -⟩ := hl.symm.exists_space hy
      rw [← hk, ← hp', ← ho']
      exact hx x hx'
    · rw [hc] at hno
      cases hno

section addNode

variable {type : NodeType}

theorem node?_addNode_of_some {id : NodeId} {n : Node} (hn : s.node? id = some n) :
    (s.addNode sp type).node? id = some n := by
  rw [node?_addNode, if_neg, hn]
  rintro rfl
  rw [node?_nextNode] at hn
  cases hn

theorem of_node?_addNode {id : NodeId} {n : Node} (hn : (s.addNode sp type).node? id = some n) :
    (id = s.nextNode ∧ n = .new type sp s.nextPlace) ∨ s.node? id = some n := by
  rw [node?_addNode] at hn
  split at hn
  · next hid => exact .inl ⟨hid, (Option.some.inj hn).symm⟩
  · exact .inr hn

theorem of_space?_addNode {q : SpaceId} {y : Space}
    (hy : (s.addNode sp type).space? q = some y) : ∃ x, s.space? q = some x ∧
      y = { x with nodes := if q = sp then x.nodes ++ [s.nextNode] else x.nodes } := by
  rw [space?_addNode] at hy
  split at hy
  · obtain ⟨x, hx, rfl⟩ := Option.map_eq_some_iff.mp hy
    exact ⟨x, hx, by rw [if_pos ‹_›]; rfl⟩
  · exact ⟨y, hy, by rw [if_neg ‹_›]⟩

theorem space?_addNode_of_some {q : SpaceId} (hx : s.space? q = some x) :
    (s.addNode sp type).space? q = some
      { x with nodes := if q = sp then x.nodes ++ [s.nextNode] else x.nodes } := by
  rw [space?_addNode]
  split
  · rw [hx]
    rfl
  · exact hx

theorem sameLinks_addNode : SameLinks s (s.addNode sp type) :=
  SameLinks.modifySpace fun _ _ ↦ rfl

theorem Housed.nextNode_not_mem (h : s.Housed doomed) {q : SpaceId}
    (hx : s.space? q = some x) : s.nextNode ∉ x.nodes := by
  intro hm
  obtain ⟨n, hn, -⟩ := h.lodged hx hm
  rw [node?_nextNode] at hn
  cases hn

theorem Housed.addNode (h : s.Housed []) (hx : s.space? sp = some x) :
    (s.addNode sp type).Housed [] := by
  have old {q : SpaceId} {y : Space} {id : NodeId} (hy : s.space? q = some y)
      (hid : id ∈ y.nodes) : ∃ n, (s.addNode sp type).node? id = some n ∧ n.space = q := by
    obtain ⟨n, hn, hs⟩ := h.lodged hy hid
    exact ⟨n, node?_addNode_of_some hn, hs⟩
  constructor
  · intro id n hn
    rcases of_node?_addNode hn with ⟨rfl, rfl⟩ | hn
    · exact .inr ⟨_, space?_addNode_of_some hx, by simp [Node.new]⟩
    · obtain ⟨y, hy, hid⟩ := (h.listed hn).resolve_left List.not_mem_nil
      refine .inr ⟨_, space?_addNode_of_some hy, ?_⟩
      dsimp only
      split
      · exact List.mem_append_left _ hid
      · exact hid
  · intro q y id hy hid
    obtain ⟨z, hz, rfl⟩ := of_space?_addNode hy
    dsimp only at hid
    split at hid
    · next hq =>
      rcases List.mem_append.mp hid with hid | hid
      · exact old hz hid
      · rw [List.mem_singleton.mp hid, node?_addNode, if_pos rfl]
        exact ⟨_, rfl, hq.symm⟩
    · exact old hz hid
  · exact fun hd ↦ absurd hd List.not_mem_nil
  · intro q y hy
    obtain ⟨z, hz, rfl⟩ := of_space?_addNode hy
    dsimp only
    split
    · exact nodup_append_singleton (h.nodup hz) (h.nextNode_not_mem hz)
    · exact h.nodup hz

theorem mem_sensors_addNode {id : NodeId} : id ∈ (s.addNode sp type).sensors ↔
    id ∈ s.sensors ∨ (id = s.nextNode ∧ type.has .sensor) := by
  rw [sensors_addNode]
  by_cases ht : type.has .sensor <;> simp [ht]

theorem Tracked.addNode (h : s.Tracked) : (s.addNode sp type).Tracked := by
  constructor
  · rw [sensors_addNode]
    split
    · refine nodup_append_singleton h.nodup fun hs ↦ ?_
      obtain ⟨n, hn, -⟩ := h.sensor.mp hs
      rw [node?_nextNode] at hn
      cases hn
    · exact h.nodup
  · intro id
    rw [mem_sensors_addNode, h.sensor]
    constructor
    · rintro (⟨n, hn, ht⟩ | ⟨rfl, ht⟩)
      · exact ⟨n, node?_addNode_of_some hn, ht⟩
      · exact ⟨_, by rw [node?_addNode, if_pos rfl], ht⟩
    · rintro ⟨n, hn, ht⟩
      rcases of_node?_addNode hn with ⟨rfl, rfl⟩ | hn
      · exact .inr ⟨rfl, ht⟩
      · exact .inl ⟨n, hn, ht⟩
  · intro id i hp
    obtain ⟨n, hn, hi⟩ := h.queued hp
    exact ⟨n, node?_addNode_of_some hn, hi⟩

theorem Fits.addNode {r : Route} (h : s.Fits r) : (s.addNode sp type).Fits r := by
  obtain ⟨n, m, a, b, hn, hm, hf⟩ := h
  exact ⟨n, m, a, b, node?_addNode_of_some hn, node?_addNode_of_some hm, hf⟩

/-- More nodes do no harm to the wiring. -/
theorem Wired.addNode (h : s.Wired x) {ids : List NodeId} (hm : ∀ id ∈ x.nodes, id ∈ ids) :
    (s.addNode sp type).Wired { x with nodes := ids } where
  roots id hr := hm id (h.roots id hr)
  roots_nodup := h.roots_nodup
  names b hb := hm b.2 (h.names b hb)
  names_nodup := h.names_nodup
  ends r hr := (h.ends r hr).imp (hm _) (hm _)
  fits r hr := (h.fits r hr).addNode
  routes_nodup := h.routes_nodup
  departures := h.departures

theorem Coherent.addNode (h : s.Coherent [] guest) (hx : s.space? sp = some x)
    (ht : type.Built) : (s.addNode sp type).Coherent [] guest where
  housed := h.housed.addNode hx
  rooted := h.rooted.congr sameLinks_addNode
  claimed := by
    refine h.claimed.congr sameLinks_addNode (issued_modifySpace ..) node?_addNode_of_some ?_
    intro id n hn
    rcases of_node?_addNode hn with ⟨-, rfl⟩ | hn
    · exact .inr (Node.contentSpace?_new ..)
    · exact .inl hn
  tracked := h.tracked.addNode
  wired := by
    intro q y hy
    obtain ⟨z, hz, rfl⟩ := of_space?_addNode hy
    refine (h.wired hz).addNode fun id hid ↦ ?_
    split
    · exact List.mem_append_left _ hid
    · exact hid
  sound := by
    intro id n hn
    rcases of_node?_addNode hn with ⟨-, rfl⟩ | hn
    · exact .new ht ..
    · exact h.sound hn
  catalog := h.catalog

end addNode

section addSpace

variable {kind : SpaceKind} {parent : SpaceId} {owner : Option NodeId}

theorem of_space?_addSpace (hx : s.space? parent = some x) {q : SpaceId} {y : Space}
    (hy : (s.addSpace kind parent owner).space? q = some y) :
    (q = s.nextSpace ∧ y = { kind, parent := some parent, owner }) ∨
      (q ≠ s.nextSpace ∧ ∃ z, s.space? q = some z ∧ y =
        { z with children := if q = parent then z.children ++ [s.nextSpace] else z.children }) := by
  rw [space?_addSpace _ _ _ _ hx] at hy
  split at hy
  · next hq => exact .inl ⟨hq, (Option.some.inj hy).symm⟩
  · next hq =>
    refine .inr ⟨hq, ?_⟩
    split at hy
    · next hp =>
      subst hp
      exact ⟨x, hx, (Option.some.inj hy).symm.trans (by rw [if_pos rfl]; rfl)⟩
    · next hp => exact ⟨y, hy, by rw [if_neg hp]⟩

theorem space?_addSpace_of_some (hx : s.space? parent = some x) {q : SpaceId} {z : Space}
    (hz : s.space? q = some z) : (s.addSpace kind parent owner).space? q = some
      { z with children := if q = parent then z.children ++ [s.nextSpace] else z.children } := by
  have hq : q ≠ s.nextSpace := by
    rintro rfl
    rw [space?_nextSpace] at hz
    cases hz
  rw [space?_addSpace _ _ _ _ hx, if_neg hq]
  split
  · next hp =>
    subst hp
    cases hx.symm.trans hz
    rfl
  · exact hz

theorem space?_addSpace_self (hx : s.space? parent = some x) :
    (s.addSpace kind parent owner).space? s.nextSpace =
      some { kind, parent := some parent, owner } := by
  rw [space?_addSpace _ _ _ _ hx, if_pos rfl]

theorem Housed.addSpace (h : s.Housed []) (hx : s.space? parent = some x) :
    (s.addSpace kind parent owner).Housed [] := by
  constructor
  · intro id n hn
    obtain ⟨y, hy, hid⟩ := (h.listed hn).resolve_left List.not_mem_nil
    exact .inr ⟨_, space?_addSpace_of_some hx hy, hid⟩
  · intro q y id hy hid
    rcases of_space?_addSpace hx hy with ⟨-, rfl⟩ | ⟨-, z, hz, rfl⟩
    · cases hid
    · exact h.lodged hz hid
  · exact fun hd ↦ absurd hd List.not_mem_nil
  · intro q y hy
    rcases of_space?_addSpace hx hy with ⟨-, rfl⟩ | ⟨-, z, hz, rfl⟩
    · exact List.nodup_nil
    · exact h.nodup (x := z) hz

theorem Rooted.addSpace (h : s.Rooted []) (hx : s.space? parent = some x) :
    (s.addSpace kind parent owner).Rooted [] := by
  have old {q c : SpaceId} {z : Space} (hz : s.space? q = some z) (hc : c ∈ z.children) :
      ∃ y, (s.addSpace kind parent owner).space? c = some y ∧ y.parent = some q := by
    obtain ⟨w, hw, hp⟩ := h.child hz hc
    exact ⟨_, space?_addSpace_of_some hx hw, hp⟩
  constructor
  · obtain ⟨m, hm, hp, hno⟩ := h.main
    exact ⟨_, space?_addSpace_of_some hx hm, hp, hno⟩
  · intro q y hy hq
    rcases of_space?_addSpace hx hy with ⟨rfl, rfl⟩ | ⟨-, z, hz, rfl⟩
    · exact ⟨parent, rfl, number_lt_of_space? hx,
        .inr ⟨_, space?_addSpace_of_some hx hx, by simp⟩⟩
    · obtain ⟨p, hp, hlt, hd⟩ := h.below hz hq
      refine ⟨p, hp, hlt, .inr ?_⟩
      obtain ⟨w, hw, hc⟩ := hd.resolve_left List.not_mem_nil
      refine ⟨_, space?_addSpace_of_some hx hw, ?_⟩
      dsimp only
      split
      · exact List.mem_append_left _ hc
      · exact hc
  · intro q y c hy hc
    rcases of_space?_addSpace hx hy with ⟨-, rfl⟩ | ⟨-, z, hz, rfl⟩
    · cases hc
    · dsimp only at hc
      split at hc
      · next hq =>
        rcases List.mem_append.mp hc with hc | hc
        · exact old hz hc
        · rw [List.mem_singleton.mp hc, hq]
          exact ⟨_, space?_addSpace_self hx, rfl⟩
      · exact old hz hc
  · intro q y hy
    rcases of_space?_addSpace hx hy with ⟨-, rfl⟩ | ⟨-, z, hz, rfl⟩
    · exact List.nodup_nil
    · dsimp only
      split
      · refine nodup_append_singleton (h.nodup hz) fun hc ↦ ?_
        obtain ⟨w, hw, -⟩ := h.child hz hc
        rw [space?_nextSpace] at hw
        cases hw
      · exact h.nodup hz

/-- A space with an owner is a guest at first. -/
theorem Claimed.addSpace {guest' : Option SpaceId} (h : s.Claimed [] guest)
    (hx : s.space? parent = some x) (ho : owner.isSome → guest' = some s.nextSpace)
    (hg : guest' = guest ∨ guest = none) :
    (s.addSpace kind parent owner).Claimed [] guest' := by
  constructor
  · intro q y o hy hyo
    rcases of_space?_addSpace hx hy with ⟨rfl, rfl⟩ | ⟨-, z, hz, rfl⟩
    · exact .inr (.inl (ho (Option.isSome_iff_exists.mpr ⟨o, hyo⟩)))
    · rcases h.owned hz hyo with hd | hq | hn
      · cases hd
      · rcases hg with rfl | rfl
        · exact .inr (.inl hq)
        · cases hq
      · exact .inr (.inr hn)
  · intro id n q hn hc
    obtain ⟨hlt, hq⟩ := h.content hn hc
    refine ⟨?_, fun y hy ↦ ?_⟩
    · rw [Scene.addSpace, issued_modifySpace, Arena.issued_insert]
      exact Nat.lt_succ_of_lt hlt
    · rcases of_space?_addSpace hx hy with ⟨rfl, -⟩ | ⟨-, z, hz, rfl⟩
      · exact absurd hlt (Nat.lt_irrefl _)
      · exact hq z hz

theorem Coherent.addSpace {guest' : Option SpaceId} (h : s.Coherent [] guest)
    (hx : s.space? parent = some x) (ho : owner.isSome → guest' = some s.nextSpace)
    (hg : guest' = guest ∨ guest = none) :
    (s.addSpace kind parent owner).Coherent [] guest' where
  housed := h.housed.addSpace hx
  rooted := h.rooted.addSpace hx
  claimed := h.claimed.addSpace hx ho hg
  tracked := ⟨h.tracked.nodup, h.tracked.sensor, h.tracked.queued⟩
  wired := by
    intro q y hy
    rcases of_space?_addSpace hx hy with ⟨-, rfl⟩ | ⟨-, z, hz, rfl⟩
    · exact ⟨by simp, by simp, by simp, by simp, by simp, by simp, by simp, by simp⟩
    · have hw := h.wired hz
      exact ⟨hw.roots, hw.roots_nodup, hw.names, hw.names_nodup, hw.ends, hw.fits,
        hw.routes_nodup, hw.departures⟩
  sound := h.sound
  catalog := h.catalog

end addSpace

end Scene

end SceneGraph
