import SceneGraph.Proofs.Collecting
import SceneGraph.Proofs.Holding

/-!
A removal destroys what it is asked to, with all that is below, and nothing else. Of the spaces that
stay, only the one right above is affected.
-/

namespace SceneGraph

/-- What is left of a space without one of its nodes and the content of that node. -/
def Space.part (x : Space) (id : NodeId) (content : Option SpaceId) : Space :=
  { x.detach id with children := x.children.filter fun c ↦ decide (content ≠ some c) }

theorem Space.part_eq_prune {x : Space} (h : x.roots.Nodup) (id : NodeId)
    (content : Option SpaceId) :
    x.part id content = x.prune (fun k ↦ decide (k ≠ id)) fun c ↦ decide (content ≠ some c) := by
  rw [part, detach_eq_prune h]
  rfl

namespace Scene

variable {s t : Scene} {guest : Option SpaceId} {id k : NodeId} {n : Node} {sp p q c : SpaceId}
  {x y : Space}

/-- The node lives in the space or below it. -/
def Inhabits (s : Scene) (sp : SpaceId) (id : NodeId) : Prop :=
  ∃ n, s.node? id = some n ∧ s.Beneath sp n.space

/-- The second scene is the first without these nodes and spaces. Of the spaces that stay, `home` is
cut back and the others are as they were. -/
structure Without (s : Scene) (nodes : NodeId → Prop) (spaces : SpaceId → Prop) (home : SpaceId)
    (cut : Space → Space) (t : Scene) : Prop where
  node : ∀ {id}, nodes id → t.node? id = none
  otherNode : ∀ {id}, ¬nodes id → t.node? id = s.node? id
  space : ∀ {q}, spaces q → t.space? q = none
  otherSpace : ∀ {q}, ¬spaces q → q ≠ home → t.space? q = s.space? q
  home : ∀ {x}, s.space? home = some x → t.space? home = some (cut x)
  sensors : t.sensors = s.sensors.filter t.hasNode
  pending : t.pending = s.pending.filter fun p ↦ t.hasNode p.1
  /-- The loads of the nodes are called off. -/
  loader : ∃ requests, t.loader = s.loader.map (·.flag requests) ∧
    ∀ r, r ∈ requests ↔
      ∃ id n, s.node? id = some n ∧ nodes id ∧ n.load.bind LoadSlot.pending = some r
  ceased : ∀ {r : Request}, nodes r.node → ¬t.Pursues r
  rest : t = { s with
    nodes := t.nodes
    spaces := t.spaces
    sensors := t.sensors
    pending := t.pending
    loader := t.loader
    freePlaces := t.freePlaces }

/-- Nobody works for a node that is gone. -/
theorem Met.not_pursues (h : t.Met) {r : Request} (gone : t.node? r.node = none) :
    ¬t.Pursues r := by
  intro pursued
  have awaited := h.pursues pursued
  rw [awaited?, slot?, gone] at awaited
  cases awaited

section removeNode

variable (hn : s.node? id = some n)

include hn

theorem sunk_singleton : s.Sunk [id] q ↔ ∃ c, n.contentSpace? = some c ∧ s.Beneath c q := by
  constructor
  · rintro ⟨k, hk, m, c, hm, hc⟩
    cases List.mem_singleton.mp hk
    cases hn.symm.trans hm
    exact ⟨c, hc⟩
  · rintro ⟨c, hc, hb⟩
    exact ⟨id, List.mem_singleton_self _, n, c, hn, hc, hb⟩

theorem swept_singleton :
    s.Swept [id] k ↔ k = id ∨ ∃ c, n.contentSpace? = some c ∧ s.Inhabits c k := by
  unfold Swept Inhabits
  simp only [sunk_singleton hn, List.mem_singleton]
  refine or_congr_right ⟨?_, ?_⟩
  · rintro ⟨m, hm, c, hc, hb⟩
    exact ⟨c, hc, m, hm, hb⟩
  · rintro ⟨c, hc, m, hm, hb⟩
    exact ⟨m, hm, c, hc, hb⟩

/-- Of the spaces right below that of a node, only the content of the node goes with it. -/
theorem Coherent.sunk_child (h : s.Coherent [] none) (hx : s.space? n.space = some x)
    (hc : c ∈ x.children) : s.Sunk [id] c ↔ n.contentSpace? = some c := by
  rw [sunk_singleton hn]
  refine ⟨?_, fun he ↦ ⟨c, he, .refl⟩⟩
  rintro ⟨b, hb, hbc⟩
  rcases Relation.ReflTransGen.cases_tail hbc with rfl | ⟨d, hd, w, hw, hp⟩
  · exact hb
  · obtain ⟨z, hz, hp'⟩ := h.rooted.child hx hc
    cases hw.symm.trans hz
    cases hp.symm.trans hp'
    have home : ∀ k ∈ [id], s.Lodges n.space k := by simpa using ⟨n, hn, rfl⟩
    exact absurd ((sunk_singleton hn).mpr ⟨b, hb, hd⟩) (h.not_sunk hx home)

theorem Reachable.without_removeNode (h : s.Reachable) (hr : s.removeNode id = .ok t) :
    Without s (fun k ↦ k = id ∨ ∃ c, n.contentSpace? = some c ∧ s.Inhabits c k)
      (fun q ↦ ∃ c, n.contentSpace? = some c ∧ s.Beneath c q) n.space (·.part id n.contentSpace?)
      t := by
  have coherent := h.coherent
  have home : ∀ k ∈ [id], s.Lodges n.space k := by simpa using ⟨n, hn, rfl⟩
  have single : [id].foldlM Scene.removeNode s = .ok t := bind_eq_ok.mpr ⟨t, hr, rfl⟩
  have cleared := cleared_removeNodes coherent home single
  have met : t.Met := (h.step (.removeNode hr)).met
  simp only [← sunk_singleton hn, ← swept_singleton hn]
  exact {
    node := cleared.gone
    otherNode := cleared.node
    space := cleared.sunk
    otherSpace := cleared.space
    home := fun {x} hx ↦ by
      have wired := coherent.wired hx
      rw [cleared.home hx, Space.part_eq_prune wired.roots_nodup]
      refine congrArg some (wired.prune_congr (fun k _ ↦ by simp) fun c hc ↦ ?_)
      obtain ⟨z, hz, -⟩ := coherent.rooted.child hx hc
      rw [Bool.eq_iff_iff, hasSpace_removeNodes coherent single, coherent.sunk_child hn hx hc,
        decide_eq_true_eq]
      exact and_iff_right (hasSpace_iff.mpr ⟨z, hz⟩)
    sensors := cleared.sensors
    pending := cleared.pending
    loader := cleared.loader
    ceased := fun swept ↦ met.not_pursues (cleared.gone swept)
    rest := cleared.rest }

end removeNode

section removeSpace

theorem spared_demolish_space (h : s.Coherent [] guest) (sp : SpaceId) :
    Spared (s.Beneath sp) s (s.demolish [.space sp]) := by
  refine spared_demolish (h.doom sp) (fun q x p hx hp hb ↦ hb.tail ⟨x, hx, hp⟩)
    ⟨fun q x hq _ ↦ ?_, fun k n hk ↦ ?_⟩
  · cases List.mem_singleton.mp hq
    exact .refl
  · cases List.mem_singleton.mp hk

variable (h : s.Coherent [] none) (hm : sp ≠ .main)

include h hm

/-- Taking a space down destroys the spaces from there on down, and no others. -/
theorem hasSpace_demolish_space (q : SpaceId) :
    (s.demolish [.space sp]).hasSpace q ↔ s.hasSpace q ∧ ¬s.Beneath sp q := by
  have pruned := Pruned.demolish [.space sp] s
  constructor
  · intro hq
    obtain ⟨y, hy⟩ := hasSpace_iff.mp hq
    obtain ⟨x, hx, -⟩ := pruned.space hy
    refine ⟨hasSpace_iff.mpr ⟨x, hx⟩, fun hb ↦ ?_⟩
    have gone := (h.doom sp).demolish.razed_of_parent pruned.parent hb (space?_demolish_self hm)
    cases gone.symm.trans hy
  · rintro ⟨hq, outside⟩
    obtain ⟨x, hx⟩ := hasSpace_iff.mp hq
    obtain ⟨cs, hy⟩ := (spared_demolish_space h sp).space hx outside
    exact hasSpace_iff.mpr ⟨_, hy⟩

theorem hasNode_demolish_space (k : NodeId) :
    (s.demolish [.space sp]).hasNode k ↔ s.hasNode k ∧ ¬s.Inhabits sp k := by
  have pruned := Pruned.demolish [.space sp] s
  constructor
  · intro hk
    refine ⟨pruned.hasNode hk, ?_⟩
    rintro ⟨n, hn, hb⟩
    obtain ⟨m, hm'⟩ := hasNode_iff.mp hk
    cases hn.symm.trans (pruned.node hm')
    obtain ⟨y, hy, -⟩ := (h.doom sp).demolish.home hm'
    exact ((hasSpace_demolish_space h hm _).mp (hasSpace_iff.mpr ⟨y, hy⟩)).2 hb
  · rintro ⟨hk, outside⟩
    obtain ⟨n, hn⟩ := hasNode_iff.mp hk
    have stays := (spared_demolish_space h sp).node hn fun hb ↦ outside ⟨n, hn, hb⟩
    exact hasNode_iff.mpr ⟨n, stays⟩

/-- The nodes of a space that stays stay. -/
theorem hasNode_demolish_space_of_mem (hy : s.space? q = some y) (outside : ¬s.Beneath sp q)
    (hk : k ∈ y.nodes) : (s.demolish [.space sp]).hasNode k := by
  obtain ⟨n, hn, rfl⟩ := h.housed.lodged hy hk
  refine (hasNode_demolish_space h hm k).mpr ⟨hasNode_iff.mpr ⟨n, hn⟩, ?_⟩
  rintro ⟨m, hm', hb⟩
  cases hn.symm.trans hm'
  exact outside hb

/-- Of the spaces right below one that stays, only the space itself goes. -/
theorem hasSpace_demolish_space_of_mem (hy : s.space? q = some y) (outside : ¬s.Beneath sp q)
    (hc : c ∈ y.children) : (s.demolish [.space sp]).hasSpace c ↔ c ≠ sp := by
  obtain ⟨z, hz, hp⟩ := h.rooted.child hy hc
  rw [hasSpace_demolish_space h hm, and_iff_right (hasSpace_iff.mpr ⟨z, hz⟩)]
  refine not_congr ⟨fun hb ↦ ?_, fun he ↦ he ▸ .refl⟩
  rcases Relation.ReflTransGen.cases_tail hb with rfl | ⟨d, hd, w, hw, hwp⟩
  · rfl
  · cases hz.symm.trans hw
    cases hp.symm.trans hwp
    exact absurd hd outside

theorem space?_demolish_space (hy : s.space? q = some y) (outside : ¬s.Beneath sp q) :
    (s.demolish [.space sp]).space? q = some (y.removeChild sp) := by
  have stays := (hasSpace_demolish_space h hm q).mpr ⟨hasSpace_iff.mpr ⟨y, hy⟩, outside⟩
  rw [(Pruned.demolish [.space sp] s).space?_eq h (h.doom sp).demolish hy stays,
    Space.removeChild_eq_prune]
  refine congrArg some ((h.wired hy).prune_congr (fun k hk ↦ ?_) fun c hc ↦ ?_)
  · exact hasNode_demolish_space_of_mem h hm hy outside hk
  · rw [Bool.eq_iff_iff, hasSpace_demolish_space_of_mem h hm hy outside hc, decide_eq_true_eq]

end removeSpace

theorem Reachable.without_removeSpace (h : s.Reachable) (hx : s.space? sp = some x)
    (hp : x.parent = some p) (hr : s.removeSpace sp = .ok t) :
    Without s (s.Inhabits sp) (s.Beneath sp) p (·.removeChild sp) t := by
  have coherent := h.coherent
  have met : t.Met := (h.step (.removeSpace hr)).met
  have hm : sp ≠ .main := by
    rintro rfl
    obtain ⟨w, hw, top, -⟩ := coherent.rooted.main
    cases hw.symm.trans hx
    cases top.symm.trans hp
  rw [removeSpace_eq hm, if_pos (hasSpace_iff.mpr ⟨x, hx⟩)] at hr
  cases hr
  have pruned := Pruned.demolish [.space sp] s
  have gone {k : NodeId} (hk : s.Inhabits sp k) : (s.demolish [.space sp]).node? k = none :=
    Option.eq_none_iff_forall_ne_some.mpr fun n hn ↦
      ((hasNode_demolish_space coherent hm k).mp (hasNode_iff.mpr ⟨n, hn⟩)).2 hk
  have above : ¬s.Beneath sp p := fun hb ↦
    absurd (coherent.number_le_of_beneath hb) (Nat.not_le.mpr (coherent.rooted.lt_of_child hx hp))
  exact {
    node := gone
    otherNode := by
      intro k hk
      cases hn : s.node? k with
      | some n => exact (spared_demolish_space coherent sp).node hn fun hb ↦ hk ⟨n, hn, hb⟩
      | none => exact Option.eq_none_iff_forall_ne_some.mpr fun n hn' ↦
          nomatch hn.symm.trans (pruned.node hn')
    space := fun {q} hb ↦ Option.eq_none_iff_forall_ne_some.mpr fun y hy ↦
      ((hasSpace_demolish_space coherent hm q).mp (hasSpace_iff.mpr ⟨y, hy⟩)).2 hb
    otherSpace := by
      intro q outside hq
      cases hy : s.space? q with
      | some y =>
        rw [space?_demolish_space coherent hm hy outside]
        -- the space is a child of its parent alone
        have kept : y.children.filter (· ≠ sp) = y.children := by
          refine List.filter_eq_self.mpr fun c hc ↦ decide_eq_true ?_
          rintro rfl
          obtain ⟨z, hz, hzp⟩ := coherent.rooted.child hy hc
          cases hx.symm.trans hz
          exact hq (Option.some.inj (hzp.symm.trans hp))
        rw [Space.removeChild, kept]
      | none =>
        refine Option.eq_none_iff_forall_ne_some.mpr fun y hy' ↦ ?_
        obtain ⟨z, hz, -⟩ := pruned.space hy'
        cases hy.symm.trans hz
    home := fun hy ↦ space?_demolish_space coherent hm hy above
    sensors := pruned.sensors_eq coherent
    pending := pruned.pending_eq coherent
    loader := by
      obtain ⟨requests, hl, hrs⟩ := pruned.loader
      refine ⟨requests, hl, fun r ↦ (hrs r).trans ?_⟩
      refine exists_congr fun k ↦ exists_congr fun n ↦ and_congr_right fun hn ↦ and_congr_left' ?_
      refine ⟨fun hk ↦ by_contra fun outside ↦ ?_, gone⟩
      obtain ⟨m, hm'⟩ := hasNode_iff.mp
        ((hasNode_demolish_space coherent hm k).mpr ⟨hasNode_iff.mpr ⟨n, hn⟩, outside⟩)
      cases hk.symm.trans hm'
    ceased := fun hk ↦ met.not_pursues (gone hk)
    rest := pruned.rest }

/-- A node that is there can be removed, and so can a space other than the main one. The node takes
its content with it, a space what is below, and all else stays. -/
theorem Reachable.removal_exact (h : s.Reachable) :
    (∀ id n, s.node? id = some n → ∃ t, s.removeNode id = .ok t ∧
      Without s (fun k ↦ k = id ∨ ∃ c, n.contentSpace? = some c ∧ s.Inhabits c k)
        (fun q ↦ ∃ c, n.contentSpace? = some c ∧ s.Beneath c q) n.space
        (·.part id n.contentSpace?) t) ∧
    ∀ sp, s.hasSpace sp → sp ≠ .main → ∃ x p t, s.space? sp = some x ∧ x.parent = some p ∧
      s.removeSpace sp = .ok t ∧
      Without s (s.Inhabits sp) (s.Beneath sp) p (·.removeChild sp) t := by
  constructor
  · intro id n hn
    have hr := removeNode_eq_ok.mpr ⟨n, hn, rfl⟩
    exact ⟨_, hr, h.without_removeNode hn hr⟩
  · intro sp live hm
    obtain ⟨x, hx⟩ := hasSpace_iff.mp live
    obtain ⟨p, hp, -⟩ := h.coherent.rooted.below hx hm
    have hr : s.removeSpace sp = .ok (s.demolish [.space sp]) := by
      rw [removeSpace_eq hm, if_pos live]
    exact ⟨x, p, _, hx, hp, hr, h.without_removeSpace hx hp hr⟩

/-- In the content of the frame there is a space with another frame, which is loading. -/
def cluttered : Scene :=
  List.foldl Operation.run littered
    [.createSpace .scene ⟨1⟩, .createNode ⟨2⟩ "Inline",
      .setValue (.issued 4) 0 (.ofStrings ["a"]), .finishSetup (.issued 4)]

theorem reachable_cluttered : cluttered.Reachable := by
  have built : ∀ t ∈ [group, frame], t.Built := by simpa using ⟨built_group, built_frame⟩
  rw [cluttered, littered, ← List.foldl_append]
  exact (story_start built rfl _).reachable

theorem beneath_cluttered : cluttered.Beneath ⟨1⟩ ⟨2⟩ := by
  have parent : (cluttered.space? ⟨2⟩).map Space.parent = some (some ⟨1⟩) := by cbv
  obtain ⟨x, hx, hp⟩ := Option.map_eq_some_iff.mp parent
  exact .single ⟨x, hx, hp⟩

theorem inhabits_cluttered : cluttered.Inhabits ⟨1⟩ (.issued 4) := by
  have lodged : (cluttered.node? (.issued 4)).map Node.space = some ⟨2⟩ := by cbv
  obtain ⟨n, hn, hs⟩ := Option.map_eq_some_iff.mp lodged
  exact ⟨n, hn, hs ▸ beneath_cluttered⟩

/-- The outer frame goes with all of its content, or the content goes and the frame stays. -/
theorem removal_exact_cluttered : cluttered.Reachable ∧ cluttered.hasNode (.issued 3) ∧
    cluttered.awaited? (.issued 4) = some ⟨.issued 4, 1⟩ ∧ ∃ t u,
    cluttered.removeNode (.issued 3) = .ok t ∧ t.node? (.issued 3) = none ∧
    t.node? (.issued 4) = none ∧ t.space? ⟨2⟩ = none ∧ ¬t.Pursues ⟨.issued 4, 1⟩ ∧
    t.node? (.issued 2) = cluttered.node? (.issued 2) ∧
    cluttered.removeSpace ⟨1⟩ = .ok u ∧ u.node? (.issued 4) = none ∧
    u.node? (.issued 3) = cluttered.node? (.issued 3) := by
  have content : (cluttered.node? (.issued 3)).bind Node.contentSpace? = some ⟨1⟩ := by cbv
  obtain ⟨n, hn, hc⟩ := Option.bind_eq_some_iff.mp content
  have outside (k : NodeId) (hk : (cluttered.node? k).map Node.space = some .main) :
      ¬cluttered.Inhabits ⟨1⟩ k := by
    rintro ⟨m, hm, hb⟩
    rw [hm] at hk
    have above := reachable_cluttered.coherent.number_le_of_beneath hb
    rw [Option.some.inj hk] at above
    exact absurd above (by decide)
  obtain ⟨node, space⟩ := reachable_cluttered.removal_exact
  obtain ⟨t, ht, without⟩ := node _ n hn
  obtain ⟨x, p, u, hx, hp, hu, without'⟩ := space ⟨1⟩ (by cbv) (by decide)
  have within : NodeId.issued 4 = .issued 3 ∨
      ∃ c, n.contentSpace? = some c ∧ cluttered.Inhabits c (.issued 4) :=
    .inr ⟨_, hc, inhabits_cluttered⟩
  refine ⟨reachable_cluttered, hasNode_iff.mpr ⟨n, hn⟩, by cbv, t, u, ht, without.node (.inl rfl),
    without.node within, without.space ⟨_, hc, beneath_cluttered⟩, without.ceased within,
    without.otherNode ?_, hu, without'.node inhabits_cluttered,
    without'.otherNode (outside _ (by cbv))⟩
  rintro (he | ⟨c, hc', hb⟩)
  · cases he
  · cases hc.symm.trans hc'
    exact outside _ (by cbv) hb

end Scene

end SceneGraph
