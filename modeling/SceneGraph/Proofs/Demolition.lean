import SceneGraph.Proofs.Coherence

namespace SceneGraph.Scene

variable {s s' : Scene} {doomed rest : List Doomed} {guest : Option SpaceId}

theorem of_space?_dropSpace {sp q : SpaceId} {p : Option SpaceId} {y : Space}
    (h : (s.dropSpace sp p).space? q = some y) :
    q ≠ sp ∧ ∃ x, s.space? q = some x ∧
      y = { x with children := if p = some q then x.children.filter (· ≠ sp) else x.children } := by
  rw [space?_dropSpace] at h
  split at h
  · cases h
  · next hq =>
    refine ⟨hq, ?_⟩
    split at h
    · next hp =>
      obtain ⟨x, hx, rfl⟩ := Option.map_eq_some_iff.mp h
      exact ⟨x, hx, by rw [if_pos hp]; rfl⟩
    · next hp => exact ⟨y, h, by rw [if_neg hp]⟩

theorem space?_dropSpace_of_ne {sp q : SpaceId} {x : Space} (p : Option SpaceId) (hq : q ≠ sp)
    (h : s.space? q = some x) :
    (s.dropSpace sp p).space? q = some
      { x with children := if p = some q then x.children.filter (· ≠ sp) else x.children } := by
  rw [space?_dropSpace, if_neg hq]
  split
  · rw [h]
    rfl
  · exact h

@[simp] theorem issued_dropSpace (sp : SpaceId) (p : Option SpaceId) :
    (s.dropSpace sp p).spaces.issued = s.spaces.issued := by
  cases p <;> simp [dropSpace]

section dropSpace

variable {sp : SpaceId} {x : Space}

/-- What takes the place of a space in the list once the space itself is gone. -/
def Contents (x : Space) (rest : List Doomed) : List Doomed :=
  x.children.map .space ++ x.nodes.map .node ++ rest

theorem node_mem_contents {id : NodeId} :
    .node id ∈ Contents x rest ↔ id ∈ x.nodes ∨ .node id ∈ rest := by
  simp [Contents]

theorem space_mem_contents {q : SpaceId} :
    .space q ∈ Contents x rest ↔ q ∈ x.children ∨ .space q ∈ rest := by
  simp [Contents]

theorem Housed.dropSpace (h : s.Housed (.space sp :: rest)) (hx : s.space? sp = some x) :
    (s.dropSpace sp x.parent).Housed (Contents x rest) where
  listed := by
    intro id n hn
    rw [node?_dropSpace] at hn
    rw [node_mem_contents]
    rcases h.listed hn with hd | ⟨y, hy, hid⟩
    · exact .inl (.inr (by simpa using hd))
    · by_cases hs : n.space = sp
      · rw [hs, hx] at hy
        cases hy
        exact .inl (.inl hid)
      · exact .inr ⟨_, space?_dropSpace_of_ne _ hs hy, hid⟩
  lodged := by
    intro q y id hy hid
    obtain ⟨hq, z, hz, rfl⟩ := of_space?_dropSpace hy
    rw [node?_dropSpace]
    exact h.lodged hz hid
  evicted := by
    intro q y id hd hy hid
    obtain ⟨hq, z, hz, rfl⟩ := of_space?_dropSpace hy
    rcases node_mem_contents.mp hd with hd | hd
    · obtain ⟨n, hn, hns⟩ := h.lodged hx hd
      obtain ⟨m, hm, hms⟩ := h.lodged hz hid
      rw [hn] at hm
      cases hm
      exact hq (hms.symm.trans hns)
    · exact h.evicted (List.mem_cons_of_mem _ hd) hz hid
  nodup := by
    intro q y hy
    obtain ⟨-, z, hz, rfl⟩ := of_space?_dropSpace hy
    exact h.nodup (x := z) hz

theorem Rooted.dropSpace (h : s.Rooted (.space sp :: rest)) (hx : s.space? sp = some x)
    (hsp : sp ≠ .main) : (s.dropSpace sp x.parent).Rooted (Contents x rest) where
  main := by
    obtain ⟨m, hm, hp, ho⟩ := h.main
    exact ⟨_, space?_dropSpace_of_ne _ hsp.symm hm, hp, ho⟩
  below := by
    intro q y hy hq
    obtain ⟨hne, z, hz, rfl⟩ := of_space?_dropSpace hy
    obtain ⟨p, hp, hlt, hd⟩ := h.below hz hq
    refine ⟨p, hp, hlt, ?_⟩
    rw [space_mem_contents]
    rcases hd with hd | ⟨w, hw, hc⟩
    · exact .inl (.inr (by simpa [hne] using hd))
    · by_cases hps : p = sp
      · rw [hps, hx] at hw
        cases hw
        exact .inl (.inl hc)
      · refine .inr ⟨_, space?_dropSpace_of_ne _ hps hw, ?_⟩
        split
        · exact List.mem_filter.mpr ⟨hc, by simpa using hne⟩
        · exact hc
  child := by
    intro q y c hy hc
    obtain ⟨hq, z, hz, rfl⟩ := of_space?_dropSpace hy
    have hcz : c ∈ z.children := by
      dsimp only at hc
      split at hc
      · exact (List.mem_filter.mp hc).1
      · exact hc
    obtain ⟨w, hw, hp⟩ := h.child hz hcz
    -- the space itself is a child of its parent alone, where it was taken off
    have hcs : c ≠ sp := by
      rintro rfl
      rw [hx] at hw
      cases hw
      rw [if_pos hp] at hc
      simpa using (List.mem_filter.mp hc).2
    exact ⟨_, space?_dropSpace_of_ne _ hcs hw, hp⟩
  nodup := by
    intro q y hy
    obtain ⟨-, z, hz, rfl⟩ := of_space?_dropSpace hy
    dsimp only
    split
    · exact (h.nodup hz).filter _
    · exact h.nodup hz

theorem Claimed.dropSpace (h : s.Claimed (.space sp :: rest) guest) :
    (s.dropSpace sp x.parent).Claimed (Contents x rest) guest where
  owned := by
    intro q y o hy ho
    obtain ⟨hq, z, hz, rfl⟩ := of_space?_dropSpace hy
    rcases h.owned hz ho with hd | hg | hn
    · exact .inl (space_mem_contents.mpr (.inr (by simpa [hq] using hd)))
    · exact .inr (.inl hg)
    · rw [node?_dropSpace]
      exact .inr (.inr hn)
  content := by
    intro id n q hn hc
    rw [node?_dropSpace] at hn
    obtain ⟨hlt, hq⟩ := h.content hn hc
    refine ⟨by rwa [issued_dropSpace], fun y hy ↦ ?_⟩
    obtain ⟨-, z, hz, rfl⟩ := of_space?_dropSpace hy
    exact hq z hz

theorem Tracked.dropSpace (h : s.Tracked) : (s.dropSpace sp x.parent).Tracked where
  nodup := by rw [sensors_dropSpace]; exact h.nodup
  sensor := by
    intro id
    rw [sensors_dropSpace, node?_dropSpace]
    exact h.sensor
  queued := by
    intro id i hp
    rw [pending_dropSpace] at hp
    rw [node?_dropSpace]
    exact h.queued hp

theorem Coherent.dropSpace (h : s.Coherent (.space sp :: rest) guest)
    (hx : s.space? sp = some x) (hsp : sp ≠ .main) :
    (s.dropSpace sp x.parent).Coherent (Contents x rest) guest where
  housed := h.housed.dropSpace hx
  rooted := h.rooted.dropSpace hx hsp
  claimed := h.claimed.dropSpace
  tracked := h.tracked.dropSpace
  wired hy := by
    obtain ⟨-, z, hz, rfl⟩ := of_space?_dropSpace hy
    have hw := h.wired hz
    refine ⟨hw.roots, hw.roots_nodup, hw.names, hw.names_nodup, hw.ends, fun r hr ↦ ?_,
      hw.routes_nodup, hw.departures⟩
    obtain ⟨n, m, a, b, hn, hm, hf⟩ := hw.fits r hr
    exact ⟨n, m, a, b, by rwa [node?_dropSpace], by rwa [node?_dropSpace], hf⟩
  sound hn := h.sound (by rwa [node?_dropSpace] at hn)
  catalog := by rw [catalog_dropSpace]; exact h.catalog

end dropSpace

section dropNode

variable {k : Nat} {n : Node}

/-- What takes the place of a node in the list once the node itself is gone. -/
def Belongings (n : Node) (rest : List Doomed) : List Doomed :=
  (n.load.bind LoadSlot.space).toList.map .space ++ rest

theorem node_mem_belongings {id : NodeId} : .node id ∈ Belongings n rest ↔ .node id ∈ rest := by
  simp [Belongings]

theorem space_mem_belongings {q : SpaceId} :
    .space q ∈ Belongings n rest ↔ n.contentSpace? = some q ∨ .space q ∈ rest := by
  simp [Belongings, Node.contentSpace?]

theorem of_node?_dropNode {id : NodeId} {m : Node} (h : (s.dropNode k n).node? id = some m) :
    id ≠ .issued k ∧ s.node? id = some m := by
  rw [node?_dropNode] at h
  split at h
  · cases h
  · next hk => exact ⟨hk, h⟩

theorem node?_dropNode_of_ne {id : NodeId} (h : id ≠ .issued k) :
    (s.dropNode k n).node? id = s.node? id := by
  rw [node?_dropNode, if_neg h]

theorem Housed.dropNode (h : s.Housed (.node (.issued k) :: rest)) :
    (s.dropNode k n).Housed (Belongings n rest) where
  listed := by
    intro id m hm
    obtain ⟨hk, hm⟩ := of_node?_dropNode hm
    rw [node_mem_belongings, space?_dropNode]
    exact (h.listed hm).imp_left fun hd ↦ by simpa [hk] using hd
  lodged := by
    intro q y id hy hid
    rw [space?_dropNode] at hy
    have hk : id ≠ .issued k := by
      rintro rfl
      exact h.evicted List.mem_cons_self hy hid
    rw [node?_dropNode_of_ne hk]
    exact h.lodged hy hid
  evicted := by
    intro q y id hd hy
    rw [space?_dropNode] at hy
    exact h.evicted (List.mem_cons_of_mem _ (node_mem_belongings.mp hd)) hy
  nodup hx := h.nodup (by rwa [space?_dropNode] at hx)

theorem Rooted.dropNode (h : s.Rooted (.node (.issued k) :: rest)) :
    (s.dropNode k n).Rooted (Belongings n rest) where
  main := by simpa using h.main
  below := by
    intro q y hy hq
    rw [space?_dropNode] at hy
    obtain ⟨p, hp, hlt, hd⟩ := h.below hy hq
    refine ⟨p, hp, hlt, ?_⟩
    rw [space_mem_belongings, space?_dropNode]
    exact hd.imp_left fun hd ↦ .inr (by simpa using hd)
  child := by
    intro q y c hy hc
    rw [space?_dropNode] at hy
    rw [space?_dropNode]
    exact h.child hy hc
  nodup hx := h.nodup (by rwa [space?_dropNode] at hx)

theorem Claimed.dropNode (h : s.Claimed (.node (.issued k) :: rest) guest)
    (hn : s.node? (.issued k) = some n) :
    (s.dropNode k n).Claimed (Belongings n rest) guest where
  owned := by
    intro q y o hy ho
    rw [space?_dropNode] at hy
    rw [space_mem_belongings]
    rcases h.owned hy ho with hd | hg | ⟨m, hm, hp, hc⟩
    · exact .inl (.inr (by simpa using hd))
    · exact .inr (.inl hg)
    · by_cases hk : o = .issued k
      · rw [hk, hn] at hm
        cases hm
        exact .inl (.inl hc)
      · exact .inr (.inr ⟨m, by rwa [node?_dropNode_of_ne hk], hp, hc⟩)
  content := by
    intro id m q hm hc
    obtain ⟨-, hm⟩ := of_node?_dropNode hm
    rw [spaces_dropNode, space?_dropNode]
    exact h.content hm hc

theorem Tracked.dropNode (h : s.Tracked) : (s.dropNode k n).Tracked where
  nodup := by
    rw [sensors_dropNode]
    exact h.nodup.filter _
  sensor := by
    intro id
    rw [sensors_dropNode, List.mem_filter, h.sensor, node?_dropNode]
    by_cases hk : id = .issued k <;> simp [hk]
  queued := by
    intro id i hp
    rw [pending_dropNode, List.mem_filter] at hp
    obtain ⟨hp, hk⟩ := hp
    rw [node?_dropNode_of_ne (by simpa using hk)]
    exact h.queued hp

theorem Coherent.dropNode (h : s.Coherent (.node (.issued k) :: rest) guest)
    (hn : s.node? (.issued k) = some n) :
    (s.dropNode k n).Coherent (Belongings n rest) guest where
  housed := h.housed.dropNode
  rooted := h.rooted.dropNode
  claimed := h.claimed.dropNode hn
  tracked := h.tracked.dropNode
  wired hy := by
    rw [space?_dropNode] at hy
    have hw := h.wired hy
    -- a doomed node is in no space any more, so no route is about it
    have hk := h.housed.evicted List.mem_cons_self hy
    refine hw.congr fun r hr hf ↦ ?_
    obtain ⟨n, m, a, b, hn, hm, hf⟩ := hf
    obtain ⟨hs, hd⟩ := hw.ends r hr
    exact ⟨n, m, a, b, by rwa [node?_dropNode_of_ne (ne_of_mem_of_not_mem hs hk)],
      by rwa [node?_dropNode_of_ne (ne_of_mem_of_not_mem hd hk)], hf⟩
  sound hm := h.sound (of_node?_dropNode hm).2
  catalog := by rw [catalog_dropNode]; exact h.catalog

end dropNode

def Gone (s : Scene) : Doomed → Prop
  | .space sp => sp = .main ∨ s.space? sp = none
  | .node id => s.node? id = none

theorem Coherent.skip {d : Doomed} (h : s.Coherent (d :: rest) guest) (hd : s.Gone d) :
    s.Coherent rest guest := by
  have node {id n} (hn : s.node? id = some n) : .node id ≠ d := by
    rintro rfl
    exact absurd (hd.symm.trans hn) nofun
  have space {sp x} (hx : s.space? sp = some x) (hsp : sp ≠ .main) : .space sp ≠ d := by
    rintro rfl
    exact absurd ((hd.resolve_left hsp).symm.trans hx) nofun
  exact {
    housed := {
      listed := fun hn ↦ (h.housed.listed hn).imp_left fun hd ↦
        (List.mem_cons.mp hd).resolve_left (node hn)
      lodged := h.housed.lodged
      evicted := fun hd ↦ h.housed.evicted (List.mem_cons_of_mem _ hd)
      nodup := h.housed.nodup }
    rooted := {
      main := h.rooted.main
      below := by
        intro sp x hx hsp
        obtain ⟨p, hp, hlt, hd⟩ := h.rooted.below hx hsp
        exact ⟨p, hp, hlt, hd.imp_left fun hd ↦
          (List.mem_cons.mp hd).resolve_left (space hx hsp)⟩
      child := h.rooted.child
      nodup := h.rooted.nodup }
    claimed := {
      owned := by
        intro sp x o hx ho
        have hsp : sp ≠ .main := by
          rintro rfl
          obtain ⟨m, hm, -, hno⟩ := h.rooted.main
          rw [hx] at hm
          cases hm
          rw [hno] at ho
          cases ho
        exact (h.claimed.owned hx ho).imp_left fun hd ↦
          (List.mem_cons.mp hd).resolve_left (space hx hsp)
      content := h.claimed.content }
    tracked := h.tracked
    wired := h.wired
    sound := h.sound
    catalog := h.catalog }

section demolish

@[simp] theorem demolish_nil (s : Scene) : s.demolish [] = s := by rw [Scene.demolish]

theorem demolish_of_gone {d : Doomed} (h : s.Gone d) :
    s.demolish (d :: rest) = s.demolish rest := by
  rcases d with sp | _ | _
  · rw [Scene.demolish]
    split
    · rfl
    · next hsp =>
      split
      · rfl
      · next he => cases (h.resolve_left hsp).symm.trans he
  · rw [Scene.demolish]
    split
    · rfl
    · next he => cases h.symm.trans he
  · rw [Scene.demolish]

theorem demolish_space {sp : SpaceId} {x : Space} (hsp : sp ≠ .main) (hx : s.space? sp = some x) :
    s.demolish (.space sp :: rest) = (s.dropSpace sp x.parent).demolish (Contents x rest) := by
  rw [Scene.demolish, if_neg hsp]
  split
  · next he => cases he.symm.trans hx
  · next he =>
    cases he.symm.trans hx
    rfl

theorem demolish_node {k : Nat} {n : Node} (hn : s.node? (.issued k) = some n) :
    s.demolish (.node (.issued k) :: rest) = (s.dropNode k n).demolish (Belongings n rest) := by
  rw [Scene.demolish]
  split
  · next he => cases he.symm.trans hn
  · next he =>
    cases he.symm.trans hn
    rfl

/-- Items that are gone are passed over, a space is replaced by its contents, a node by its
belongings. -/
theorem demolish_induction {motive : List Doomed → Scene → Scene → Prop}
    (nil : ∀ s, motive [] s s)
    (skip : ∀ d rest s s', s.Gone d → motive rest s s' → motive (d :: rest) s s')
    (space : ∀ sp x rest s s', sp ≠ .main → s.space? sp = some x →
      motive (Contents x rest) (s.dropSpace sp x.parent) s' → motive (.space sp :: rest) s s')
    (node : ∀ k n rest s s', s.node? (.issued k) = some n →
      motive (Belongings n rest) (s.dropNode k n) s' → motive (.node (.issued k) :: rest) s s')
    (doomed : List Doomed) (s : Scene) : motive doomed s (s.demolish doomed) := by
  have gone {d rest s} (hd : s.Gone d) (ih : motive rest s (s.demolish rest)) :
      motive (d :: rest) s (s.demolish (d :: rest)) := by
    rw [demolish_of_gone hd]
    exact skip d rest s _ hd ih
  induction doomed, s using Scene.demolish.induct with
  | case1 s =>
    rw [demolish_nil]
    exact nil s
  | case2 s rest ih => exact gone (d := .space .main) (Or.inl rfl) ih
  | case3 s sp rest hsp hx ih => exact gone (d := .space sp) (Or.inr hx) ih
  | case4 s sp rest hsp x hx ih =>
    rw [demolish_space hsp hx]
    exact space sp x rest s _ hsp hx ih
  | case5 s rest ih => exact gone (d := .node .void) rfl ih
  | case6 s k rest hn ih => exact gone (d := .node (.issued k)) hn ih
  | case7 s k rest n hn ih =>
    rw [demolish_node hn]
    exact node k n rest s _ hn ih

/-- Taking down all that is doomed leaves a scene in which everything agrees. -/
theorem Coherent.demolish (h : s.Coherent doomed guest) :
    (s.demolish doomed).Coherent [] guest := by
  refine demolish_induction (motive := fun ds s s' ↦ s.Coherent ds guest → s'.Coherent [] guest)
    ?_ ?_ ?_ ?_ doomed s h
  · exact fun _ h ↦ h
  · exact fun _ _ _ _ hd ih h ↦ ih (h.skip hd)
  · exact fun _ _ _ _ _ hsp hx ih h ↦ ih (h.dropSpace hx hsp)
  · exact fun _ _ _ _ _ hn ih h ↦ ih (h.dropNode hn)

/-- The second scene has nothing that the first has not, and its queue has lost no more than the
changes of nodes that are gone. -/
structure Shrunk (s s' : Scene) : Prop where
  node : ∀ {id n}, s'.node? id = some n → s.node? id = some n
  space : ∀ {q y}, s'.space? q = some y →
    ∃ x, s.space? q = some x ∧ y = { x with children := y.children }
  pending : (∀ p ∈ s.pending, s.hasNode p.1) →
    s'.pending = s.pending.filter fun p ↦ s'.hasNode p.1
  journal : s'.journal = s.journal
  nodesIssued : s'.nodes.issued = s.nodes.issued
  spacesIssued : s'.spaces.issued = s.spaces.issued
  catalog : s'.catalog = s.catalog

theorem Shrunk.refl (s : Scene) : Shrunk s s where
  node h := h
  space h := ⟨_, h, rfl⟩
  pending h := (List.filter_eq_self.mpr h).symm
  journal := rfl
  nodesIssued := rfl
  spacesIssued := rfl
  catalog := rfl

theorem Shrunk.dropSpace {sp : SpaceId} {p : Option SpaceId} (h : Shrunk (s.dropSpace sp p) s') :
    Shrunk s s' where
  node hn := by simpa using h.node hn
  space hy := by
    obtain ⟨z, hz, hy⟩ := h.space hy
    obtain ⟨-, x, hx, rfl⟩ := of_space?_dropSpace hz
    exact ⟨x, hx, hy⟩
  pending hp := by simpa using h.pending (by simpa [Scene.hasNode] using hp)
  journal := by simpa using h.journal
  nodesIssued := by simpa using h.nodesIssued
  spacesIssued := by simpa using h.spacesIssued
  catalog := by simpa using h.catalog

theorem Shrunk.dropNode {k : Nat} {n : Node} (h : Shrunk (s.dropNode k n) s') : Shrunk s s' where
  node hm := (of_node?_dropNode (h.node hm)).2
  space hy := by simpa using h.space hy
  pending hp := by
    have hd : ∀ p ∈ (s.dropNode k n).pending, (s.dropNode k n).hasNode p.1 := by
      intro p hm
      rw [pending_dropNode, List.mem_filter] at hm
      rw [Scene.hasNode, node?_dropNode_of_ne (by simpa using hm.2)]
      exact hp p hm.1
    rw [h.pending hd, pending_dropNode, List.filter_filter]
    refine List.filter_congr fun p _ ↦ ?_
    -- a node that is live in the end was not the one dropped
    cases hl : s'.hasNode p.1 with
    | false => simp
    | true =>
      obtain ⟨m, hm⟩ := hasNode_iff.mp hl
      simpa using (of_node?_dropNode (h.node hm)).1
  journal := by simpa using h.journal
  nodesIssued := by simpa using h.nodesIssued
  spacesIssued := by simpa using h.spacesIssued
  catalog := by simpa using h.catalog

theorem shrunk_demolish (doomed : List Doomed) (s : Scene) : Shrunk s (s.demolish doomed) := by
  refine demolish_induction (motive := fun _ s s' ↦ Shrunk s s') ?_ ?_ ?_ ?_ doomed s
  · exact Shrunk.refl
  · exact fun _ _ _ _ _ ih ↦ ih
  · exact fun _ _ _ _ _ _ _ ih ↦ ih.dropSpace
  · exact fun _ _ _ _ _ _ ih ↦ ih.dropNode

theorem Rooted.lt_of_child (h : s.Rooted doomed) {sp c : SpaceId} {y : Space}
    (hc : s.space? c = some y) (hp : y.parent = some sp) : sp.number < c.number := by
  have hm : c ≠ .main := by
    rintro rfl
    obtain ⟨m, hm, hn, -⟩ := h.main
    rw [hc] at hm
    cases hm
    rw [hn] at hp
    cases hp
  obtain ⟨p, hp', hlt, -⟩ := h.below hc hm
  rw [hp] at hp'
  cases hp'
  exact hlt

section within

variable {P : SpaceId → Prop}

/-- With a space the set has the spaces right below it. -/
def Closed (P : SpaceId → Prop) (s : Scene) : Prop :=
  ∀ q y p, s.space? q = some y → y.parent = some p → P p → P q

/-- Every item is a space of the set, or a node of such a space. -/
def Within (P : SpaceId → Prop) (s : Scene) (doomed : List Doomed) : Prop :=
  (∀ sp x, .space sp ∈ doomed → s.space? sp = some x → P sp) ∧
    ∀ id n, .node id ∈ doomed → s.node? id = some n → P n.space

theorem Within.tail {d : Doomed} (h : Within P s (d :: rest)) : Within P s rest :=
  ⟨fun sp x hd ↦ h.1 sp x (List.mem_cons_of_mem _ hd),
    fun id n hd ↦ h.2 id n (List.mem_cons_of_mem _ hd)⟩

theorem Closed.dropSpace (h : s.Closed P) (sp : SpaceId) (parent : Option SpaceId) :
    (s.dropSpace sp parent).Closed P := by
  intro q y p hy hp
  obtain ⟨-, z, hz, rfl⟩ := of_space?_dropSpace hy
  exact h q z p hz hp

theorem Closed.dropNode (h : s.Closed P) (k : Nat) (n : Node) : (s.dropNode k n).Closed P := by
  intro q y p hy
  rw [space?_dropNode] at hy
  exact h q y p hy

theorem Within.dropSpace {sp : SpaceId} {x : Space} (h : Within P s (.space sp :: rest))
    (closed : s.Closed P) (hc : s.Coherent (.space sp :: rest) guest)
    (hx : s.space? sp = some x) : Within P (s.dropSpace sp x.parent) (Contents x rest) := by
  have first : P sp := h.1 sp x List.mem_cons_self hx
  constructor
  · intro q y hq hy
    obtain ⟨-, z, hz, rfl⟩ := of_space?_dropSpace hy
    rcases space_mem_contents.mp hq with hq | hq
    · obtain ⟨w, hw, hp⟩ := hc.rooted.child hx hq
      exact closed q w sp hw hp first
    · exact h.1 q z (List.mem_cons_of_mem _ hq) hz
  · intro id n hid hn
    rw [node?_dropSpace] at hn
    rcases node_mem_contents.mp hid with hid | hid
    · obtain ⟨m, hm, hs⟩ := hc.housed.lodged hx hid
      cases hm.symm.trans hn
      rwa [hs]
    · exact h.2 id n (List.mem_cons_of_mem _ hid) hn

theorem Within.dropNode {k : Nat} {n : Node} (h : Within P s (.node (.issued k) :: rest))
    (closed : s.Closed P) (hc : s.Coherent (.node (.issued k) :: rest) guest)
    (hn : s.node? (.issued k) = some n) : Within P (s.dropNode k n) (Belongings n rest) := by
  have first : P n.space := h.2 _ n List.mem_cons_self hn
  constructor
  · intro q y hq hy
    rw [space?_dropNode] at hy
    rcases space_mem_belongings.mp hq with hq | hq
    · obtain ⟨-, -, hp⟩ := (hc.claimed.content hn hq).2 y hy
      exact closed q y n.space hy hp first
    · exact h.1 q y (List.mem_cons_of_mem _ hq) hy
  · intro id m hid hm
    exact h.2 id m (List.mem_cons_of_mem _ (node_mem_belongings.mp hid)) (of_node?_dropNode hm).2

/-- What is outside the set stays: the spaces but for their children, and the nodes in them. -/
structure Spared (P : SpaceId → Prop) (s s' : Scene) : Prop where
  node : ∀ {id n}, s.node? id = some n → ¬P n.space → s'.node? id = some n
  space : ∀ {q x}, s.space? q = some x → ¬P q → ∃ cs, s'.space? q = some { x with children := cs }

theorem spared_demolish (hc : s.Coherent doomed guest) (closed : s.Closed P)
    (h : Within P s doomed) : Spared P s (s.demolish doomed) := by
  refine demolish_induction
    (motive := fun ds s s' ↦ s.Coherent ds guest → s.Closed P → Within P s ds → Spared P s s')
    ?_ ?_ ?_ ?_ doomed s hc closed h
  · exact fun s _ _ _ ↦ ⟨fun hn _ ↦ hn, fun {_ x} hx _ ↦ ⟨x.children, hx⟩⟩
  · exact fun d rest s s' hd ih hc closed h ↦ ih (hc.skip hd) closed h.tail
  · intro sp x rest s s' hsp hx ih hc closed h
    have first : P sp := h.1 sp x List.mem_cons_self hx
    obtain ⟨hnode, hspace⟩ :=
      ih (hc.dropSpace hx hsp) (closed.dropSpace sp x.parent) (h.dropSpace closed hc hx)
    refine ⟨fun hn outside ↦ hnode (by rwa [node?_dropSpace]) outside,
      fun {q z} hz outside ↦ ?_⟩
    have hq : q ≠ sp := by
      rintro rfl
      exact outside first
    obtain ⟨cs, hcs⟩ := hspace (space?_dropSpace_of_ne _ hq hz) outside
    exact ⟨cs, hcs⟩
  · intro k n rest s s' hn ih hc closed h
    have first : P n.space := h.2 _ n List.mem_cons_self hn
    obtain ⟨hnode, hspace⟩ := ih (hc.dropNode hn) (closed.dropNode k n) (h.dropNode closed hc hn)
    refine ⟨fun {id m} hm outside ↦ hnode ?_ outside,
      fun hz outside ↦ hspace (by rwa [space?_dropNode]) outside⟩
    have hk : id ≠ .issued k := by
      rintro rfl
      cases hn.symm.trans hm
      exact outside first
    rwa [node?_dropNode_of_ne hk]

end within

/-- Every item is a space from the number `b` on, or a node of such a space. -/
def From (b : Nat) (s : Scene) (doomed : List Doomed) : Prop :=
  (∀ sp x, .space sp ∈ doomed → s.space? sp = some x → b ≤ sp.number) ∧
    ∀ id n, .node id ∈ doomed → s.node? id = some n → b ≤ n.space.number

/-- What is older than all that is doomed stays: the spaces but for their children, and the nodes
in them. -/
structure Spares (b : Nat) (s s' : Scene) : Prop where
  node : ∀ {id n}, s.node? id = some n → n.space.number < b → s'.node? id = some n
  space : ∀ {q x}, s.space? q = some x → q.number < b →
    ∃ cs, s'.space? q = some { x with children := cs }

theorem spares_demolish {b : Nat} (hc : s.Coherent doomed guest) (h : From b s doomed) :
    Spares b s (s.demolish doomed) := by
  have closed : s.Closed fun q ↦ b ≤ q.number := fun q y p hy hp hb ↦
    Nat.le_trans hb (Nat.le_of_lt (hc.rooted.lt_of_child hy hp))
  obtain ⟨node, space⟩ := spared_demolish hc closed h
  exact ⟨fun hn hlt ↦ node hn (Nat.not_le.mpr hlt), fun hx hlt ↦ space hx (Nat.not_le.mpr hlt)⟩

end demolish

end SceneGraph.Scene
