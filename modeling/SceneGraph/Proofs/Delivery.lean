import SceneGraph.Proofs.Loading

namespace SceneGraph

/-- The fields that a capability installs are found by their names. -/
theorem NodeType.Built.exists_standard {t : NodeType} (h : t.Built) {c : Capability}
    (hc : t.has c) {d : Declaration} (hd : d ∈ c.fields) : ∃ i, t.standard? c d.name = some i := by
  obtain ⟨p, own, -, hs, -⟩ := h.exists_capabilities
  rw [standard?, if_pos hc]
  apply Option.isSome_iff_exists.mp
  rw [FieldTable.indexOf?, List.findIdx?_isSome, hs, List.any_append, List.any_flatMap,
    Bool.or_eq_true]
  refine .inl (List.any_eq_true.mpr ⟨c, of_decide_eq_true hc, List.any_eq_true.mpr ⟨d, hd, ?_⟩⟩)
  exact decide_eq_true (by unfold Declaration.spellings; cases d.access <;> simp)

theorem NodeType.Built.exists_url {t : NodeType} (h : t.Built) (hl : t.has .loadable) :
    ∃ i, t.url? = some i :=
  h.exists_standard hl (d := ⟨.exposed, .multi .string, "url", .ofStrings []⟩) (by decide)

namespace Scene

variable {s s' : Scene} {guest : Option SpaceId} {sp : SpaceId} {x : Space} {id : NodeId}
  {n : Node} {slot : LoadSlot}

theorem Coherent.removeGuest (h : s.Coherent [] (some sp)) (hr : s.removeSpace sp = .ok s') :
    s'.Coherent [] none := by
  unfold Scene.removeSpace at hr
  split at hr
  · cases hr
  obtain ⟨y, -, hr⟩ := bind_eq_ok.mp hr
  cases hr
  have hd := h.doom sp
  have : s.Coherent [.space sp] none := {
    housed := hd.housed
    rooted := hd.rooted
    claimed := {
      owned := by
        intro q y o hy ho
        rcases hd.claimed.owned hy ho with hm | hg | hn
        · exact .inl hm
        · exact .inl (by simp [Option.some.inj hg])
        · exact .inr (.inr hn)
      content := hd.claimed.content }
    tracked := hd.tracked
    wired := hd.wired
    sound := hd.sound
    catalog := hd.catalog }
  exact this.demolish

/-- A loading node takes in the space that was made for its content. -/
theorem Coherent.completeWith (h : s.Coherent [] (some sp)) (hn : s.node? id = some n)
    (hl : n.load = some slot) (hs : slot.state = .loading) (hx : s.space? sp = some x)
    (hk : x.kind = .inline) (ho : x.owner = some id) (hp : x.parent = some n.space)
    (content : Content) : (s.complete id content (some sp)).2.Coherent [] none := by
  let filled : LoadSlot := { slot with content := some content, space := some sp }
  let taken := s.modifySlot id fun slot ↦ { slot with content := some content, space := some sp }
  let n' : Node := { n with load := some (filled.enter .complete) }
  have ht : taken.node? id = some { n with load := some filled } := by
    rw [show taken.node? id = _ from node?_modifyNode_self _ _ _ hn, hl]
    rfl
  obtain ⟨field, hu⟩ := (h.sound hn).built.exists_url (by
    rw [← (h.sound hn).slot, hl]
    rfl)
  have he : s.complete id content (some sp) =
      (.ok (), ((taken.modifySlot id (·.enter .complete)).cancel slot.pending).emit
        (loadEvent id field .complete)) := by
    unfold complete setLoadState
    rw [show (s.modifySlot id fun slot ↦
      { slot with content := some content, space := some sp }).node? id = _ from ht]
    simp only [hu, Option.getD_some, filled, hs]
    rfl
  have fill : SameFrame s taken := .modifyNode id _ fun _ _ ↦ ⟨rfl, rfl⟩
  have enter : SameFrame taken (taken.modifySlot id (·.enter .complete)) :=
    .modifyNode id _ fun _ _ ↦ ⟨rfl, rfl⟩
  have retouched :
      Retouched id n' s ((taken.modifySlot id (·.enter .complete)).cancel slot.pending) := {
    self := (node?_cancel _ _ _).trans (node?_modifyNode_self _ _ _ ht)
    other := fun hk ↦ (node?_cancel _ _ _).trans
      ((node?_modifyNode_of_ne _ _ _ hk).trans (node?_modifyNode_of_ne _ _ _ hk))
    frame := (fill.trans enter).trans (.of_tables (by simp) (by simp) (by simp) (by simp))
    pending := by simp [taken, modifySlot] }
  have sound : n'.Sound := by
    have hs := h.sound hn
    refine ⟨hs.built, hs.values, hs.flags, ?_, ?_⟩
    · rw [← hs.slot, hl]
      rfl
    · rintro _ ⟨⟩ -
      rfl
  have empty : n.contentSpace? = none := by
    rw [Node.contentSpace?, hl, Option.bind_some, (h.sound hn).space_eq_none hl (by simp [hs])]
  rw [he]
  exact (h.retouch retouched (h.claimed.takeIn hn empty retouched rfl rfl hx hk ho hp) sound).log _

/-- A node whose content is read into a new space keeps its place and its slot meanwhile. -/
theorem Coherent.readContent (h : s.Coherent [] none) (hn : s.node? id = some n) (text : String) :
    s.openSpace .inline n.space (some id) =
        .ok (s.nextSpace, s.addSpace .inline n.space (some id)) ∧
      (s.addSpace .inline n.space (some id)).Coherent [] (some s.nextSpace) ∧
      s.nextSpace ≠ .main ∧
      ∃ x, ((s.addSpace .inline n.space (some id)).load s.nextSpace text).2.space? s.nextSpace =
          some x ∧ x.kind = .inline ∧ x.owner = some id ∧ x.parent = some n.space ∧
        ((s.addSpace .inline n.space (some id)).load s.nextSpace text).2.node? id = some n := by
  obtain ⟨y, hy, -⟩ := h.home hn
  have hc : (s.addSpace .inline n.space (some id)).Coherent [] (some s.nextSpace) :=
    h.addSpace hy (fun _ ↦ rfl) (.inr rfl)
  have hx : (s.addSpace .inline n.space (some id)).space? s.nextSpace =
      some { kind := .inline, parent := some n.space, owner := some id } :=
    space?_addSpace_self hy
  have hu := load_undisturbed hc hx text
  have hm : s.nextSpace ≠ .main := by
    intro hm
    obtain ⟨m, hm', -⟩ := h.rooted.main
    rw [← hm, space?_nextSpace] at hm'
    cases hm'
  obtain ⟨x, hx', hk, hp, ho⟩ := hu.space hx (Nat.le_refl _)
  exact ⟨openSpace_eq_ok.mpr ⟨y, hy, rfl, rfl⟩, hc, hm, x, hx', hk, ho, hp,
    hu.node hn (number_lt_of_space? hy)⟩

theorem Coherent.applyContent (h : s.Coherent [] none) (hn : s.node? id = some n)
    (hl : n.load = some slot) (hs : slot.state = .loading) (content : Content) :
    (s.applyContent id content).2.Coherent [] none := by
  have empty := (h.sound hn).space_eq_none hl (by simp [hs])
  unfold Scene.applyContent
  simp only [hn]
  split
  · have taken : Edited none id s (s.modifySlot id fun slot ↦
        { slot with content := some content, space := none }) :=
      Edited.slot h fun m hm ↦ by
        cases hn.symm.trans hm
        exact ⟨slot, hl, empty.symm, by simp [empty]⟩
    exact (Edited.setLoadState taken.coherent _).coherent
  split
  · exact (Edited.setLoadState (h.log _) _).coherent
  next text _ =>
  obtain ⟨opened, hc, hm, x, hx, hk, ho, hp, hn'⟩ := h.readContent hn text
  have loaded := hc.load s.nextSpace text
  rw [opened]
  dsimp only
  split
  · next he =>
    rw [he] at loaded hn' hx
    exact loaded.completeWith hn' hl hs hx hk ho hp content
  · next he =>
    rw [he] at loaded hx
    rw [removeSpace_eq hm, if_pos (hasSpace_iff.mpr ⟨x, hx⟩)]
    have removed := loaded.removeGuest (by
      rw [removeSpace_eq hm, if_pos (hasSpace_iff.mpr ⟨x, hx⟩)])
    exact (Edited.setLoadState removed _).coherent

theorem Coherent.applyCompletion (h : s.Coherent [] none) {c : Completion} (ha : s.awaits c) :
    (s.applyCompletion c).2.Coherent [] none := by
  unfold Scene.applyCompletion
  split
  · unfold awaits at ha
    obtain ⟨slot, hs, hw⟩ := (Option.any_eq_true ..).mp ha
    obtain ⟨n, hn, hl⟩ := Option.bind_eq_some_iff.mp hs
    simp only [Bool.and_eq_true, decide_eq_true_eq] at hw
    exact h.applyContent hn hl hw.2 _
  · exact (Edited.setLoadState (h.log _) _).coherent
  · exact (Edited.setLoadState h _).coherent

theorem Coherent.applyCompletions (h : s.Coherent [] none) (cs : List Completion) :
    (Scene.applyCompletions cs s).2.Coherent [] none := by
  induction cs generalizing s with
  | nil => exact h
  | cons c cs ih =>
    unfold Scene.applyCompletions
    split
    · next ha =>
      have applied := h.applyCompletion ha
      rcases he : s.applyCompletion c with ⟨e | ⟨⟩, t⟩
      · rw [he] at applied
        exact ih (applied.log _)
      · rw [he] at applied
        exact ih applied
    · exact ih h

theorem Coherent.drainLoads (h : s.Coherent [] none) : s.drainLoads.2.Coherent [] none := by
  unfold Scene.drainLoads
  split
  · exact h
  · refine Coherent.applyCompletions ?_ _
    exact h.congr rfl rfl rfl rfl fun _ hp ↦ hp

theorem Coherent.setProvider (h : s.Coherent [] guest) (provider : Provider) :
    (s.setProvider provider).2.Coherent [] guest := by
  unfold Scene.setProvider
  split
  · exact h
  next pool _ =>
  dsimp only
  have reset := inTurn_induction (f := fun id s ↦ s.setLoadState id .notLoaded)
    (P := fun s ↦ s.Coherent [] guest) s.interrupted
    (fun _ _ _ hs ↦ (Edited.setLoadState hs _).coherent) h
  split
  · next he => rwa [he] at reset
  · next t he =>
    rw [he] at reset
    refine List.foldlRecOn s.interrupted Scene.autoLoad
      (motive := fun s ↦ s.Coherent [] guest) ?_ fun _ hs _ _ ↦ (Edited.autoLoad hs).coherent
    exact reset.congr rfl rfl rfl rfl fun _ hp ↦ hp

end Scene

end SceneGraph
