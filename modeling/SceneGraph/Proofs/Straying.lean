import SceneGraph.Proofs.History

namespace SceneGraph

namespace Scene

variable {s s' : Scene} {id : NodeId} {n : Node} {sp : SpaceId} {heard : List (NodeId × LoadState)}
  {razed : List SpaceId} {slots : NodeId → Option LoadSlot} {ts : List (Scene × Scene)}

theorem Step.lost (h : s.Coherent [] none) (hs : Step s s') (hl : s.Lost sp) : s'.Lost sp := by
  rcases hs.shifts h .void with rfl | ⟨q, -, removed⟩ | shifts
  · exact hl
  · exact removed.shifted.lost hl
  · exact lost_of_shifts shifts hl

theorem lost_removeSpace (h : s.removeSpace sp = .ok s') : s'.Lost sp := by
  unfold removeSpace at h
  split at h
  · cases h
  next hm =>
  obtain ⟨x, hx, h⟩ := bind_eq_ok.mp h
  cases h
  have hx := space_eq_ok.mp hx
  rw [demolish_space hm hx]
  have shrunk := shrunk_demolish (Contents x []) (s.dropSpace sp x.parent)
  constructor
  · have issued : (s.dropSpace sp x.parent).spaces.issued = s.spaces.issued :=
      issued_dropSpace ..
    rw [shrunk.spacesIssued, issued]
    exact number_lt_of_space? hx
  · refine Bool.eq_false_iff.mpr fun hs ↦ ?_
    obtain ⟨y, hy⟩ := hasSpace_iff.mp hs
    obtain ⟨z, hz, -⟩ := shrunk.space hy
    exact (of_space?_dropSpace hz).1 rfl

namespace History

/-- What was removed never comes back. -/
theorem lost (h : History ts s) (hr : ∃ t ∈ ts, t.1.removeSpace sp = .ok t.2) : s.Lost sp := by
  induction h with
  | new => obtain ⟨t, ht, -⟩ := hr; cases ht
  | @step ts s s' h hs ih =>
    obtain ⟨t, ht, hr⟩ := hr
    rcases List.mem_append.mp ht with ht | ht
    · exact hs.lost h.reachable.coherent (ih ⟨t, ht, hr⟩)
    · cases List.mem_singleton.mp ht
      exact lost_removeSpace hr

/-- Nothing else takes the space of a content from under its node. -/
theorem removed (h : History ts s) (hp : s.inlineSpace? id = some sp)
    (hg : s.hasSpace sp = false) : ∃ t ∈ ts, t.1.removeSpace sp = .ok t.2 := by
  induction h with
  | @new catalog settings s built h =>
    obtain ⟨⟨⟩, -, h⟩ := bind_eq_ok.mp h
    cases h
    rw [inlineSpace?, slot?_start] at hp
    cases hp
  | @step ts s s' h hs ih =>
    have earlier (hp : s.inlineSpace? id = some sp) (hg : s.hasSpace sp = false) :
        ∃ t ∈ ts ++ [(s, s')], t.1.removeSpace sp = .ok t.2 := by
      obtain ⟨t, ht, hr⟩ := ih hp hg
      exact ⟨t, List.mem_append_left _ ht, hr⟩
    rcases hs.shifts h.reachable.coherent id with rfl | ⟨q, hr, calm⟩ | shifts
    · exact earlier hp hg
    · obtain ⟨hp, hg | hq⟩ := calm.shifted.lacks hp hg
      · exact earlier hp hg
      · cases List.mem_singleton.mp hq
        exact ⟨(s, s'), List.mem_append_right _ (List.mem_singleton_self _), hr⟩
    · obtain ⟨hp, hg⟩ := lacks_of_shifts shifts hp hg
      exact earlier hp hg

/-- The space that a node goes by is its own, below the space of the node, exactly as long as nobody
removed that very space. -/
theorem inlineSpace_live_iff (h : History ts s) (hn : s.node? id = some n)
    (hp : s.inlineSpace? id = some sp) :
    (∃ x, s.space? sp = some x ∧ x.kind = .inline ∧ x.owner = some id ∧
        x.parent = some n.space) ↔
      ∀ t ∈ ts, t.1.removeSpace sp ≠ .ok t.2 := by
  constructor
  · intro live t ht hr
    obtain ⟨x, hx, -⟩ := live
    obtain ⟨-, hg⟩ := h.lost ⟨t, ht, hr⟩
    cases hg.symm.trans (hasSpace_iff.mpr ⟨x, hx⟩)
  · intro kept
    cases hg : s.hasSpace sp with
    | false =>
      obtain ⟨t, ht, hr⟩ := h.removed hp hg
      exact absurd hr (kept t ht)
    | true =>
      obtain ⟨x, hx⟩ := hasSpace_iff.mp hg
      have content : n.contentSpace? = some sp := by
        rw [inlineSpace?, slot?, hn] at hp
        exact hp
      exact ⟨x, hx, (h.reachable.coherent.claimed.content hn content).2 x hx⟩

end History

/-- A frame goes by the space of its content still when the space is removed. -/
theorem inlineSpace_live_iff_bereft : ∃ ts n, History ts bereft ∧
    bereft.node? (.issued 0) = some n ∧ bereft.inlineSpace? (.issued 0) = some ⟨1⟩ ∧
    ¬∃ x, bereft.space? ⟨1⟩ = some x ∧ x.kind = .inline ∧ x.owner = some (.issued 0) ∧
      x.parent = some n.space := by
  obtain ⟨ts, h⟩ := reachable_filled.exists_history
  have h := h.step (.removeSpace removeSpace_filled)
  have hp : bereft.inlineSpace? (.issued 0) = some ⟨1⟩ := by cbv
  obtain ⟨slot, hs, -⟩ := inlineSpace?_eq_some.mp hp
  obtain ⟨n, hn, -⟩ := slot?_eq_some.mp hs
  refine ⟨_, n, h, hn, hp, fun live ↦ ?_⟩
  have kept := (h.inlineSpace_live_iff hn hp).mp live
  exact kept _ (List.mem_append_right _ (List.mem_singleton_self _)) removeSpace_filled

theorem not_inlineSpace_live : ¬∀ (s : Scene) id n sp, s.Reachable → s.node? id = some n →
    s.inlineSpace? id = some sp →
      ∃ x, s.space? sp = some x ∧ x.kind = .inline ∧ x.owner = some id ∧
        x.parent = some n.space := by
  intro live
  have hp : bereft.inlineSpace? (.issued 0) = some ⟨1⟩ := by cbv
  obtain ⟨slot, hs, -⟩ := inlineSpace?_eq_some.mp hp
  obtain ⟨n, hn, -⟩ := slot?_eq_some.mp hs
  obtain ⟨x, hx, -⟩ := live bereft _ n _ reachable_bereft hn hp
  obtain ⟨-, hg⟩ := lost_removeSpace removeSpace_filled
  cases hg.symm.trans (hasSpace_iff.mpr ⟨x, hx⟩)

end Scene

end SceneGraph
