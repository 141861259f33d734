import SceneGraph.Proofs.Writing

/-!
Loads leave the fields of nodes alone. What asks for content, waits for it or lets go of it changes
what nodes know of their loads, and may take content down, but writes no values.
-/

namespace SceneGraph

namespace Scene

/-- The nodes of the second scene are nodes of the first, which may know something else of their
loads. -/
structure Reloads (s s' : Scene) : Prop where
  node : ∀ {k m}, s'.node? k = some m → ∃ n, s.node? k = some n ∧ m = { n with load := m.load }

variable {s s' t : Scene}

theorem shrunk_removeSpace {sp : SpaceId} (h : s.removeSpace sp = .ok s') : Shrunk s s' := by
  unfold removeSpace at h
  split at h
  · cases h
  obtain ⟨x, -, h⟩ := bind_eq_ok.mp h
  cases h
  exact shrunk_demolish ..

namespace Reloads

theorem shrunk (h : Shrunk s s') : Reloads s s' := ⟨fun hm ↦ ⟨_, h.node hm, rfl⟩⟩

theorem of_nodes (h : s'.nodes = s.nodes) : Reloads s s' :=
  ⟨fun hm ↦ ⟨_, node?_congr h _ ▸ hm, rfl⟩⟩

protected theorem refl (s : Scene) : Reloads s s := of_nodes rfl

protected theorem trans (h : Reloads s t) (h' : Reloads t s') : Reloads s s' where
  node hm := by
    obtain ⟨n', hn', he'⟩ := h'.node hm
    obtain ⟨n, hn, he⟩ := h.node hn'
    exact ⟨n, hn, by rw [he', he]⟩

theorem modifySlot (s : Scene) (id : NodeId) (f : LoadSlot → LoadSlot) :
    Reloads s (s.modifySlot id f) where
  node {k m} hm := by
    rw [Scene.modifySlot, node?_modifyNode] at hm
    split at hm
    · obtain ⟨n, hn, rfl⟩ := Option.map_eq_some_iff.mp hm
      exact ⟨n, hn, rfl⟩
    · exact ⟨m, hm, rfl⟩

theorem setLoadState (s : Scene) (id : NodeId) (state : LoadState) :
    Reloads s (s.setLoadState id state).2 := by
  unfold Scene.setLoadState
  split
  · exact .refl s
  next n hn =>
  split
  · exact .refl s
  dsimp only
  split
  · exact .refl s
  generalize (if state = .loading then none else (n.load.getD {}).pending) = request
  generalize (if state = .notLoaded then (n.load.getD {}).space else none) = content
  have entered : Reloads s ((s.modifySlot id (·.enter state)).cancel request) :=
    (modifySlot s id _).trans (of_nodes (nodes_cancel ..))
  split
  · exact entered
  next t ht =>
  have emptied : Reloads s t := by
    cases content with
    | none =>
      cases ht
      exact entered
    | some sp => exact entered.trans (shrunk (shrunk_removeSpace ht))
  exact emptied.trans (of_nodes rfl)

theorem orWarn {a : Attempt} (h : Reloads s a.2) (text : String) : Reloads s (orWarn text a) := by
  obtain ⟨_ | _, t⟩ := a
  · exact h.trans (of_nodes rfl)
  · exact h

theorem requestLoad (s : Scene) (id : NodeId) : Reloads s (s.requestLoad id).2 := by
  have loading := setLoadState s id .loading
  unfold Scene.requestLoad
  split
  · exact .refl s
  split
  · next he => rwa [he] at loading
  next t he =>
  rw [he] at loading
  have failed (text cause) : Reloads s ((t.warn text cause).setLoadState id .failed).2 := by
    have warned : Reloads s (t.warn text cause) := loading.trans (of_nodes rfl)
    exact warned.trans (setLoadState ..)
  split
  · exact failed ..
  split
  · exact failed ..
  · exact (loading.trans (modifySlot t id _)).trans (of_nodes rfl)

theorem autoLoad (s : Scene) (id : NodeId) : Reloads s (s.autoLoad id) := by
  unfold Scene.autoLoad
  split
  · exact (requestLoad s id).orWarn _
  · exact .refl s

theorem urlChanged (s : Scene) (id : NodeId) : Reloads s (s.urlChanged id) := by
  unfold Scene.urlChanged
  dsimp only
  split
  · exact ((setLoadState s id _).orWarn _).trans (autoLoad ..)
  · exact autoLoad s id

theorem loadSwitched (s : Scene) (id : NodeId) (index : Nat) :
    Reloads s (s.loadSwitched id index) := by
  unfold Scene.loadSwitched
  split
  · exact .refl s
  split
  · exact autoLoad s id
  split
  · exact (setLoadState s id _).orWarn _
  · exact .refl s

theorem applyLoadable (s : Scene) (id : NodeId) (type : NodeType) (index : Nat) :
    Reloads s (s.applyLoadable id type index) := by
  unfold Scene.applyLoadable
  split
  · exact urlChanged s id
  split
  · exact loadSwitched s id index
  · exact .refl s

end Reloads

end Scene

end SceneGraph
