import SceneGraph.Proofs.Touching

/-!
What lasts through touches: the settings of a scene, its catalog, its clock, and what was logged.
-/

namespace SceneGraph

namespace Scene

/-- Entries of which a tick that ends makes at most one: that it came too early, that it is over. -/
def Framing (e : Entry) : Prop :=
  (∃ requested previous, e = clampWarning requested previous) ∨
    ∃ time fired, e = .event (.tickFinished time fired)

theorem Incidental.not_framing {e : Entry} (h : Incidental e) : ¬Framing e := by
  rintro (⟨requested, previous, rfl⟩ | ⟨time, fired, rfl⟩)
  · cases h with
    | report h => exact h requested previous rfl
  · generalize he : Entry.event (.tickFinished time fired) = e at h
    cases h with
    | note | report => cases he
    | load id field state => cases state <;> cases he

theorem not_framing_fieldChanged (id : NodeId) (index : Nat) :
    ¬Framing (.event (.fieldChanged id index)) := by
  rintro (⟨requested, previous, he⟩ | ⟨time, fired, he⟩) <;> cases he

/-- The second scene is the first at a later moment of the same tick, or between two ticks. -/
structure Lasts (s s' : Scene) : Prop where
  settings : s'.settings = s.settings
  catalog : s'.catalog = s.catalog
  time : s'.time = s.time
  journal : ∃ js, s'.journal = s.journal ++ js ∧ ∀ e ∈ js, ¬Framing e

variable {l : Licence} {s s' t : Scene} {id : NodeId} {n : Node}

namespace Lasts

theorem of_eq (settings : s'.settings = s.settings) (catalog : s'.catalog = s.catalog)
    (time : s'.time = s.time) (journal : s'.journal = s.journal) : Lasts s s' :=
  ⟨settings, catalog, time, [], by rw [journal, List.append_nil], List.forall_mem_nil _⟩

protected theorem refl (s : Scene) : Lasts s s := of_eq rfl rfl rfl rfl

protected theorem trans (h : Lasts s t) (h' : Lasts t s') : Lasts s s' where
  settings := h'.settings.trans h.settings
  catalog := h'.catalog.trans h.catalog
  time := h'.time.trans h.time
  journal := by
    obtain ⟨js, hj, hf⟩ := h.journal
    obtain ⟨js', hj', hf'⟩ := h'.journal
    refine ⟨js ++ js', by rw [hj', hj, List.append_assoc], fun e he ↦ ?_⟩
    exact (List.mem_append.mp he).elim (hf e) (hf' e)

theorem log {js : Journal} (h : ∀ e ∈ js, ¬Framing e) : Lasts s (s.log js) :=
  ⟨rfl, rfl, rfl, js, rfl, h⟩

theorem modifyNode (s : Scene) (id : NodeId) (f : Node → Node) : Lasts s (s.modifyNode id f) := by
  cases id <;> exact of_eq rfl rfl rfl rfl

theorem tell (s : Scene) (id : NodeId) (f : Node → Node) (loader : Option Pool) :
    Lasts s { s.modifyNode id f with loader } := by
  cases id <;> exact of_eq rfl rfl rfl rfl

theorem cancel (s : Scene) (r : Option Request) : Lasts s (s.cancel r) := by
  cases r <;> exact of_eq rfl rfl rfl rfl

theorem dropNode (s : Scene) (k : Nat) (n : Node) : Lasts s (s.dropNode k n) := by
  unfold Scene.dropNode
  cases n.load.bind LoadSlot.pending <;> exact of_eq rfl rfl rfl rfl

theorem markChanged (s : Scene) (id : NodeId) (index : Nat) : Lasts s (s.markChanged id index) := by
  have flagged := modifyNode s id fun n ↦ { n with changed := n.changed.set index true }
  refine flagged.trans ⟨rfl, rfl, rfl, [.event (.fieldChanged id index)], rfl, fun e he ↦ ?_⟩
  cases List.mem_singleton.mp he
  exact not_framing_fieldChanged id index

theorem perform (s : Scene) (id : NodeId) (script : Behavior → Script) :
    Lasts s (s.perform id script) := by
  unfold Scene.perform
  split
  · exact .refl s
  next n _ =>
  generalize (script n.type.behavior).perform (s.viewOf id n) = a
  have quiet : ∀ e ∈ a.notes.map Entry.note, ¬Framing e := by
    intro e he
    obtain ⟨text, -, rfl⟩ := List.mem_map.mp he
    exact (Incidental.note text).not_framing
  have noted := (modifyNode s id fun n ↦ { n with values := a.view.values }).trans (log quiet)
  dsimp only
  split
  · exact noted
  · exact List.foldlRecOn a.outputs _ (motive := fun t ↦ Lasts s t) noted
      fun t ht i _ ↦ ht.trans (markChanged t id i)

theorem editChildren (s : Scene) (id : NodeId) (input children : Nat)
    (edit : List NodeId → List NodeId → List NodeId) :
    Lasts s (s.editChildren id input children edit) := by
  unfold Scene.editChildren
  split
  · exact .refl s
  dsimp only
  split
  · exact .refl s
  split
  · exact modifyNode ..
  · exact (modifyNode ..).trans (markChanged ..)

end Lasts

theorem Touch.lasts (h : Touch l s s') : Lasts s s' := by
  cases h with
  | log h => exact .log fun e he ↦ (h e he).not_framing
  | reroute | terminate | renew | drain | take | advance | useCache | dequeue =>
    exact .of_eq rfl rfl rfl rfl
  | idle | draft | endSetup => exact .modifyNode ..
  | leave | vain | fill => exact (Lasts.modifyNode ..).trans (.cancel ..)
  | ask => exact .tell ..
  | write => exact (Lasts.modifyNode ..).trans (.markChanged ..)
  | perform => exact .perform ..
  | editChildren => exact .editChildren ..
  | addNode => exact .of_eq rfl rfl rfl rfl
  | dropNode => exact .dropNode ..

theorem Touches.lasts (h : Touches l s s') : Lasts s s' := by
  induction h with
  | refl => exact .refl s
  | tail _ ht ih => exact ih.trans ht.lasts

theorem Coherent.lasts_drainLoads (h : s.Coherent [] none) : Lasts s s.drainLoads.2 := by
  have drained := Touches.drainLoads (l := ⟨fun _ ↦ True, True, True, True, fun _ ↦ True⟩) h
    ⟨fun _ _ ↦ trivial, fun _ _ ↦ trivial⟩
  have fetched : Lasts s { s with loader := s.loader.map fun p ↦ p.drain.2 } :=
    .of_eq rfl rfl rfl rfl
  exact fetched.trans drained.lasts

end Scene

end SceneGraph
