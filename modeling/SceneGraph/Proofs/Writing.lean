import SceneGraph.Proofs.Edit

namespace SceneGraph

theorem Node.Sound.exists_slot {n : Node} (h : n.Sound) {i : Nat} (hu : n.type.url? = some i) :
    ∃ slot, n.load = some slot := by
  have hl := h.slot
  rw [NodeType.has_of_standard? hu] at hl
  exact Option.isSome_iff_exists.mp hl

theorem Node.Sound.store {n : Node} (h : n.Sound) {i : Nat} {d : Declaration} {v : Value}
    (hd : n.type.table.get? i = some d) (hv : d.shapeFault? v = none) : (n.store i v).Sound :=
  ⟨h.built, h.values.set hd hv, h.flags, h.slot, h.content⟩

theorem Node.admits_eq_ok {n : Node} {issued index : Nat} {v : Value} :
    n.admits issued index v = .ok () ↔ ∃ d, n.type.table.get? index = some d ∧
      d.access ≠ .eventOut ∧ ¬(d.access = .field ∧ n.inSetup = false) ∧
      d.shapeFault? v = none ∧ n.type.behavior.validate issued index d v = .ok () := by
  unfold Node.admits
  rw [bind_eq_ok]
  refine exists_congr fun d ↦ and_congr FieldTable.declaration_eq_ok ?_
  by_cases ho : d.access = .eventOut
  · simp [ho, throw, throwThe, MonadExceptOf.throw, bind, Except.bind]
  by_cases hl : d.access = .field ∧ n.inSetup = false
  · simp [hl, throw, throwThe, MonadExceptOf.throw, bind, Except.bind]
  have hs := @Declaration.checkShape_eq_ok d n.type.name v
  rw [if_neg ho, if_neg hl, ← hs]
  cases d.checkShape n.type.name v with
  | error e => simp [bind, Except.bind]
  | ok u =>
    cases n.type.behavior.validate issued index d v <;>
      simp [ho, hl, bind, Except.bind, pure, Except.pure, throw, throwThe, MonadExceptOf.throw]

namespace Scene

variable {s s' : Scene} {guest : Option SpaceId} {id : NodeId}

theorem removeSpace_eq {sp : SpaceId} (hm : sp ≠ .main) :
    s.removeSpace sp =
      if s.hasSpace sp then .ok (s.demolish [.space sp]) else .error .unknownSpace := by
  unfold removeSpace space hasSpace
  rw [if_neg hm]
  cases s.space? sp <;> rfl

theorem Coherent.content_ne_main (h : s.Coherent [] guest) {n : Node} {sp : SpaceId}
    (hn : s.node? id = some n) (hc : n.contentSpace? = some sp) : sp ≠ .main := by
  rintro rfl
  obtain ⟨x, hx, -, ho⟩ := h.rooted.main
  obtain ⟨-, ho', -⟩ := (h.claimed.content hn hc).2 x hx
  rw [ho] at ho'
  cases ho'

theorem exists_url_of_setLoadState {state : LoadState} {n : Node} (hn : s.node? id = some n)
    (h : s.setLoadState id state = (.ok (), s')) : ∃ field, n.type.url? = some field := by
  unfold setLoadState at h
  simp only [hn] at h
  split at h
  · cases h
  · next field hu => exact ⟨field, hu⟩

namespace Edited

theorem report (h : s.Coherent [] guest) (severity : Severity) (text : String)
    (cause : Option Error) : Edited guest id s (s.report severity text cause) :=
  log h rfl

theorem cancel (h : s.Coherent [] guest) (p : Option Request) : Edited guest id s (s.cancel p) :=
  aside h (by simp) (by simp) (by simp) (by simp) (by simp) ⟨[], by simp⟩

theorem loadEvent (h : s.Coherent [] guest) (field : Nat) (state : LoadState) :
    Edited guest id s (s.emit (loadEvent id field state)) :=
  log h (by cases state <;> rfl)

/-- A change to the slot of a loadable node that keeps the space of its content. -/
theorem slot (h : s.Coherent [] guest) {f : LoadSlot → LoadSlot}
    (hf : ∀ n, s.node? id = some n → ∃ slot, n.load = some slot ∧ (f slot).space = slot.space ∧
      (slot.space.isSome → (f slot).state = .complete)) :
    Edited guest id s (s.modifySlot id f) := by
  refine amend h fun n hn ↦ ?_
  obtain ⟨slot, hl, hs, hc⟩ := hf n hn
  have hn := h.sound hn
  refine ⟨rfl, rfl, ?_, hn.built, hn.values, hn.flags, ?_, ?_⟩
  · simp only [Node.contentSpace?, hl]
    exact hs
  · rw [← hn.slot, hl]
    rfl
  · rintro _ ⟨⟩ hsp
    rw [hl] at hsp ⊢
    exact hc (by rwa [← hs])

theorem setLoadState (h : s.Coherent [] guest) (state : LoadState) :
    Edited guest id s (s.setLoadState id state).2 := by
  unfold Scene.setLoadState
  split
  · exact .refl h
  next n hn =>
  split
  · exact .refl h
  next field hu =>
  obtain ⟨slot, hl⟩ := (h.sound hn).exists_slot hu
  simp only [hl, Option.getD_some]
  split
  · exact .refl h
  next hc =>
  by_cases hs : state = .notLoaded
  · subst hs
    have reset := unload h hn (hl ▸ rfl) (f := (·.enter .notLoaded)) (fun _ ↦ rfl) slot.pending
    rw [if_neg (by decide), if_pos rfl]
    have hsp : n.contentSpace? = slot.space := by rw [Node.contentSpace?, hl, Option.bind_some]
    rw [hsp] at reset
    cases hd : slot.space with
    | none =>
      rw [hd, Option.toList_none, List.map_nil, demolish_nil] at reset
      exact reset.trans (loadEvent reset.coherent _ _)
    | some sp =>
      rw [hd, Option.toList_some, List.map_singleton] at reset
      rw [discard, removeSpace_eq (h.content_ne_main hn (hsp.trans hd))]
      generalize (s.modifySlot id (·.enter .notLoaded)).cancel slot.pending = t at reset ⊢
      by_cases hg : t.hasSpace sp
      · rw [if_pos hg]
        exact reset.trans (loadEvent reset.coherent _ _)
      · have gone : t.Gone (.space sp) := .inr (by simpa [hasSpace] using hg)
        rw [demolish_of_gone gone, demolish_nil] at reset
        rwa [if_neg hg]
  · -- only complete content has a space, and from there the way leads back alone
    have incomplete : slot.state ≠ .complete := by
      intro he
      rw [he] at hc
      cases state <;> simp_all [LoadState.canBecome]
    have hsp := (h.sound hn).space_eq_none hl incomplete
    have enter : Edited guest id s (s.modifySlot id (·.enter state)) := by
      refine Edited.slot h fun m hm ↦ ?_
      cases hn.symm.trans hm
      refine ⟨slot, hl, ?_, by simp [hsp]⟩
      cases state <;> first | rfl | exact absurd rfl hs
    have left := enter.trans
      (cancel enter.coherent (if state = .loading then none else slot.pending))
    rw [if_neg hs]
    exact left.trans (loadEvent left.coherent _ _)

theorem warn (h : s.Coherent [] guest) (text : String) (cause : Option Error) :
    Edited guest id s (s.warn text cause) :=
  report h ..

theorem orWarn {a : Attempt} (h : Edited guest id s a.2) (text : String) :
    Edited guest id s (orWarn text a) := by
  obtain ⟨_ | _, t⟩ := a
  · exact h.trans (warn h.coherent _ _)
  · exact h

theorem submit (h : s.Coherent [] guest) {slot : LoadSlot}
    (hs : ∀ n, s.node? id = some n → n.load = some slot) (ticket : Nat) (urls : List String) :
    Edited guest id s (s.submit id ticket urls) := by
  have ticketed : Edited guest id s
      (s.modifySlot id fun slot ↦ { slot with ticket, pending := some ⟨id, ticket⟩ }) :=
    Edited.slot h fun n hn ↦ ⟨slot, hs n hn, rfl, (h.sound hn).content slot (hs n hn)⟩
  exact ticketed.trans (aside ticketed.coherent rfl rfl rfl rfl rfl
    ⟨[], (List.append_nil _).symm, rfl⟩)

theorem requestLoad (h : s.Coherent [] guest) : Edited guest id s (s.requestLoad id).2 := by
  unfold Scene.requestLoad
  split
  · exact .refl h
  next n hn =>
  have loading : Edited guest id s (s.setLoadState id .loading).2 := setLoadState h .loading
  split
  · next he => rwa [he] at loading
  next t ht =>
  rw [ht] at loading
  have fail (text cause) : Edited guest id s ((t.warn text cause).setLoadState id .failed).2 := by
    have warned : Edited guest id s (t.warn text cause) :=
      loading.trans (warn loading.coherent _ _)
    exact warned.trans (setLoadState warned.coherent _)
  split
  · exact fail ..
  split
  · exact fail ..
  obtain ⟨field, hu⟩ := exists_url_of_setLoadState hn ht
  obtain ⟨m, hm, hty, -⟩ := loading.exists_self hn
  obtain ⟨slot, hl⟩ := (loading.coherent.sound hm).exists_slot (hty ▸ hu)
  have hs : ∀ m', t.node? id = some m' → m'.load = some slot := by
    intro m' hm'
    cases hm.symm.trans hm'
    exact hl
  exact loading.trans (submit loading.coherent hs _ _)

theorem autoLoad (h : s.Coherent [] guest) : Edited guest id s (s.autoLoad id) := by
  unfold Scene.autoLoad
  split
  · exact orWarn (requestLoad h) _
  · exact .refl h

theorem urlChanged (h : s.Coherent [] guest) : Edited guest id s (s.urlChanged id) := by
  unfold Scene.urlChanged
  dsimp only
  split
  · have reset : Edited guest id s (Scene.orWarn "Could not reset load state."
        (s.setLoadState id .notLoaded)) := orWarn (setLoadState h _) _
    exact reset.trans (autoLoad reset.coherent)
  · exact autoLoad h

theorem loadSwitched (h : s.Coherent [] guest) (index : Nat) :
    Edited guest id s (s.loadSwitched id index) := by
  unfold Scene.loadSwitched
  split
  · exact .refl h
  split
  · exact autoLoad h
  split
  · exact orWarn (setLoadState h _) _
  · exact .refl h

theorem markAll {outputs : List Nat} (h : s.Coherent [] guest) (hn : s.hasNode id)
    (ho : ∀ n, s.node? id = some n → ∀ i ∈ outputs, i < n.type.table.size) :
    Edited guest id s (outputs.foldl (fun s index ↦ s.markChanged id index) s) := by
  induction outputs generalizing s with
  | nil => exact .refl h
  | cons i outputs ih =>
    obtain ⟨n, hn'⟩ := hasNode_iff.mp hn
    have marked : Edited guest id s (s.markChanged id i) :=
      mark h (fun n hn ↦ ho n hn i List.mem_cons_self) hn
    obtain ⟨m, hm, ht, -⟩ := marked.exists_self hn'
    refine marked.trans (ih marked.coherent (hasNode_iff.mpr ⟨m, hm⟩) fun m' hm' j hj ↦ ?_)
    cases hm.symm.trans hm'
    rw [ht]
    exact ho n hn' j (List.mem_cons_of_mem _ hj)

theorem perform (h : s.Coherent [] guest) (script : Behavior → Script) :
    Edited guest id s (s.perform id script) := by
  unfold Scene.perform
  split
  · exact .refl h
  next n hn =>
  have hs := h.sound hn
  have ha := Script.perform_faithful (script n.type.behavior) (v := s.viewOf id n) hs.values
  have written : Edited guest id s (s.modifyNode id fun n' ↦
      { n' with values := ((script n.type.behavior).perform (s.viewOf id n)).view.values }) := by
    refine amend h fun n' hn' ↦ ?_
    cases hn.symm.trans hn'
    exact ⟨rfl, rfl, rfl, hs.built, ha.holds, hs.flags, hs.slot, hs.content⟩
  have silent (notes : List String) : Journal.changes (notes.map .note) = [] :=
    List.filterMap_eq_nil_iff.mpr (by simp [Entry.change?])
  have noted := written.trans (log written.coherent
    (silent ((script n.type.behavior).perform (s.viewOf id n)).notes))
  dsimp only
  split
  · exact noted
  obtain ⟨m, hm, ht, -⟩ := noted.exists_self hn
  refine noted.trans (markAll noted.coherent (hasNode_iff.mpr ⟨m, hm⟩) fun m' hm' i hi ↦ ?_)
  cases hm.symm.trans hm'
  rw [ht]
  exact ha.outputs i hi

theorem editChildren (h : s.Coherent [] guest) {children : Nat}
    (hc : ∀ n, s.node? id = some n → n.type.children? = some children) (input : Nat)
    (edit : List NodeId → List NodeId → List NodeId) :
    Edited guest id s (s.editChildren id input children edit) := by
  unfold Scene.editChildren
  split
  · exact .refl h
  next n hn =>
  dsimp only
  split
  · exact .refl h
  obtain ⟨d, hd, hshape⟩ := (h.sound hn).built.children_shape (hc n hn)
  have stored : Edited guest id s (s.modifyNode id fun n' ↦
      n'.store children (.ofNodes (edit (refsAt n children) (refsAt n input)))) := by
    refine amend h fun n' hn' ↦ ?_
    cases hn.symm.trans hn'
    exact ⟨rfl, rfl, rfl, (h.sound hn).store hd (hshape _)⟩
  split
  · exact stored
  obtain ⟨m, hm, ht, -⟩ := stored.exists_self hn
  refine stored.trans (mark stored.coherent (fun m' hm' ↦ ?_) (hasNode_iff.mpr ⟨m, hm⟩))
  cases hm.symm.trans hm'
  rw [ht]
  exact FieldTable.lt_size_of_get? hd

theorem applyLoadable (h : s.Coherent [] guest) (type : NodeType) (index : Nat) :
    Edited guest id s (s.applyLoadable id type index) := by
  unfold Scene.applyLoadable
  split
  · exact urlChanged h
  split
  · exact loadSwitched h index
  · exact .refl h

theorem applyCapabilities (h : s.Coherent [] guest) {type : NodeType}
    (ht : ∀ n, s.node? id = some n → n.type = type) (index : Nat) :
    Edited guest id s (s.applyCapabilities id type index) := by
  unfold Scene.applyCapabilities
  split
  · next children hc =>
    have hc : ∀ n, s.node? id = some n → n.type.children? = some children :=
      fun n hn ↦ (ht n hn) ▸ hc
    split
    · exact editChildren h hc ..
    split
    · exact editChildren h hc ..
    · exact applyLoadable h type index
  · exact applyLoadable h type index

/-- A value is stored. Out of setup the change is marked first of all, and then the capabilities
and the behavior of the node's type react to it. -/
theorem setValue_stages (h : s.Coherent [] guest) {index : Nat} {v : Value}
    (hs : s.setValue id index v = .ok s') : ∃ n, s.node? id = some n ∧
      (n.inSetup = true ∧ Edited guest id s (s.modifyNode id fun n ↦ n.store index v) ∧
          s' = (s.modifyNode id fun n ↦ n.store index v) ∨
        n.inSetup = false ∧
          Edited guest id s ((s.modifyNode id fun n ↦ n.store index v).markChanged id index) ∧
          s' = (((s.modifyNode id fun n ↦ n.store index v).markChanged id index).applyCapabilities
            id n.type index).perform id fun b ↦ b.fieldChanged index) := by
  unfold Scene.setValue at hs
  obtain ⟨n, hn, hs⟩ := bind_eq_ok.mp hs
  obtain ⟨⟨⟩, ha, hs⟩ := bind_eq_ok.mp hs
  rw [node_eq_ok] at hn
  obtain ⟨d, hd, -, -, hv, -⟩ := Node.admits_eq_ok.mp ha
  have stored : Edited guest id s (s.modifyNode id fun n ↦ n.store index v) := by
    refine amend h fun n' hn' ↦ ?_
    cases hn.symm.trans hn'
    exact ⟨rfl, rfl, rfl, (h.sound hn).store hd hv⟩
  refine ⟨n, hn, ?_⟩
  cases hi : n.inSetup with
  | true =>
    rw [hi, if_pos rfl] at hs
    cases hs
    exact .inl ⟨rfl, stored, rfl⟩
  | false =>
    rw [hi, if_neg Bool.false_ne_true] at hs
    cases hs
    obtain ⟨m, hm, ht, -⟩ := stored.exists_self hn
    refine .inr ⟨rfl, stored.trans (mark stored.coherent (fun m' hm' ↦ ?_)
      (hasNode_iff.mpr ⟨m, hm⟩)), rfl⟩
    cases hm.symm.trans hm'
    rw [ht]
    exact FieldTable.lt_size_of_get? hd

theorem setValue (h : s.Coherent [] guest) {index : Nat} {v : Value}
    (hs : s.setValue id index v = .ok s') : Edited guest id s s' := by
  obtain ⟨n, hn, ⟨-, stored, rfl⟩ | ⟨-, marked, rfl⟩⟩ := setValue_stages h hs
  · exact stored
  · obtain ⟨m, hm, ht, -⟩ := marked.exists_self hn
    have applied := marked.trans (applyCapabilities marked.coherent
      (fun m' hm' ↦ by
        cases hm.symm.trans hm'
        exact ht) index)
    exact applied.trans (perform applied.coherent _)

theorem openSetup (h : s.Coherent [] guest) :
    Edited guest id s (s.modifyNode id fun n ↦ { n with inSetup := false }) :=
  amend h fun _ hn ↦ ⟨rfl, rfl, rfl, (h.sound hn).built, (h.sound hn).values,
    (h.sound hn).flags, (h.sound hn).slot, (h.sound hn).content⟩

/-- The setup ends, and the behavior of the node's type reacts to it. -/
theorem endSetup (h : s.Coherent [] guest) : Edited guest id s
    ((s.modifyNode id fun n ↦ { n with inSetup := false }).perform id Behavior.setupFinished) :=
  (openSetup h).trans (perform (openSetup h).coherent _)

theorem finishSetup (h : s.Coherent [] guest) (hs : s.finishSetup id = .ok s') :
    Edited guest id s s' := by
  unfold Scene.finishSetup at hs
  obtain ⟨n, hn, hs⟩ := bind_eq_ok.mp hs
  split at hs
  · cases hs
    exact .refl h
  cases hs
  split
  · exact (endSetup h).trans (autoLoad (endSetup h).coherent)
  · exact endSetup h

theorem tickSensor (h : s.Coherent [] guest) : Edited guest id s (s.tickSensor id) := by
  unfold Scene.tickSensor
  split
  · exact .refl h
  split
  · exact .refl h
  · exact perform h _

end Edited

end Scene

end SceneGraph
