import SceneGraph.Proofs.Stroke

/-!
Operations on a scene as sequences of touches.

A touch is a stroke with what the operation checked before it: which values a field admits, from
which state a node enters another, which of its scripts runs. What every scene has that operations
lead to or pass on their way is shown of the touches.
-/

namespace SceneGraph

namespace Scene

/-- What is heard of a tick that comes too early and runs at the time of the one before. -/
def clampWarning (requested previous : Double) : Entry :=
  .report ⟨.warning, s!"Tick time {requested} is before {previous}; clamped.", none⟩

/-- What is logged beside the changes of fields and the course of the ticks. -/
inductive Incidental : Entry → Prop
  | note (text : String) : Incidental (.note text)
  | load (id : NodeId) (field : Nat) (state : LoadState) :
      Incidental (.event (loadEvent id field state))
  | report {r : Report}
      (h : ∀ requested previous, Entry.report r ≠ clampWarning requested previous) :
      Incidental (.report r)

/-- When a script of a node's behavior runs. -/
inductive Cued (n : Node) : (Behavior → Script) → Prop
  | tick (out : n.inSetup = false) (on : isEnabled n) : Cued n Behavior.tick
  | fieldChanged (index : Nat) : Cued n fun b ↦ b.fieldChanged index
  | setupFinished : Cued n Behavior.setupFinished

/-- How an input of a node edits its children. -/
inductive Edits (n : Node) : Nat → (List NodeId → List NodeId → List NodeId) → Prop
  | add {input} (h : n.type.addChildren? = some input) : Edits n input addedChildren
  | remove {input} (h : n.type.removeChildren? = some input) : Edits n input remainingChildren

inductive Touch (l : Licence) : Scene → Scene → Prop
  | log {s js} (h : ∀ e ∈ js, Incidental e) : Touch l s (s.log js)
  | reroute {s spaces} (h : Rerouted l s { s with spaces }) : Touch l s { s with spaces }
  | terminate {s p} (hp : s.loader = some p) : Touch l s { s with loader := some p.terminate.2 }
  | renew {s p provider workers} (h : l.tends) (hp : Pool.new provider workers = .ok p) :
      Touch l s { s with loader := some p }
  | drain {s p} (h : l.tends) (hp : s.loader = some p) :
      Touch l s { s with loader := some p.drain.2 }
  | take {s p} (h : l.tends) (hp : s.loader = some p) : Touch l s { s with loader := some p.take }
  | advance {s p} (h : l.tends) (hp : s.loader = some p) (i : Nat) : Touch l s { s with
      loader := some (p.advance i s.held s.cache).1
      cache := (p.advance i s.held s.cache).2 }
  | useCache (s cache) : Touch l s { s with cache }
  /-- A node waits for a load that was not asked for. -/
  | idle {s id n field} (h : l.idles) (hn : s.node? id = some n) (hu : n.type.url? = some field)
      (hs : (n.load.getD {}).state = .notLoaded) : Touch l s (s.modifySlot id (·.enter .loading))
  /-- A load ends, or the node goes back to the beginning. -/
  | leave {s id n field state} (hn : s.node? id = some n) (hu : n.type.url? = some field)
      (hc : (n.load.getD {}).state.canBecome state = true) (hs : state ≠ .loading) :
      Touch l s ((s.modifySlot id (·.enter state)).cancel (n.load.getD {}).pending)
  /-- A load fails at once. -/
  | vain {s id n field} (hn : s.node? id = some n) (hu : n.type.url? = some field)
      (hs : (n.load.getD {}).state = .notLoaded) :
      Touch l s ((s.modifySlot id fun slot ↦ (slot.enter .loading).enter .failed).cancel
        (n.load.getD {}).pending)
  | ask {s id n field p} (hn : s.node? id = some n) (hu : n.type.url? = some field)
      (hs : (n.load.getD {}).state = .notLoaded) (hw : urls n ≠ []) (hp : s.loader = some p) :
      Touch l s { s.modifySlot id (·.ask id) with
        loader := some
          (p.submit { request := ⟨id, (n.load.getD {}).ticket + 1⟩, urls := urls n }) }
  | fill {s id n field} (content : Content) (space : Option SpaceId) (hn : s.node? id = some n)
      (hu : n.type.url? = some field) (hs : (n.load.getD {}).state = .loading)
      (hk : space.isSome → n.type.content = .scene) :
      Touch l s ((s.modifySlot id (·.fill content space)).cancel (n.load.getD {}).pending)
  | write {s id n index v} (hn : s.node? id = some n) (sound : n.Sound) (out : n.inSetup = false)
      (ha : n.admits s.nodes.issued index v = .ok ()) :
      Touch l s ((s.modifyNode id fun n ↦ n.store index v).markChanged id index)
  | draft {s id n index v} (hn : s.node? id = some n) (hi : n.inSetup = true)
      (ha : n.admits s.nodes.issued index v = .ok ()) :
      Touch l s (s.modifyNode id fun n ↦ n.store index v)
  | perform {s id n script} (hn : s.node? id = some n) (sound : n.Sound) (h : Cued n script) :
      Touch l s (s.perform id script)
  | editChildren {s id n input children edit} (hn : s.node? id = some n) (sound : n.Sound)
      (hc : n.type.children? = some children) (h : Edits n input edit) :
      Touch l s (s.editChildren id input children edit)
  | endSetup {s id n} (h : l.opens id) (hn : s.node? id = some n) (hi : n.inSetup = true) :
      Touch l s (s.modifyNode id fun n ↦ { n with inSetup := false })
  | addNode {s sp x type} (hx : s.space? sp = some x) (ht : type ∈ s.catalog.types) :
      Touch l s (s.addNode sp type)
  | dropNode {s k n} (hn : s.node? (.issued k) = some n) : Touch l s (s.dropNode k n)
  | dequeue {s pending} (h : l.dequeues) (hp : pending <:+ s.pending) : Touch l s { s with pending }

abbrev Touches (l : Licence) : Scene → Scene → Prop := Relation.ReflTransGen (Touch l)

variable {l : Licence} {s s' t : Scene} {guest : Option SpaceId} {id : NodeId} {n : Node}
  {sp : SpaceId} {x : Space} {index field : Nat}

theorem not_clampWarning {r : Report} (h : r.text.toList.head? ≠ some 'T')
    (requested previous : Double) : Entry.report r ≠ clampWarning requested previous := by
  rintro ⟨⟩
  refine h ?_
  simp [String.toList_append, toString]

theorem admits_of_setValue {v : Value} (hn : s.node? id = some n)
    (h : s.setValue id index v = .ok s') : n.admits s.nodes.issued index v = .ok () := by
  unfold setValue at h
  obtain ⟨m, hm, h⟩ := bind_eq_ok.mp h
  obtain ⟨⟨⟩, ha, -⟩ := bind_eq_ok.mp h
  cases hn.symm.trans (node_eq_ok.mp hm)
  exact ha

theorem change?_of_incidental {e : Entry} (h : Incidental e) : e.change? = none := by
  cases h with
  | note | report => rfl
  | load id field state => cases state <;> rfl

theorem performed (hn : s.node? id = some n) (hs : n.Sound) (script : Behavior → Script) :
    Strokes l s (s.perform id script) := by
  have faithful := Script.perform_faithful (script n.type.behavior) (v := s.viewOf id n) hs.values
  have others := Script.perform_others (script n.type.behavior) (s.viewOf id n)
  unfold Scene.perform
  simp only [hn]
  generalize (script n.type.behavior).perform (s.viewOf id n) = a at faithful others
  rw [← modifyNode_log]
  have noted : Strokes l s (s.log (a.notes.map .note)) := .log (changes_notes _)
  split
  · next hi => exact noted.tail (.draft (fun _ ↦ a.view.values) hn hi)
  · next hi =>
    refine noted.tail (.revise (fun _ ↦ a.view.values) _ hn (Bool.not_eq_true _ ▸ hi)
      (fun i hm ↦ ?_) others)
    rw [hs.flags]
    exact faithful.outputs i hm

theorem edited (hn : s.node? id = some n) (hs : n.Sound) {children : Nat}
    (hc : n.type.children? = some children) (input : Nat)
    (edit : List NodeId → List NodeId → List NodeId) :
    Strokes l s (s.editChildren id input children edit) := by
  obtain ⟨d, hd, -⟩ := hs.built.children_shape hc
  unfold Scene.editChildren
  simp only [hn]
  split
  · exact .refl
  generalize Value.ofNodes (edit (refsAt n children) (refsAt n input)) = v
  split
  · next hi => exact .single (.draft (fun vs ↦ vs.set children v) hn hi)
  · next hi => exact .single (stored hs hn (Bool.not_eq_true _ ▸ hi) hd v)

/-- A node does not wait, and what it waited for is cancelled. -/
theorem calledOff {f : LoadSlot → LoadSlot} {r : Option Request} (hn : s.node? id = some n)
    (ticket : (f (n.load.getD {})).ticket = (n.load.getD {}).ticket)
    (hf : (f (n.load.getD {})).state ≠ .loading) : Strokes l s ((s.modifySlot id f).cancel r) :=
  .head (.slot hn ticket fun he ↦ absurd he hf) (Strokes.cancel r)

theorem Touch.strokes (h : Touch l s s') : Strokes l s s' := by
  cases h with
  | log h => exact .log (List.filterMap_eq_nil_iff.mpr fun e he ↦ change?_of_incidental (h e he))
  | reroute h => exact .reroute rfl rfl rfl rfl h
  | terminate hp => exact .single (.terminate hp)
  | renew h | drain h | take h => exact .single (.tend h s _ s.cache)
  | advance h => exact .single (.tend h s _ _)
  | useCache => exact .aside rfl rfl rfl rfl ⟨[], (List.append_nil _).symm, rfl⟩
  | idle h hn => exact .single (.slot hn rfl fun _ ↦ .inl h)
  | leave hn _ _ hs =>
    exact calledOff hn (LoadSlot.enter_ticket ..) (by rwa [LoadSlot.enter_state])
  | vain hn => exact calledOff hn rfl nofun
  | fill _ _ hn => exact calledOff hn rfl nofun
  | ask hn _ hs _ hp => exact .single (.ask hn hs hp)
  | write hn sound out ha =>
    obtain ⟨d, hd, -⟩ := Node.admits_eq_ok.mp ha
    exact .single (stored sound hn out hd _)
  | draft hn hi => exact .single (.draft (fun vs ↦ vs.set _ _) hn hi)
  | perform hn sound => exact performed hn sound _
  | editChildren hn sound hc => exact edited hn sound hc _ _
  | endSetup h => exact .single (.endSetup h)
  | addNode => exact .single (.addNode _ _ _)
  | dropNode hn => exact .single (.dropNode hn)
  | dequeue h => exact .single (.dequeue h _ _)

theorem Touches.strokes (h : Touches l s s') : Strokes l s s' := by
  induction h with
  | refl => exact .refl
  | tail _ ht ih => exact ih.trans ht.strokes

namespace Touches

theorem log {js : Journal} (h : ∀ e ∈ js, Incidental e) : Touches l s (s.log js) :=
  .single (.log h)

theorem report {severity : Severity} {text : String} {cause : Option Error}
    (h : text.toList.head? ≠ some 'T') : Touches l s (s.report severity text cause) :=
  log fun e he ↦ by
    cases List.mem_singleton.mp he
    exact .report (not_clampWarning h)

theorem warn {text : String} {cause : Option Error} (h : text.toList.head? ≠ some 'T') :
    Touches l s (s.warn text cause) :=
  report h

theorem loadEvent (id : NodeId) (field : Nat) (state : LoadState) :
    Touches l s (s.emit (loadEvent id field state)) :=
  log fun e he ↦ by
    cases List.mem_singleton.mp he
    exact .load ..

theorem reroute (he : s' = { s with spaces := s'.spaces }) (h : Rerouted l s s') :
    Touches l s s' := by
  rw [he] at h ⊢
  exact .single (.reroute h)

theorem modifySpace {f : Space → Space} (h : ∀ x, (f x).routes.Sublist x.routes) :
    Touches l s (s.modifySpace sp f) :=
  reroute rfl (.modifySpace (.inr fun x _ ↦ h x))

/-- A change to the roots or the names of a space. -/
theorem relist {f : Space → Space} (h : ∀ x, (f x).routes = x.routes) :
    Touches l s (s.modifySpace sp f) :=
  modifySpace fun x ↦ (h x).symm ▸ List.Sublist.refl _

theorem demolish (doomed : List Doomed) (s : Scene) : Touches l s (s.demolish doomed) := by
  refine demolish_induction (motive := fun _ s s' ↦ Touches l s s') ?_ ?_ ?_ ?_ doomed s
  · exact fun _ ↦ .refl
  · exact fun _ _ _ _ _ ih ↦ ih
  · intro sp x rest s s' _ _ ih
    exact .trans (reroute (by cases x.parent <;> rfl) (.dropSpace _)) ih
  · exact fun _ _ _ _ _ hn ih ↦ .head (.dropNode hn) ih

theorem removeSpace (h : s.removeSpace sp = .ok s') : Touches l s s' := by
  unfold Scene.removeSpace at h
  split at h
  · cases h
  obtain ⟨x, -, h⟩ := bind_eq_ok.mp h
  cases h
  exact demolish ..

theorem removeNode (h : s.removeNode id = .ok s') : Touches l s s' := by
  obtain ⟨n, -, rfl⟩ := removeNode_eq_ok.mp h
  have detached : Touches l s (s.modifySpace n.space (·.detach id)) :=
    modifySpace fun _ ↦ List.filter_sublist
  exact detached.trans (demolish ..)

section loading

theorem discard {o : Option SpaceId} (h : s.discard o = .ok s') : Touches l s s' := by
  cases o with
  | none =>
    cases h
    exact .refl
  | some sp => exact removeSpace h

theorem setLoadState {state : LoadState} (hs : state = .loading → l.idles) :
    Touches l s (s.setLoadState id state).2 := by
  unfold Scene.setLoadState
  split
  · exact .refl
  next n hn =>
  split
  · exact .refl
  next field hu =>
  dsimp only
  split
  · exact .refl
  next hc =>
  have hc : (n.load.getD {}).state.canBecome state = true := by simpa using hc
  have entered : Touches l s ((s.modifySlot id (·.enter state)).cancel
      (if state = .loading then none else (n.load.getD {}).pending)) := by
    by_cases he : state = .loading
    · subst he
      have started : (n.load.getD {}).state = .notLoaded := by
        revert hc
        cases (n.load.getD {}).state <;> decide
      exact .single (.idle (hs rfl) hn hu started)
    · rw [if_neg he]
      exact .single (.leave hn hu hc he)
  split
  · exact entered
  · next he => exact (entered.trans (discard he)).trans (loadEvent ..)

theorem reset : Touches l s (s.setLoadState id .notLoaded).2 := setLoadState nofun

theorem orWarn {a : Attempt} (h : Touches l s a.2) {text : String}
    (ht : text.toList.head? ≠ some 'T') : Touches l s (Scene.orWarn text a) := by
  obtain ⟨_ | _, t⟩ := a
  · exact h.trans (warn ht)
  · exact h

/-- A node that just began to load fails. -/
theorem setFailed {js : Journal} (hn : s.node? id = some n) (hu : n.type.url? = some field)
    (hs : (n.load.getD {}).state = .notLoaded) (hj : ∀ e ∈ js, Incidental e) :
    Touches l s (((s.modifySlot id (·.enter .loading)).log js).setLoadState id .failed).2 := by
  rw [setLoadState_fail js hn hu rfl]
  refine .head (.vain hn hu hs) (log fun e he ↦ ?_)
  rcases List.mem_append.mp he with he | he
  · exact hj e he
  · cases List.mem_singleton.mp he
    exact .load ..

theorem requestLoad : Touches l s (s.requestLoad id).2 := by
  unfold Scene.requestLoad
  split
  · exact .refl
  next n hn =>
  rcases setLoadState_loading hn with ⟨e, he⟩ | ⟨field, hu, hs, he⟩
  · rw [he]
  rw [he]
  dsimp only
  have failed {text : String} {cause : Option Error} (ht : text.toList.head? ≠ some 'T') :
      Touches l s ((((s.modifySlot id (·.enter .loading)).emit
        (Scene.loadEvent id field .loading)).warn text cause).setLoadState id .failed).2 := by
    rw [emit, Scene.warn, Scene.report, log_log]
    refine setFailed hn hu hs fun e he ↦ ?_
    rcases List.mem_append.mp he with he | he <;> cases List.mem_singleton.mp he
    · exact .load ..
    · exact .report (not_clampWarning ht)
  split
  · exact failed (by decide)
  next hw =>
  split
  · exact failed (by decide)
  next hp =>
  obtain ⟨p, hp⟩ := Option.ne_none_iff_exists'.mp (mt Option.isNone_iff_eq_none.mpr hp)
  have hp : s.loader = some p := (loader_modifyNode ..).symm.trans hp
  have asked : Touches l s _ := .single (.ask hn hu hs (mt List.isEmpty_iff.mpr hw) hp)
  rw [emit, submit_log, submit_enter hn hp]
  exact asked.trans (loadEvent id field .loading)

theorem autoLoad : Touches l s (s.autoLoad id) := by
  unfold Scene.autoLoad
  split
  · exact orWarn requestLoad (by decide)
  · exact .refl

theorem autoLoads (ids : List NodeId) (s : Scene) : Touches l s (ids.foldl Scene.autoLoad s) :=
  List.foldlRecOn ids Scene.autoLoad (motive := fun t ↦ Touches l s t) .refl
    fun _ hp _ _ ↦ hp.trans autoLoad

theorem urlChanged : Touches l s (s.urlChanged id) := by
  unfold Scene.urlChanged
  dsimp only
  split
  · exact (orWarn reset (by decide)).trans autoLoad
  · exact autoLoad

theorem loadSwitched : Touches l s (s.loadSwitched id index) := by
  unfold Scene.loadSwitched
  split
  · exact .refl
  split
  · exact autoLoad
  split
  · exact orWarn reset (by decide)
  · exact .refl

theorem applyLoadable (type : NodeType) : Touches l s (s.applyLoadable id type index) := by
  unfold Scene.applyLoadable
  split
  · exact urlChanged
  split
  · exact loadSwitched
  · exact .refl

end loading

section writing

theorem perform (h : s.Coherent [] guest) {script : Behavior → Script}
    (hc : ∀ n, s.node? id = some n → Cued n script) : Touches l s (s.perform id script) := by
  cases hn : s.node? id with
  | none =>
    unfold Scene.perform
    rw [hn]
  | some n => exact .single (.perform hn (h.sound hn) (hc n hn))

theorem editChildren (h : s.Coherent [] guest) {children input : Nat}
    {edit : List NodeId → List NodeId → List NodeId}
    (hc : ∀ n, s.node? id = some n → n.type.children? = some children ∧ Edits n input edit) :
    Touches l s (s.editChildren id input children edit) := by
  cases hn : s.node? id with
  | none =>
    unfold Scene.editChildren
    rw [hn]
  | some n =>
    obtain ⟨hc, he⟩ := hc n hn
    exact .single (.editChildren hn (h.sound hn) hc he)

theorem applyCapabilities (h : s.Coherent [] guest) {type : NodeType}
    (ht : ∀ n, s.node? id = some n → n.type = type) :
    Touches l s (s.applyCapabilities id type index) := by
  unfold Scene.applyCapabilities
  split
  · next children hc =>
    split
    · next ha =>
      refine editChildren h fun n hn ↦ ?_
      cases ht n hn
      exact ⟨hc, .add ha⟩
    split
    · next hr =>
      refine editChildren h fun n hn ↦ ?_
      cases ht n hn
      exact ⟨hc, .remove hr⟩
    · exact applyLoadable type
  · exact applyLoadable type

theorem setValue (h : s.Coherent [] guest) {v : Value} (hs : s.setValue id index v = .ok s') :
    Touches l s s' := by
  have admitted : ∀ n, s.node? id = some n → n.admits s.nodes.issued index v = .ok () :=
    fun n hn ↦ admits_of_setValue hn hs
  obtain ⟨n, hn, ⟨hi, -, rfl⟩ | ⟨hi, marked, rfl⟩⟩ := Edited.setValue_stages h hs
  · exact .single (.draft hn hi (admitted n hn))
  · obtain ⟨m, hm, ht, -⟩ := marked.exists_self hn
    have ofType : ∀ m', ((s.modifyNode id fun n ↦ n.store index v).markChanged id index).node? id =
        some m' → m'.type = n.type := fun m' hm' ↦ by
      cases hm.symm.trans hm'
      exact ht
    have applied := Edited.applyCapabilities marked.coherent ofType index
    refine .head (.write hn (h.sound hn) hi (admitted n hn)) ?_
    exact (applyCapabilities marked.coherent ofType).trans
      (perform applied.coherent fun _ _ ↦ .fieldChanged index)

/-- The setup of a node ends, and its behavior and its load begin. -/
theorem finishSetup (h : s.Coherent [] guest) (hs : s.finishSetup id = .ok s') :
    s' = s ∨ ∃ n, s.node? id = some n ∧ n.inSetup = true ∧
      Touches l (s.modifyNode id fun n ↦ { n with inSetup := false }) s' := by
  unfold Scene.finishSetup at hs
  obtain ⟨n, hn, hs⟩ := bind_eq_ok.mp hs
  rw [node_eq_ok] at hn
  cases hi : n.inSetup with
  | false =>
    rw [hi] at hs
    cases hs
    exact .inl rfl
  | true =>
    rw [hi] at hs
    cases hs
    have opened : (s.modifyNode id fun n ↦ { n with inSetup := false }).Coherent [] guest :=
      (Edited.openSetup h).coherent
    refine .inr ⟨n, hn, hi, ?_⟩
    split
    · exact (perform opened fun _ _ ↦ .setupFinished).trans autoLoad
    · exact perform opened fun _ _ ↦ .setupFinished

theorem tickSensor (h : s.Coherent [] guest) : Touches l s (s.tickSensor id) := by
  unfold Scene.tickSensor
  split
  · exact .refl
  next n hn =>
  split
  · exact .refl
  next hs =>
  have ready : n.inSetup = false ∧ isEnabled n = true := by simpa using hs
  refine perform h fun m hm ↦ ?_
  cases hn.symm.trans hm
  exact .tick ready.1 ready.2

end writing

end Touches

end Scene

end SceneGraph
