import SceneGraph.Proofs.Passing
import SceneGraph.Proofs.Reloading
import SceneGraph.Proofs.Replacing

/-!
Operations in legs.

A leg is a write from outside with all that reacts to it, the end of a setup, the tick of a sensor,
a new node, or work beside these. Such work leaves the fields of nodes alone, and no load begins but
for those who ask for one and those whose load was under way.
-/

namespace SceneGraph

/-- The operation asks for the node's load, or puts the node into a state of its choice. -/
inductive Operation.Asks : Operation → NodeId → Prop
  | requestLoad (id) : Asks (requestLoad id) id
  | setLoadState (id state) : Asks (setLoadState id state) id

namespace Node

/-- How the load of a node may fare. It begins if the node asked, and goes on if it was under
way. -/
inductive Fared (asked : Prop) (n m : Node) : Prop
  | kept (h : m.load = n.load)
  | reset {slot : LoadSlot} (h : m.load = some (slot.enter .notLoaded))
  | begun (h : m.loadState? ≠ some .notLoaded) (ha : asked ∨ n.loadState? = some .loading)

variable {asked : Prop} {n m n' : Node}

theorem loadState?_congr (h : m.load = n.load) : m.loadState? = n.loadState? := by
  rw [loadState?, loadState?, h]

theorem Fared.trans (h : Fared asked n m) (h' : Fared asked m n') : Fared asked n n' := by
  cases h' with
  | kept hk =>
    cases h with
    | kept hk' => exact .kept (hk.trans hk')
    | reset hr => exact .reset (hk.trans hr)
    | begun hb ha => exact .begun (loadState?_congr hk ▸ hb) ha
  | reset hr => exact .reset hr
  | begun hb later =>
    refine .begun hb (later.elim .inl fun hw ↦ ?_)
    cases h with
    | kept hk => exact .inr (loadState?_congr hk ▸ hw)
    | reset hr =>
      -- who is back at the beginning is not loading
      rw [loadState?, hr] at hw
      cases hw
    | begun _ ha => exact ha

end Node

namespace Scene

/-- The nodes of the second scene are nodes of the first, but for their flags and their loads. -/
structure Fares (asked : NodeId → Prop) (s s' : Scene) : Prop where
  node : ∀ {k m}, s'.node? k = some m → ∃ n, s.node? k = some n ∧
    m = { n with load := m.load, changed := m.changed } ∧ n.Fared (asked k) m

inductive Leg (asked : NodeId → Prop) : Scene → Scene → Prop
  | aside {s s'} (h : Fares asked s s') : Leg asked s s'
  | addNode {s sp type} (ht : type ∈ s.catalog.types) : Leg asked s (s.addNode sp type)
  | setValue {s s' guest id index v} (hc : s.Coherent [] guest)
      (h : s.setValue id index v = .ok s') : Leg asked s s'
  | finishSetup {s s' guest id} (hc : s.Coherent [] guest) (h : s.finishSetup id = .ok s') :
      Leg asked s s'
  | tickSensor {s guest} (hc : s.Coherent [] guest) (id : NodeId) : Leg asked s (s.tickSensor id)

abbrev Legs (asked : NodeId → Prop) : Scene → Scene → Prop := Relation.ReflTransGen (Leg asked)

/-- Legs that consist of passes, as they do in operations. -/
abbrev Travels (asked : NodeId → Prop) : Scene → Scene → Prop :=
  Relation.ReflTransGen fun s s' ↦ Leg asked s s' ∧ Passes s s'

/-- Whatever may be done at once. -/
def Licence.free : Licence := ⟨fun _ ↦ True, True, True, True, fun _ ↦ True⟩

variable {asked : NodeId → Prop} {s s' t : Scene} {guest : Option SpaceId} {id : NodeId}
  {n m : Node} {sp : SpaceId} {x : Space} {r : Route} {b : Bool} {c : Completion}

namespace Fares

theorem shrunk (h : Shrunk s s') : Fares asked s s' :=
  ⟨fun hm ↦ ⟨_, h.node hm, rfl, .kept rfl⟩⟩

theorem of_nodes (h : s'.nodes = s.nodes) : Fares asked s s' :=
  ⟨fun hm ↦ ⟨_, node?_congr h _ ▸ hm, rfl, .kept rfl⟩⟩

protected theorem refl (s : Scene) : Fares asked s s := of_nodes rfl

protected theorem trans (h : Fares asked s t) (h' : Fares asked t s') : Fares asked s s' where
  node hm := by
    obtain ⟨n', hn', he', later⟩ := h'.node hm
    obtain ⟨n, hn, he, before⟩ := h.node hn'
    exact ⟨n, hn, by rw [he', he], before.trans later⟩

/-- Those whose load was under way need not ask. -/
theorem absorb {waiting : NodeId → Prop} (h : Fares (fun k ↦ asked k ∨ waiting k) s s')
    (hw : ∀ k n, waiting k → s.node? k = some n → n.loadState? = some .loading) :
    Fares asked s s' where
  node {k m} hm := by
    obtain ⟨n, hn, he, fared⟩ := h.node hm
    refine ⟨n, hn, he, ?_⟩
    cases fared with
    | kept hk => exact .kept hk
    | reset hr => exact .reset hr
    | begun hb ha =>
      refine .begun hb (ha.elim (fun ha ↦ ha.imp_right fun hk ↦ ?_) .inr)
      exact hw k n hk hn

/-- Work on the load of one node. -/
theorem of_reloads (h : Reloads s s')
    (other : ∀ {k m}, k ≠ id → s'.node? k = some m → s.node? k = some m)
    (self : ∀ {n m}, s.node? id = some n → s'.node? id = some m → n.Fared (asked id) m) :
    Fares asked s s' where
  node {k m} hm := by
    by_cases hk : k = id
    · subst hk
      obtain ⟨n, hn, he⟩ := h.node hm
      exact ⟨n, hn, by rw [he], self hn hm⟩
    · exact ⟨m, other hk hm, rfl, .kept rfl⟩

theorem setLoadState (h : s.Coherent [] guest) (state : LoadState) (ha : state = .notLoaded ∨
      asked id ∨ ∀ n, s.node? id = some n → n.loadState? = some .loading) :
    Fares asked s (s.setLoadState id state).2 := by
  refine of_reloads (.setLoadState ..) (Edited.setLoadState h state).node fun {n m} hn hm ↦ ?_
  rcases setLoadState_cases h id state with
    ⟨e, he⟩ | ⟨n', slot, field, t, hn', -, -, -, entered, ht⟩
  · rw [he] at hm
    cases hn.symm.trans hm
    exact .kept rfl
  cases hn.symm.trans hn'
  have after : (s.setLoadState id state).2.node? id =
      some { n with load := some (slot.enter state) } := by
    rcases ht with ⟨-, -, he, -⟩ | ⟨-, he⟩
    all_goals
      rw [he]
      exact entered.self
  cases hm.symm.trans after
  by_cases hs : state = .notLoaded
  · subst hs
    exact .reset rfl
  · refine .begun (fun he ↦ hs ?_) ((ha.resolve_left hs).imp_right fun hw ↦ hw n hn)
    rw [← slot.enter_state state]
    exact Option.some.inj he

theorem reset (h : s.Coherent [] guest) : Fares asked s (s.setLoadState id .notLoaded).2 :=
  setLoadState h _ (.inl rfl)

theorem orWarn {a : Attempt} (h : Fares asked s a.2) (text : String) :
    Fares asked s (orWarn text a) := by
  obtain ⟨_ | _, t⟩ := a
  · exact h.trans (of_nodes rfl)
  · exact h

theorem requestLoad (h : s.Coherent [] guest) (ha : asked id) :
    Fares asked s (s.requestLoad id).2 := by
  refine of_reloads (.requestLoad ..) (Edited.requestLoad h).node fun {n m} hn hm ↦ ?_
  rcases requestLoad_cases h id with ⟨e, he⟩ | ⟨n', slot, s', hn', hl, -, he, turned⟩
  · rw [he] at hm
    cases hn.symm.trans hm
    exact .kept rfl
  rw [he] at hm
  cases hn.symm.trans hn'
  refine .begun (fun hs ↦ ?_) (.inl ha)
  obtain ⟨σ, hσ, hs⟩ := Option.map_eq_some_iff.mp hs
  have before := slot?_of_load hn hl
  have after := slot?_of_load hm hσ
  rcases turned with ⟨turned, -⟩ | ⟨turned, -⟩
  all_goals
    cases turned.slot_eq before after
    cases hs

theorem autoLoad (h : s.Coherent [] guest) (ha : s.wantsLoad id → asked id) :
    Fares asked s (s.autoLoad id) := by
  unfold Scene.autoLoad
  split
  · next hw => exact (requestLoad h (ha hw)).orWarn _
  · exact .refl s

theorem checkChanged {index : Nat} (h : s.checkChanged id index = .ok (b, s')) :
    Fares asked s s' := by
  obtain ⟨n, -, h⟩ := bind_eq_ok.mp h
  cases h
  refine ⟨fun {k m} hm ↦ ?_⟩
  rw [node?_modifyNode] at hm
  split at hm
  · obtain ⟨n, hn, rfl⟩ := Option.map_eq_some_iff.mp hm
    exact ⟨n, hn, rfl, .kept rfl⟩
  · exact ⟨m, hm, rfl, .kept rfl⟩

/-- The loads that a new provider interrupts were under way. -/
theorem setProvider (h : s.Coherent [] none) (provider : Provider) :
    Fares asked s (s.setProvider provider).2 := by
  have fares : Fares (fun k ↦ asked k ∨ k ∈ s.interrupted) s (s.setProvider provider).2 := by
    unfold Scene.setProvider
    split
    · exact .refl s
    next pool _ =>
    have reset := inTurn_induction (f := fun id s ↦ s.setLoadState id .notLoaded)
      (P := fun t ↦ t.Coherent [] none ∧ Fares (fun k ↦ asked k ∨ k ∈ s.interrupted) s t)
      s.interrupted (fun id _ t ⟨hc, hs⟩ ↦
        ⟨(Edited.setLoadState hc .notLoaded).coherent, hs.trans (.reset hc)⟩) ⟨h, .refl s⟩
    dsimp only
    split
    · next he =>
      rw [he] at reset
      exact reset.2
    next t he =>
    rw [he] at reset
    have renewed : { t with loader := some pool }.Coherent [] none :=
      reset.1.congr rfl rfl rfl rfl fun _ hp ↦ hp
    refine (List.foldlRecOn s.interrupted Scene.autoLoad
      (motive := fun t ↦ t.Coherent [] none ∧ Fares (fun k ↦ asked k ∨ k ∈ s.interrupted) s t)
      ⟨renewed, ?_⟩ fun t ⟨hc, hs⟩ id hid ↦
        ⟨(Edited.autoLoad hc).coherent, hs.trans (autoLoad hc fun _ ↦ .inr hid)⟩).2
    exact .trans reset.2 (of_nodes rfl)
  refine fares.absorb fun k n hk hn ↦ ?_
  obtain ⟨n', slot, hn', hl, hs⟩ := exists_of_mem_interrupted hk
  cases hn.symm.trans hn'
  rw [Node.loadState?, hl, Option.map_some, hs]

end Fares

namespace Travels

theorem aside (h : Fares asked s s') (hp : Passes s s') : Travels asked s s' :=
  .single ⟨.aside h, hp⟩

/-- Work that leaves the nodes alone. -/
theorem of_nodes (h : s'.nodes = s.nodes) (hp : Passes s s') : Travels asked s s' :=
  aside (.of_nodes h) hp

theorem touch (h : s'.nodes = s.nodes) (ht : Touch .free s s') : Travels asked s s' :=
  of_nodes h (.single (.touch ht))

theorem report {severity : Severity} {text : String} {cause : Option Error}
    (h : text.toList.head? ≠ some 'T') : Travels asked s (s.report severity text cause) :=
  of_nodes rfl (Touches.report (l := .free) h).passes

theorem legs (h : Travels asked s s') : Legs asked s s' := by
  induction h with
  | refl => exact .refl
  | tail _ h ih => exact ih.tail h.1

section tables

theorem createNode {typeName : String} (h : s.createNode sp typeName = .ok (id, s')) :
    Travels asked s s' := by
  obtain ⟨x, type, -, ht, -, rfl⟩ := createNode_eq_ok.mp h
  exact .single ⟨.addNode (List.mem_of_find?_eq_some ht), (Touches.createNode (l := .free) h).passes⟩

theorem openSpace {kind : SpaceKind} {owner : Option NodeId} {q : SpaceId}
    (h : s.openSpace kind sp owner = .ok (q, s')) : Travels asked s s' := by
  have passes := (Touches.openSpace (l := .free) h).passes
  obtain ⟨x, -, -, rfl⟩ := openSpace_eq_ok.mp h
  exact of_nodes rfl passes

theorem removeNode (h : s.removeNode id = .ok s') : Travels asked s s' := by
  have passes := (Touches.removeNode (l := .free) h).passes
  obtain ⟨n, -, rfl⟩ := removeNode_eq_ok.mp h
  have detached : Fares asked s (s.modifySpace n.space (·.detach id)) := .of_nodes rfl
  exact aside (detached.trans (.shrunk (shrunk_demolish ..))) passes

theorem removeNodes {ids : List NodeId} (h : ids.foldlM Scene.removeNode s = .ok s') :
    Travels asked s s' := by
  induction ids generalizing s with
  | nil =>
    cases h
    exact .refl
  | cons id ids ih =>
    obtain ⟨t, ht, h⟩ := bind_eq_ok.mp h
    exact (removeNode ht).trans (ih h)

theorem collect {ids : List NodeId} (h : s.collect sp = .ok (ids, s')) : Travels asked s s' := by
  obtain ⟨x, -, h⟩ := bind_eq_ok.mp h
  obtain ⟨t, ht, h⟩ := bind_eq_ok.mp h
  cases h
  exact removeNodes ht

theorem addRouteIn (h : s.addRouteIn sp r = .ok (b, s')) : Travels asked s s' :=
  of_nodes (Rewired.addRouteIn h).nodes (Touches.addRouteIn (l := .free) trivial h).passes

theorem addRoute (h : s.addRoute r = .ok (b, s')) : Travels asked s s' := by
  obtain ⟨n, -, h⟩ := bind_eq_ok.mp h
  exact addRouteIn h

theorem addStatement {statement : Statement} (h : s.addStatement sp statement = .ok (b, s')) :
    Travels asked s s' := by
  obtain ⟨r, -, h⟩ := bind_eq_ok.mp h
  exact addRouteIn h

theorem removeRoute (s : Scene) (r : Route) : Travels asked s (s.removeRoute r).2 := by
  refine of_nodes ?_ (Touches.removeRoute (l := .free) s r).passes
  unfold Scene.removeRoute
  split
  · rfl
  split <;> rfl

theorem removeRoot (h : s.removeRoot sp id = .ok (b, s')) : Travels asked s s' := by
  have passes := (Touches.removeRoot (l := .free) h).passes
  obtain ⟨x, -, h⟩ := bind_eq_ok.mp h
  cases h
  exact of_nodes rfl passes

theorem define {name : String} (h : s.define sp name id = .ok s') : Travels asked s s' := by
  have passes := (Touches.define (l := .free) h).passes
  obtain ⟨x, -, -, rfl⟩ := define_eq_ok.mp h
  exact of_nodes rfl passes

theorem terminateLoads (s : Scene) : Travels asked s s.terminateLoads.2 := by
  refine of_nodes ?_ (Touches.terminateLoads (l := .free) s).passes
  unfold Scene.terminateLoads
  split <;> rfl

end tables

theorem setValue (hc : s.Coherent [] guest) {index : Nat} {v : Value}
    (h : s.setValue id index v = .ok s') : Travels asked s s' :=
  .single ⟨.setValue hc h, (Touches.setValue (l := .free) hc h).passes⟩

theorem finishSetup (hc : s.Coherent [] guest) (h : s.finishSetup id = .ok s') :
    Travels asked s s' := by
  refine .single ⟨.finishSetup hc h, ?_⟩
  rcases Touches.finishSetup (l := .free) hc h with rfl | ⟨n, hn, hi, opened⟩
  · exact .refl
  · exact opened.passes.head (.touch (l := .free) (.endSetup trivial hn hi))

section reading

variable {s₀ : Scene} {x₀ : Space} {env : Surroundings} {d d' : Draft}

theorem step (h : Drafting s₀ guest env.space x₀ d) (hs : Draft.Step env d d') :
    Travels asked d.scene d'.scene := by
  cases hs with
  | create hc =>
    obtain ⟨t, ht, rfl⟩ := Draft.create_eq_ok.mp hc
    exact createNode ht
  | define _ hc =>
    obtain ⟨t, ht, rfl⟩ := Draft.define_eq_ok.mp hc
    exact define ht
  | set _ hc =>
    obtain ⟨t, ht, rfl⟩ := Draft.set_eq_ok.mp hc
    exact setValue h.coherent ht
  | addRoute => exact .refl

theorem steps (h₀ : s₀.Coherent [] guest) (hx : s₀.space? env.space = some x₀)
    (hs : Draft.Steps env ⟨s₀, [], []⟩ d) : Travels asked s₀ d.scene := by
  induction hs with
  | refl => exact .refl
  | tail hs hs' ih => exact ih.trans (step ((Drafting.refl h₀ hx).steps h₀ hx hs) hs')

theorem rollBack (d : Draft) : Travels asked d.scene d.rollBack := by
  unfold Draft.rollBack
  refine List.foldlRecOn _ _ (motive := fun s ↦ Travels asked d.scene s) .refl fun s hs id _ ↦ ?_
  exact after_induction (P := fun t ↦ Travels asked d.scene t) hs fun t ht ↦ hs.trans (removeNode ht)

theorem commit (h : d.scene.Coherent [] guest) (text : String) (roots : List NodeId) :
    Travels asked d.scene (Scene.commit sp text roots d).2 := by
  have rooted := inTurn_induction (f := fun id s ↦ s.keep ((s.addRoot sp id).map Prod.snd))
    (P := fun s ↦ s.Coherent [] guest ∧ Travels asked d.scene s) roots
    (fun id _ s ⟨hs, hp⟩ ↦ by
      refine keep_induction (P := fun s ↦ s.Coherent [] guest ∧ Travels asked d.scene s)
        ⟨hs, hp⟩ fun s' ha ↦ ?_
      cases hr : s.addRoot sp id with
      | error => cases hr ▸ ha
      | ok a =>
        cases hr ▸ ha
        have rooted : Travels asked s a.2 :=
          of_nodes (Rewired.addRoot hr).nodes (Touches.addRoot (l := .free) hr).passes
        exact ⟨hs.addRoot hr, hp.trans rooted⟩) ⟨h, .refl⟩
  unfold Scene.commit
  split
  · next he =>
    rw [he] at rooted
    exact rooted.2
  next t he =>
  rw [he] at rooted
  have routed : (d.routes.foldl (Scene.addStatementOrWarn text sp) t).Coherent [] guest ∧
      Travels asked d.scene (d.routes.foldl (Scene.addStatementOrWarn text sp) t) := by
    refine List.foldlRecOn d.routes (Scene.addStatementOrWarn text sp)
      (motive := fun s ↦ s.Coherent [] guest ∧ Travels asked d.scene s) rooted ?_
    intro s ⟨hs, hp⟩ r _
    have rewired : Rewired s (Scene.addStatementOrWarn text sp s r) := .addStatementOrWarn text r
    have passes : Passes s (Scene.addStatementOrWarn text sp s r) :=
      (Touches.addStatementOrWarn (l := .free) trivial text s r).passes
    exact ⟨hs.addStatementOrWarn text r, hp.trans (of_nodes rewired.nodes passes)⟩
  have finished := inTurn_induction (f := fun id s ↦ s.keep (s.finishSetup id))
    (P := fun s ↦ s.Coherent [] guest ∧ Travels asked d.scene s) d.created
    (fun id _ s ⟨hs, hp⟩ ↦ by
      refine keep_induction (P := fun s ↦ s.Coherent [] guest ∧ Travels asked d.scene s)
        ⟨hs, hp⟩ fun s' hf ↦ ⟨(Edited.finishSetup hs hf).coherent, ?_⟩
      exact hp.trans (finishSetup hs hf)) routed
  exact finished.2

theorem load (h : s.Coherent [] guest) (sp : SpaceId) (text : String) :
    Travels asked s (s.load sp text).2 := by
  cases hs : s.hasSpace sp with
  | false => rw [load_of_unknown hs]
  | true =>
    obtain ⟨x, hx⟩ := hasSpace_iff.mp hs
    unfold Scene.load
    simp only [hs, Bool.not_true, Bool.false_eq_true, if_false]
    split
    · exact report (by decide)
    next tokens _ =>
    have start : Draft.Steps ⟨sp, text.utf8ByteSize⟩ ⟨s, [], []⟩ ⟨s, [], []⟩ := .refl
    have reads := Reader.document_reads start tokens
    split
    · next fault d he =>
      rw [he] at reads
      exact ((steps h hx reads).trans (rollBack d)).trans (report (by decide))
    · next roots d he =>
      rw [he] at reads
      have drafting := (Drafting.refl h hx).steps h hx reads.1
      have committed : Travels asked d.scene (Scene.commit sp text roots d).2 :=
        commit drafting.coherent text roots
      split
      all_goals
        next hc =>
        rw [hc] at committed
        exact (steps h hx reads.1).trans committed

end reading

section delivering

variable {slot : LoadSlot}

/-- A node takes its content in. -/
theorem complete {field : Nat} (hn : s.node? id = some n) (hu : n.type.url? = some field)
    (hl : n.load = some slot) (hs : slot.state = .loading) (content : Content)
    {space : Option SpaceId} (hk : space.isSome → n.type.content = .scene) :
    Travels asked s (s.complete id content space).2 := by
  have waits : (n.load.getD {}).state = .loading := by rwa [hl]
  have passes := (Touches.complete (l := .free) hn hu waits content hk).passes
  rw [complete_eq hn hu waits] at passes ⊢
  have filled : Fares asked s (s.modifySlot id (·.fill content space)) := by
    refine .of_reloads (.modifySlot ..) (fun {k m} (hk : k ≠ id) hm ↦ ?_) fun {n' m} hn' hm ↦ ?_
    · rwa [modifySlot, node?_modifyNode_of_ne _ _ _ hk] at hm
    · cases hn.symm.trans hn'
      cases (node?_modifyNode_self _ _ _ hn).symm.trans hm
      refine .begun (fun he ↦ ?_) (.inr ?_)
      · cases he
      · rw [Node.loadState?, hl, Option.map_some, hs]
  exact aside (filled.trans (.of_nodes (nodes_cancel ..))) passes

/-- A load that was under way fails. -/
theorem failed (h : s.Coherent [] guest)
    (waits : ∀ m, s.node? id = some m → m.loadState? = some .loading) :
    Travels asked s (s.setLoadState id .failed).2 :=
  have touches : Touches .free s (s.setLoadState id .failed).2 := Touches.setLoadState nofun
  aside (.setLoadState h _ (.inr (.inr waits))) touches.passes

theorem applyContent {content : Content} (h : s.Coherent [] none) (ha : s.awaits c) :
    Travels asked s (s.applyContent c.request.node content).2 := by
  obtain ⟨slot, hs, -, hw⟩ := slot?_of_awaits ha
  obtain ⟨n, field, hn, hl, hu, -⟩ := exists_node_of_loading h hs hw
  have loading : n.loadState? = some .loading := by rw [Node.loadState?, hl, Option.map_some, hw]
  unfold Scene.applyContent
  simp only [hn]
  split
  · exact complete hn hu hl hw _ fun spaced ↦ by cases spaced
  next kind =>
  split
  · have reported : Travels asked s (s.report .fatal "Inline content could not be read."
        (some (.content (.notText content.url)))) := report (by decide)
    refine reported.trans (failed (h.log _) fun m hm ↦ ?_)
    cases hn.symm.trans hm
    exact loading
  next text _ =>
  -- the node waits on while its content is read
  obtain ⟨opened, hc, -, x, -, -, -, -, hn'⟩ := h.readContent hn text
  have read : Travels asked s
      ((s.addSpace .inline n.space (some c.request.node)).load s.nextSpace text).2 :=
    (openSpace opened).trans (load hc s.nextSpace text)
  have coherent := hc.load s.nextSpace text
  rw [opened]
  dsimp only
  split
  · next he =>
    rw [he] at read hn'
    exact read.trans (complete hn' hu hl hw _ fun _ ↦ kind)
  · next t he =>
    rw [he] at read hn' coherent
    split
    · exact read
    · next removed =>
      have razed := shrunk_removeSpace removed
      have passes := (Touches.removeSpace (l := .free) removed).passes
      refine (read.trans (aside (.shrunk razed) passes)).trans
        (failed (coherent.removeGuest removed) fun m hm ↦ ?_)
      cases hn'.symm.trans (razed.node hm)
      exact loading

theorem applied (h : s.Coherent [] none) (ha : s.awaits c) : Travels asked s (s.applied c) := by
  obtain ⟨slot, hs, -, hw⟩ := slot?_of_awaits ha
  obtain ⟨n, field, hn, hl, -, -⟩ := exists_node_of_loading h hs hw
  have apply : Travels asked s (s.applyCompletion c).2 := by
    unfold applyCompletion
    split
    · exact applyContent h ha
    · next reason _ =>
      have warned : Travels asked s (s.warn ("Content load failed: " ++ reason) none) :=
        report (by simp [String.toList_append])
      refine warned.trans (failed (h.log _) fun m hm ↦ ?_)
      cases hn.symm.trans hm
      rw [Node.loadState?, hl, Option.map_some, hw]
    · exact aside (.reset h) (Touches.reset (l := .free)).passes
  unfold Scene.applied
  split
  · next he => rwa [he] at apply
  · next he =>
    rw [he] at apply
    exact apply.trans (report (by decide))

theorem applyCompletions (h : s.Coherent [] none) (cs : List Completion) :
    Travels asked s (Scene.applyCompletions cs s).2 := by
  induction cs generalizing s with
  | nil => exact .refl
  | cons c cs ih =>
    rw [applyCompletions_cons]
    cases ha : s.awaits c with
    | false =>
      simp only [Bool.false_eq_true, if_false]
      exact ih h
    | true =>
      simp only [if_true]
      exact (applied h ha).trans (ih (h.applied ha))

theorem drainLoads (h : s.Coherent [] none) : Travels asked s s.drainLoads.2 := by
  unfold Scene.drainLoads
  cases hp : s.loader with
  | none => exact .refl
  | some p =>
    have drained : { s with loader := some p.drain.2 }.Coherent [] none :=
      h.congr rfl rfl rfl rfl fun _ hp ↦ hp
    have drain : Travels asked s { s with loader := some p.drain.2 } :=
      touch rfl (.drain trivial hp)
    exact drain.trans (applyCompletions drained _)

end delivering

section ticking

variable {hooks : List HookProgram} {requested : Double} {tally : Tally}

theorem tickSensor (h : s.Coherent [] guest) : Travels asked s (s.tickSensor id) :=
  .single ⟨.tickSensor h id, (Touches.tickSensor (l := .free) h).passes⟩

theorem tickSensors (h : s.Coherent [] guest) : Travels asked s s.tickSensors :=
  (List.foldlRecOn s.sensors Scene.tickSensor
    (motive := fun t ↦ t.Coherent [] guest ∧ Travels asked s t) ⟨h, .refl⟩
    fun _ ⟨ht, hp⟩ _ _ ↦ ⟨(Edited.tickSensor ht).coherent, hp.trans (tickSensor ht)⟩).2

theorem fire (h : s.Coherent [] guest) (r : Route) : Travels asked s (s.fire r).2 := by
  unfold Scene.fire
  split
  · next he =>
    obtain ⟨v, -, he⟩ := bind_eq_ok.mp he
    exact setValue h he
  · exact report (by simp [String.toList_append])

theorem cascade (h : s.Coherent [] guest) (limit : Nat) (waiting fired : List Route)
    (t : Tally) : Travels asked s (Scene.cascade limit waiting fired t s).2 := by
  induction waiting, fired, t, s using Scene.cascade.induct limit with
  | case1 fired t s r waiting hr ih =>
    rw [Scene.cascade, if_pos hr]
    exact ih h
  | case2 fired t s r waiting hr hm =>
    rw [Scene.cascade, if_neg hr, if_pos hm]
    have dropped : Travels asked s { s with pending := [] } :=
      touch rfl (.dequeue trivial List.nil_suffix)
    refine dropped.trans (report ?_)
    simp [String.toList_append, toString]
  | case3 fired t s r waiting hr hm delivered s' hf ih =>
    rw [Scene.cascade, if_neg hr, if_neg hm]
    have coherent := (Edited.fire h r).coherent
    have sent : Travels asked s (s.fire r).2 := fire h r
    rw [hf] at coherent sent ⊢
    exact sent.trans (ih coherent)
  | case4 fired t s hp => rw [cascade_settled hp]
  | case5 fired t s id field pending hp ih =>
    rw [cascade_take hp]
    have taken : Travels asked s { s with pending } :=
      touch rfl (.dequeue trivial (hp ▸ List.suffix_cons ..))
    exact taken.trans (ih (h.take hp))

theorem act (h : s.Coherent [] guest) (w : HookWrite) : Travels asked s (hookHost.act s w).1 := by
  unfold hookHost
  dsimp only
  split
  · next he =>
    obtain ⟨i, -, he⟩ := bind_eq_ok.mp he
    exact setValue h he
  · exact .refl

theorem note (s : Scene) (text : String) : Travels asked s (hookHost.note s text) :=
  of_nodes rfl (Touches.note (l := .free) s text).passes

theorem runHook (h : s.Coherent [] guest) (p : HookProgram) : Travels asked s (s.runHook p) := by
  have ran : (s.runHook p).Coherent [] guest ∧ Travels asked s (s.runHook p) :=
    Program.run_induction (P := fun t : Scene ↦ t.Coherent [] guest ∧ Travels asked s t)
      (fun t w ⟨ht, hp⟩ ↦ ⟨(Proceeds.act ht w).1, hp.trans (act ht w)⟩)
      (fun t text ⟨ht, hp⟩ ↦ ⟨ht.log _, hp.trans (note t text)⟩) p ⟨h, .refl⟩
  exact ran.2

theorem runHooks (h : s.Coherent [] guest) (hooks : List HookProgram) :
    Travels asked s (hooks.foldl Scene.runHook s) := by
  induction hooks generalizing s with
  | nil => exact .refl
  | cons p ps ih => exact (runHook h p).trans (ih (h.runHook p))

theorem outset (h : s.Coherent [] none) {o : Outset} (ho : o ∈ s.outsets hooks requested) :
    Travels asked s o.scene := by
  unfold outsets at ho
  split at ho
  · cases ho
  next time t ha =>
  have clock : Travels asked s t := by
    rcases advanceClock_cases ha with ⟨text, rfl⟩ | rfl
    · exact of_nodes rfl (.single (.journal s _))
    · exact of_nodes rfl (.single (.clock s _))
  have coherent := (h.advanceClock ha).drainLoads
  have first : Travels asked s t.drainLoads.2.tickSensors :=
    (clock.trans (drainLoads (h.advanceClock ha))).trans (tickSensors coherent)
  dsimp only at ho
  split at ho
  · cases List.mem_singleton.mp ho
    exact first
  rcases List.mem_cons.mp ho with rfl | ho
  · exact first
  · cases List.mem_singleton.mp ho
    exact (first.trans (cascade coherent.tickSensors ..)).trans
      (runHooks (coherent.tickSensors.cascade ..) hooks)

theorem tick (h : s.Coherent [] none) (ht : s.tick hooks requested = .ok (tally, s')) :
    Travels asked s s' := by
  obtain ⟨o, hl, -, time, rfl⟩ := tick_eq_ok ht
  have ho := List.mem_of_getLast? hl
  exact ((outset h ho).trans (cascade (h.outsets o ho) ..)).trans
    (of_nodes rfl (.single (.journal _ _)))

end ticking

end Travels

/-- A scene that an operation leads to, unless it was refused. -/
theorem Travels.of_after {a : Except Error Scene} (ha : ∀ s', a = .ok s' → Travels asked s s') :
    Travels asked s (s.after a) :=
  after_induction (P := fun t ↦ Travels asked s t) .refl ha

theorem Travels.of_after_snd {α : Type} {a : Except Error (α × Scene)}
    (ha : ∀ b s', a = .ok (b, s') → Travels asked s s') :
    Travels asked s (s.after (a.map Prod.snd)) :=
  after_snd_induction (P := fun t ↦ Travels asked s t) .refl ha

/-- An operation is done in legs. -/
theorem Coherent.travels (h : s.Coherent [] none) (op : Operation) :
    Travels op.Asks s (op.run s) := by
  have aside (fares : Fares op.Asks s (op.run s)) : Travels op.Asks s (op.run s) :=
    .aside fares (h.passes op)
  cases op with
  | createSpace kind parent => exact .of_after_snd fun _ _ hs ↦ .openSpace hs
  | removeSpace sp =>
    exact aside (after_induction (P := fun t ↦ Fares _ s t) (.refl s) fun _ hs ↦
      .shrunk (shrunk_removeSpace hs))
  | createNode sp typeName => exact .of_after_snd fun _ _ hs ↦ .createNode hs
  | finishSetup id => exact .of_after fun _ hs ↦ .finishSetup h hs
  | removeNode id => exact .of_after fun _ hs ↦ .removeNode hs
  | collect sp => exact .of_after_snd fun _ _ hs ↦ .collect hs
  | setValue id index v => exact .of_after fun _ hs ↦ .setValue h hs
  | set | setInts | setFloats | setStrings =>
    refine .of_after fun _ hs ↦ ?_
    obtain ⟨a, -, hs⟩ := bind_eq_ok.mp hs
    exact .setValue h hs
  | checkChanged id index =>
    exact aside (after_snd_induction (P := fun t ↦ Fares _ s t) (.refl s) fun _ _ hs ↦
      .checkChanged hs)
  | addRoot sp id =>
    exact aside (after_snd_induction (P := fun t ↦ Fares _ s t) (.refl s) fun _ _ hs ↦
      .of_nodes (Rewired.addRoot hs).nodes)
  | removeRoot sp id => exact .of_after_snd fun _ _ hs ↦ .removeRoot hs
  | define sp name id => exact .of_after fun _ hs ↦ .define hs
  | addRoute r => exact .of_after_snd fun _ _ hs ↦ .addRoute hs
  | addRouteIn sp r => exact .of_after_snd fun _ _ hs ↦ .addRouteIn hs
  | addStatement sp statement => exact .of_after_snd fun _ _ hs ↦ .addStatement hs
  | removeRoute r => exact .removeRoute s r
  | load sp text => exact .load h sp text
  | setLoadState id state =>
    exact aside (.setLoadState h state (.inr (.inl (.setLoadState id state))))
  | requestLoad id => exact aside (.requestLoad h (.requestLoad id))
  | cancelLoad id => exact aside (.reset h)
  | terminateLoads => exact .terminateLoads s
  | setProvider provider => exact aside (.setProvider h provider)
  | tick hooks requested => exact .of_after_snd fun _ _ hs ↦ .tick h hs
  | takeJournal | useCache => exact aside (.of_nodes rfl)
  | poolTake | poolAdvance =>
    refine aside (.of_nodes ?_)
    dsimp only [Operation.run]
    split <;> rfl

theorem Coherent.legs (h : s.Coherent [] none) (op : Operation) : Legs op.Asks s (op.run s) :=
  (h.travels op).legs

end Scene

end SceneGraph
