import SceneGraph.Proofs.Calm

/-!
What it means for a node to enter a load state: the new slot, the announcement, the space of the
content, and what waits in the queue of the loader.
-/

namespace SceneGraph

/-- The slot of a node that waits for its next request. -/
def LoadSlot.ask (slot : LoadSlot) (id : NodeId) : LoadSlot :=
  { slot with
    state := .loading
    ticket := slot.ticket + 1
    pending := some ⟨id, slot.ticket + 1⟩ }

/-- The slot of a node that has its content, and the space of the content if there is one. -/
def LoadSlot.fill (slot : LoadSlot) (content : Content) (space : Option SpaceId) : LoadSlot :=
  { slot with state := .complete, pending := none, content := some content, space }

theorem LoadSlot.enter_state (slot : LoadSlot) (state : LoadState) :
    (slot.enter state).state = state := by
  cases state <;> rfl

theorem LoadSlot.enter_ticket (slot : LoadSlot) (state : LoadState) :
    (slot.enter state).ticket = slot.ticket := by
  cases state <;> rfl

theorem LoadSlot.enter_space {slot : LoadSlot} {state : LoadState} (h : state ≠ .notLoaded) :
    (slot.enter state).space = slot.space := by
  cases state <;> first | rfl | exact absurd rfl h

@[simp] theorem Journal.loads_loadEvent (id : NodeId) (field : Nat) (state : LoadState) :
    Journal.loads [.event (Scene.loadEvent id field state)] = [(id, state)] := by
  cases state <;> rfl

namespace Scene

variable {s s' t : Scene} {guest : Option SpaceId} {id : NodeId} {n : Node} {slot a b : LoadSlot}
  {state : LoadState} {field : Nat} {razed : List SpaceId}
  {slots : NodeId → Option LoadSlot} {heard heard' : List (NodeId × LoadState)}

/-- Whether the space of the node's content is gone. -/
def contentGone (s : Scene) (id : NodeId) : Bool :=
  (s.inlineSpace? id).any fun sp ↦ !s.hasSpace sp

theorem contentGone_iff : s.contentGone id ↔
    ∃ sp, s.inlineSpace? id = some sp ∧ s.hasSpace sp = false := by
  unfold contentGone
  rw [Option.any_eq_true]
  exact exists_congr fun sp ↦ and_congr_right fun _ ↦ iff_of_eq (Bool.not_eq_true' _)

theorem contentGone_of_empty (hl : s.slot? id = some slot) (he : slot.space = none) :
    s.contentGone id = false := by
  rw [contentGone, inlineSpace?, hl, Option.bind_some, he, Option.any_none]

/-- The slot of the node is `slot` now, by way of the states that were announced. -/
abbrev Turned (id : NodeId) (slot : LoadSlot) (states : List LoadState) (s s' : Scene) : Prop :=
  Shifted (Function.update s.slot? id (some slot)) (states.map fun state ↦ (id, state)) [] s s'

theorem slot?_of_load (hn : s.node? id = some n) (hl : n.load = some slot) :
    s.slot? id = some slot :=
  slot?_eq_some.mpr ⟨n, hn, hl⟩

/-- The slot that a node has after its turn. -/
theorem Turned.slot_eq {states : List LoadState} {slot' σ : LoadSlot} (hl : s.slot? id = some slot)
    (h : Turned id slot' states s s') (hs : s'.slot? id = some σ) : σ = slot' := by
  rcases Shifted.slot h hs with hs | ⟨hf, -⟩
  · rw [Function.update_self] at hs
    exact (Option.some.inj hs).symm
  · cases hf.slot?.symm.trans hl

theorem Shifted.emit (h : Shifted slots heard razed s t) (id : NodeId) (field : Nat)
    (state : LoadState) :
    Shifted slots (heard ++ [(id, state)]) razed s (t.emit (loadEvent id field state)) where
  nodesIssued := h.nodesIssued
  spacesIssued := h.spacesIssued
  slot hs := h.slot hs
  space hs := h.space hs
  kept hs hp hl := h.kept hs hp hl
  journal := by
    obtain ⟨js, hj, hh⟩ := h.journal
    refine ⟨js ++ [.event (loadEvent id field state)], ?_, ?_⟩
    · rw [Scene.emit, log, hj, List.append_assoc]
    · rw [Journal.loads_append, hh, Journal.loads_loadEvent]

/-- Two turns of one node are one, if the second leaves the content where the first put it. -/
theorem Shifted.again (h : Shifted (Function.update s.slot? id (some a)) heard razed s t)
    (ha : t.slot? id = some a)
    (h' : Shifted (Function.update t.slot? id (some b)) heard' [] t s') (hb : b.space = a.space) :
    Shifted (Function.update s.slot? id (some b)) (heard ++ heard') razed s s' where
  nodesIssued := Nat.le_trans h.nodesIssued h'.nodesIssued
  spacesIssued := Nat.le_trans h.spacesIssued h'.spacesIssued
  slot {k σ} hs := by
    rcases h'.slot hs with hs | ⟨hf, he⟩
    · by_cases hk : k = id
      · subst hk
        exact .inl (by simpa using hs)
      · rw [Function.update_of_ne hk] at hs
        refine (h.slot hs).imp_left fun hs ↦ ?_
        rwa [Function.update_of_ne hk] at hs ⊢
    · exact .inr ⟨hf.of_issued h.nodesIssued, he⟩
  space hs := by
    rcases h'.space hs with hs | hi
    · exact h.space hs
    · exact .inr (Nat.le_trans h.spacesIssued hi)
  kept {k σ sp} hs hp hl := by
    have before : t.hasSpace sp ∨ sp ∈ razed := by
      rcases h'.slot hs with ht | ⟨-, rfl⟩
      · by_cases hk : k = id
        · subst hk
          obtain rfl : b = σ := by simpa using ht
          exact h.kept ha (hb ▸ hp) hl
        · rw [Function.update_of_ne hk] at ht
          exact h.kept ht hp hl
      · cases hp
    rcases before with ht | hr
    · exact .inl ((h'.kept hs hp ht).resolve_right List.not_mem_nil)
    · exact .inr hr
  journal := by
    obtain ⟨js, hj, hh⟩ := h.journal
    obtain ⟨js', hj', hh'⟩ := h'.journal
    exact ⟨js ++ js', by rw [hj', hj, List.append_assoc], by rw [Journal.loads_append, hh, hh']⟩

theorem slot?_modifySlot (hn : s.node? id = some n) (hl : n.load = some slot)
    (f : LoadSlot → LoadSlot) :
    (s.modifySlot id f).slot? = Function.update s.slot? id (some (f slot)) := by
  funext k
  by_cases hk : k = id
  · subst hk
    rw [Function.update_self, slot?, modifySlot, node?_modifyNode_self _ _ _ hn, hl]
    rfl
  · rw [Function.update_of_ne hk, slot?, modifySlot, node?_modifyNode_of_ne _ _ _ hk, slot?]

theorem Shifted.modifySlot (hn : s.node? id = some n) (hl : n.load = some slot)
    (f : LoadSlot → LoadSlot) : Turned id (f slot) [] s (s.modifySlot id f) where
  nodesIssued := Nat.le_of_eq (issued_modifyNode ..).symm
  spacesIssued := Nat.le_of_eq (by rw [Scene.modifySlot, spaces_modifyNode])
  slot hs := by
    rw [slot?_modifySlot hn hl] at hs
    exact .inl hs
  space hs := by
    rw [hasSpace, Scene.modifySlot, space?_modifyNode] at hs
    exact .inl hs
  kept _ _ hl := by
    rw [hasSpace, Scene.modifySlot, space?_modifyNode]
    exact .inl hl
  journal := ⟨[], by simp [Scene.modifySlot], rfl⟩

theorem Tended.modifySlot (id : NodeId) (f : LoadSlot → LoadSlot) :
    Tended s.jobs s (s.modifySlot id f) :=
  .of_loader (loader_modifyNode ..)

theorem Calm.cancel (s : Scene) (r : Option Request) : Calm razed s (s.cancel r) :=
  aside (nodes_cancel ..) (spaces_cancel ..) (.cancel rfl r) ⟨[], by simp⟩

/-- The node has its new slot; what it let go of is taken down. -/
structure Entered (id : NodeId) (n : Node) (slot : LoadSlot) (s s' : Scene) : Prop where
  self : s'.node? id = some { n with load := some slot }
  turned : Turned id slot [] s s'
  tended : Tended s.jobs s s'
  journal : s'.journal = s.journal

theorem Entered.enter (hn : s.node? id = some n) (hl : n.load = some slot) (state : LoadState)
    (r : Option Request) :
    Entered id n (slot.enter state) s ((s.modifySlot id (·.enter state)).cancel r) where
  self := by
    rw [node?_cancel, modifySlot, node?_modifyNode_self _ _ _ hn, hl]
    rfl
  turned := (Shifted.modifySlot hn hl (·.enter state)).calm (.cancel ..)
  tended := .cancel (loader_modifyNode ..) r
  journal := (journal_cancel ..).trans (journal_modifyNode ..)

/-- A node that goes back to the beginning takes its content down, and nothing of the others. -/
theorem Entered.reset (h : s.Coherent [] guest) (hn : s.node? id = some n)
    (hl : n.load = some slot) (r : Option Request) :
    Entered id n (slot.enter .notLoaded) s
      (((s.modifySlot id (·.enter .notLoaded)).cancel r).demolish
        (slot.space.toList.map .space)) := by
  have content : n.contentSpace? = slot.space := by
    rw [Node.contentSpace?, hl, Option.bind_some]
  obtain ⟨retouched, coherent, below⟩ :=
    h.letGo hn (hl ▸ rfl) (f := (·.enter .notLoaded)) (fun _ ↦ rfl) r
  rw [content] at coherent below
  have entered := Entered.enter hn hl .notLoaded r
  generalize (s.modifySlot id (·.enter .notLoaded)).cancel r = t at *
  have spares := spares_demolish coherent below
  have calm : Calm [] t (t.demolish (slot.space.toList.map .space)) := by
    refine .demolish coherent fun {k m sp} hm hc hs hd ↦ ?_
    have hm := (shrunk_demolish _ t).node hm
    have owned : n.contentSpace? = some sp := by simpa [content] using hd
    by_cases hk : k = id
    · subst hk
      cases entered.self.symm.trans hm
      cases hc
    · obtain ⟨x, hx⟩ := hasSpace_iff.mp hs
      have hx := retouched.frame.space sp ▸ hx
      obtain ⟨-, ho, -⟩ := (h.claimed.content (retouched.other hk ▸ hm) hc).2 x hx
      obtain ⟨-, ho', -⟩ := (h.claimed.content hn owned).2 x hx
      exact absurd (Option.some.inj (ho.symm.trans ho')) hk
  exact {
    self := spares.node entered.self (Nat.lt_succ_self _)
    turned := entered.turned.calm calm
    tended := entered.tended.trans calm.tended
    journal := (shrunk_demolish _ t).journal.trans entered.journal }

/-- A load that goes on does not touch the content. -/
theorem setLoadState_onward (hn : s.node? id = some n) (hl : n.load = some slot)
    (hu : n.type.url? = some field) (state : LoadState) (hc : slot.state.canBecome state)
    (hs : state ≠ .notLoaded) :
    ∃ t, Entered id n (slot.enter state) s t ∧
      s.setLoadState id state = (.ok (), t.emit (loadEvent id field state)) := by
  refine ⟨_, .enter hn hl state (if state = .loading then none else slot.pending), ?_⟩
  unfold setLoadState
  simp only [hn, hu, hl, Option.getD_some, hc, hs, if_false, discard]
  rfl

theorem setLoadState_reset (h : s.Coherent [] guest) (hn : s.node? id = some n)
    (hl : n.load = some slot) (hu : n.type.url? = some field) (hc : slot.state ≠ .notLoaded) :
    ∃ t, Entered id n (slot.enter .notLoaded) s t ∧
      (s.contentGone id = true ∧ s.setLoadState id .notLoaded = (.error .unknownSpace, t) ∧
          t = (s.modifySlot id (·.enter .notLoaded)).cancel slot.pending ∨
        s.contentGone id = false ∧
          s.setLoadState id .notLoaded = (.ok (), t.emit (loadEvent id field .notLoaded))) := by
  have legal : slot.state.canBecome .notLoaded := by
    cases hs : slot.state <;> first | rfl | exact absurd hs hc
  have entered := Entered.reset h hn hl slot.pending
  refine ⟨_, entered, ?_⟩
  unfold setLoadState
  simp only [hn, hu, hl, Option.getD_some, legal, if_true, reduceCtorEq, if_false]
  cases hsp : slot.space with
  | none =>
    have whole : s.contentGone id = false := contentGone_of_empty (slot?_of_load hn hl) hsp
    exact .inr ⟨whole, by simp [discard]⟩
  | some sp =>
    have content : n.contentSpace? = some sp := by
      rw [Node.contentSpace?, hl, Option.bind_some, hsp]
    have same : ((s.modifySlot id (·.enter .notLoaded)).cancel slot.pending).hasSpace sp =
        s.hasSpace sp := by
      rw [hasSpace, hasSpace, space?_cancel, modifySlot, space?_modifyNode]
    rw [discard, removeSpace_eq (h.content_ne_main hn content), same]
    have gone : s.contentGone id = !s.hasSpace sp := by
      rw [contentGone, inlineSpace?, slot?_of_load hn hl, Option.bind_some, hsp, Option.any_some]
    cases hg : s.hasSpace sp with
    | true => exact .inr ⟨by rw [gone, hg]; rfl, by simp⟩
    | false =>
      refine .inl ⟨by rw [gone, hg]; rfl, ?_⟩
      have gone : ((s.modifySlot id (·.enter .notLoaded)).cancel slot.pending).Gone
          (.space sp) := .inr (by simpa [hasSpace] using same.trans hg)
      simp [demolish_of_gone gone]

/-- A state is entered or refused. The way back to the beginning fails half done if the space of
the content is gone. -/
theorem setLoadState_cases (h : s.Coherent [] guest) (id : NodeId) (state : LoadState) :
    (∃ e, s.setLoadState id state = (.error e, s)) ∨
      ∃ n slot field t, s.node? id = some n ∧ n.load = some slot ∧ n.type.url? = some field ∧
        slot.state.canBecome state ∧ Entered id n (slot.enter state) s t ∧
        (state = .notLoaded ∧ s.contentGone id ∧
            s.setLoadState id state = (.error .unknownSpace, t) ∧
            t = (s.modifySlot id (·.enter state)).cancel slot.pending ∨
          ¬(state = .notLoaded ∧ s.contentGone id) ∧
            s.setLoadState id state = (.ok (), t.emit (loadEvent id field state))) := by
  cases hn : s.node? id with
  | none => exact .inl ⟨.unknownNode, by unfold setLoadState; simp [hn]⟩
  | some n =>
    cases hu : n.type.url? with
    | none => exact .inl ⟨_, by unfold setLoadState; simp [hn, hu]; rfl⟩
    | some field =>
      obtain ⟨slot, hl⟩ := (h.sound hn).exists_slot hu
      cases hc : slot.state.canBecome state with
      | false =>
        refine .inl ⟨.loadState slot.state state, ?_⟩
        unfold setLoadState
        simp [hn, hu, hl, hc]
      | true =>
        refine .inr ⟨n, slot, field, ?_⟩
        by_cases hs : state = .notLoaded
        · subst hs
          have started : slot.state ≠ .notLoaded := by
            intro he
            rw [he] at hc
            cases hc
          obtain ⟨t, entered, ⟨hg, he⟩ | ⟨hg, he⟩⟩ := setLoadState_reset h hn hl hu started
          · exact ⟨t, rfl, hl, hu, hc, entered, .inl ⟨rfl, hg, he⟩⟩
          · exact ⟨t, rfl, hl, hu, hc, entered, .inr ⟨fun hs ↦ by simp [hg] at hs, he⟩⟩
        · obtain ⟨t, entered, he⟩ := setLoadState_onward hn hl hu state hc hs
          exact ⟨t, rfl, hl, hu, hc, entered, .inr ⟨fun hs' ↦ hs hs'.1, he⟩⟩

theorem exists_url_of_slot (h : s.Coherent [] guest) (hn : s.node? id = some n)
    (hl : n.load = some slot) : ∃ field, n.type.url? = some field := by
  refine (h.sound hn).built.exists_url ?_
  rw [← (h.sound hn).slot, hl]
  rfl

/-- A node that waits has urls and no content. -/
theorem exists_node_of_loading (h : s.Coherent [] guest) (hs : s.slot? id = some slot)
    (hw : slot.state = .loading) : ∃ n field, s.node? id = some n ∧ n.load = some slot ∧
      n.type.url? = some field ∧ slot.space = none := by
  obtain ⟨n, hn, hl⟩ := slot?_eq_some.mp hs
  obtain ⟨field, hu⟩ := exists_url_of_slot h hn hl
  exact ⟨n, field, hn, hl, hu, (h.sound hn).space_eq_none hl (by rw [hw]; nofun)⟩

theorem setLoadState_reset_of_loading (h : s.Coherent [] guest) (hs : s.slot? id = some slot)
    (hw : slot.state = .loading) : ∃ n field t, Entered id n (slot.enter .notLoaded) s t ∧
      s.setLoadState id .notLoaded = (.ok (), t.emit (loadEvent id field .notLoaded)) := by
  obtain ⟨n, field, hn, hl, hu, empty⟩ := exists_node_of_loading h hs hw
  obtain ⟨t, entered, ⟨hg, -⟩ | ⟨-, he⟩⟩ :=
    setLoadState_reset h hn hl hu (by rw [hw]; nofun)
  · cases hg.symm.trans (contentGone_of_empty hs empty)
  · exact ⟨n, field, t, entered, he⟩

theorem Shifted.of_tables (h : Shifted slots heard razed s t) (nodes : s'.nodes = t.nodes)
    (spaces : s'.spaces = t.spaces) (journal : s'.journal = t.journal) :
    Shifted slots heard razed s s' := by
  have slot (id : NodeId) : s'.slot? id = t.slot? id := by
    rw [slot?, slot?, node?_congr nodes]
  have space (sp : SpaceId) : s'.hasSpace sp = t.hasSpace sp := by
    rw [hasSpace, hasSpace, space?_congr spaces]
  exact {
    nodesIssued := nodes ▸ h.nodesIssued
    spacesIssued := spaces ▸ h.spacesIssued
    slot := fun hs ↦ h.slot (slot _ ▸ hs)
    space := fun hs ↦ h.space (space _ ▸ hs)
    kept := fun hs hp hl ↦ (h.kept (slot _ ▸ hs) hp hl).imp_left fun ht ↦ (space _).trans ht
    journal := journal ▸ h.journal }

theorem Tended.submit {p : Pool} (hp : s.loader = some p) (id : NodeId) (ticket : Nat)
    (urls : List String) : Tended ((⟨id, ticket⟩, urls) :: s.jobs) s (s.submit id ticket urls) := by
  have loaded : (s.submit id ticket urls).loader =
      some (p.submit { request := ⟨id, ticket⟩, urls }) := by
    rw [Scene.submit, Scene.modifySlot, loader_modifyNode, hp, Option.map_some]
  constructor
  · intro job hj
    simp only [Scene.jobs, loaded, hp, Option.map_some, Option.getD_some, Pool.jobs, Pool.submit,
      Pool.send, Pool.countIn, Pool.enroll, Pool.issue, List.map_append, List.map_cons,
      List.map_nil, List.mem_append, List.mem_singleton] at hj ⊢
    rcases hj with hj | rfl
    · exact List.mem_cons_of_mem _ hj
    · exact List.mem_cons_self
  · simp [Scene.works, loaded, hp, Pool.submit, Pool.send, Pool.countIn, Pool.enroll, Pool.issue,
      Pool.works]
  · simp [Scene.posted, loaded, hp, Pool.submit, Pool.send, Pool.countIn, Pool.enroll, Pool.issue]

section requesting

variable {u : Scene} {m : Node} (self : u.node? id = some m) (hl : m.load = some slot)
  (loading : Turned id slot [.loading] s u) (tended : Tended s.jobs s u)
include self hl loading tended

/-- A node that just began to load fails. -/
theorem failed_of_loading (hu : m.type.url? = some field) (hs : slot.state = .loading)
    (text : String) : ∃ s', (u.warn text none).setLoadState id .failed = (.ok (), s') ∧
      Turned id (slot.enter .failed) [.loading, .failed] s s' ∧ Tended s.jobs s s' := by
  have warned : Calm [] u (u.warn text none) := .report ..
  obtain ⟨v, failed, hv⟩ := setLoadState_onward (s := u.warn text none) self hl hu .failed
    (by rw [hs]; rfl) nofun
  refine ⟨_, hv, ?_, ?_⟩
  · exact (loading.calm warned).again (slot?_of_load self hl)
      (failed.turned.emit id field .failed) rfl
  · exact (tended.trans warned.tended).trans (failed.tended.trans (.of_loader rfl))

/-- A node that just began to load hands its urls to the loader. -/
theorem submitted_of_loading {p : Pool} (hp : u.loader = some p) (ticket : Nat)
    (urls : List String) :
    Turned id { slot with ticket, pending := some ⟨id, ticket⟩ } [.loading] s
        (u.submit id ticket urls) ∧
      Tended ((⟨id, ticket⟩, urls) :: s.jobs) s (u.submit id ticket urls) := by
  have asked := Shifted.modifySlot self hl fun slot ↦
    { slot with ticket, pending := some ⟨id, ticket⟩ }
  have submitted := Tended.submit hp id ticket urls
  refine ⟨loading.again (slot?_of_load self hl) (asked.of_tables rfl rfl rfl) rfl, ?_, ?_, ?_⟩
  · exact List.Subset.trans submitted.jobs (List.cons_subset_cons _ tended.jobs)
  · exact List.Subset.trans submitted.works tended.works
  · exact List.Subset.trans submitted.posted tended.posted

end requesting

/-- A request is refused, or goes to the loader under a new ticket, or fails at once. -/
theorem requestLoad_cases (h : s.Coherent [] guest) (id : NodeId) :
    (∃ e, s.requestLoad id = (.error e, s)) ∨
      ∃ n slot s', s.node? id = some n ∧ n.load = some slot ∧ slot.state = .notLoaded ∧
        s.requestLoad id = (.ok (), s') ∧
        (Turned id (slot.ask id) [.loading] s s' ∧
            Tended ((⟨id, slot.ticket + 1⟩, urls n) :: s.jobs) s s' ∨
          Turned id ((slot.enter .loading).enter .failed) [.loading, .failed] s s' ∧
            Tended s.jobs s s') := by
  cases hn : s.node? id with
  | none => exact .inl ⟨.unknownNode, by unfold requestLoad; simp [hn]⟩
  | some n =>
    rcases setLoadState_cases h id .loading with ⟨e, he⟩ |
      ⟨m, slot, field, t, hm, hl, hu, hc, entered, ⟨hs, -⟩ | ⟨-, he⟩⟩
    · exact .inl ⟨e, by unfold requestLoad; simp [hn, he]⟩
    · cases hs
    · cases hn.symm.trans hm
      refine .inr ⟨n, slot, ?_⟩
      have started : slot.state = .notLoaded := by
        cases hs : slot.state <;> first | rfl | (rw [hs] at hc; cases hc)
      have loading : Turned id (slot.enter .loading) [.loading] s
          (t.emit (loadEvent id field .loading)) := entered.turned.emit id field .loading
      have tended : Tended s.jobs s (t.emit (loadEvent id field .loading)) :=
        entered.tended.trans (.of_loader rfl)
      have self : (t.emit (loadEvent id field .loading)).node? id =
          some { n with load := some (slot.enter .loading) } := entered.self
      generalize t.emit (loadEvent id field .loading) = u at *
      have fail := failed_of_loading self rfl loading tended hu rfl
      have requested : s.requestLoad id =
          if (urls n).isEmpty then
            (u.warn "Loadable node has no url to load." none).setLoadState id .failed
          else if u.loader.isNone then
            (u.warn "No content provider set; cannot load external content." none).setLoadState id
              .failed
          else (.ok (), u.submit id (slot.ticket + 1) (urls n)) := by
        unfold requestLoad
        simp only [hn, he, hl, Option.getD_some]
      rw [requested]
      split
      · obtain ⟨s', hs, failed⟩ := fail "Loadable node has no url to load."
        exact ⟨s', rfl, hl, started, hs, .inr failed⟩
      split
      · obtain ⟨s', hs, failed⟩ :=
          fail "No content provider set; cannot load external content."
        exact ⟨s', rfl, hl, started, hs, .inr failed⟩
      next hp =>
      obtain ⟨p, hp⟩ := Option.ne_none_iff_exists'.mp (mt Option.isNone_iff_eq_none.mpr hp)
      exact ⟨_, rfl, hl, started, rfl,
        .inl (submitted_of_loading self rfl loading tended hp (slot.ticket + 1) (urls n))⟩

/-- A loading node takes its content in. -/
theorem complete_eq_ok (hn : s.node? id = some n) (hl : n.load = some slot)
    (hu : n.type.url? = some field) (hs : slot.state = .loading) (content : Content)
    (space : Option SpaceId) : ∃ s', s.complete id content space = (.ok (), s') ∧
      Turned id (slot.fill content space) [.complete] s s' ∧ Tended s.jobs s s' := by
  have taken := Shifted.modifySlot hn hl fun slot ↦ { slot with content := some content, space }
  have tended := Tended.modifySlot (s := s) id fun slot ↦
    { slot with content := some content, space }
  have self : (s.modifySlot id fun slot ↦ { slot with content := some content, space }).node? id =
      some { n with load := some { slot with content := some content, space } } := by
    rw [modifySlot, node?_modifyNode_self _ _ _ hn, hl]
    rfl
  obtain ⟨t, completed, ht⟩ :=
    setLoadState_onward self rfl hu .complete (by rw [hs]; rfl) (by decide)
  refine ⟨_, ht, ?_, tended.trans (completed.tended.trans (.of_loader rfl))⟩
  exact taken.again (slot?_of_load self rfl) (completed.turned.emit id field .complete) rfl

end Scene

end SceneGraph
