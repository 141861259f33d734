import SceneGraph.Proofs.Demolition

namespace SceneGraph

/-- The change that an entry announces. -/
def Entry.change? : Entry → Option (NodeId × Nat)
  | .event (.fieldChanged id index) => some (id, index)
  | _ => none

def Journal.changes (j : Journal) : List (NodeId × Nat) := j.filterMap Entry.change?

@[simp] theorem Journal.changes_nil : Journal.changes [] = [] := rfl

@[simp] theorem Journal.changes_append (j j' : Journal) :
    Journal.changes (j ++ j') = j.changes ++ j'.changes :=
  List.filterMap_append

namespace Scene

variable {s s' s'' : Scene} {guest : Option SpaceId} {id : NodeId}

/-- The second scene comes from the first by work on one node, which may take down what belongs to
the node. Every change is announced, and it is queued for as long as its node is there. -/
structure Edited (guest : Option SpaceId) (id : NodeId) (s s' : Scene) : Prop where
  coherent : s'.Coherent [] guest
  self : (s'.node? id).map (fun n ↦ (n.type, n.space)) =
    (s.node? id).map fun n ↦ (n.type, n.space)
  node : ∀ {k n}, k ≠ id → s'.node? k = some n → s.node? k = some n
  space : ∀ {q y}, s'.space? q = some y →
    ∃ x, s.space? q = some x ∧ y = { x with children := y.children }
  spared : ∀ {n k m}, s.node? id = some n → k ≠ id → s.node? k = some m →
    m.space.number ≤ n.space.number → s'.node? k = some m
  sparedSpace : ∀ {n q x}, s.node? id = some n → s.space? q = some x →
    q.number ≤ n.space.number → ∃ cs, s'.space? q = some { x with children := cs }
  queue : ∃ js, s'.journal = s.journal ++ js ∧
    s'.pending = (s.pending ++ Journal.changes js).filter fun p ↦ s'.hasNode p.1
  nodesIssued : s'.nodes.issued = s.nodes.issued
  spacesIssued : s'.spaces.issued = s.spaces.issued
  catalog : s'.catalog = s.catalog

theorem Coherent.pending_filter (h : s.Coherent [] guest) :
    (s.pending.filter fun p ↦ s.hasNode p.1) = s.pending := by
  refine List.filter_eq_self.mpr fun ⟨id, i⟩ hp ↦ ?_
  obtain ⟨n, hn, -⟩ := h.tracked.queued hp
  exact hasNode_iff.mpr ⟨n, hn⟩

/-- A node that has let go of its content leaves the space of the content to be taken down, which
is below its own. -/
theorem Coherent.letGo (h : s.Coherent [] guest) {n : Node} (hn : s.node? id = some n)
    (hl : n.load.isSome) {f : LoadSlot → LoadSlot} (hf : ∀ slot, (f slot).space = none)
    (p : Option Request) :
    Retouched id { n with load := some (f (n.load.getD {})) } s ((s.modifySlot id f).cancel p) ∧
      ((s.modifySlot id f).cancel p).Coherent (n.contentSpace?.toList.map .space) guest ∧
      From (n.space.number + 1) ((s.modifySlot id f).cancel p)
        (n.contentSpace?.toList.map .space) := by
  have frame : SameFrame s (s.modifySlot id f) := .modifyNode id _ fun _ _ ↦ ⟨rfl, rfl⟩
  have retouched : Retouched id { n with load := some (f (n.load.getD {})) } s
      ((s.modifySlot id f).cancel p) := {
    self := (node?_cancel _ _ _).trans (node?_modifyNode_self _ _ _ hn)
    other := fun hk ↦ (node?_cancel _ _ _).trans (node?_modifyNode_of_ne _ _ _ hk)
    frame := frame.trans (.of_tables (by simp) (by simp) (by simp) (by simp))
    pending := by simp [modifySlot] }
  have sound : Node.Sound { n with load := some (f (n.load.getD {})) } := by
    have hs := h.sound hn
    refine ⟨hs.built, hs.values, hs.flags, ?_, ?_⟩
    · rw [← hs.slot, hl]
      rfl
    · rintro slot ⟨⟩ hsp
      rw [hf] at hsp
      cases hsp
  have doomed : s.Coherent (n.contentSpace?.toList.map .space) guest := by
    cases n.contentSpace? with
    | none => exact h
    | some sp => exact h.doom sp
  have claimed := h.claimed.release hn retouched (hf _)
  refine ⟨retouched, doomed.retouch retouched claimed sound, fun q x hq hx ↦ ?_,
    fun k m hk hm ↦ ?_⟩
  · have hc : n.contentSpace? = some q := by simpa using hq
    obtain ⟨-, -, hp⟩ := (h.claimed.content hn hc).2 x (retouched.frame.space q ▸ hx)
    exact h.rooted.lt_of_child (retouched.frame.space q ▸ hx) hp
  · simp at hk

namespace Edited

theorem exists_self (h : Edited guest id s s') {n : Node} (hn : s.node? id = some n) :
    ∃ m, s'.node? id = some m ∧ m.type = n.type ∧ m.space = n.space := by
  have hm := h.self
  rw [hn] at hm
  obtain ⟨m, hm, he⟩ := Option.map_eq_some_iff.mp hm
  simp only [Prod.mk.injEq] at he
  exact ⟨m, hm, he⟩

theorem hasNode (h : Edited guest id s s') {k : NodeId} (hk : s'.hasNode k) : s.hasNode k := by
  obtain ⟨m, hm⟩ := hasNode_iff.mp hk
  by_cases he : k = id
  · subst he
    have hs := h.self
    rw [hm] at hs
    obtain ⟨n, hn, -⟩ := Option.map_eq_some_iff.mp hs.symm
    exact hasNode_iff.mpr ⟨n, hn⟩
  · exact hasNode_iff.mpr ⟨m, h.node he hm⟩

/-- Work that leaves the frame as it is and queues what it announces. -/
theorem of_frame (hc : s'.Coherent [] guest) (hf : SameFrame s s')
    (hn : ∀ k, k ≠ id → s'.node? k = s.node? k)
    (hq : ∃ js, s'.journal = s.journal ++ js ∧ s'.pending = s.pending ++ Journal.changes js)
    (hi : s'.nodes.issued = s.nodes.issued) : Edited guest id s s' where
  coherent := hc
  self := hf.node id
  node hk hm := hn _ hk ▸ hm
  space {q y} hy := ⟨y, hf.space q ▸ hy, rfl⟩
  spared _ hk hm _ := (hn _ hk).trans hm
  sparedSpace {_ q x} _ hx _ := ⟨x.children, (hf.space q).trans hx⟩
  queue := by
    obtain ⟨js, hj, hp⟩ := hq
    exact ⟨js, hj, by rw [← hp, hc.pending_filter]⟩
  nodesIssued := hi
  spacesIssued := hf.issued
  catalog := hf.catalog

protected theorem refl (h : s.Coherent [] guest) : Edited guest id s s :=
  of_frame h (.of_tables rfl rfl rfl rfl) (fun _ _ ↦ rfl) ⟨[], by simp⟩ rfl

protected theorem trans (h : Edited guest id s s') (h' : Edited guest id s' s'') :
    Edited guest id s s'' where
  coherent := h'.coherent
  self := h'.self.trans h.self
  node hk hm := h.node hk (h'.node hk hm)
  space hy := by
    obtain ⟨z, hz, hy⟩ := h'.space hy
    obtain ⟨x, hx, he⟩ := h.space hz
    exact ⟨x, hx, hy.trans (by rw [he])⟩
  spared hn hk hm hle := by
    obtain ⟨n', hn', -, hs⟩ := h.exists_self hn
    exact h'.spared hn' hk (h.spared hn hk hm hle) (hs ▸ hle)
  sparedSpace hn hx hle := by
    obtain ⟨n', hn', -, hs⟩ := h.exists_self hn
    obtain ⟨cs, hy⟩ := h.sparedSpace hn hx hle
    obtain ⟨ds, hz⟩ := h'.sparedSpace hn' hy (by rwa [hs])
    exact ⟨ds, hz⟩
  queue := by
    obtain ⟨js, hj, hp⟩ := h.queue
    obtain ⟨js', hj', hp'⟩ := h'.queue
    refine ⟨js ++ js', by rw [hj', hj, List.append_assoc], ?_⟩
    rw [hp', hp, Journal.changes_append, ← List.append_assoc]
    simp only [List.filter_append, List.filter_filter]
    -- who is there in the end was there in between
    have hle : ∀ p : NodeId × Nat, (s''.hasNode p.1 && s'.hasNode p.1) = s''.hasNode p.1 := by
      intro p
      cases hl : s''.hasNode p.1 with
      | false => rfl
      | true => simp [h'.hasNode hl]
    simp only [hle]
  nodesIssued := h'.nodesIssued.trans h.nodesIssued
  spacesIssued := h'.spacesIssued.trans h.spacesIssued
  catalog := h'.catalog.trans h.catalog

/-- A change to the node that keeps its type, its space and the space of its content. -/
theorem amend (h : s.Coherent [] guest) {f : Node → Node}
    (hf : ∀ n, s.node? id = some n → (f n).type = n.type ∧ (f n).space = n.space ∧
      (f n).contentSpace? = n.contentSpace? ∧ (f n).Sound) :
    Edited guest id s (s.modifyNode id f) :=
  of_frame (h.modifyNode hf)
    (.modifyNode id f fun n hn ↦ ⟨(hf n hn).1, (hf n hn).2.1⟩)
    (fun _ hk ↦ node?_modifyNode_of_ne s id f hk) ⟨[], by simp⟩ (issued_modifyNode s id f)

/-- Work beside the tables that announces no change. -/
theorem aside (h : s.Coherent [] guest) (nodes : s'.nodes = s.nodes)
    (spaces : s'.spaces = s.spaces) (sensors : s'.sensors = s.sensors)
    (catalog : s'.catalog = s.catalog) (pending : s'.pending = s.pending)
    (journal : ∃ js, s'.journal = s.journal ++ js ∧ Journal.changes js = []) :
    Edited guest id s s' := by
  obtain ⟨js, hj, hc⟩ := journal
  exact of_frame (h.congr nodes spaces sensors catalog fun _ hp ↦ pending ▸ hp)
    (.of_tables nodes spaces sensors catalog) (fun k _ ↦ node?_congr nodes k)
    ⟨js, hj, by rw [hc, pending, List.append_nil]⟩ (by rw [nodes])

theorem log (h : s.Coherent [] guest) {js : List Entry} (hj : Journal.changes js = []) :
    Edited guest id s (s.log js) :=
  aside h rfl rfl rfl rfl rfl ⟨js, rfl, hj⟩

theorem mark (h : s.Coherent [] guest) {index : Nat}
    (hi : ∀ n, s.node? id = some n → index < n.type.table.size) (hn : s.hasNode id) :
    Edited guest id s (s.markChanged id index) := by
  obtain ⟨n, hn⟩ := hasNode_iff.mp hn
  have flag : Edited guest id s
      (s.modifyNode id fun n ↦ { n with changed := n.changed.set index true }) :=
    amend h fun n hn ↦ ⟨rfl, rfl, rfl, by
      have := h.sound hn
      exact ⟨this.built, this.values, by simpa using this.flags, this.slot, this.content⟩⟩
  refine flag.trans (of_frame ?_ (.of_tables rfl rfl rfl rfl) (fun _ _ ↦ rfl)
    ⟨[.event (.fieldChanged id index)], rfl, rfl⟩ rfl)
  refine flag.coherent.requeue rfl rfl rfl rfl fun hp ↦ ?_
  rcases List.mem_append.mp hp with hp | hp
  · exact flag.coherent.tracked.queued hp
  · obtain ⟨rfl, rfl⟩ := Prod.mk.inj (List.mem_singleton.mp hp)
    obtain ⟨m, hm, ht, -⟩ := flag.exists_self hn
    exact ⟨m, hm, ht ▸ hi n hn⟩

/-- The node was retouched, and what is below its space may have been taken down. -/
theorem demolish {t : Scene} {n n' : Node} {doomed : List Doomed} (hn : s.node? id = some n)
    (hr : Retouched id n' s t) (hs : n'.space = n.space) (ht : n'.type = n.type)
    (coherent : t.Coherent doomed guest) (below : From (n.space.number + 1) t doomed)
    (journal : t.journal = s.journal) (issued : t.nodes.issued = s.nodes.issued) :
    Edited guest id s (t.demolish doomed) := by
  have spares := spares_demolish coherent below
  have shrunk := shrunk_demolish doomed t
  have live : ∀ p ∈ t.pending, t.hasNode p.1 := by
    intro p hp
    obtain ⟨m, hm, -⟩ := coherent.tracked.queued hp
    exact hasNode_iff.mpr ⟨m, hm⟩
  exact {
    coherent := coherent.demolish
    self := by
      rw [spares.node hr.self (hs ▸ Nat.lt_succ_self _), hn, Option.map_some, Option.map_some,
        hs, ht]
    node := fun hk hm ↦ hr.other hk ▸ shrunk.node hm
    space := by
      intro q y hy
      rw [← hr.frame.space]
      exact shrunk.space hy
    spared := fun hn' hk hm hle ↦ by
      cases hn.symm.trans hn'
      exact spares.node ((hr.other hk).trans hm) (Nat.lt_succ_of_le hle)
    sparedSpace := fun hn' hx hle ↦ by
      cases hn.symm.trans hn'
      exact spares.space ((hr.frame.space _).trans hx) (Nat.lt_succ_of_le hle)
    queue := by
      refine ⟨[], ?_, ?_⟩
      · rw [shrunk.journal, journal, List.append_nil]
      · rw [shrunk.pending live, hr.pending, Journal.changes_nil, List.append_nil]
    nodesIssued := shrunk.nodesIssued.trans issued
    spacesIssued := shrunk.spacesIssued.trans hr.frame.issued
    catalog := shrunk.catalog.trans hr.frame.catalog }

/-- The node lets go of its content, whose space is taken down. -/
theorem unload (h : s.Coherent [] guest) {n : Node} (hn : s.node? id = some n)
    (hl : n.load.isSome) {f : LoadSlot → LoadSlot} (hf : ∀ slot, (f slot).space = none)
    (p : Option Request) :
    Edited guest id s (((s.modifySlot id f).cancel p).demolish
      (n.contentSpace?.toList.map .space)) := by
  obtain ⟨retouched, coherent, below⟩ := h.letGo hn hl hf p
  refine demolish hn retouched rfl rfl coherent below ?_ ?_
  · exact (journal_cancel _ _).trans (journal_modifyNode ..)
  · rw [nodes_cancel]
    exact issued_modifyNode ..

end Edited

end Scene

end SceneGraph
