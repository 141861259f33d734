import SceneGraph.Proofs.Lasting
import SceneGraph.Proofs.Operation

/-!
What operations pass on their way.

Whatever is done to a scene is done in small passes, and each of them alters a node in one of a few
ways. What these keep of a node holds between operations and in the midst of them.
-/

namespace SceneGraph

/-- The slot that a node gets next. -/
inductive LoadSlot.Next (id : NodeId) (type : NodeType) (slot : LoadSlot) : LoadSlot → Prop
  | idle (hs : slot.state = .notLoaded) : Next id type slot (slot.enter .loading)
  | leave {state} (hc : slot.state.canBecome state = true) (hs : state ≠ .loading) :
      Next id type slot (slot.enter state)
  | vain (hs : slot.state = .notLoaded) : Next id type slot ((slot.enter .loading).enter .failed)
  | ask (hs : slot.state = .notLoaded) : Next id type slot (slot.ask id)
  | fill (content : Content) (space : Option SpaceId) (hs : slot.state = .loading)
      (hk : space.isSome → type.content = .scene) : Next id type slot (slot.fill content space)

theorem Node.Sound.space_of_getD {n : Node} (h : n.Sound) (hs : (n.load.getD {}).space.isSome) :
    (n.load.getD {}).state = .complete := by
  cases hl : n.load with
  | none =>
    rw [hl] at hs
    cases hs
  | some slot =>
    rw [hl] at hs
    exact h.content slot hl hs

theorem LoadSlot.Next.content {id : NodeId} {type : NodeType} {slot slot' : LoadSlot}
    (h : slot.space.isSome → slot.state = .complete) (hs : slot.Next id type slot')
    (hsp : slot'.space.isSome) : slot'.state = .complete := by
  have incomplete (he : slot.state ≠ .complete) (hsp : slot.space.isSome) : False := he (h hsp)
  cases hs with
  | idle hs | vain hs | ask hs => exact (incomplete (by rw [hs]; nofun) hsp).elim
  | fill => rfl
  | @leave state hc hs =>
    cases state with
    | notLoaded => cases hsp
    | loading => exact absurd rfl hs
    | complete => rfl
    | failed =>
      refine (incomplete (fun he ↦ ?_) hsp).elim
      rw [he] at hc
      cases hc

namespace Scene

/-- What may be done to a scene at once: a touch, or something that leaves the values and the slots
of its nodes and the loader alone. -/
inductive Pass : Scene → Scene → Prop
  | touch {l s s'} (h : Touch l s s') : Pass s s'
  | check (s id index) :
      Pass s (s.modifyNode id fun n ↦ { n with changed := n.changed.set index false })
  | clock (s time) : Pass s { s with time }
  | journal (s journal) : Pass s { s with journal }

abbrev Passes : Scene → Scene → Prop := Relation.ReflTransGen Pass

/-- What becomes of a node at once. -/
inductive Altered (s : Scene) (id : NodeId) (n : Node) : Node → Prop
  | same : Altered s id n n
  | flagged {flags} (hf : flags.length = n.changed.length) :
      Altered s id n { n with changed := flags }
  | load {field slot} (hu : n.type.url? = some field)
      (h : (n.load.getD {}).Next id n.type slot) : Altered s id n { n with load := some slot }
  | stored {index v flags} (ha : n.admits s.nodes.issued index v = .ok ())
      (hf : flags.length = n.changed.length) :
      Altered s id n { n with values := n.values.set index v, changed := flags }
  | performed {script flags} (h : Cued n script) (hf : flags.length = n.changed.length) :
      Altered s id n { n with
        values := ((script n.type.behavior).perform (s.viewOf id n)).view.values
        changed := flags }
  | edited {input children edit flags} (hc : n.type.children? = some children)
      (h : Edits n input edit) (hf : flags.length = n.changed.length) :
      Altered s id n { n with
        values := n.values.set children (.ofNodes (edit (refsAt n children) (refsAt n input)))
        changed := flags }
  | opened (hi : n.inSetup = true) : Altered s id n { n with inSetup := false }

variable {l : Licence} {s s' t : Scene} {id : NodeId} {n m : Node}

section passes

theorem Touches.passes (h : Touches l s s') : Passes s s' := by
  induction h with
  | refl => exact .refl
  | tail _ ht ih => exact ih.tail (.touch ht)

theorem passes_tick {hooks : List HookProgram} {requested : Double} {tally : Tally}
    (h : s.Coherent [] none) (ht : s.tick hooks requested = .ok (tally, s')) : Passes s s' := by
  obtain ⟨time, t, u, ha, touches, rfl⟩ := h.touches_tick ht
  have clock : Pass s t := by
    rcases advanceClock_cases ha with ⟨text, rfl⟩ | rfl
    · exact .journal s _
    · exact .clock s _
  exact .tail (.head clock touches.passes) (.journal u _)

theorem Coherent.passes (h : s.Coherent [] none) (op : Operation) : Passes s (op.run s) := by
  by_cases hc : ∃ id index, op = .checkChanged id index
  · obtain ⟨id, index, rfl⟩ := hc
    rw [Operation.run_checkChanged]
    exact .single (.check s id index)
  by_cases hj : op = .takeJournal
  · subst hj
    exact .single (.journal s [])
  by_cases ht : ∃ hooks requested, op = .tick hooks requested
  · obtain ⟨hooks, requested, rfl⟩ := ht
    exact after_snd_induction (P := fun t ↦ Passes s t) .refl fun _ _ ht ↦ passes_tick h ht
  · exact (h.touches op (fun id index he ↦ hc ⟨id, index, he⟩) hj
      fun hooks requested he ↦ ht ⟨hooks, requested, he⟩).passes

theorem Coherent.passes_foldl (h : s.Coherent [] none) (ops : List Operation) :
    Passes s (ops.foldl Operation.run s) := by
  induction ops generalizing s with
  | nil => exact .refl
  | cons op ops ih => exact (h.passes op).trans (ih (h.run op))

/-- A scene that operations on a new one lead to, or pass on their way. -/
def Met (s : Scene) : Prop :=
  ∃ catalog settings, (∀ t ∈ catalog.types, t.Built) ∧ Passes (start catalog settings) s

theorem Met.passes (h : s.Met) (hp : Passes s s') : s'.Met := by
  obtain ⟨catalog, settings, built, before⟩ := h
  exact ⟨catalog, settings, built, before.trans hp⟩

theorem Story.met {os : List (Operation × Scene)} (h : Story os s) : s.Met := by
  induction h with
  | @new catalog settings _ built h =>
    obtain ⟨⟨⟩, -, h⟩ := bind_eq_ok.mp h
    cases h
    exact ⟨catalog, settings, built, .refl⟩
  | next h op ih => exact ih.passes (h.coherent.passes op)

theorem Reachable.met (h : s.Reachable) : s.Met := by
  obtain ⟨os, h⟩ := h.exists_story
  exact h.met

end passes

section altered

/-- One node of the second scene is another than in the first. -/
def Remade (id : NodeId) (n' : Node) (s s' : Scene) : Prop :=
  ∀ k, s'.node? k = if k = id then some n' else s.node? k

theorem Remade.modifyNode (hn : s.node? id = some n) (f : Node → Node) :
    Remade id (f n) s (s.modifyNode id f) := fun k ↦ by
  rw [node?_modifyNode]
  split
  · next hk => rw [hk, hn, Option.map_some]
  · rfl

theorem Remade.self (h : Remade id m s s') : s'.node? id = some m := (h id).trans (if_pos rfl)

theorem Remade.trans {m' : Node} (h : Remade id m s t) (h' : Remade id m' t s') :
    Remade id m' s s' := fun k ↦ by
  rw [h', h]
  split <;> rfl

theorem Remade.congr (h : Remade id m s t) (nodes : s'.nodes = t.nodes) : Remade id m s s' :=
  fun k ↦ (node?_congr nodes k).trans (h k)

theorem Remade.altered {k : NodeId} {m' : Node} (h : Remade id m s s') (hn : s.node? id = some n)
    (ha : Altered s id n m) (hm : s'.node? k = some m') :
    ∃ n, s.node? k = some n ∧ Altered s k n m' := by
  rw [h] at hm
  split at hm
  · next hk =>
    subst hk
    cases hm
    exact ⟨n, hn, ha⟩
  · exact ⟨m', hm, .same⟩

theorem Remade.markAll (hn : s.node? id = some n) (outputs : List Nat) :
    Remade id (n.flagAll outputs) s (s.markAll id outputs) := fun k ↦ by
  rw [node?_markAll]
  split
  · next hk => rw [hk, hn, Option.map_some]
  · rfl

theorem Remade.stored (hn : s.node? id = some n) (index : Nat) (v : Value) :
    Remade id ((n.store index v).flagAll [index]) s
      ((s.modifyNode id fun n ↦ n.store index v).markChanged id index) :=
  have stored := Remade.modifyNode hn fun n ↦ n.store index v
  stored.trans (.markAll stored.self [index])

theorem length_flagAll (n : Node) (outputs : List Nat) :
    (n.flagAll outputs).changed.length = n.changed.length := by
  unfold Node.flagAll
  generalize n.changed = flags
  induction outputs generalizing flags with
  | nil => rfl
  | cons i outputs ih => exact (ih _).trans (List.length_set ..)

theorem Remade.perform (hn : s.node? id = some n) (script : Behavior → Script) :
    ∃ flags, flags.length = n.changed.length ∧ Remade id { n with
      values := ((script n.type.behavior).perform (s.viewOf id n)).view.values
      changed := flags } s (s.perform id script) := by
  unfold Scene.perform
  simp only [hn]
  generalize (script n.type.behavior).perform (s.viewOf id n) = a
  have stored := Remade.modifyNode hn fun n ↦ { n with values := a.view.values }
  have written : Remade id { n with values := a.view.values } s
    ((s.modifyNode id fun n ↦ { n with values := a.view.values }).log (a.notes.map .note)) :=
      stored.congr rfl
  split
  · exact ⟨n.changed, rfl, written⟩
  · exact ⟨_, length_flagAll { n with values := a.view.values } a.outputs,
      written.trans (.markAll written.self a.outputs)⟩

/-- A script announces the fields that it wrote, unless its node is being set up. -/
theorem journal_perform (hn : s.node? id = some n) (script : Behavior → Script) :
    ∃ js, (s.perform id script).journal = s.journal ++ js ∧ Journal.changes js =
      if n.inSetup then []
      else ((script n.type.behavior).perform (s.viewOf id n)).outputs.map (id, ·) := by
  unfold Scene.perform
  simp only [hn]
  generalize (script n.type.behavior).perform (s.viewOf id n) = a
  split
  · exact ⟨_, congrArg (· ++ _) (journal_modifyNode ..), changes_notes _⟩
  · refine ⟨a.notes.map .note ++ a.outputs.map fun i ↦ .event (.fieldChanged id i), ?_, ?_⟩
    · refine (journal_markAll ..).trans ?_
      rw [log, journal_modifyNode, List.append_assoc]
    · rw [Journal.changes_append, changes_notes, changes_marks, List.nil_append]

theorem Remade.editChildren (hn : s.node? id = some n) (input children : Nat)
    (edit : List NodeId → List NodeId → List NodeId) :
    s.editChildren id input children edit = s ∨
      ∃ flags, flags.length = n.changed.length ∧ Remade id { n with
        values := n.values.set children (.ofNodes (edit (refsAt n children) (refsAt n input)))
        changed := flags } s (s.editChildren id input children edit) := by
  unfold Scene.editChildren
  simp only [hn]
  split
  · exact .inl rfl
  generalize Value.ofNodes (edit (refsAt n children) (refsAt n input)) = v
  have written := Remade.modifyNode hn fun n ↦ n.store children v
  split
  · exact .inr ⟨n.changed, rfl, written⟩
  · exact .inr ⟨_, length_flagAll (n.store children v) [children],
      written.trans (.markAll written.self [children])⟩

theorem Remade.slot (hn : s.node? id = some n) (f : LoadSlot → LoadSlot) (r : Option Request) :
    Remade id { n with load := some (f (n.load.getD {})) } s ((s.modifySlot id f).cancel r) :=
  (Remade.modifyNode hn _).congr (nodes_cancel ..)

theorem Touch.altered (h : Touch l s s') {k : NodeId} (hm : s'.node? k = some m) :
    (∃ n, s.node? k = some n ∧ Altered s k n m) ∨
      s.Fresh k ∧ ∃ type ∈ s.catalog.types, ∃ sp place, m = .new type sp place := by
  have kept (he : s'.nodes = s.nodes) : ∃ n, s.node? k = some n ∧ Altered s k n m :=
    ⟨m, node?_congr he k ▸ hm, .same⟩
  cases h with
  | log | reroute | terminate | renew | drain | take | advance | useCache | dequeue =>
    exact .inl (kept rfl)
  | idle _ hn hu hs => exact .inl ((Remade.slot hn _ none).altered hn (.load hu (.idle hs)) hm)
  | leave hn hu hc hs =>
    exact .inl ((Remade.slot hn _ _).altered hn (.load hu (.leave hc hs)) hm)
  | vain hn hu hs => exact .inl ((Remade.slot hn _ _).altered hn (.load hu (.vain hs)) hm)
  | ask hn hu hs =>
    exact .inl (((Remade.slot hn _ none).congr rfl).altered hn (.load hu (.ask hs)) hm)
  | fill content space hn hu hs hk =>
    exact .inl ((Remade.slot hn _ _).altered hn (.load hu (.fill content space hs hk)) hm)
  | @write id n index v hn _ _ ha =>
    have written := Remade.modifyNode hn fun n ↦ n.store index v
    have marked := written.trans (.markAll written.self [index])
    exact .inl (marked.altered hn (.stored ha (length_flagAll (n.store index v) [index])) hm)
  | draft hn _ ha => exact .inl ((Remade.modifyNode hn _).altered hn (.stored ha rfl) hm)
  | perform hn _ h =>
    obtain ⟨flags, hf, remade⟩ := Remade.perform hn _
    exact .inl (remade.altered hn (.performed h hf) hm)
  | editChildren hn _ hc h =>
    rcases Remade.editChildren hn _ _ _ with he | ⟨flags, hf, remade⟩
    · exact .inl (kept (congrArg nodes he))
    · exact .inl (remade.altered hn (.edited hc h hf) hm)
  | endSetup _ hn hi => exact .inl ((Remade.modifyNode hn _).altered hn (.opened hi) hm)
  | addNode _ ht =>
    rcases of_node?_addNode hm with ⟨rfl, rfl⟩ | hm
    · refine .inr ⟨fun k hk ↦ ?_, _, ht, _, _, rfl⟩
      cases hk
      exact Nat.le_refl _
    · exact .inl ⟨m, hm, .same⟩
  | dropNode =>
    rw [node?_dropNode] at hm
    split at hm
    · cases hm
    · exact .inl ⟨m, hm, .same⟩

/-- A node was there before, or its handle is given for the first time. -/
theorem Pass.altered (h : Pass s s') {k : NodeId} (hm : s'.node? k = some m) :
    (∃ n, s.node? k = some n ∧ Altered s k n m) ∨
      s.Fresh k ∧ ∃ type ∈ s.catalog.types, ∃ sp place, m = .new type sp place := by
  cases h with
  | touch h => exact h.altered hm
  | clock | journal => exact .inl ⟨m, hm, .same⟩
  | check id index =>
    rw [node?_modifyNode] at hm
    split at hm
    · obtain ⟨n, hn, rfl⟩ := Option.map_eq_some_iff.mp hm
      exact .inl ⟨n, hn, .flagged (List.length_set ..)⟩
    · exact .inl ⟨m, hm, .same⟩

theorem Pass.issued_le (h : Pass s s') : s.nodes.issued ≤ s'.nodes.issued := by
  cases h with
  | touch h => exact h.strokes.issued_le
  | clock | journal => exact Nat.le_refl _
  | check => exact Nat.le_of_eq (issued_modifyNode ..).symm

theorem Pass.catalog (h : Pass s s') : s'.catalog = s.catalog := by
  cases h with
  | touch h => exact h.lasts.catalog
  | clock | journal => rfl
  | check => exact catalog_modifyNode ..

theorem Passes.issued_le (h : Passes s s') : s.nodes.issued ≤ s'.nodes.issued := by
  induction h with
  | refl => exact Nat.le_refl _
  | tail _ hp ih => exact Nat.le_trans ih hp.issued_le

theorem Passes.catalog (h : Passes s s') : s'.catalog = s.catalog := by
  induction h with
  | refl => rfl
  | tail _ hp ih => exact hp.catalog.trans ih

end altered

section sound

theorem Altered.type (h : Altered s id n m) : m.type = n.type := by
  cases h <;> rfl

theorem Altered.sound (h : n.Sound) (ha : Altered s id n m) : m.Sound := by
  cases ha with
  | same => exact h
  | flagged hf => exact ⟨h.built, h.values, hf.trans h.flags, h.slot, h.content⟩
  | load hu hs =>
    refine ⟨h.built, h.values, h.flags, (NodeType.has_of_standard? hu).symm, ?_⟩
    rintro _ ⟨⟩
    exact hs.content h.space_of_getD
  | stored ha hf =>
    obtain ⟨d, hd, -, -, hv, -⟩ := Node.admits_eq_ok.mp ha
    exact ⟨h.built, h.values.set hd hv, hf.trans h.flags, h.slot, h.content⟩
  | @performed script _ _ hf =>
    have faithful := Script.perform_faithful (script n.type.behavior) (v := s.viewOf id n) h.values
    exact ⟨h.built, faithful.holds, hf.trans h.flags, h.slot, h.content⟩
  | edited hc _ hf =>
    obtain ⟨d, hd, hv⟩ := h.built.children_shape hc
    exact ⟨h.built, h.values.set hd (hv _), hf.trans h.flags, h.slot, h.content⟩
  | opened => exact ⟨h.built, h.values, h.flags, h.slot, h.content⟩

/-- What new nodes have and no pass takes from them, the nodes of every scene have. -/
theorem Met.forall_nodes {P : NodeId → Node → Prop} (h : s.Met)
    (new : ∀ type ∈ s.catalog.types, type.Built → ∀ id sp place, P id (.new type sp place))
    (alter : ∀ {t id n m}, n.Sound → P id n → Altered t id n m → P id m) :
    ∀ {id n}, s.node? id = some n → n.Sound ∧ P id n := by
  obtain ⟨catalog, settings, built, passes⟩ := h
  rw [Passes.catalog passes] at new
  induction passes with
  | refl =>
    intro id n hn
    rw [node?_start] at hn
    cases hn
  | tail before hp ih =>
    intro id m hm
    rcases hp.altered hm with ⟨n, hn, ha⟩ | ⟨-, type, ht, sp, place, rfl⟩
    · obtain ⟨sound, hn⟩ := ih hn
      exact ⟨ha.sound sound, alter sound hn ha⟩
    · rw [Passes.catalog before] at ht
      exact ⟨.new (built type ht) sp place, new type ht (built type ht) id sp place⟩

/-- Handles are not given again. -/
theorem Passes.exists_node (h : Passes s t) (known : ¬s.Fresh id) (hm : t.node? id = some m) :
    ∃ n, s.node? id = some n := by
  induction h generalizing m with
  | refl => exact ⟨m, hm⟩
  | tail before hp ih =>
    rcases hp.altered hm with ⟨n, hn, -⟩ | ⟨fresh, -⟩
    · exact ih hn
    · exact absurd (fresh.of_issued (Passes.issued_le before)) known

/-- What no pass takes from a node, it has for as long as it is there. -/
theorem Passes.keep {P : Node → Prop} (h : Passes s t) (hn : s.node? id = some n) (start : P n)
    (alter : ∀ {u n m}, P n → Altered u id n m → P m) (hm : t.node? id = some m) : P m := by
  induction h generalizing m with
  | refl =>
    cases hn.symm.trans hm
    exact start
  | tail before hp ih =>
    rcases hp.altered hm with ⟨n, hn, ha⟩ | ⟨fresh, -⟩
    · exact alter (ih hn) ha
    · cases hn.symm.trans (fresh.of_issued (Passes.issued_le before)).node?

theorem Met.type_mem (h : s.Met) (hn : s.node? id = some n) : n.type ∈ s.catalog.types :=
  (h.forall_nodes (P := fun _ n ↦ n.type ∈ s.catalog.types) (fun _ ht _ _ _ _ ↦ ht)
    (fun _ ht ha ↦ ha.type ▸ ht) hn).2

end sound

end Scene

end SceneGraph
