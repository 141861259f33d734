import SceneGraph.Proofs.Collecting
import SceneGraph.Proofs.Storing

/-!
Edits of the children of a node. Children that are given are put behind those there are, children
that are taken are left out, and all the others stay in their order. Listeners hear of the children
just if there are others than before, so that the same edit, made again, is not heard of.
-/

namespace SceneGraph

namespace Scene

section lists

variable (children incoming : List NodeId)

/-- New children come behind the old ones, each where it is given first. -/
theorem addedChildren_eq : addedChildren children incoming =
    children ++ (incoming.filter (· ∉ children)).eraseDups := by
  unfold addedChildren
  induction incoming generalizing children with
  | nil => simp
  | cons id incoming ih =>
    rw [List.foldl_cons]
    by_cases hm : id ∈ children
    · rw [if_pos hm, ih, List.filter_cons_of_neg (by simpa using hm)]
    · have later : incoming.filter (· ∉ children ++ [id]) =
          (incoming.filter (· ∉ children)).filter (fun k ↦ !k == id) := by
        rw [List.filter_filter]
        refine List.filter_congr fun k _ ↦ ?_
        by_cases hk : k = id <;> simp [hk]
      rw [if_neg hm, ih, later, List.filter_cons_of_pos (by simpa using hm), List.eraseDups_cons,
        List.append_assoc, List.singleton_append]

theorem mem_addedChildren {id : NodeId} :
    id ∈ addedChildren children incoming ↔ id ∈ children ∨ id ∈ incoming := by
  rw [addedChildren_eq, List.mem_append, List.mem_eraseDups, List.mem_filter]
  by_cases hm : id ∈ children <;> simp [hm]

theorem addedChildren_added :
    addedChildren (addedChildren children incoming) incoming = addedChildren children incoming := by
  have none : incoming.filter (· ∉ addedChildren children incoming) = [] :=
    List.filter_eq_nil_iff.mpr fun id hm ↦ by simp [mem_addedChildren, hm]
  rw [addedChildren_eq (addedChildren children incoming), none, List.eraseDups_nil, List.append_nil]

theorem remainingChildren_remaining :
    remainingChildren (remainingChildren children incoming) incoming =
      remainingChildren children incoming := by
  simp [remainingChildren, List.filter_filter]

/-- What is taken was not there, or it was given just now. -/
theorem remainingChildren_added : remainingChildren (addedChildren children incoming) incoming =
    remainingChildren children incoming := by
  have none : (incoming.filter (· ∉ children)).eraseDups.filter (· ∉ incoming) = [] :=
    List.filter_eq_nil_iff.mpr fun id hm ↦ by
      have given := (List.mem_filter.mp (List.mem_eraseDups.mp hm)).1
      simp [given]
  rw [addedChildren_eq, remainingChildren, List.filter_append, none, List.append_nil,
    remainingChildren]

theorem kept_addedChildren :
    (addedChildren children incoming).filter (· ∈ children) =
      children.filter (· ∈ addedChildren children incoming) := by
  have new : (incoming.filter (· ∉ children)).eraseDups.filter (· ∈ children) = [] :=
    List.filter_eq_nil_iff.mpr fun id hm ↦ by
      simpa using (List.mem_filter.mp (List.mem_eraseDups.mp hm)).2
  have old : children.filter (· ∈ addedChildren children incoming) = children :=
    List.filter_eq_self.mpr fun id hm ↦ by simp [mem_addedChildren, hm]
  rw [old, addedChildren_eq, List.filter_append, new, List.append_nil]
  exact List.filter_eq_self.mpr fun id hm ↦ by simpa using hm

theorem kept_remainingChildren :
    (remainingChildren children incoming).filter (· ∈ children) =
      children.filter (· ∈ remainingChildren children incoming) := by
  rw [remainingChildren, List.filter_filter]
  refine List.filter_congr fun id hm ↦ ?_
  simp [hm]

end lists

end Scene

/-- No script that reacts to a change writes the children of its node. -/
def NodeType.LeavesChildren (t : NodeType) : Prop :=
  ∀ children, t.children? = some children →
    ∀ (index : Nat) (view : NodeView), view.table = t.table →
    children ∉ ((t.behavior.fieldChanged index).perform view).outputs

/-- The children that the node lists. -/
def Node.childList (n : Node) : List NodeId := (n.type.children?.map (Scene.refsAt n)).getD []

namespace Scene

variable {s s' t : Scene} {id : NodeId} {n m : Node} {index input children : Nat} {v : Value}
  {ks ls : List Port} {edit : List NodeId → List NodeId → List NodeId}

def childList (s : Scene) (id : NodeId) : List NodeId := ((s.node? id).map Node.childList).getD []

/-- The changes are announced and queued, in this order and no others. -/
structure Posts (s : Scene) (ks : List Port) (s' : Scene) : Prop where
  announced : ∃ js, s'.journal = s.journal ++ js ∧ Journal.changes js = ks
  queued : s'.pending = s.pending ++ ks

theorem Posts.trans (h : s.Posts ks t) (h' : t.Posts ls s') : s.Posts (ks ++ ls) s' where
  announced := by
    obtain ⟨js, hj, rfl⟩ := h.announced
    obtain ⟨js', hj', rfl⟩ := h'.announced
    exact ⟨js ++ js', by rw [hj', hj, List.append_assoc], Journal.changes_append ..⟩
  queued := by rw [h'.queued, h.queued, List.append_assoc]

theorem posts_modifyNode (s : Scene) (id : NodeId) (f : Node → Node) :
    s.Posts [] (s.modifyNode id f) where
  announced := ⟨[], by simp⟩
  queued := by simp

theorem posts_markAll (s : Scene) (id : NodeId) (outputs : List Nat) :
    s.Posts (outputs.map (id, ·)) (s.markAll id outputs) where
  announced := ⟨_, journal_markAll .., changes_marks ..⟩
  queued := pending_markAll ..

theorem posts_perform (hn : s.node? id = some n) (out : n.inSetup = false)
    (script : Behavior → Script) :
    s.Posts (List.map (id, ·) ((script n.type.behavior).perform (s.viewOf id n)).outputs)
      (s.perform id script) := by
  unfold perform
  simp only [hn, out]
  generalize (script n.type.behavior).perform (s.viewOf id n) = a
  have noted : s.Posts [] ((s.modifyNode id fun n ↦ { n with values := a.view.values }).log
      (a.notes.map .note)) :=
    ⟨⟨_, congrArg (· ++ _) (journal_modifyNode ..), changes_notes _⟩, by simp [log]⟩
  exact noted.trans (posts_markAll _ id a.outputs)

theorem issued_perform (s : Scene) (id : NodeId) (script : Behavior → Script) :
    (s.perform id script).nodes.issued = s.nodes.issued := by
  unfold perform
  split
  · rfl
  · next n hn =>
    have stored (f : Node → Node) (js : List Entry) :
        ((s.modifyNode id f).log js).nodes.issued = s.nodes.issued := issued_modifyNode s id f
    dsimp only
    split
    · exact stored ..
    · exact (issued_markAll ..).trans (stored ..)

/-- The node lists these children, which is announced and queued, right after the input was, just if
they are others than before. -/
structure Regroups (s : Scene) (id : NodeId) (input children : Nat) (after : List NodeId)
    (s' : Scene) : Prop where
  list : s'.childList id = after
  posts : ∃ outputs : List Nat, children ∉ outputs ∧ s.Posts ((id, input) ::
    ((if after = s.childList id then [] else [(id, children)]) ++ outputs.map (id, ·))) s'

theorem childList_eq (hn : s.node? id = some n) (hc : n.type.children? = some children) :
    s.childList id = refsAt n children := by
  rw [childList, hn, Option.map_some, Option.getD_some, Node.childList, hc]
  rfl

theorem setValue_of_admits (hn : s.node? id = some n) (out : n.inSetup = false)
    (ha : n.admits s.nodes.issued index v = .ok ()) : s.setValue id index v =
      .ok ((((s.modifyNode id fun n ↦ n.store index v).markChanged id index).applyCapabilities id
        n.type index).perform id fun b ↦ b.fieldChanged index) := by
  rw [setValue, node_eq_ok.mpr hn]
  simp only [bind, Except.bind, ha, out, Bool.false_eq_true, if_false]
  rfl

theorem Edits.ne (h : Edits n input edit) (built : n.type.Built)
    (hc : n.type.children? = some children) : children ≠ input := by
  cases h with
  | add h => exact children_ne_input built hc (.inl h)
  | remove h => exact children_ne_input built hc (.inr h)

theorem applyCapabilities_of_edits (h : Edits n input edit) (built : n.type.Built)
    (hc : n.type.children? = some children) (s : Scene) (id : NodeId) :
    s.applyCapabilities id n.type input = s.editChildren id input children edit := by
  unfold applyCapabilities
  rw [hc]
  cases h with
  | add h => exact if_pos h
  | remove h =>
    -- the two inputs are fields of different names
    have apart : n.type.addChildren? ≠ some input := fun ha ↦ by
      have added := built.get?_standard (c := .children)
        (d := ⟨.eventIn, .multi .node, "addChildren", .ofNodes []⟩) (by decide) ha
      have removed := built.get?_standard (c := .children)
        (d := ⟨.eventIn, .multi .node, "removeChildren", .ofNodes []⟩) (by decide) h
      exact absurd (Option.some.inj (added.symm.trans removed)) (by decide)
    exact (if_neg apart).trans (if_pos h)

/-- An edit of the children by itself. -/
theorem editChildren_regroups (hn : s.node? id = some n) (sound : n.Sound)
    (out : n.inSetup = false) (hc : n.type.children? = some children) (he : Edits n input edit) :
    ∃ m, (s.editChildren id input children edit).node? id = some m ∧ Altered s id n m ∧
      m.inSetup = false ∧ refsAt m children = edit (refsAt n children) (refsAt n input) ∧
      (s.editChildren id input children edit).nodes.issued = s.nodes.issued ∧
      s.Posts (if edit (refsAt n children) (refsAt n input) = refsAt n children then []
        else [(id, children)]) (s.editChildren id input children edit) := by
  obtain ⟨d, hd, -⟩ := sound.built.children_shape hc
  have inside : children < n.values.length :=
    sound.values.length ▸ FieldTable.lt_size_of_get? hd
  unfold editChildren
  simp only [hn]
  split
  · next same =>
    exact ⟨n, hn, .same, out, same.symm, rfl, ⟨[], by simp⟩, by simp⟩
  · simp only [out]
    generalize hv : edit (refsAt n children) (refsAt n input) = after
    have written := Remade.modifyNode hn fun n ↦ n.store children (.ofNodes after)
    refine ⟨_, (written.trans (.markAll written.self [children])).self, ?_, out, ?_, ?_, ?_⟩
    · subst hv
      exact .edited hc he (length_flagAll (n.store children _) [children])
    · change (((n.values.set children (.ofNodes after))[children]?).map Value.refs).getD [] = after
      rw [List.getElem?_set_self inside]
      exact Counted.toList_ofList after
    · exact (issued_markAll _ id [children]).trans (issued_modifyNode ..)
    · exact (posts_modifyNode s id _).trans (posts_markAll _ id [children])

/-- A write to one of the inputs, from the check to the script. -/
theorem setValue_regroups (hn : s.node? id = some n) (sound : n.Sound) (out : n.inSetup = false)
    (hc : n.type.children? = some children) (he : Edits n input edit)
    (leaves : n.type.LeavesChildren) (hs : s.setValue id input v = .ok s') :
    ∃ m, s'.node? id = some m ∧ m.Sound ∧ m.type = n.type ∧ m.inSetup = false ∧
      s'.nodes.issued = s.nodes.issued ∧
      s.Regroups id input children (edit (s.childList id) v.refs) s' := by
  have ha := admits_of_setValue hn hs
  obtain ⟨d, hd, -⟩ := Node.admits_eq_ok.mp ha
  have inside : input < n.values.length := sound.values.length ▸ FieldTable.lt_size_of_get? hd
  have apart : children ≠ input := he.ne sound.built hc
  cases (setValue_of_admits hn out ha).symm.trans hs
  -- the input is stored
  let n₁ := (n.store input v).flagAll [input]
  have stored := Remade.stored hn input v
  have altered : Altered s id n n₁ := .stored ha (length_flagAll (n.store input v) [input])
  have given : refsAt n₁ input = v.refs := by
    change (((n.values.set input v)[input]?).map Value.refs).getD [] = v.refs
    rw [List.getElem?_set_self inside]
    rfl
  have before : refsAt n₁ children = refsAt n children := by
    change (((n.values.set input v)[children]?).map Value.refs).getD [] = _
    rw [List.getElem?_set_ne apart.symm]
    rfl
  have posted : s.Posts [(id, input)]
      ((s.modifyNode id fun n ↦ n.store input v).markChanged id input) :=
    (posts_modifyNode s id _).trans (posts_markAll _ id [input])
  have issued : ((s.modifyNode id fun n ↦ n.store input v).markChanged id input).nodes.issued =
      s.nodes.issued := (issued_markAll _ id [input]).trans (issued_modifyNode ..)
  rw [applyCapabilities_of_edits he sound.built hc]
  generalize (s.modifyNode id fun n ↦ n.store input v).markChanged id input = s₁ at *
  have sound₁ : n₁.Sound := altered.sound sound
  have he₁ : Edits n₁ input edit := by
    cases he with
    | add h => exact .add h
    | remove h => exact .remove h
  -- the children are edited
  obtain ⟨n₂, hn₂, altered₂, out₂, list₂, issued₂, posted₂⟩ :=
    editChildren_regroups stored.self sound₁ out hc he₁
  rw [given, before, ← childList_eq hn hc] at list₂ posted₂
  generalize s₁.editChildren id input children edit = s₂ at *
  have type₂ : n₂.type = n.type := altered₂.type
  -- the script reacts
  obtain ⟨flags, hf, performed⟩ := Remade.perform hn₂ fun b ↦ b.fieldChanged input
  have quiet :
      children ∉ ((n₂.type.behavior.fieldChanged input).perform (s₂.viewOf id n₂)).outputs :=
    type₂ ▸ leaves children hc input (s₂.viewOf id n₂) (congrArg NodeType.table type₂)
  have kept := Script.perform_others (n₂.type.behavior.fieldChanged input) (s₂.viewOf id n₂)
    children quiet
  refine ⟨_, performed.self,
    (Altered.performed (.fieldChanged input) hf).sound (altered₂.sound sound₁), type₂, out₂, ?_,
    ?_, _, quiet, ?_⟩
  · exact (issued_perform ..).trans (issued₂.trans issued)
  · rw [childList_eq performed.self (type₂ ▸ hc), ← list₂]
    exact congrArg (fun o ↦ (o.map Value.refs).getD []) kept
  · exact posted.trans (posted₂.trans (posts_perform hn₂ out₂ fun b ↦ b.fieldChanged input))

theorem Edits.again (h : Edits n input edit) (old given : List NodeId) :
    edit (edit old given) given = edit old given := by
  cases h with
  | add => exact addedChildren_added old given
  | remove => exact remainingChildren_remaining old given

theorem Edits.kept (h : Edits n input edit) (old given : List NodeId) :
    (edit old given).filter (· ∈ old) = old.filter (· ∈ edit old given) := by
  cases h with
  | add => exact kept_addedChildren old given
  | remove => exact kept_remainingChildren old given

/-- Whether a write is taken depends on the type of the node alone, once its setup is over. -/
theorem admits_congr (type : m.type = n.type) (setup : m.inSetup = n.inSetup) (issued : Nat) :
    m.admits issued input v = n.admits issued input v := by
  unfold Node.admits
  rw [type, setup]

/-- Children that are added come behind those there are, in order and each once; children that are
removed are left out, and all that stay keep their order. The children are announced and queued just
if they have become others. So the same edit does nothing when made again, and what was added and
then removed might as well not have been added. -/
theorem Met.regroups (h : s.Met) (hn : s.node? id = some n) (out : n.inSetup = false)
    (has : n.type.has .children) (leaves : n.type.LeavesChildren) :
    ∃ children add remove, n.type.children? = some children ∧ n.type.addChildren? = some add ∧
      n.type.removeChildren? = some remove ∧ children ≠ add ∧ children ≠ remove ∧
    (∀ v s', s.setValue id add v = .ok s' → s.Regroups id add children
      (s.childList id ++ (v.refs.filter (· ∉ s.childList id)).eraseDups) s') ∧
    (∀ v s', s.setValue id remove v = .ok s' → s.Regroups id remove children
      ((s.childList id).filter (· ∉ v.refs)) s') ∧
    (∀ input v s', input = add ∨ input = remove → s.setValue id input v = .ok s' →
      (s'.childList id).filter (· ∈ s.childList id) =
        (s.childList id).filter (· ∈ s'.childList id) ∧
      ∃ s'', s'.setValue id input v = .ok s'' ∧
        s'.Regroups id input children (s'.childList id) s'') ∧
    ∀ v s₁ s₂, s.setValue id add v = .ok s₁ → s.setValue id remove v = .ok s₂ →
      ∃ s₃, s₁.setValue id remove v = .ok s₃ ∧ s₃.childList id = s₂.childList id := by
  have sound := h.sound hn
  obtain ⟨children, hc⟩ := sound.built.exists_standard has (d := .children) (by decide)
  obtain ⟨add, ha⟩ := sound.built.exists_standard has
    (d := ⟨.eventIn, .multi .node, "addChildren", .ofNodes []⟩) (by decide)
  obtain ⟨remove, hr⟩ := sound.built.exists_standard has
    (d := ⟨.eventIn, .multi .node, "removeChildren", .ofNodes []⟩) (by decide)
  have adds : Edits n add addedChildren := .add ha
  have removes : Edits n remove remainingChildren := .remove hr
  have edited {input edit v s'} (he : Edits n input edit) (hs : s.setValue id input v = .ok s') :
      s.Regroups id input children (edit (s.childList id) v.refs) s' := by
    obtain ⟨-, -, -, -, -, -, regroups⟩ := setValue_regroups hn sound out hc he leaves hs
    exact regroups
  -- after an edit the node can be edited again as before
  have next {input edit v s'} (he : Edits n input edit) (hs : s.setValue id input v = .ok s')
      {input' edit' v'} (he' : Edits n input' edit')
      (ha' : n.admits s.nodes.issued input' v' = .ok ()) :
      ∃ s'', s'.setValue id input' v' = .ok s'' ∧
        s'.Regroups id input' children (edit' (s'.childList id) v'.refs) s'' := by
    obtain ⟨m, hm, sound', type, out', issued, -⟩ := setValue_regroups hn sound out hc he leaves hs
    have admits : m.admits s'.nodes.issued input' v' = .ok () := by
      rw [issued, admits_congr type (out'.trans out.symm), ha']
    have taken := setValue_of_admits hm out' admits
    have edits : Edits m input' edit' := by
      cases he' with
      | add h => exact .add (type ▸ h)
      | remove h => exact .remove (type ▸ h)
    obtain ⟨-, -, -, -, -, -, again⟩ :=
      setValue_regroups hm sound' out' (type ▸ hc) edits (type ▸ leaves) taken
    exact ⟨_, taken, again⟩
  refine ⟨children, add, remove, hc, ha, hr, adds.ne sound.built hc, removes.ne sound.built hc,
    fun v s' hs ↦ ?_, fun v s' hs ↦ ?_, fun input v s' hi hs ↦ ?_, fun v s₁ s₂ h₁ h₂ ↦ ?_⟩
  · rw [← addedChildren_eq]
    exact edited adds hs
  · exact edited removes hs
  · obtain ⟨edit, he⟩ : ∃ edit, Edits n input edit := by
      rcases hi with rfl | rfl
      exacts [⟨_, adds⟩, ⟨_, removes⟩]
    have list := (edited he hs).list
    obtain ⟨s'', hs'', again⟩ := next he hs he (admits_of_setValue hn hs)
    rw [list, he.again] at again
    rw [list]
    exact ⟨he.kept _ _, s'', hs'', again⟩
  · obtain ⟨s₃, h₃, both⟩ := next adds h₁ removes (admits_of_setValue hn h₂)
    refine ⟨s₃, h₃, ?_⟩
    rw [both.list, (edited adds h₁).list, remainingChildren_added, (edited removes h₂).list]

/-- A group with one child twice and another, and a handle of a group that is gone. -/
def gathered : Scene :=
  [.createNode .main "Group", .createNode .main "Group", .createNode .main "Group",
    .createNode .main "Group", .setValue (.issued 0) 0 (.ofNodes [.issued 1, .issued 3, .issued 1]),
    .finishSetup (.issued 0), .removeNode (.issued 2)].foldl Operation.run (start ⟨[group]⟩ {})

theorem passes_gathered : Passes (start ⟨[group]⟩ {}) gathered := by
  have built : ∀ t ∈ [group], t.Built := by simpa using built_group
  exact (story_start built rfl []).coherent.passes_foldl _

theorem met_gathered : gathered.Met :=
  ⟨⟨[group]⟩, {}, by simpa using built_group, passes_gathered⟩

theorem leavesChildren_group : group.LeavesChildren := fun _ _ _ _ _ ↦ List.not_mem_nil

theorem regroups_gathered : gathered.Met ∧ group.has .children ∧ group.LeavesChildren ∧
    (gathered.node? (.issued 0)).map (fun n ↦ (n.inSetup, n.childList)) =
      some (false, [.issued 1, .issued 3, .issued 1]) ∧
    ∃ s₁ s₂ s₃ s₄,
      gathered.setValue (.issued 0) 1 (.ofNodes [.issued 2, .issued 1, .issued 2]) = .ok s₁ ∧
      gathered.Regroups (.issued 0) 1 0 [.issued 1, .issued 3, .issued 1, .issued 2] s₁ ∧
      s₁.setValue (.issued 0) 1 (.ofNodes [.issued 2, .issued 1, .issued 2]) = .ok s₂ ∧
      s₁.Regroups (.issued 0) 1 0 [.issued 1, .issued 3, .issued 1, .issued 2] s₂ ∧
      gathered.setValue (.issued 0) 2 (.ofNodes [.issued 2, .issued 1, .issued 2]) = .ok s₃ ∧
      gathered.Regroups (.issued 0) 2 0 [.issued 3] s₃ ∧
      s₁.setValue (.issued 0) 2 (.ofNodes [.issued 2, .issued 1, .issued 2]) = .ok s₄ ∧
      s₄.childList (.issued 0) = [.issued 3] := by
  have seen : (gathered.node? (.issued 0)).map (fun n ↦ (n.inSetup, n.childList)) =
      some (false, [.issued 1, .issued 3, .issued 1]) := by cbv
  obtain ⟨n, hn, he⟩ := Option.map_eq_some_iff.mp seen
  obtain ⟨out, list⟩ := Prod.mk.inj he
  have known := met_gathered.type_mem hn
  rw [passes_gathered.catalog] at known
  have type : n.type = group := List.mem_singleton.mp known
  have before : gathered.childList (.issued 0) = [.issued 1, .issued 3, .issued 1] := by
    rw [childList, hn]
    exact list
  obtain ⟨children, add, remove, hc, ha, hr, -, -, added, removed, again, both⟩ :=
    met_gathered.regroups hn out (type ▸ rfl) (type ▸ leavesChildren_group)
  rw [type] at hc ha hr
  cases hc
  cases ha
  cases hr
  have taken₁ : (gathered.setValue (.issued 0) 1
      (.ofNodes [.issued 2, .issued 1, .issued 2])).isOk := by cbv
  have taken₃ : (gathered.setValue (.issued 0) 2
      (.ofNodes [.issued 2, .issued 1, .issued 2])).isOk := by cbv
  cases h₁ : gathered.setValue (.issued 0) 1 (.ofNodes [.issued 2, .issued 1, .issued 2]) with
  | error => cases h₁ ▸ taken₁
  | ok s₁ =>
  cases h₃ : gathered.setValue (.issued 0) 2 (.ofNodes [.issued 2, .issued 1, .issued 2]) with
  | error => cases h₃ ▸ taken₃
  | ok s₃ =>
  have first := added _ s₁ h₁
  have third := removed _ s₃ h₃
  rw [before] at first third
  obtain ⟨-, s₂, h₂, second⟩ := again _ _ s₁ (.inl rfl) h₁
  obtain ⟨s₄, h₄, last⟩ := both _ s₁ s₃ h₁ h₃
  rw [first.list] at second
  rw [third.list] at last
  exact ⟨met_gathered, rfl, leavesChildren_group, seen, s₁, s₂, s₃, s₄, rfl, first, h₂, second, rfl,
    third, h₄, last⟩

end Scene

end SceneGraph
