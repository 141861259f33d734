import SceneGraph.Proofs.Operation

/-!
What is heard of the changes that operations make.

Every change of a field is announced, flagged and queued in one stroke, for as long as its node is
out of setup. So the flags and the queue can be read off the announcements.
-/

namespace SceneGraph

/-- The node changed in nothing that is announced, and its setup did not begin again. -/
structure Node.Hushed (opens : Prop) (n n' : Node) : Prop where
  flags : n'.changed = n.changed
  begun : n'.inSetup = true → n.inSetup = true
  kept : ¬opens → n.inSetup = true → n'.inSetup = true
  values : ¬opens → n'.inSetup = false → n'.values = n.values

theorem Node.Hushed.of_same {opens : Prop} {n n' : Node} (flags : n'.changed = n.changed)
    (setup : n'.inSetup = n.inSetup) (values : n'.values = n.values) : n.Hushed opens n' where
  flags := flags
  begun hi := setup ▸ hi
  kept _ hi := setup ▸ hi
  values _ _ := values

theorem Node.Hushed.refl (opens : Prop) (n : Node) : n.Hushed opens n := of_same rfl rfl rfl

namespace Scene

/-- Whether a live node has its change flagged. -/
def flagged (s : Scene) (id : NodeId) (index : Nat) : Bool :=
  ((s.node? id).map (·.hasChanged index)).getD false

/-- The changes `js` were announced from the first scene to the second, and the flags and the fields
of the nodes go with them. -/
structure Voiced (l : Licence) (js : List (NodeId × Nat)) (s s' : Scene) : Prop where
  issued : s.nodes.issued ≤ s'.nodes.issued
  journal : ∃ es, s'.journal = s.journal ++ es ∧ Journal.changes es = js
  known : ∀ {p}, p ∈ js → ¬s'.Fresh p.1
  fresh : ∀ {k}, s'.hasNode k → s.hasNode k = false → s.Fresh k
  flags : ∀ {k n'}, s'.node? k = some n' → ∀ i, n'.hasChanged i ↔ s.flagged k i ∨ (k, i) ∈ js
  silent : ∀ {k n'}, s'.node? k = some n' → n'.inSetup = true → ∀ i, (k, i) ∉ js
  /-- Setup does not begin again. -/
  setup : ∀ {k n n'}, s.node? k = some n → s'.node? k = some n' →
    (n'.inSetup = true → n.inSetup = true) ∧ (¬l.opens k → n.inSetup = true → n'.inSetup = true)
  values : ∀ {k n n'}, s.node? k = some n → s'.node? k = some n' → ¬l.opens k →
    n'.inSetup = false → ∀ i, n'.values[i]? ≠ n.values[i]? → (k, i) ∈ js
  queue : ¬l.dequeues → (∀ p ∈ s.pending, s.hasNode p.1) →
    s'.pending = (s.pending ++ js).filter fun p ↦ s'.hasNode p.1

variable {l : Licence} {s s' t : Scene} {js js' : List (NodeId × Nat)} {id k : NodeId} {n : Node}

theorem hasNode_eq_false : s.hasNode id = false ↔ s.node? id = none := by
  rw [hasNode, Option.isSome_eq_false_iff, Option.isNone_iff_eq_none]

theorem flagged_of_node? (h : s.node? id = some n) (i : Nat) : s.flagged id i = n.hasChanged i := by
  rw [flagged, h]
  rfl

theorem flagged_of_none (h : s.node? id = none) (i : Nat) : s.flagged id i = false := by
  rw [flagged, h]
  rfl

theorem hasChanged_flagAll {outputs : List Nat} (inside : ∀ i ∈ outputs, i < n.changed.length)
    (i : Nat) : (n.flagAll outputs).hasChanged i ↔ n.hasChanged i ∨ i ∈ outputs := by
  induction outputs generalizing n with
  | nil => simp [Node.flagAll]
  | cons j outputs ih =>
    have first : ({ n with changed := n.changed.set j true } : Node).hasChanged i ↔
        n.hasChanged i ∨ i = j := by
      by_cases hij : j = i
      · subst hij
        simp [Node.hasChanged, inside j List.mem_cons_self]
      · simp [Node.hasChanged, List.getElem?_set_ne hij, Ne.symm hij]
    have rest : ∀ k ∈ outputs, k < (n.changed.set j true).length := fun k hk ↦ by
      rw [List.length_set]
      exact inside k (List.mem_cons_of_mem _ hk)
    rw [List.mem_cons, ← or_assoc, ← first]
    exact ih (n := { n with changed := n.changed.set j true }) rest

namespace Voiced

/-- Who was not there in between was not there before, and nobody had heard of it. -/
theorem absent (h : Voiced l js s t) (h' : Voiced l js' t s') (hk : s'.hasNode k)
    (ht : t.node? k = none) : s.node? k = none ∧ ∀ i, (k, i) ∉ js := by
  have fresh := h'.fresh hk (hasNode_eq_false.mpr ht)
  exact ⟨(fresh.of_issued h.issued).node?, fun i hi ↦ h.known hi fresh⟩

protected theorem trans (h : Voiced l js s t) (h' : Voiced l js' t s') :
    Voiced l (js ++ js') s s' where
  issued := Nat.le_trans h.issued h'.issued
  journal := by
    obtain ⟨es, he, rfl⟩ := h.journal
    obtain ⟨es', he', rfl⟩ := h'.journal
    exact ⟨es ++ es', by rw [he', he, List.append_assoc], Journal.changes_append ..⟩
  known hp := by
    rcases List.mem_append.mp hp with hp | hp
    · exact fun fresh ↦ h.known hp (fresh.of_issued h'.issued)
    · exact h'.known hp
  fresh {k} hk hs := by
    cases ht : t.hasNode k with
    | true => exact h.fresh ht hs
    | false => exact (h'.fresh hk ht).of_issued h.issued
  flags {k n'} hn' i := by
    rw [h'.flags hn' i, List.mem_append, ← or_assoc]
    refine or_congr_left ?_
    cases ht : t.node? k with
    | none =>
      obtain ⟨hs, unheard⟩ := h.absent h' (hasNode_iff.mpr ⟨n', hn'⟩) ht
      simp [flagged_of_none ht, flagged_of_none hs, unheard i]
    | some m => rw [flagged_of_node? ht, h.flags ht i]
  silent {k n'} hn' hi i := by
    rw [List.mem_append, not_or]
    refine ⟨?_, h'.silent hn' hi i⟩
    cases ht : t.node? k with
    | none => exact (h.absent h' (hasNode_iff.mpr ⟨n', hn'⟩) ht).2 i
    | some m => exact h.silent ht ((h'.setup ht hn').1 hi) i
  setup {k n n'} hn hn' := by
    cases ht : t.node? k with
    | none => cases hn.symm.trans (h.absent h' (hasNode_iff.mpr ⟨n', hn'⟩) ht).1
    | some m =>
      exact ⟨fun hi ↦ (h.setup hn ht).1 ((h'.setup ht hn').1 hi),
        fun ho hi ↦ (h'.setup ht hn').2 ho ((h.setup hn ht).2 ho hi)⟩
  values {k n n'} hn hn' ho out i hv := by
    cases ht : t.node? k with
    | none => cases hn.symm.trans (h.absent h' (hasNode_iff.mpr ⟨n', hn'⟩) ht).1
    | some m =>
      by_cases hm : n'.values[i]? = m.values[i]?
      · have out' : m.inSetup = false := by
          cases hi : m.inSetup with
          | false => rfl
          | true => cases out.symm.trans ((h'.setup ht hn').2 ho hi)
        exact List.mem_append_left _ (h.values hn ht ho out' i (hm ▸ hv))
      · exact List.mem_append_right _ (h'.values ht hn' ho out i hm)
  queue hd live := by
    have queued := h.queue hd live
    have live' : ∀ p ∈ t.pending, t.hasNode p.1 := fun p hp ↦ by
      rw [queued] at hp
      exact (List.mem_filter.mp hp).2
    have kept : ((s.pending ++ js).filter fun p ↦ t.hasNode p.1).filter (fun p ↦ s'.hasNode p.1) =
        (s.pending ++ js).filter fun p ↦ s'.hasNode p.1 := by
      rw [List.filter_filter]
      refine List.filter_congr fun p hp ↦ ?_
      cases hs : s'.hasNode p.1 with
      | false => rfl
      | true =>
        cases ht : t.hasNode p.1 with
        | true => rfl
        | false =>
          obtain ⟨gone, unheard⟩ := h.absent h' hs (hasNode_eq_false.mp ht)
          rcases List.mem_append.mp hp with hp | hp
          · cases (live p hp).symm.trans (hasNode_eq_false.mpr gone)
          · exact absurd hp (unheard p.2)
    calc s'.pending = (t.pending ++ js').filter fun p ↦ s'.hasNode p.1 := h'.queue hd live'
      _ = t.pending.filter (fun p ↦ s'.hasNode p.1) ++ js'.filter fun p ↦ s'.hasNode p.1 :=
        List.filter_append ..
      _ = (s.pending ++ js).filter (fun p ↦ s'.hasNode p.1) ++
            js'.filter fun p ↦ s'.hasNode p.1 := by rw [queued, kept]
      _ = (s.pending ++ (js ++ js')).filter fun p ↦ s'.hasNode p.1 := by
        rw [← List.filter_append, List.append_assoc]

/-- Nothing is heard where no node comes, none is flagged and none is written out of setup. -/
theorem quiet (issued : s'.nodes.issued = s.nodes.issued)
    (journal : ∃ es, s'.journal = s.journal ++ es ∧ Journal.changes es = [])
    (nodes : ∀ {k n'}, s'.node? k = some n' → ∃ n, s.node? k = some n ∧ n.Hushed (l.opens k) n')
    (queue : ¬l.dequeues → (∀ p ∈ s.pending, s.hasNode p.1) →
      s'.pending = s.pending.filter fun p ↦ s'.hasNode p.1) : Voiced l [] s s' where
  issued := Nat.le_of_eq issued.symm
  journal := journal
  known := nofun
  fresh hk hs := by
    obtain ⟨n', hn'⟩ := hasNode_iff.mp hk
    obtain ⟨n, hn, -⟩ := nodes hn'
    cases hn.symm.trans (hasNode_eq_false.mp hs)
  flags hn' i := by
    obtain ⟨n, hn, hushed⟩ := nodes hn'
    simp [flagged_of_node? hn, Node.hasChanged, hushed.flags]
  silent _ _ _ := List.not_mem_nil
  setup hn hn' := by
    obtain ⟨m, hm, hushed⟩ := nodes hn'
    cases hn.symm.trans hm
    exact ⟨hushed.begun, hushed.kept⟩
  values hn hn' ho out i hv := by
    obtain ⟨m, hm, hushed⟩ := nodes hn'
    cases hn.symm.trans hm
    exact absurd (by rw [hushed.values ho out]) hv
  queue hd live := by
    rw [List.append_nil]
    exact queue hd live

theorem filter_of_kept (kept : ∀ k, s.hasNode k → s'.hasNode k)
    (live : ∀ p ∈ s.pending, s.hasNode p.1) :
    (s.pending.filter fun p ↦ s'.hasNode p.1) = s.pending :=
  List.filter_eq_self.mpr fun p hp ↦ kept p.1 (live p hp)

theorem of_nodes (nodes : s'.nodes = s.nodes)
    (journal : ∃ es, s'.journal = s.journal ++ es ∧ Journal.changes es = [])
    (pending : ¬l.dequeues → s'.pending = s.pending) : Voiced l [] s s' :=
  quiet (by rw [nodes]) journal
    (fun hn ↦ ⟨_, (node?_congr nodes _).symm.trans hn, .refl _ _⟩)
    fun hd live ↦ by
      rw [pending hd, filter_of_kept (fun k hk ↦ by rwa [hasNode, node?_congr nodes]) live]

protected theorem refl (s : Scene) : Voiced l [] s s :=
  of_nodes rfl ⟨[], (List.append_nil _).symm, rfl⟩ fun _ ↦ rfl

theorem modifyNode {f : Node → Node} (nodes : s'.nodes = (s.modifyNode id f).nodes)
    (journal : s'.journal = s.journal) (pending : s'.pending = s.pending)
    (h : ∀ n, s.node? id = some n → n.Hushed (l.opens id) (f n)) : Voiced l [] s s' := by
  have lookup (k) : s'.node? k = if k = id then (s.node? k).map f else s.node? k :=
    (node?_congr nodes k).trans (node?_modifyNode s id f k)
  refine quiet (by rw [nodes, issued_modifyNode]) ⟨[], by rw [journal, List.append_nil], rfl⟩
    (fun {k n'} hn ↦ ?_) fun _ live ↦ ?_
  · rw [lookup] at hn
    split at hn
    · next he =>
      subst he
      obtain ⟨n, hm, rfl⟩ := Option.map_eq_some_iff.mp hn
      exact ⟨n, hm, h n hm⟩
    · exact ⟨n', hn, .refl _ _⟩
  · rw [pending, filter_of_kept (fun k hk ↦ ?_) live]
    rw [hasNode, lookup]
    split
    · rwa [Option.isSome_map]
    · exact hk

/-- Nobody has heard of a new node. -/
theorem addNode (s : Scene) (sp : SpaceId) (type : NodeType) :
    Voiced l [] s (s.addNode sp type) := by
  have issued : (s.addNode sp type).nodes.issued = s.nodes.issued + 1 := Arena.issued_insert ..
  have old {k n'} (hn : (s.addNode sp type).node? k = some n') :
      k = s.nextNode ∧ n' = .new type sp s.nextPlace ∨ s.node? k = some n' := by
    rw [node?_addNode] at hn
    split at hn
    · next he => exact .inl ⟨he, (Option.some.inj hn).symm⟩
    · exact .inr hn
  have kept {k n n'} (hn : s.node? k = some n) (hn' : (s.addNode sp type).node? k = some n') :
      n' = n := by
    rcases old hn' with ⟨rfl, -⟩ | hn'
    · cases hn.symm.trans (node?_nextNode s)
    · cases hn.symm.trans hn'
      rfl
  refine {
    issued := by omega
    journal := ⟨[], (List.append_nil _).symm, rfl⟩
    known := nofun
    fresh := fun {k} hk hs j hj ↦ ?_
    flags := fun {k n'} hn' i ↦ ?_
    silent := fun _ _ _ ↦ List.not_mem_nil
    setup := fun {k n n'} hn hn' ↦ by
      cases kept hn hn'
      exact ⟨fun hi ↦ hi, fun _ hi ↦ hi⟩
    values := fun {k n n'} hn hn' _ _ i hv ↦ absurd (by rw [kept hn hn']) hv
    queue := fun _ live ↦ ?_ }
  · obtain ⟨n', hn'⟩ := hasNode_iff.mp hk
    rcases old hn' with ⟨rfl, -⟩ | hn
    · exact Nat.le_of_eq (NodeId.issued.inj hj)
    · cases hn.symm.trans (hasNode_eq_false.mp hs)
  · rcases old hn' with ⟨rfl, rfl⟩ | hn
    · have unset : (Node.new type sp s.nextPlace).hasChanged i = false := by
        simp [Node.hasChanged, Node.new, List.getElem?_replicate]
        split <;> rfl
      simp [flagged_of_none (node?_nextNode s), unset]
    · simp [flagged_of_node? hn]
  · rw [List.append_nil, filter_of_kept (fun k hk ↦ ?_) live]
    · rfl
    rw [hasNode, node?_addNode]
    split
    · rfl
    · exact hk

theorem dropNode (s : Scene) (k : Nat) (n : Node) : Voiced l [] s (s.dropNode k n) := by
  refine quiet (by simp) ⟨[], by simp, rfl⟩ (fun {j n'} hn ↦ ?_) fun _ live ↦ ?_
  · rw [node?_dropNode] at hn
    split at hn
    · cases hn
    · exact ⟨n', hn, .refl _ _⟩
  · rw [pending_dropNode]
    refine List.filter_congr fun p hp ↦ ?_
    rw [hasNode, node?_dropNode]
    split
    · next he => simp [he]
    · next he => exact (decide_eq_true he).trans (live p hp).symm

theorem revise {write : List Value → List Value} {outputs : List Nat} (hn : s.node? id = some n)
    (out : n.inSetup = false) (inside : ∀ i ∈ outputs, i < n.changed.length)
    (others : ∀ i, i ∉ outputs → (write n.values)[i]? = n.values[i]?) :
    Voiced l (outputs.map (id, ·)) s
      ((s.modifyNode id fun n ↦ { n with values := write n.values }).markAll id outputs) := by
  generalize ht :
    (s.modifyNode id fun n ↦ { n with values := write n.values }).markAll id outputs = t
  have lookup (k) : t.node? k = if k = id then
        (s.node? k).map fun n ↦ { n with values := write n.values }.flagAll outputs
      else s.node? k := by
    rw [← ht, node?_markAll, node?_modifyNode]
    split
    · rw [Option.map_map]
      rfl
    · rfl
  have self : t.node? id = some ({ n with values := write n.values }.flagAll outputs) := by
    rw [lookup, if_pos rfl, hn]
    rfl
  have kept : ∀ k, s.hasNode k → t.hasNode k := fun k hk ↦ by
    rw [hasNode, lookup]
    split
    · rwa [Option.isSome_map]
    · exact hk
  have unnamed {k} (hk : k ≠ id) (i) : (k, i) ∉ outputs.map (id, ·) := fun hi ↦ by
    obtain ⟨j, -, he⟩ := List.mem_map.mp hi
    exact hk (Prod.ext_iff.mp he).1.symm
  have named (i) : (id, i) ∈ outputs.map (id, ·) ↔ i ∈ outputs := by simp
  have cases {k n'} (hn' : t.node? k = some n') :
      k = id ∧ n' = { n with values := write n.values }.flagAll outputs ∨
        k ≠ id ∧ s.node? k = some n' := by
    by_cases hk : k = id
    · subst hk
      exact .inl ⟨rfl, Option.some.inj (hn'.symm.trans self)⟩
    · rw [lookup, if_neg hk] at hn'
      exact .inr ⟨hk, hn'⟩
  refine {
    issued := Nat.le_of_eq (by rw [← ht, issued_markAll, issued_modifyNode])
    journal := ⟨outputs.map fun i ↦ .event (.fieldChanged id i), ?_, ?_⟩
    known := fun {p} hp fresh ↦ ?_
    fresh := fun {k} hk hs ↦ ?_
    flags := fun {k n'} hn' i ↦ ?_
    silent := fun {k n'} hn' hi i ↦ ?_
    setup := fun {k m n'} hm hn' ↦ ?_
    values := fun {k m n'} hm hn' _ _ i hv ↦ ?_
    queue := fun _ live ↦ ?_ }
  · rw [← ht, journal_markAll, journal_modifyNode]
  · exact changes_marks ..
  · obtain ⟨i, -, rfl⟩ := List.mem_map.mp hp
    cases self.symm.trans fresh.node?
  · obtain ⟨n', hn'⟩ := hasNode_iff.mp hk
    rcases cases hn' with ⟨rfl, -⟩ | ⟨-, hm⟩
    · cases hn.symm.trans (hasNode_eq_false.mp hs)
    · cases hm.symm.trans (hasNode_eq_false.mp hs)
  · rcases cases hn' with ⟨rfl, rfl⟩ | ⟨hk, hm⟩
    · rw [flagged_of_node? hn, named]
      exact hasChanged_flagAll inside i
    · simp [flagged_of_node? hm, unnamed hk]
  · rcases cases hn' with ⟨rfl, rfl⟩ | ⟨hk, -⟩
    · cases out.symm.trans hi
    · exact unnamed hk i
  · rcases cases hn' with ⟨rfl, rfl⟩ | ⟨hk, hn'⟩
    · cases hn.symm.trans hm
      exact ⟨fun hi ↦ hi, fun _ hi ↦ hi⟩
    · cases hm.symm.trans hn'
      exact ⟨fun hi ↦ hi, fun _ hi ↦ hi⟩
  · rcases cases hn' with ⟨rfl, rfl⟩ | ⟨hk, hn'⟩
    · cases hn.symm.trans hm
      rw [named]
      exact Decidable.byContradiction fun hi ↦ hv (others i hi)
    · cases hm.symm.trans hn'
      exact absurd rfl hv
  · rw [List.filter_append, ← ht, pending_markAll, pending_modifyNode, ht]
    congr 1
    · exact (filter_of_kept kept live).symm
    · rw [eq_comm, List.filter_eq_self]
      intro p hp
      obtain ⟨i, -, rfl⟩ := List.mem_map.mp hp
      exact hasNode_iff.mpr ⟨_, self⟩

end Voiced

/-- A stroke is heard of as it says, and those whom it is about are out of setup. -/
theorem Stroke.voiced (h : Stroke l s s') : ∃ js, Voiced l js s s' ∧
    ∀ p ∈ js, ∃ n, s.node? p.1 = some n ∧ n.inSetup = false := by
  have unheard {s s'} (hv : Voiced l [] s s') : ∃ js, Voiced l js s s' ∧
      ∀ p ∈ js, ∃ n, s.node? p.1 = some n ∧ n.inSetup = false := ⟨[], hv, nofun⟩
  cases h with
  | aside nodes pending loader routes journal =>
    exact unheard (.of_nodes nodes journal fun _ ↦ pending)
  | flag | terminate | tend =>
    exact unheard (.of_nodes rfl ⟨[], (List.append_nil _).symm, rfl⟩ fun _ ↦ rfl)
  | dequeue hd s pending =>
    exact unheard (.of_nodes rfl ⟨[], (List.append_nil _).symm, rfl⟩ fun hn ↦ absurd hd hn)
  | slot | ask =>
    exact unheard (.modifyNode rfl (journal_modifyNode ..) (pending_modifyNode ..)
      fun _ _ ↦ .of_same rfl rfl rfl)
  | draft write hn hi =>
    refine unheard (.modifyNode rfl (journal_modifyNode ..) (pending_modifyNode ..) fun m hm ↦ ?_)
    cases hn.symm.trans hm
    exact ⟨rfl, fun hi ↦ hi, fun _ hi ↦ hi, fun _ out ↦ by cases hi.symm.trans out⟩
  | endSetup ho =>
    exact unheard (.modifyNode rfl (journal_modifyNode ..) (pending_modifyNode ..)
      fun m hm ↦ ⟨rfl, nofun, fun hn ↦ absurd ho hn, fun hn ↦ absurd ho hn⟩)
  | dropNode => exact unheard (.dropNode ..)
  | addNode => exact unheard (.addNode ..)
  | revise write outputs hn out inside others =>
    refine ⟨_, .revise hn out inside others, fun p hp ↦ ?_⟩
    obtain ⟨i, -, rfl⟩ := List.mem_map.mp hp
    exact ⟨_, hn, out⟩

/-- On the way from `s` to `s'`, before the change `p` was announced and not before those in
`earlier`, the node of `p` was there and out of setup. -/
def Ripe (l : Licence) (s s' : Scene) (earlier : List (NodeId × Nat)) (p : NodeId × Nat) : Prop :=
  ∃ m n es, Strokes l s m ∧ Strokes l m s' ∧ m.journal = s.journal ++ es ∧
    Journal.changes es <+: earlier ∧ m.node? p.1 = some n ∧ n.inSetup = false

/-- What is heard of all the strokes of a scene. -/
theorem Strokes.voiced (h : Strokes l s s') : ∃ js, Voiced l js s s' ∧
    ∀ earlier p later, js = earlier ++ p :: later → Ripe l s s' earlier p := by
  induction h with
  | refl => exact ⟨[], .refl s, fun earlier p later he ↦ by simp at he⟩
  | @tail t s' ht hs ih =>
    obtain ⟨js, voiced, ripe⟩ := ih
    obtain ⟨js', voiced', out⟩ := hs.voiced
    refine ⟨js ++ js', voiced.trans voiced', fun earlier p later he ↦ ?_⟩
    rcases List.append_eq_append_iff.mp he with ⟨mid, rfl, he'⟩ | ⟨mid, rfl, he'⟩
    · obtain ⟨n, hn, hi⟩ := out p (he' ▸ List.mem_append_right _ List.mem_cons_self)
      obtain ⟨es, hj, hc⟩ := voiced.journal
      exact ⟨t, n, es, ht, .single hs, hj, hc ▸ List.prefix_append .., hn, hi⟩
    · cases mid with
      | nil =>
        have here : p :: later = js' := he'
        obtain ⟨n, hn, hi⟩ := out p (here ▸ List.mem_cons_self)
        obtain ⟨es, hj, hc⟩ := voiced.journal
        exact ⟨t, n, es, ht, .single hs, hj, hc ▸ by simp, hn, hi⟩
      | cons q mid =>
        cases he'
        obtain ⟨m, n, es, before, after, rest⟩ := ripe earlier p mid rfl
        exact ⟨m, n, es, before, after.tail hs, rest⟩

end Scene

end SceneGraph
