import SceneGraph.Proofs.Drafting

namespace SceneGraph

namespace Scene

variable {s s' s'' : Scene} {guest : Option SpaceId} {sp : SpaceId} {x : Space} {id : NodeId}
  {b : Nat}

section inTurn

variable {α : Type} {f : α → Scene → Attempt} {P : Scene → Prop}

theorem inTurn_induction (l : List α) (hf : ∀ a ∈ l, ∀ s, P s → P (f a s).2) (h : P s) :
    P (inTurn f l s).2 := by
  induction l generalizing s with
  | nil => exact h
  | cons a l ih =>
    have ha := hf a List.mem_cons_self s h
    unfold inTurn
    split
    · next he => rwa [he] at ha
    · next he =>
      rw [he] at ha
      exact ih (fun b hb ↦ hf b (List.mem_cons_of_mem _ hb)) ha

theorem inTurn_ok (l : List α) (hf : ∀ a ∈ l, ∀ s, P s → ∃ s', f a s = (.ok (), s') ∧ P s')
    (h : P s) : ∃ s', inTurn f l s = (.ok (), s') ∧ P s' := by
  induction l generalizing s with
  | nil => exact ⟨s, rfl, h⟩
  | cons a l ih =>
    obtain ⟨t, ht, h⟩ := hf a List.mem_cons_self s h
    obtain ⟨s', hs, h⟩ := ih (fun a ha ↦ hf a (List.mem_cons_of_mem _ ha)) h
    exact ⟨s', by rw [inTurn, ht]; exact hs, h⟩

end inTurn

/-- What is older than the space number `b` is the same, and so is whose the spaces are. -/
structure Undisturbed (b : Nat) (s s' : Scene) : Prop where
  node : ∀ {id n}, s.node? id = some n → n.space.number < b → s'.node? id = some n
  space : ∀ {q x}, s.space? q = some x → q.number ≤ b →
    ∃ y, s'.space? q = some y ∧ y.kind = x.kind ∧ y.parent = x.parent ∧ y.owner = x.owner

theorem Undisturbed.trans (h : Undisturbed b s s') (h' : Undisturbed b s' s'') :
    Undisturbed b s s'' where
  node hn hlt := h'.node (h.node hn hlt) hlt
  space hx hle := by
    obtain ⟨y, hy, hk, hp, ho⟩ := h.space hx hle
    obtain ⟨z, hz, hk', hp', ho'⟩ := h'.space hy hle
    exact ⟨z, hz, hk'.trans hk, hp'.trans hp, ho'.trans ho⟩

theorem Edited.undisturbed (h : Edited guest id s s') {n : Node} (hn : s.node? id = some n)
    (hb : b ≤ n.space.number) : Undisturbed b s s' where
  node hm hlt := by
    refine h.spared hn ?_ hm (Nat.le_trans (Nat.le_of_lt hlt) hb)
    rintro rfl
    cases hn.symm.trans hm
    omega
  space hx hle := by
    obtain ⟨cs, hy⟩ := h.sparedSpace hn hx (Nat.le_trans hle hb)
    exact ⟨_, hy, rfl, rfl, rfl⟩

theorem Drafted.undisturbed {names : List (String × NodeId)} {created : List NodeId}
    (h : Drafted s sp x names created s') (hx : s.space? sp = some x) : Undisturbed b s s' where
  node {id n} hn _ := by
    rw [h.old, hn]
    intro hm
    rw [h.fresh hm] at hn
    cases hn
  space {q y} hy _ := by
    by_cases hq : q = sp
    · subst hq
      cases hx.symm.trans hy
      exact ⟨_, h.home, rfl, rfl, rfl⟩
    · exact ⟨y, (h.other hq).trans hy, rfl, rfl, rfl⟩

/-- At most roots, names, routes and the journal differ. -/
structure Rewired (s s' : Scene) : Prop where
  nodes : s'.nodes = s.nodes
  space : ∀ q, (s'.space? q).map (fun x ↦ (x.links, x.nodes)) =
    (s.space? q).map fun x ↦ (x.links, x.nodes)

namespace Rewired

protected theorem refl (s : Scene) : Rewired s s := ⟨rfl, fun _ ↦ rfl⟩

protected theorem trans (h : Rewired s s') (h' : Rewired s' s'') : Rewired s s'' where
  nodes := h'.nodes.trans h.nodes
  space q := (h'.space q).trans (h.space q)

theorem modifySpace {f : Space → Space} (hl : ∀ x, (f x).links = x.links)
    (hn : ∀ x, (f x).nodes = x.nodes) : Rewired s (s.modifySpace sp f) where
  nodes := rfl
  space q := by
    rw [space?_modifySpace]
    split
    · cases s.space? q with
      | none => rfl
      | some x => simp [hl, hn]
    · rfl

theorem addRoot {r : Bool} (h : s.addRoot sp id = .ok (r, s')) : Rewired s s' := by
  obtain ⟨-, x, -, -, ⟨-, -, rfl⟩ | ⟨-, -, rfl⟩⟩ := addRoot_eq_ok.mp h
  · exact .refl s'
  · exact modifySpace (fun _ ↦ rfl) fun _ ↦ rfl

theorem addRouteIn {r : Route} {new : Bool} (h : s.addRouteIn sp r = .ok (new, s')) :
    Rewired s s' := by
  unfold Scene.addRouteIn at h
  obtain ⟨x, -, h⟩ := bind_eq_ok.mp h
  obtain ⟨⟨⟩, -, h⟩ := bind_eq_ok.mp h
  split at h
  · cases h
    exact .refl _
  · cases h
    exact modifySpace (fun _ ↦ rfl) fun _ ↦ rfl

theorem exists_space (h : Rewired s s') {q : SpaceId} (hx : s.space? q = some x) :
    ∃ y, s'.space? q = some y ∧ y.links = x.links ∧ y.nodes = x.nodes := by
  have hq := h.space q
  rw [hx] at hq
  obtain ⟨y, hy, he⟩ := Option.map_eq_some_iff.mp hq
  exact ⟨y, hy, Prod.mk.inj he⟩

theorem undisturbed (h : Rewired s s') : Undisturbed b s s' where
  node hn _ := (node?_congr h.nodes _).trans hn
  space hx _ := by
    obtain ⟨y, hy, hl, -⟩ := h.exists_space hx
    obtain ⟨hk, hp, ho, -⟩ := Space.links_eq_iff.mp hl
    exact ⟨y, hy, hk, hp, ho⟩

end Rewired

theorem addStatementOrWarn_cases (text : String) (sp : SpaceId) (s : Scene)
    (r : Statement × Nat) :
    (∃ new, s.addStatement sp r.1 = .ok (new, addStatementOrWarn text sp s r)) ∨
      ∃ cause, addStatementOrWarn text sp s r = s.warn "Skipping unresolved route." cause := by
  unfold addStatementOrWarn
  split
  · next new s' he => exact .inl ⟨new, he⟩
  · exact .inr ⟨_, rfl⟩
  · exact .inr ⟨_, rfl⟩

theorem Coherent.addStatementOrWarn (h : s.Coherent [] guest) (text : String)
    (r : Statement × Nat) : (addStatementOrWarn text sp s r).Coherent [] guest := by
  rcases addStatementOrWarn_cases text sp s r with ⟨new, he⟩ | ⟨cause, he⟩
  · exact h.addStatement he
  · rw [he]
    exact h.log _

theorem Rewired.addStatementOrWarn (text : String) (r : Statement × Nat) :
    Rewired s (addStatementOrWarn text sp s r) := by
  rcases addStatementOrWarn_cases text sp s r with ⟨new, he⟩ | ⟨cause, he⟩
  · obtain ⟨route, -, he⟩ := bind_eq_ok.mp he
    exact .addRouteIn he
  · rw [he]
    exact ⟨rfl, fun _ ↦ rfl⟩

section commit

variable {roots : List NodeId} {d : Draft}

theorem exists_addRoot (hx : s.space? sp = some x) (hid : id ∈ x.nodes)
    (h : s.Coherent [] guest) : ∃ new s', s.addRoot sp id = .ok (new, s') := by
  obtain ⟨n, hn, -⟩ := h.housed.lodged hx hid
  by_cases hr : id ∈ x.roots
  · exact ⟨false, s, addRoot_eq_ok.mpr ⟨hasNode_iff.mpr ⟨n, hn⟩, x, hx, hid, .inl ⟨hr, rfl, rfl⟩⟩⟩
  · exact ⟨true, _, addRoot_eq_ok.mpr ⟨hasNode_iff.mpr ⟨n, hn⟩, x, hx, hid, .inr ⟨hr, rfl, rfl⟩⟩⟩

theorem exists_finishSetup {n : Node} (hn : s.node? id = some n) :
    ∃ s', s.finishSetup id = .ok s' := by
  unfold finishSetup node
  rw [hn]
  by_cases hs : n.inSetup
  · exact ⟨_, by simp [hs, bind, Except.bind, pure, Except.pure]; rfl⟩
  · exact ⟨s, by simp [hs, bind, Except.bind, pure, Except.pure]⟩

theorem commit_ok (text : String) (h : d.scene.Coherent [] guest) (hx : d.scene.space? sp = some x)
    (hr : ∀ id ∈ roots, id ∈ x.nodes) (hc : ∀ id ∈ d.created, id ∈ x.nodes) :
    ∃ s', commit sp text roots d = (.ok (), s') ∧ s'.Coherent [] guest ∧
      Undisturbed sp.number d.scene s' := by
  have rooted := inTurn_ok (f := fun id s ↦ s.keep ((s.addRoot sp id).map Prod.snd))
    (P := fun s ↦ s.Coherent [] guest ∧ Rewired d.scene s) roots (fun id hid s ⟨hs, hw⟩ ↦ by
      obtain ⟨y, hy, -, hn⟩ := hw.exists_space hx
      obtain ⟨new, s', ha⟩ := exists_addRoot hy (hn ▸ hr id hid) hs
      exact ⟨s', by rw [ha]; rfl, hs.addRoot ha, hw.trans (.addRoot ha)⟩) ⟨h, .refl _⟩
  obtain ⟨s₁, h₁, hs₁, hw₁⟩ := rooted
  have routed : (d.routes.foldl (addStatementOrWarn text sp) s₁).Coherent [] guest ∧
      Rewired d.scene (d.routes.foldl (addStatementOrWarn text sp) s₁) := by
    refine List.foldlRecOn d.routes (addStatementOrWarn text sp)
      (motive := fun s ↦ s.Coherent [] guest ∧ Rewired d.scene s) ⟨hs₁, hw₁⟩ ?_
    exact fun s ⟨hs, hw⟩ r _ ↦ ⟨hs.addStatementOrWarn text r, hw.trans (.addStatementOrWarn text r)⟩
  generalize hs₂ : d.routes.foldl (addStatementOrWarn text sp) s₁ = s₂ at routed
  obtain ⟨hc₂, hw₂⟩ := routed
  -- the nodes of the text outlive each other's setup
  have finished := inTurn_ok (f := fun id s ↦ s.keep (s.finishSetup id))
    (P := fun s ↦ s.Coherent [] guest ∧ Undisturbed sp.number d.scene s ∧
      ∀ id ∈ d.created, ∃ n, s.node? id = some n ∧ n.space = sp) d.created
    (fun id hid s ⟨hs, hu, hm⟩ ↦ by
      obtain ⟨n, hn, hsp⟩ := hm id hid
      obtain ⟨s', hf⟩ := exists_finishSetup hn
      have he := Edited.finishSetup hs hf
      refine ⟨s', by rw [hf]; rfl, he.coherent,
        hu.trans (he.undisturbed hn (hsp ▸ Nat.le_refl _)), fun k hk ↦ ?_⟩
      by_cases hki : k = id
      · subst hki
        obtain ⟨m, hm, -, hs⟩ := he.exists_self hn
        exact ⟨m, hm, hs.trans hsp⟩
      · obtain ⟨m, hm, hms⟩ := hm k hk
        exact ⟨m, he.spared hn hki hm (Nat.le_of_eq (by rw [hms, hsp])), hms⟩)
    ⟨hc₂, hw₂.undisturbed, fun id hid ↦ by
      obtain ⟨n, hn, hsp⟩ := h.housed.lodged hx (hc id hid)
      exact ⟨n, (node?_congr hw₂.nodes id).trans hn, hsp⟩⟩
  obtain ⟨s₃, h₃, hs₃, hu₃, -⟩ := finished
  refine ⟨s₃, ?_, hs₃, hu₃⟩
  unfold commit
  rw [h₁]
  dsimp only
  rw [hs₂, h₃]

end commit

section load

/-- The draft of a text at the end of its reading, or where the reading met a fault. -/
def draftOf (s : Scene) (sp : SpaceId) (text : String) : Draft :=
  match Lexer.tokenize text with
  | .error _ => ⟨s, [], []⟩
  | .ok tokens =>
    match Reader.document ⟨sp, text.utf8ByteSize⟩ ⟨s, [], []⟩ tokens with
    | .error (_, d) => d
    | .ok (_, d) => d

/-- Nodes that were found stay among the nodes of the space. -/
theorem Drafting.mem_of_known {env : Surroundings} {d : Draft} (h : s.Coherent [] guest)
    (hx : s.space? env.space = some x) (hk : Draft.Known env ⟨s, [], []⟩ d id) :
    ∃ y, d.scene.space? env.space = some y ∧ id ∈ y.nodes := by
  obtain ⟨d', hs, hs', hid⟩ := hk
  have before := (Drafting.refl h hx).steps h hx hs
  obtain ⟨names, hd, -⟩ := before.drafted
  obtain ⟨names', hd', -⟩ := (before.steps h hx hs').drafted
  refine ⟨_, hd'.home, ?_⟩
  have mem : id ∈ x.nodes ++ d'.created := by
    rcases hid with hid | ⟨name, hname⟩
    · exact List.mem_append_right _ hid
    · unfold Draft.named? Scene.named? at hname
      rw [hd.home, Option.bind_some] at hname
      obtain ⟨l₁, l₂, hl, -⟩ := List.lookup_eq_some_iff.mp hname
      have bound : (name, id) ∈ names := by
        rw [show names = l₁ ++ (name, id) :: l₂ from hl]
        exact List.mem_append_right _ List.mem_cons_self
      exact (before.coherent.wired hd.home).names (name, id) bound
  rcases List.mem_append.mp mem with hm | hm
  · exact List.mem_append_left _ hm
  · exact List.mem_append_right _ (Draft.Steps.created_subset hs' hm)

/-- A text is given up, or it is read and completed. -/
theorem load_cases (h : s.Coherent [] guest) (hx : s.space? sp = some x) (text : String) :
    Drafting s guest sp x (s.draftOf sp text) ∧
      ((∃ e, s.load sp text = (.error e,
          (s.draftOf sp text).rollBack.report .fatal "Scene content could not be read." (some e))) ∨
        ∃ roots s', s.load sp text = (.ok roots, s') ∧ s'.Coherent [] guest ∧
          Undisturbed sp.number (s.draftOf sp text).scene s') := by
  have hs : s.hasSpace sp := hasSpace_iff.mpr ⟨x, hx⟩
  unfold load draftOf
  simp only [hs, Bool.not_true, Bool.false_eq_true, if_false]
  cases Lexer.tokenize text with
  | error offset => exact ⟨.refl h hx, .inl ⟨_, rfl⟩⟩
  | ok tokens =>
    have start : Draft.Steps ⟨sp, text.utf8ByteSize⟩ ⟨s, [], []⟩ ⟨s, [], []⟩ := .refl
    have reads := Reader.document_reads start tokens
    dsimp only
    rcases hd : Reader.document ⟨sp, text.utf8ByteSize⟩ ⟨s, [], []⟩ tokens with
      ⟨fault, d⟩ | ⟨roots, d⟩
    · rw [hd] at reads
      exact ⟨(Drafting.refl h hx).steps h hx reads, .inl ⟨_, rfl⟩⟩
    · rw [hd] at reads
      have drafting := (Drafting.refl h hx).steps h hx reads.1
      refine ⟨drafting, .inr ?_⟩
      obtain ⟨names, hn, -⟩ := drafting.drafted
      have hr : ∀ id ∈ roots, id ∈ x.nodes ++ d.created := by
        intro id hid
        obtain ⟨y, hy, hm⟩ := Drafting.mem_of_known h hx (reads.2 id hid)
        cases hn.home.symm.trans hy
        exact hm
      obtain ⟨s', hc, hs', hu⟩ := commit_ok text drafting.coherent hn.home hr
        fun id hid ↦ List.mem_append_right _ hid
      exact ⟨roots, s', by dsimp only; rw [hc], hs', hu⟩

theorem load_of_unknown (hs : s.hasSpace sp = false) (text : String) :
    s.load sp text = (.error .unknownSpace, s) := by
  unfold load
  simp [hs]

theorem Coherent.load (h : s.Coherent [] guest) (sp : SpaceId) (text : String) :
    (s.load sp text).2.Coherent [] guest := by
  cases hs : s.hasSpace sp with
  | false =>
    rw [load_of_unknown hs]
    exact h
  | true =>
    obtain ⟨x, hx⟩ := hasSpace_iff.mp hs
    obtain ⟨drafting, ⟨e, he⟩ | ⟨roots, s', he, hs', -⟩⟩ := load_cases h hx text
    · rw [he]
      exact (drafting.rollBack h hx).1.log _
    · rw [he]
      exact hs'

/-- Loading a text into a space does not touch what is older than the space. -/
theorem load_undisturbed (h : s.Coherent [] guest) (hx : s.space? sp = some x) (text : String) :
    Undisturbed sp.number s (s.load sp text).2 := by
  obtain ⟨drafting, ⟨e, he⟩ | ⟨roots, s', he, -, hu⟩⟩ := load_cases h hx text
  · rw [he]
    obtain ⟨-, names, -, hd⟩ := drafting.rollBack h hx
    have hu : Undisturbed sp.number s (s.draftOf sp text).rollBack := hd.undisturbed hx
    exact ⟨hu.node, hu.space⟩
  · obtain ⟨names, hd, -⟩ := drafting.drafted
    rw [he]
    exact (hd.undisturbed hx).trans hu

end load

end Scene

end SceneGraph
