import SceneGraph.Proofs.Drawing

/-!
A reader reads what derives from the grammar, and no more.
-/

namespace SceneGraph

variable {l : Language} {env : Surroundings} {s₀ : Scene} {g g' : Gist} {d d' : Draft}
  {id : NodeId} {type : NodeType} {index : Nat} {name : String} {v : Value}

theorem Derives.types_prefix {p : Phrase} {w : List Spanned} (h : Derives l g p w g') :
    g.types <+: g'.types := by
  induction h with
  | finish | null | use | done | plain | nil => exact List.prefix_rfl
  | documentRoute _ _ ih | define _ _ _ ih | bare _ ih | bodyRoute _ _ ih | reference _ ih
  | member _ ih | members _ _ _ ih => exact ih
  | documentStatement _ _ first ih | cons _ _ first ih | field _ _ _ _ _ _ _ first ih =>
    exact first.trans ih
  | node _ _ _ _ _ ih => exact (List.prefix_append ..).trans ih

/-- The nodes of a text keep their types. -/
theorem Derives.typed {p : Phrase} {w : List Spanned} (h : Derives l g p w g')
    (typed : g.type? l id = some type) : g'.type? l id = some type := by
  obtain ⟨more, hm⟩ := h.types_prefix
  cases id with
  | void => cases typed
  | issued k =>
    simp only [Gist.type?] at typed ⊢
    split at typed
    · rw [if_pos ‹_›, ← hm, List.getElem?_append_left (List.getElem?_eq_some_iff.mp typed).1]
      exact typed
    · cases typed

/-- The first tokens of the statement of a node. -/
def Token.opensNode : Token → Bool
  | .keyword .null | .keyword .use | .keyword .define | .ident _ => true
  | _ => false

namespace Reader

variable {ts rest : List Spanned} {o : Option NodeId} {ids : List NodeId} {t : FieldType}

/-- What was read derives from the phrase, up to the tokens that are left. -/
def Parsed (l : Language) (env : Surroundings) (s₀ : Scene) (g : Gist) (p : Phrase)
    (ts rest : List Spanned) (d : Draft) : Prop :=
  ∃ w g', ts = w ++ rest ∧ Derives l g p w g' ∧ Draws l env s₀ g' d

/-- As `Parsed`, with a mark behind the phrase that is read with it. -/
def Enclosed (l : Language) (env : Surroundings) (s₀ : Scene) (m : Mark) (g : Gist) (p : Phrase)
    (ts rest : List Spanned) (d : Draft) : Prop :=
  ∃ w c g', ts = w ++ c :: rest ∧ c.token = .mark m ∧ Derives l g p w g' ∧ Draws l env s₀ g' d

section sound

theorem addRoute_parsed {r : Rest ts} (h : Draws l env s₀ g d)
    (he : addRoute env d ts = .ok ((), d', r)) :
    ∃ s t us, ts = t :: us ++ r.1 ∧ (t :: us).map Spanned.token = s.tokens ∧
      Draws l env s₀ (g.addRoute s t.start) d' := by
  obtain ⟨⟨s, r'⟩, hr, he⟩ := bind_eq_ok.mp he
  cases he
  obtain ⟨us, hu, hs⟩ := routeStatement_leaves.mp ⟨r.2, keeping_eq_ok.mp hr⟩
  cases us with
  | nil => cases hs
  | cons t us =>
    refine ⟨s, t, us, hu, hs, ?_⟩
    have start : startOf env ts = t.start := by
      rw [hu]
      rfl
    rw [start]
    exact h.addRoute ..

theorem header_parsed {name : Option String} {r : Rest ts} (h : Draws l env s₀ g d)
    (he : header env d name ts = .ok (id, d', r)) :
    ∃ t typeName type b, ts = t :: b :: r.1 ∧ t.token = .ident typeName ∧
      l.types.get? typeName = some type ∧ b.token = .mark .openBrace ∧ id = g.next l ∧
      Draws l env s₀ ((g.create type).label id name) d' := by
  obtain ⟨⟨typeName, r₁⟩, hty, he⟩ := bind_eq_ok.mp he
  obtain ⟨⟨k, d₁⟩, hc, he⟩ := bind_eq_ok.mp he
  obtain ⟨d₂, hn, he⟩ := bind_eq_ok.mp he
  obtain ⟨⟨⟨⟩, r₂⟩, hb, he⟩ := bind_eq_ok.mp he
  cases he
  obtain ⟨t, ht, hty⟩ := one_ident.mp ⟨r₁.2, keeping_eq_ok.mp hty⟩
  obtain ⟨b, hb', hb⟩ := one_mark.mp ⟨r₂.2, keeping_eq_ok.mp hb⟩
  obtain ⟨type, known, hid, made⟩ := h.create (keeping_eq_ok.mp hc)
  have fresh : id ∈ d₁.created := by
    rw [made.created, Gist.nodes_create, hid]
    exact List.mem_append_right _ (List.mem_singleton_self _)
  exact ⟨t, typeName, type, b, ht.trans (congrArg (t :: ·) hb'), hty, known, hb, hid,
    made.nameNode fresh hn⟩

structure ParsesBelow (l : Language) (env : Surroundings) (s₀ : Scene) (n : Nat) : Prop where
  statement : ∀ {ts g d o d' r}, ts.length < n → Draws l env s₀ g d →
    statement env d ts = .ok (o, d', r) → Parsed l env s₀ g (.statement o) ts r.1 d'
  statements : ∀ {ts g d ids d' r}, ts.length < n → Draws l env s₀ g d →
    statements env d ts = .ok (ids, d', r) →
      Enclosed l env s₀ .closeBracket g (.statements ids) ts r.1 d'
  body : ∀ {ts g d id type d' r}, ts.length < n → Draws l env s₀ g d → g.type? l id = some type →
    body env d id ts = .ok ((), d', r) → Enclosed l env s₀ .closeBrace g (.body id) ts r.1 d'
  fieldValue : ∀ {ts g d t v d' r}, ts.length < n → Draws l env s₀ g d →
    fieldValue env d t ts = .ok (v, d', r) → Parsed l env s₀ g (.value t v) ts r.1 d'

theorem ParsesBelow.mono {m n : Nat} (h : ParsesBelow l env s₀ n) (hle : m ≤ n) :
    ParsesBelow l env s₀ m where
  statement hlt := h.statement (Nat.lt_of_lt_of_le hlt hle)
  statements hlt := h.statements (Nat.lt_of_lt_of_le hlt hle)
  body hlt := h.body (Nat.lt_of_lt_of_le hlt hle)
  fieldValue hlt := h.fieldValue (Nat.lt_of_lt_of_le hlt hle)

theorem node_parsed {name : Option String} {r : Rest ts} {r' : Rest r.1} {d₁ : Draft}
    (ih : ParsesBelow l env s₀ ts.length)
    (h : Draws l env s₀ g d) (hh : header env d name ts = .ok (id, d₁, r))
    (hb : body env d₁ id r.1 = .ok ((), d', r')) :
    Parsed l env s₀ g (.node name id) ts r'.1 d' := by
  obtain ⟨t, typeName, type, b, ht, hty, known, open_, rfl, made⟩ := header_parsed h hh
  have typed : ((g.create type).label (g.next l) name).type? l (g.next l) = some type :=
    Gist.type?_create.trans (if_pos rfl)
  obtain ⟨w, c, g', hw, hc, derived, drawn⟩ := ih.body r.2 made typed hb
  have tokens : ts = t :: b :: (w ++ [c]) ++ r'.1 := by
    rw [List.cons_append, List.cons_append, List.append_assoc]
    exact ht.trans (congrArg (t :: b :: ·) hw)
  exact ⟨_, g', tokens, .node hty known open_ derived hc, drawn⟩

theorem statement_parsed {r : Rest ts} (ih : ParsesBelow l env s₀ ts.length)
    (h : Draws l env s₀ g d) (he : statement env d ts = .ok (o, d', r)) :
    Parsed l env s₀ g (.statement o) ts r.1 d' := by
  unfold Reader.statement at he
  split at he
  · next a b rest =>
    cases he
    exact ⟨[⟨.keyword .null, a, b⟩], g, rfl, .null rfl, h⟩
  · next a b rest =>
    obtain ⟨⟨name, r₁⟩, hn, he⟩ := bind_eq_ok.mp he
    obtain ⟨t, ht, hn⟩ := one_ident.mp ⟨r₁.2, keeping_eq_ok.mp hn⟩
    dsimp only at he
    split at he
    · next id hid =>
      cases he
      exact ⟨[⟨.keyword .use, a, b⟩, t], g, congrArg _ ht, .use rfl hn (h.named name ▸ hid), h⟩
    · cases he
  · next a b rest =>
    obtain ⟨⟨name, r₁⟩, hn, he⟩ := bind_eq_ok.mp he
    obtain ⟨t, ht, hn⟩ := one_ident.mp ⟨r₁.2, keeping_eq_ok.mp hn⟩
    obtain ⟨⟨id, d₁, r₂⟩, hh, he⟩ := bind_eq_ok.mp he
    obtain ⟨⟨⟨⟩, d₂, r₃⟩, hb, he⟩ := bind_eq_ok.mp he
    cases he
    have shorter : ParsesBelow l env s₀ r₁.1.length :=
      ih.mono (Nat.le_of_lt (Nat.lt_succ_of_lt r₁.2))
    obtain ⟨w, g', hw, derived, drawn⟩ := node_parsed shorter h hh hb
    have tokens : rest = t :: w ++ r₃.1 := ht.trans (congrArg (t :: ·) hw)
    exact ⟨_ :: t :: w, g', congrArg _ tokens, .define rfl hn derived, drawn⟩
  · next typeName a b rest =>
    obtain ⟨⟨id, d₁, r₂⟩, hh, he⟩ := bind_eq_ok.mp he
    obtain ⟨⟨⟨⟩, d₂, r₃⟩, hb, he⟩ := bind_eq_ok.mp he
    cases he
    obtain ⟨w, g', hw, derived, drawn⟩ := node_parsed ih h hh hb
    exact ⟨w, g', hw, .bare derived, drawn⟩
  · cases he

theorem body_parsed {r : Rest ts} (ih : ParsesBelow l env s₀ ts.length)
    (h : Draws l env s₀ g d) (typed : g.type? l id = some type)
    (he : body env d id ts = .ok ((), d', r)) :
    Enclosed l env s₀ .closeBrace g (.body id) ts r.1 d' := by
  unfold Reader.body at he
  split at he
  · next a b rest =>
    cases he
    exact ⟨[], ⟨.mark .closeBrace, a, b⟩, g, rfl, rfl, .done, h⟩
  · next a b rest =>
    obtain ⟨⟨⟨⟩, d₁, r₁⟩, ha, he⟩ := bind_eq_ok.mp he
    obtain ⟨⟨⟨⟩, d₂, r₂⟩, hb, he⟩ := bind_eq_ok.mp he
    cases he
    obtain ⟨s, t, us, hu, hs, drawn⟩ := addRoute_parsed h ha
    obtain ⟨w, c, g', hw, hc, derived, drawn⟩ := ih.body r₁.2 drawn typed hb
    refine ⟨t :: us ++ w, c, g', ?_, hc, .bodyRoute hs derived, drawn⟩
    rw [List.append_assoc]
    exact hu.trans (congrArg (t :: us ++ ·) hw)
  · next name a b rest =>
    obtain ⟨⟨index, t⟩, hl, he⟩ := bind_eq_ok.mp he
    obtain ⟨⟨v, d₁, r₁⟩, hv, he⟩ := bind_eq_ok.mp he
    obtain ⟨d₂, hs, he⟩ := bind_eq_ok.mp he
    obtain ⟨⟨⟨⟩, d₃, r₂⟩, hb, he⟩ := bind_eq_ok.mp he
    cases he
    obtain ⟨sought, e, declared, rfl⟩ := (h.locate_eq_ok typed).mp (keeping_eq_ok.mp hl)
    obtain ⟨u, g₁, hu, value, drawn⟩ := ih.fieldValue (Nat.lt_succ_self _) h hv
    have typed₁ := value.typed typed
    obtain ⟨accepted, written⟩ := drawn.set typed₁ (keeping_eq_ok.mp hs)
    obtain ⟨w, c, g', hw, hc, derived, drawn⟩ :=
      ih.body (Nat.lt_succ_of_lt r₁.2) written typed₁ hb
    have tokens : rest = u ++ w ++ c :: r₂.1 := by
      rw [List.append_assoc]
      exact hu.trans (congrArg (u ++ ·) hw)
    exact ⟨_ :: (u ++ w), c, g', congrArg _ tokens, hc,
      .field rfl typed sought declared value accepted derived, drawn⟩
  · cases he

theorem statements_parsed {r : Rest ts} (ih : ParsesBelow l env s₀ ts.length)
    (h : Draws l env s₀ g d) (he : statements env d ts = .ok (ids, d', r)) :
    Enclosed l env s₀ .closeBracket g (.statements ids) ts r.1 d' := by
  cases ts with
  | nil =>
    rw [Reader.statements] at he
    cases he
  | cons t rest =>
    rw [Reader.statements] at he
    split at he
    · next ht =>
      cases he
      exact ⟨[], t, g, rfl, ht, .nil, h⟩
    · obtain ⟨⟨o, d₁, r₁⟩, hs, he⟩ := bind_eq_ok.mp he
      obtain ⟨⟨ids, d₂, r₂⟩, hss, he⟩ := bind_eq_ok.mp he
      cases he
      obtain ⟨u, g₁, hu, first, drawn⟩ := statement_parsed ih h hs
      obtain ⟨w, c, g', hw, hc, derived, drawn⟩ := ih.statements r₁.2 drawn hss
      refine ⟨u ++ w, c, g', ?_, hc, .cons first derived, drawn⟩
      rw [List.append_assoc]
      exact hu.trans (congrArg (u ++ ·) hw)

theorem fieldValue_parsed {r : Rest ts} (ih : ParsesBelow l env s₀ ts.length)
    (h : Draws l env s₀ g d) (he : fieldValue env d t ts = .ok (v, d', r)) :
    Parsed l env s₀ g (.value t v) ts r.1 d' := by
  obtain ⟨multi, e⟩ := t
  unfold Reader.fieldValue at he
  split at he
  · next hn =>
    obtain ⟨⟨v, r₁⟩, hv, he⟩ := bind_eq_ok.mp he
    cases he
    obtain ⟨us, hu, spelled⟩ := (plainValue_leaves hn).mp ⟨r.2, keeping_eq_ok.mp hv⟩
    exact ⟨us, g, hu, .plain spelled, h⟩
  next hn =>
  cases not_not.mp hn
  split at he
  · next hm =>
    cases hm
    obtain ⟨⟨o, d₁, r₁⟩, hs, he⟩ := bind_eq_ok.mp he
    cases he
    obtain ⟨w, g', hw, derived, drawn⟩ := statement_parsed ih h hs
    exact ⟨w, g', hw, .reference derived, drawn⟩
  next hm =>
  cases Bool.not_eq_false _ ▸ hm
  split at he
  · next a b rest =>
    obtain ⟨⟨ids, d₁, r₁⟩, hs, he⟩ := bind_eq_ok.mp he
    cases he
    obtain ⟨w, c, g', hw, hc, derived, drawn⟩ := ih.statements (Nat.lt_succ_self _) h hs
    have tokens : rest = w ++ [c] ++ r₁.1 := by
      rw [List.append_assoc]
      exact hw
    exact ⟨_ :: (w ++ [c]), g', congrArg _ tokens, .members rfl derived hc, drawn⟩
  · obtain ⟨⟨o, d₁, r₁⟩, hs, he⟩ := bind_eq_ok.mp he
    cases he
    obtain ⟨w, g', hw, derived, drawn⟩ := statement_parsed ih h hs
    exact ⟨w, g', hw, .member derived, drawn⟩

theorem parsesBelow (l : Language) (env : Surroundings) (s₀ : Scene) (n : Nat) :
    ParsesBelow l env s₀ n := by
  induction n with
  | zero => exact ⟨by simp, by simp, by simp, by simp⟩
  | succ n ih =>
    have le {ts : List Spanned} (ht : ts.length < n + 1) : ParsesBelow l env s₀ ts.length :=
      ih.mono (Nat.le_of_lt_succ ht)
    exact ⟨fun ht ↦ statement_parsed (le ht), fun ht ↦ statements_parsed (le ht),
      fun ht ↦ body_parsed (le ht), fun ht ↦ fieldValue_parsed (le ht)⟩

/-- What a reader reads is a text of the grammar. -/
theorem document_derives (h : Draws l env s₀ g d) (he : document env d ts = .ok (ids, d')) :
    ∃ g', Derives l g (.document ids) ts g' ∧ Draws l env s₀ g' d' := by
  induction hn : ts.length using Nat.strongRecOn generalizing ts g d ids with
  | _ n ih =>
    subst hn
    cases ts with
    | nil =>
      rw [document] at he
      cases he
      exact ⟨g, .finish, h⟩
    | cons t rest =>
      rw [document] at he
      split at he
      · obtain ⟨⟨⟨⟩, d₁, r₁⟩, ha, he⟩ := bind_eq_ok.mp he
        obtain ⟨s, t, us, hu, hs, drawn⟩ := addRoute_parsed h ha
        obtain ⟨g', derived, drawn⟩ := ih _ r₁.2 drawn he rfl
        exact ⟨g', hu ▸ .documentRoute hs derived, drawn⟩
      · cases he
      · cases he
      · obtain ⟨⟨o, d₁, r₁⟩, hs, he⟩ := bind_eq_ok.mp he
        obtain ⟨⟨ids, d₂⟩, hd, he⟩ := bind_eq_ok.mp he
        cases he
        obtain ⟨u, g₁, hu, first, drawn⟩ :=
          (parsesBelow l env s₀ _).statement (Nat.lt_succ_self _) h hs
        obtain ⟨g', derived, drawn⟩ := ih _ r₁.2 drawn hd rfl
        exact ⟨g', hu ▸ .documentStatement first derived, drawn⟩

end sound

section complete

/-- The reader takes the tokens for the phrase, whatever follows them. -/
def Takes (env : Surroundings) (d : Draft) (w : List Spanned) (d' : Draft) : Phrase → Prop
  | .document ids => document env d w = .ok (ids, d')
  | .statement o => ∀ rest, ∃ h, statement env d (w ++ rest) = .ok (o, d', ⟨rest, h⟩)
  | .statements ids => ∀ c rest, c.token = .mark .closeBracket →
      ∃ h, statements env d (w ++ c :: rest) = .ok (ids, d', ⟨rest, h⟩)
  | .node name id => ∀ rest, ∃ d₁ r h, header env d name (w ++ rest) = .ok (id, d₁, r) ∧
      body env d₁ id r.1 = .ok ((), d', ⟨rest, h⟩)
  | .body id => ∀ c rest, c.token = .mark .closeBrace →
      ∃ h, body env d id (w ++ c :: rest) = .ok ((), d', ⟨rest, h⟩)
  | .value t v => ∀ rest, ∃ h, fieldValue env d t (w ++ rest) = .ok (v, d', ⟨rest, h⟩)

theorem addRoute_taken (env : Surroundings) {s : Statement} {t : Spanned} {us : List Spanned}
    (hs : (t :: us).map Spanned.token = s.tokens) (d : Draft) (rest : List Spanned) :
    ∃ h, addRoute env d (t :: us ++ rest) = .ok ((), d.addRoute s t.start, ⟨rest, h⟩) := by
  obtain ⟨h, he⟩ : Leaves (routeStatement env (t :: us ++ rest)) s rest :=
    routeStatement_leaves.mpr ⟨t :: us, rfl, hs⟩
  exact ⟨h, bind_eq_ok.mpr ⟨_, keeping_eq_ok.mpr he, rfl⟩⟩

theorem header_taken {t b : Spanned} {typeName : String} (h : Draws l env s₀ g d)
    (ht : t.token = .ident typeName) (known : l.types.get? typeName = some type)
    (hb : b.token = .mark .openBrace) (name : Option String) :
    ∃ d', Draws l env s₀ ((g.create type).label (g.next l) name) d' ∧
      ∀ rest, ∃ h, header env d name (t :: b :: rest) = .ok (g.next l, d', ⟨rest, h⟩) := by
  obtain ⟨d₁, hc⟩ := h.exists_create t.start known
  obtain ⟨type', known', -, made⟩ := h.create hc
  cases known.symm.trans known'
  have fresh : g.next l ∈ d₁.created := by
    rw [made.created, Gist.nodes_create]
    exact List.mem_append_right _ (List.mem_singleton_self _)
  obtain ⟨d₂, hn⟩ := made.exists_nameNode fresh name
  refine ⟨d₂, made.nameNode fresh hn, fun rest ↦ ?_⟩
  obtain ⟨h₁, he₁⟩ :
      Leaves (one env (.ident "node type") (t :: b :: rest)) typeName (b :: rest) :=
    one_ident.mpr ⟨t, rfl, ht⟩
  obtain ⟨h₂, he₂⟩ : Leaves (one env (.mark .openBrace "'\x7b'") (b :: rest)) () rest :=
    one_mark.mpr ⟨b, rfl, hb⟩
  exact ⟨Nat.lt_trans h₂ h₁, bind_eq_ok.mpr ⟨_, keeping_eq_ok.mpr he₁, bind_eq_ok.mpr
    ⟨_, keeping_eq_ok.mpr hc, bind_eq_ok.mpr ⟨_, hn, bind_eq_ok.mpr
    ⟨_, keeping_eq_ok.mpr he₂, rfl⟩⟩⟩⟩⟩

namespace Takes

variable {d₁ : Draft} {w us : List Spanned} {r b c : Spanned} {s : Statement}

theorem finish : Takes env d [] d (.document []) := by
  unfold Takes
  rw [document]

theorem documentRoute (hs : (r :: us).map Spanned.token = s.tokens)
    (h : Takes env (d.addRoute s r.start) w d' (.document ids)) :
    Takes env d (r :: us ++ w) d' (.document ids) := by
  obtain ⟨hlt, ha⟩ := addRoute_taken env hs d w
  have hr : r.token = .keyword .route := (List.cons.inj hs).1
  show document env d (r :: (us ++ w)) = _
  rw [document, hr]
  exact bind_eq_ok.mpr ⟨_, ha, h⟩

theorem documentStatement (opens : r.token.opensNode)
    (first : Takes env d (r :: us) d₁ (.statement o)) (h : Takes env d₁ w d' (.document ids)) :
    Takes env d (r :: us ++ w) d' (.document (o.toList ++ ids)) := by
  obtain ⟨hlt, hs⟩ := first w
  show document env d (r :: (us ++ w)) = _
  rw [document]
  split
  · next ht => simp [ht, Token.opensNode] at opens
  · next ht => simp [ht, Token.opensNode] at opens
  · next ht => simp [ht, Token.opensNode] at opens
  · exact bind_eq_ok.mpr ⟨_, hs, bind_eq_ok.mpr ⟨_, h, rfl⟩⟩

theorem null (hr : r.token = .keyword .null) : Takes env d [r] d (.statement none) := by
  obtain ⟨_, a, z⟩ := r
  cases hr
  refine fun rest ↦ ⟨Nat.lt_succ_self _, ?_⟩
  show Reader.statement env d (⟨.keyword .null, a, z⟩ :: rest) = _
  rw [Reader.statement]

theorem use (hr : r.token = .keyword .use) (hb : b.token = .ident name)
    (bound : d.named? env name = some id) : Takes env d [r, b] d (.statement (some id)) := by
  obtain ⟨_, a, z⟩ := r
  cases hr
  intro rest
  obtain ⟨hlt, hn⟩ : Leaves (one env (.ident "node name after USE") (b :: rest)) name rest :=
    one_ident.mpr ⟨b, rfl, hb⟩
  refine ⟨Nat.lt_succ_of_lt hlt, ?_⟩
  show Reader.statement env d (⟨.keyword .use, a, z⟩ :: b :: rest) = _
  rw [Reader.statement]
  refine bind_eq_ok.mpr ⟨_, keeping_eq_ok.mpr hn, ?_⟩
  dsimp only
  rw [bound]
  rfl

theorem define (hr : r.token = .keyword .define) (hb : b.token = .ident name)
    (h : Takes env d w d' (.node (some name) id)) :
    Takes env d (r :: b :: w) d' (.statement (some id)) := by
  obtain ⟨_, a, z⟩ := r
  cases hr
  intro rest
  obtain ⟨hlt, hn⟩ :
      Leaves (one env (.ident "node name after DEF") (b :: (w ++ rest))) name (w ++ rest) :=
    one_ident.mpr ⟨b, rfl, hb⟩
  obtain ⟨d₁, r', hlt', hh, hb'⟩ := h rest
  refine ⟨by simp only [List.length_append, List.length_cons]; omega, ?_⟩
  show Reader.statement env d (⟨.keyword .define, a, z⟩ :: b :: (w ++ rest)) = _
  rw [Reader.statement]
  exact bind_eq_ok.mpr ⟨_, keeping_eq_ok.mpr hn, bind_eq_ok.mpr ⟨_, hh, bind_eq_ok.mpr
    ⟨_, hb', rfl⟩⟩⟩

theorem bare (hr : r.token = .ident name) (h : Takes env d (r :: us) d' (.node none id)) :
    Takes env d (r :: us) d' (.statement (some id)) := by
  obtain ⟨_, a, z⟩ := r
  cases hr
  intro rest
  obtain ⟨d₁, r', hlt', hh, hb'⟩ := h rest
  refine ⟨by simp only [List.length_append, List.length_cons]; omega, ?_⟩
  show Reader.statement env d (⟨.ident name, a, z⟩ :: (us ++ rest)) = _
  rw [Reader.statement]
  exact bind_eq_ok.mpr ⟨_, hh, bind_eq_ok.mpr ⟨_, hb', rfl⟩⟩

theorem node {d₁ : Draft} {name : Option String} (hc : c.token = .mark .closeBrace)
    (header : ∀ rest, ∃ h, header env d name (r :: b :: rest) = .ok (id, d₁, ⟨rest, h⟩))
    (h : Takes env d₁ w d' (.body id)) :
    Takes env d (r :: b :: (w ++ [c])) d' (.node name id) := by
  intro rest
  obtain ⟨hlt, hb⟩ := h c rest hc
  obtain ⟨hlt', hh⟩ := header (w ++ c :: rest)
  have shape : r :: b :: (w ++ [c]) ++ rest = r :: b :: (w ++ c :: rest) := by simp
  rw [shape]
  exact ⟨d₁, ⟨_, hlt'⟩, hlt, hh, hb⟩

theorem done : Takes env d [] d (.body id) := by
  rintro ⟨_, a, z⟩ rest hc
  cases hc
  refine ⟨Nat.lt_succ_self _, ?_⟩
  show Reader.body env d id (⟨.mark .closeBrace, a, z⟩ :: rest) = _
  rw [Reader.body]

theorem bodyRoute (hs : (r :: us).map Spanned.token = s.tokens)
    (h : Takes env (d.addRoute s r.start) w d' (.body id)) :
    Takes env d (r :: us ++ w) d' (.body id) := by
  intro c rest hc
  obtain ⟨hlt, ha⟩ := addRoute_taken env hs d (w ++ c :: rest)
  obtain ⟨hlt', hb⟩ := h c rest hc
  have hr : r.token = .keyword .route := (List.cons.inj hs).1
  obtain ⟨_, a, z⟩ := r
  cases hr
  rw [List.append_assoc]
  refine ⟨Nat.lt_trans hlt' hlt, ?_⟩
  show Reader.body env d id (⟨.keyword .route, a, z⟩ :: (us ++ (w ++ c :: rest))) = _
  rw [Reader.body]
  exact bind_eq_ok.mpr ⟨_, ha, bind_eq_ok.mpr ⟨_, hb, rfl⟩⟩

theorem field {d₂ : Draft} (hr : r.token = .ident name)
    (located : ∀ start, d.locate id start name = .ok (index, t))
    (value : Takes env d us d₁ (.value t v)) (set : ∀ start, d₁.set id index start v = .ok d₂)
    (h : Takes env d₂ w d' (.body id)) : Takes env d (r :: (us ++ w)) d' (.body id) := by
  obtain ⟨_, a, z⟩ := r
  cases hr
  intro c rest hc
  obtain ⟨hlt, hv⟩ := value (w ++ c :: rest)
  obtain ⟨hlt', hb⟩ := h c rest hc
  rw [List.cons_append, List.append_assoc]
  refine ⟨Nat.lt_succ_of_lt (Nat.lt_trans hlt' hlt), ?_⟩
  rw [Reader.body]
  exact bind_eq_ok.mpr ⟨_, keeping_eq_ok.mpr (located a), bind_eq_ok.mpr ⟨_, hv, bind_eq_ok.mpr
    ⟨_, keeping_eq_ok.mpr (set _), bind_eq_ok.mpr ⟨_, hb, rfl⟩⟩⟩⟩

theorem plain (spelled : t.Spells (w.map Spanned.token) v) : Takes env d w d (.value t v) := by
  have plain : t.element ≠ .node := by
    intro he
    simp [FieldType.Spells, he, Element.scalar] at spelled
  intro rest
  obtain ⟨hlt, hv⟩ : Leaves (plainValue env t (w ++ rest)) v rest :=
    (plainValue_leaves plain).mpr ⟨w, rfl, spelled⟩
  refine ⟨hlt, ?_⟩
  unfold Reader.fieldValue
  rw [if_pos plain]
  exact bind_eq_ok.mpr ⟨_, keeping_eq_ok.mpr hv, rfl⟩

theorem reference (h : Takes env d w d' (.statement o)) :
    Takes env d w d' (.value (.single .node) (.node o)) := by
  intro rest
  obtain ⟨hlt, hs⟩ := h rest
  refine ⟨hlt, ?_⟩
  unfold Reader.fieldValue
  exact bind_eq_ok.mpr ⟨_, hs, rfl⟩

theorem member (opens : r.token.opensNode) (h : Takes env d (r :: us) d' (.statement o)) :
    Takes env d (r :: us) d' (.value (.multi .node) (.ofNodes o.toList)) := by
  intro rest
  obtain ⟨hlt, hs⟩ := h rest
  refine ⟨hlt, ?_⟩
  have nodes : ¬(FieldType.multi .node).element ≠ .node := by decide
  have several : ¬(FieldType.multi .node).isMulti = false := by decide
  unfold Reader.fieldValue
  rw [if_neg nodes, if_neg several]
  obtain ⟨token, a, z⟩ := r
  cases token with
  | mark => cases opens
  | keyword | ident | string | int | float => exact bind_eq_ok.mpr ⟨_, hs, rfl⟩

theorem members (hb : b.token = .mark .openBracket) (hc : c.token = .mark .closeBracket)
    (h : Takes env d w d' (.statements ids)) :
    Takes env d (b :: (w ++ [c])) d' (.value (.multi .node) (.ofNodes ids)) := by
  obtain ⟨_, a, z⟩ := b
  cases hb
  intro rest
  obtain ⟨hlt, hs⟩ := h c rest hc
  rw [List.cons_append, List.append_assoc]
  refine ⟨Nat.lt_succ_of_lt hlt, ?_⟩
  unfold Reader.fieldValue
  exact bind_eq_ok.mpr ⟨_, hs, rfl⟩

theorem nil : Takes env d [] d (.statements []) := by
  intro c rest hc
  refine ⟨Nat.lt_succ_self _, ?_⟩
  show Reader.statements env d (c :: rest) = _
  rw [Reader.statements]
  exact if_pos hc

theorem cons (opens : r.token.opensNode) (first : Takes env d (r :: us) d₁ (.statement o))
    (h : Takes env d₁ w d' (.statements ids)) :
    Takes env d (r :: us ++ w) d' (.statements (o.toList ++ ids)) := by
  intro c rest hc
  obtain ⟨hlt, hs⟩ := first (w ++ c :: rest)
  obtain ⟨hlt', hss⟩ := h c rest hc
  rw [List.append_assoc]
  refine ⟨Nat.lt_trans hlt' hlt, ?_⟩
  show Reader.statements env d (r :: (us ++ (w ++ c :: rest))) = _
  have unclosed : r.token ≠ .mark .closeBracket := by
    intro he
    simp [he, Token.opensNode] at opens
  rw [Reader.statements, if_neg unclosed]
  exact bind_eq_ok.mpr ⟨_, hs, bind_eq_ok.mpr ⟨_, hss, rfl⟩⟩

end Takes

theorem opens_of_derives {w : List Spanned} (h : Derives l g (.statement o) w g') :
    ∃ t us, w = t :: us ∧ t.token.opensNode := by
  cases h with
  | null ht | use ht | define ht => exact ⟨_, _, rfl, ht ▸ rfl⟩
  | bare h =>
    cases h with
    | node ht => exact ⟨_, _, rfl, ht ▸ rfl⟩

/-- What derives from the grammar is read. -/
theorem takes_of_derives {p : Phrase} {w : List Spanned} (derived : Derives l g p w g')
    (h : Draws l env s₀ g d) : ∃ d', Takes env d w d' p ∧ Draws l env s₀ g' d' := by
  induction derived generalizing d with
  | finish => exact ⟨d, .finish, h⟩
  | documentRoute hs _ ih =>
    obtain ⟨d', taken, drawn⟩ := ih (h.addRoute ..)
    exact ⟨d', .documentRoute hs taken, drawn⟩
  | documentStatement first _ ih₁ ih₂ =>
    obtain ⟨r, us, rfl, opens⟩ := opens_of_derives first
    obtain ⟨d₁, taken₁, drawn⟩ := ih₁ h
    obtain ⟨d₂, taken₂, drawn⟩ := ih₂ drawn
    exact ⟨d₂, .documentStatement opens taken₁ taken₂, drawn⟩
  | null ht => exact ⟨d, .null ht, h⟩
  | use ht hn bound => exact ⟨d, .use ht hn (h.named _ ▸ bound), h⟩
  | define ht hn _ ih =>
    obtain ⟨d', taken, drawn⟩ := ih h
    exact ⟨d', .define ht hn taken, drawn⟩
  | bare derived ih =>
    obtain ⟨d', taken, drawn⟩ := ih h
    cases derived with
    | node ht => exact ⟨d', .bare ht taken, drawn⟩
  | node ht known ho _ hc ih =>
    obtain ⟨d₁, drawn, header⟩ := header_taken h ht known ho _
    obtain ⟨d', taken, drawn⟩ := ih drawn
    exact ⟨d', .node hc header taken, drawn⟩
  | done => exact ⟨d, .done, h⟩
  | bodyRoute hs _ ih =>
    obtain ⟨d', taken, drawn⟩ := ih (h.addRoute ..)
    exact ⟨d', .bodyRoute hs taken, drawn⟩
  | field ht typed named declared derived accepted _ value ih =>
    obtain ⟨d₁, taken₁, drawn⟩ := value h
    obtain ⟨d₂, hs⟩ := drawn.exists_set 0 (derived.typed typed) accepted
    obtain ⟨-, drawn⟩ := drawn.set (derived.typed typed) hs
    obtain ⟨d', taken₂, drawn⟩ := ih drawn
    exact ⟨d', .field ht (fun _ ↦ (h.locate_eq_ok typed).mpr ⟨named, _, declared, rfl⟩) taken₁
      (fun _ ↦ Draft.set_eq_ok.mpr (Draft.set_eq_ok.mp hs)) taken₂, drawn⟩
  | plain spelled => exact ⟨d, .plain spelled, h⟩
  | reference _ ih =>
    obtain ⟨d', taken, drawn⟩ := ih h
    exact ⟨d', .reference taken, drawn⟩
  | member derived ih =>
    obtain ⟨r, us, rfl, opens⟩ := opens_of_derives derived
    obtain ⟨d', taken, drawn⟩ := ih h
    exact ⟨d', .member opens taken, drawn⟩
  | members ho _ hc ih =>
    obtain ⟨d', taken, drawn⟩ := ih h
    exact ⟨d', .members ho hc taken, drawn⟩
  | nil => exact ⟨d, .nil, h⟩
  | cons first _ ih₁ ih₂ =>
    obtain ⟨r, us, rfl, opens⟩ := opens_of_derives first
    obtain ⟨d₁, taken₁, drawn⟩ := ih₁ h
    obtain ⟨d₂, taken₂, drawn⟩ := ih₂ drawn
    exact ⟨d₂, .cons opens taken₁ taken₂, drawn⟩

end complete

end Reader

end SceneGraph
