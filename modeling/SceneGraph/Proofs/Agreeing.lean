import SceneGraph.Proofs.Adjoining
import SceneGraph.Proofs.Blaming
import SceneGraph.Proofs.Publishing
import SceneGraph.Proofs.Wording

/-!
The two readers of route statements agree. A statement between names is read from its text by itself
and as a text for a scene, and a text for a scene has no other statements than these.
-/

namespace SceneGraph

open Lexer

variable {st : Statement} {cs rest : List Char} {c : Char} {p : String}

section names

theorem code_of_isWordPart (h : isWordPart c) : 48 ≤ c.toNat ∧ c.toNat ≤ 122 := by
  simp only [isWordPart, Char.isAlphanum, Char.isAlpha, Char.isUpper, Char.isLower, Char.isDigit,
    Bool.or_eq_true, Bool.and_eq_true, decide_eq_true_eq, UInt32.le_iff_toNat_le] at h
  rcases h with ((h | h) | h) | rfl
  case inr => decide
  all_goals exact ⟨Nat.le_trans (by decide) h.1, Nat.le_trans h.2 (by decide)⟩

theorem not_isBlank_of_isWordPart (h : isWordPart c) : ¬Text.isBlank c := by
  have code := code_of_isWordPart h
  simp only [Text.isBlank, Bool.or_eq_true, Bool.and_eq_true, decide_eq_true_eq, beq_iff_eq]
  omega

theorem exists_cons_of_isName (h : IsName p) :
    ∃ c w, p.toList = c :: w ∧ isWordStart c ∧ ∀ d ∈ c :: w, isWordPart d := by
  obtain ⟨_, ⟨c, hc, rfl⟩, w, hw, hp⟩ := h.1
  have part : isWordPart c := by
    simp only [isWordStart, isWordPart, Char.isAlphanum, Bool.or_eq_true] at hc ⊢
    exact hc.imp_left .inl
  exact ⟨c, w, hp.symm, hc, List.forall_mem_cons.mpr ⟨part, mem_many.mp hw⟩⟩

theorem proper_of_isName (h : IsName p) : Statement.Proper p := by
  obtain ⟨c, w, hp, -, parts⟩ := exists_cons_of_isName h
  refine ⟨?_, fun d hd ↦ ?_⟩
  · rintro rfl
    cases hp
  · have part : isWordPart d := parts d (hp ▸ hd)
    refine ⟨?_, not_isBlank_of_isWordPart part⟩
    rintro rfl
    cases part

/-- No name begins with a digit, so that a point before it does not start a number. -/
theorem digits_of_isName (h : IsName p) : digits (p.toList ++ rest) = 0 := by
  obtain ⟨c, w, hp, start, -⟩ := exists_cons_of_isName h
  have other : ¬c.isDigit := fun digit ↦
    not_isWordStart_of_startsNumber (by simp [startsNumber, digit]) start
  rw [hp, List.cons_append, digits, run_cons, if_neg other]

/-- The text of a statement between names has the tokens of the statement. -/
theorem tokenize_text (h : ∀ p ∈ st.parts, IsName p) :
    ∃ us, tokenize st.text = .ok (⟨.keyword .route, 0, 5⟩ :: us) ∧
      (⟨.keyword .route, 0, 5⟩ :: us : List Spanned).map Spanned.token = st.tokens := by
  have space : isGap ' ' := rfl
  have blank {cs : List Char} : run isWordPart (' ' :: cs) = 0 := rfl
  have point {cs : List Char} : run isWordPart ('.' :: cs) = 0 := rfl
  simp only [Statement.parts, List.forall_mem_cons] at h
  obtain ⟨fromNode, fromField, toNode, toField, -⟩ := h
  have last := gives_nil.token (opens_name toField rfl)
  have dest := (last.token (opens_dot (digits_of_isName toField))).token (opens_name toNode point)
  have into := (dest.blank space).token (opens_keyword .into blank)
  have field := (into.blank space).token (opens_name fromField blank)
  have source := (field.token (opens_dot (digits_of_isName fromField))).token
    (opens_name fromNode point)
  obtain ⟨us, read, tokens⟩ := source.blank space 5
  obtain ⟨r, stands, ht⟩ := opens_keyword .route blank
  refine ⟨us, ?_, congrArg (Token.keyword .route :: ·) tokens⟩
  have whole : scan 0 _ = .ok _ := (scan_stands_eq_ok stands).mpr ⟨_, _, ht, read, rfl⟩
  rw [tokenize]
  convert whole using 2
  · simp [Statement.text, Keyword.spelling]
  · rfl

theorem isName_of_token {w : List Char} {r : Rule} (stands : Stands w rest r)
    (h : token r w = .ok (some (.ident p))) : IsName p := by
  cases r with
  | gap | mark _ | float | string => cases h
  | int | hex =>
    rw [token] at h
    split at h <;> cases h
  | word =>
    have word : w ∈ Rule.word.pattern :=
      heads_length.mp ((heads_append le_rfl).mp stands.longest.heads)
    rw [token, wordToken] at h
    cases found : Keyword.ofSpelling? (String.ofList w) with
    | some k =>
      rw [found] at h
      cases h
    | none =>
      rw [found] at h
      cases h
      refine ⟨by rwa [String.toList_ofList], fun k ↦ ?_⟩
      have other := List.find?_eq_none.mp found k (by cases k <;> decide)
      simpa using other

theorem isName_of_laid {ts : List Spanned} {offset : Nat} (h : Laid offset cs ts)
    {t : Spanned} (ht : t ∈ ts) (hp : t.token = .ident p) : IsName p := by
  induction h with
  | last => cases ht
  | next gap stands token start stop own rest ih =>
    rcases List.mem_cons.mp ht with rfl | ht
    · exact isName_of_token stands (token.trans (by rw [← hp]))
    · exact ih ht

end names

namespace Reader

variable {env : Surroundings} {d d' d'' : Draft} {ts ts' : List Spanned} {α : Type}

/-- The parts of the statement are names among the tokens. -/
def Quoted (ts : List Spanned) (st : Statement) : Prop :=
  ∀ p ∈ st.parts, ∃ t ∈ ts, t.token = .ident p

/-- The routes of the second draft that the first has not are made of names among the tokens. -/
def Adds (ts : List Spanned) (d d' : Draft) : Prop :=
  ∀ a ∈ d'.routes, a ∈ d.routes ∨ Quoted ts a.1

theorem Adds.of_routes (h : d'.routes = d.routes) : Adds ts d d' := by
  intro a ha
  exact .inl (h ▸ ha)

theorem Adds.mono (h : Adds ts d d') (hs : ts ⊆ ts') : Adds ts' d d' := by
  intro a ha
  refine (h a ha).imp_right fun quoted p hp ↦ ?_
  obtain ⟨t, ht, he⟩ := quoted p hp
  exact ⟨t, hs ht, he⟩

theorem Adds.trans (h : Adds ts d d') (h' : Adds ts d' d'') : Adds ts d d'' := by
  intro a ha
  rcases h' a ha with ha | quoted
  · exact h a ha
  · exact .inr quoted

theorem subset_of_accusing {x : Reading α ts'} {a : α} {r : Rest ts'} (h : Accusing env ts x)
    (hx : x = .ok (a, d, r)) : r.1 ⊆ ts := by
  rw [hx] at h
  exact h

theorem quoted_of_tokens {us : List Spanned} (h : us.map Spanned.token = st.tokens)
    (hs : us ⊆ ts) : Quoted ts st := by
  intro p hp
  have mem : Token.ident p ∈ us.map Spanned.token := by
    rw [h]
    simp only [Statement.parts, List.mem_cons, List.not_mem_nil, or_false] at hp
    rcases hp with rfl | rfl | rfl | rfl <;> simp [Statement.tokens]
  obtain ⟨t, ht, he⟩ := List.mem_map.mp mem
  exact ⟨t, hs ht, he⟩

section adds

variable {id : NodeId} {name : Option String} {o : Option NodeId} {ids : List NodeId} {v : Value}

theorem addRoute_adds {u : Unit} {r : Rest ts} (h : addRoute env d ts = .ok (u, d', r)) :
    Adds ts d d' := by
  obtain ⟨⟨st, r'⟩, hr, h⟩ := bind_eq_ok.mp h
  cases h
  obtain ⟨us, hu, tokens⟩ := routeStatement_leaves.mp ⟨_, keeping_eq_ok.mp hr⟩
  intro a ha
  rcases List.mem_append.mp ha with ha | ha
  · exact .inl ha
  · cases List.mem_singleton.mp ha
    exact .inr (quoted_of_tokens tokens (hu ▸ List.subset_append_left ..))

theorem routes_of_header {r : Rest ts} (h : header env d name ts = .ok (id, d', r)) :
    d'.routes = d.routes := by
  obtain ⟨_, -, h⟩ := bind_eq_ok.mp h
  obtain ⟨⟨k, d₁⟩, made, h⟩ := bind_eq_ok.mp h
  obtain ⟨d₂, named, h⟩ := bind_eq_ok.mp h
  obtain ⟨_, -, h⟩ := bind_eq_ok.mp h
  cases h
  obtain ⟨s, -, rfl⟩ := Draft.create_eq_ok.mp (keeping_eq_ok.mp made)
  cases name with
  | none =>
    cases named
    rfl
  | some name =>
    obtain ⟨s, -, rfl⟩ := Draft.define_eq_ok.mp (keeping_eq_ok.mp named)
    rfl

/-- The parts of a text add routes between names among their tokens. -/
structure AddsOn (env : Surroundings) (ts : List Spanned) : Prop where
  statement : ∀ {d o d' r}, statement env d ts = .ok (o, d', r) → Adds ts d d'
  statements : ∀ {d ids d' r}, statements env d ts = .ok (ids, d', r) → Adds ts d d'
  body : ∀ {d id u d' r}, body env d id ts = .ok (u, d', r) → Adds ts d d'
  fieldValue : ∀ {d t v d' r}, fieldValue env d t ts = .ok (v, d', r) → Adds ts d d'

section steps

variable (ih : ∀ r : List Spanned, r.length < ts.length → AddsOn env r)
include ih

/-- The body of a node behind its header. -/
theorem node_adds {u : Unit} {d₁ : Draft} {r : Rest ts'} {r' : Rest r.1} (hs : ts' ⊆ ts)
    (hl : r.1.length < ts.length) (hh : header env d name ts' = .ok (id, d₁, r))
    (hb : body env d₁ id r.1 = .ok (u, d', r')) : Adds ts d d' := by
  have behind := subset_of_accusing header_accusing hh
  have added := ((ih _ hl).body hb).mono (List.Subset.trans behind hs)
  exact (Adds.of_routes (routes_of_header hh)).trans added

theorem statement_adds {r : Rest ts} (h : statement env d ts = .ok (o, d', r)) :
    Adds ts d d' := by
  unfold Reader.statement at h
  split at h
  -- no node
  · cases h
    exact .of_routes rfl
  -- a node by name
  · obtain ⟨⟨name, r₁⟩, -, h⟩ := bind_eq_ok.mp h
    dsimp only at h
    split at h
    · cases h
      exact .of_routes rfl
    · cases h
  -- a node that is named, and one that is not
  · obtain ⟨⟨name, r₁⟩, hn, h⟩ := bind_eq_ok.mp h
    obtain ⟨⟨id, d₁, r₂⟩, hh, h⟩ := bind_eq_ok.mp h
    obtain ⟨⟨_, d₂, r₃⟩, hb, h⟩ := bind_eq_ok.mp h
    cases h
    obtain ⟨t, ht, -⟩ := one_ident.mp ⟨_, keeping_eq_ok.mp hn⟩
    have left : r₁.1 ⊆ _ := ht ▸ List.subset_cons_self ..
    exact node_adds ih (List.Subset.trans left (List.subset_cons_self ..))
      (Nat.lt_succ_of_lt (Nat.lt_trans r₂.2 r₁.2)) hh hb
  · obtain ⟨⟨id, d₁, r₁⟩, hh, h⟩ := bind_eq_ok.mp h
    obtain ⟨⟨_, d₂, r₂⟩, hb, h⟩ := bind_eq_ok.mp h
    cases h
    exact node_adds ih (List.Subset.refl _) r₁.2 hh hb
  · cases h

theorem statements_adds {r : Rest ts} (h : statements env d ts = .ok (ids, d', r)) :
    Adds ts d d' := by
  cases ts with
  | nil =>
    rw [Reader.statements] at h
    cases h
  | cons t rest =>
    rw [Reader.statements] at h
    split at h
    · cases h
      exact .of_routes rfl
    obtain ⟨⟨o, d₁, r₁⟩, first, h⟩ := bind_eq_ok.mp h
    obtain ⟨⟨ids, d₂, r₂⟩, others, h⟩ := bind_eq_ok.mp h
    cases h
    have left := subset_of_accusing ((accuses env _).statement d) first
    exact (statement_adds ih first).trans (((ih _ r₁.2).statements others).mono left)

theorem body_adds {u : Unit} {r : Rest ts} (h : body env d id ts = .ok (u, d', r)) :
    Adds ts d d' := by
  unfold Reader.body at h
  split at h
  · cases h
    exact .of_routes rfl
  -- a route and what follows it
  · obtain ⟨⟨_, d₁, r₁⟩, hr, h⟩ := bind_eq_ok.mp h
    obtain ⟨⟨_, d₂, r₂⟩, hb, h⟩ := bind_eq_ok.mp h
    cases h
    have left := subset_of_accusing addRoute_accusing hr
    exact (addRoute_adds hr).trans (((ih _ r₁.2).body hb).mono left)
  -- a field with its value and what follows it
  · next rest =>
    obtain ⟨⟨index, t⟩, -, h⟩ := bind_eq_ok.mp h
    obtain ⟨⟨v, d₁, r₁⟩, hv, h⟩ := bind_eq_ok.mp h
    obtain ⟨d₂, hs, h⟩ := bind_eq_ok.mp h
    obtain ⟨⟨_, d₃, r₂⟩, hb, h⟩ := bind_eq_ok.mp h
    cases h
    obtain ⟨s, -, rfl⟩ := Draft.set_eq_ok.mp (keeping_eq_ok.mp hs)
    have left := subset_of_accusing ((accuses env _).fieldValue d t) hv
    have given := (ih _ (Nat.lt_succ_self _)).fieldValue hv
    have others := ((ih _ (Nat.lt_succ_of_lt r₁.2)).body hb).mono left
    exact (given.trans others).mono (List.subset_cons_self ..)
  · cases h

theorem fieldValue_adds {t : FieldType} {r : Rest ts}
    (h : fieldValue env d t ts = .ok (v, d', r)) : Adds ts d d' := by
  unfold Reader.fieldValue at h
  split at h
  -- a value without nodes has no routes in it
  · obtain ⟨_, -, h⟩ := bind_eq_ok.mp h
    cases h
    exact .of_routes rfl
  split at h
  · obtain ⟨⟨o, d₁, r₁⟩, hs, h⟩ := bind_eq_ok.mp h
    cases h
    exact statement_adds ih hs
  split at h
  · obtain ⟨⟨ids, d₁, r₁⟩, hs, h⟩ := bind_eq_ok.mp h
    cases h
    exact ((ih _ (Nat.lt_succ_self _)).statements hs).mono (List.subset_cons_self ..)
  · obtain ⟨⟨o, d₁, r₁⟩, hs, h⟩ := bind_eq_ok.mp h
    cases h
    exact statement_adds ih hs

end steps

theorem addsOn (env : Surroundings) (ts : List Spanned) : AddsOn env ts := by
  refine (measure List.length).wf.induction ts fun ts below ↦ ?_
  exact ⟨statement_adds below, statements_adds below, body_adds below, fieldValue_adds below⟩

/-- A text adds routes between names among its tokens, however deep they stand in it. -/
theorem document_adds (h : document env d ts = .ok (ids, d')) : Adds ts d d' := by
  induction hn : ts.length using Nat.strongRecOn generalizing ts d ids with
  | _ n ih =>
    subst hn
    cases ts with
    | nil =>
      rw [document] at h
      cases h
      exact .of_routes rfl
    | cons t rest =>
      rw [document] at h
      split at h
      · obtain ⟨⟨_, d₁, r₁⟩, hr, h⟩ := bind_eq_ok.mp h
        have left := subset_of_accusing addRoute_accusing hr
        exact (addRoute_adds hr).trans ((ih _ r₁.2 h rfl).mono left)
      · cases h
      · cases h
      · obtain ⟨⟨o, d₁, r₁⟩, hs, h⟩ := bind_eq_ok.mp h
        obtain ⟨⟨ids, d₂⟩, hd, h⟩ := bind_eq_ok.mp h
        cases h
        have left := subset_of_accusing ((accuses env _).statement d) hs
        exact ((addsOn env _).statement hs).trans ((ih _ r₁.2 hd rfl).mono left)

end adds

end Reader

namespace Scene

variable {s s' : Scene} {sp : SpaceId} {text : String} {ids : List NodeId}

theorem draftOf_of_read {tokens : List Spanned} {d : Draft} (ht : Lexer.tokenize text = .ok tokens)
    (hd : Reader.document ⟨sp, text.utf8ByteSize⟩ ⟨s, [], []⟩ tokens = .ok (ids, d)) :
    s.draftOf sp text = d := by
  unfold draftOf
  rw [ht]
  dsimp only
  rw [hd]

theorem document_of_load (h : (s.load sp text).1 = .ok ids) : ∃ tokens d,
    Lexer.tokenize text = .ok tokens ∧
      Reader.document ⟨sp, text.utf8ByteSize⟩ ⟨s, [], []⟩ tokens = .ok (ids, d) := by
  unfold load at h
  dsimp only at h
  split at h
  · cases h
  split at h
  · cases h
  next tokens ht =>
  split at h
  · cases h
  next roots d hd =>
  split at h
  · cases h
    exact ⟨tokens, d, ht, hd⟩
  · cases h

/-- The routes of a text that is read are between names. -/
theorem isName_of_load (h : (s.load sp text).1 = .ok ids) {a : Statement × Nat}
    (ha : a ∈ (s.draftOf sp text).routes) : ∀ p ∈ a.1.parts, IsName p := by
  obtain ⟨tokens, d, ht, hd⟩ := document_of_load h
  rw [draftOf_of_read ht hd] at ha
  intro p hp
  rcases Reader.document_adds hd a ha with old | quoted
  · cases old
  · obtain ⟨t, mem, ident⟩ := quoted p hp
    exact isName_of_laid (laid_of_scan ht) mem ident

/-- The text of a statement between names is, for every scene, the statement and nothing else. -/
theorem document_text (h : ∀ p ∈ st.parts, IsName p) (s : Scene) (sp : SpaceId) : ∃ tokens,
    Lexer.tokenize st.text = .ok tokens ∧
      Reader.document ⟨sp, st.text.utf8ByteSize⟩ ⟨s, [], []⟩ tokens =
        .ok ([], ⟨s, [], [(st, 0)]⟩) := by
  obtain ⟨us, ht, tokens⟩ := tokenize_text h
  obtain ⟨lt, read⟩ : Reader.Leaves (Reader.routeStatement ⟨sp, st.text.utf8ByteSize⟩ _) st [] :=
    Reader.routeStatement_leaves.mpr ⟨_, (List.append_nil _).symm, tokens⟩
  refine ⟨_, ht, ?_⟩
  rw [Reader.document]
  dsimp only
  rw [Reader.addRoute, read]
  exact Reader.document.eq_1 ..

/-- A statement between names is read from its text alike by itself and as a text for a scene, which
then gets its route or a warning; and whatever text a scene reads, the statements in it are read
from their own texts too. -/
theorem readers_agree :
    (∀ st : Statement, (∀ p ∈ st.parts, IsName p) →
      Statement.parse st.text = .ok st ∧
      ∀ (s : Scene) (sp : SpaceId), s.hasSpace sp →
        (s.draftOf sp st.text).routes = [(st, 0)] ∧
        s.load sp st.text = (.ok [], addStatementOrWarn st.text sp s (st, 0))) ∧
    ∀ (s : Scene) (sp : SpaceId) (text : String) (ids : List NodeId),
      (s.load sp text).1 = .ok ids →
      ∀ a ∈ (s.draftOf sp text).routes,
        (∀ p ∈ a.1.parts, IsName p) ∧ Statement.parse a.1.text = .ok a.1 := by
  refine ⟨fun st names ↦ ⟨?_, fun s sp live ↦ ?_⟩, fun s sp text ids h a ha ↦ ?_⟩
  · exact Statement.parse_text fun p hp ↦ proper_of_isName (names p hp)
  · obtain ⟨tokens, ht, hd⟩ := document_text names s sp
    exact ⟨congrArg Draft.routes (draftOf_of_read ht hd), load_of_read live ht hd rfl⟩
  · have names := isName_of_load h ha
    exact ⟨names, Statement.parse_text fun p hp ↦ proper_of_isName (names p hp)⟩

section fenced

def fence : NodeType := ⟨"Group", ⟨[]⟩, [], .bytes, .passive⟩

def fenced : Scene := start ⟨[fence]⟩ {}

def fencing : String := "Group\x7bROUTE TOx.a,TO\nDEF_ . IS1\x7d"

def fencingTokens : List Spanned :=
  [⟨.ident "Group", 0, 5⟩, ⟨.mark .openBrace, 5, 6⟩, ⟨.keyword .route, 6, 11⟩,
    ⟨.ident "TOx", 12, 15⟩, ⟨.mark .dot, 15, 16⟩, ⟨.ident "a", 16, 17⟩, ⟨.keyword .into, 18, 20⟩,
    ⟨.ident "DEF_", 21, 25⟩, ⟨.mark .dot, 26, 27⟩, ⟨.ident "IS1", 28, 31⟩,
    ⟨.mark .closeBrace, 31, 32⟩]

def fencingRoute : Statement := ⟨"TOx", "a", "DEF_", "IS1"⟩

theorem tokenize_fencing : Lexer.tokenize fencing = .ok fencingTokens := by
  cbv

theorem document_fencing :
    Reader.document ⟨.main, fencing.utf8ByteSize⟩ ⟨fenced, [], []⟩ fencingTokens =
      .ok ([.issued 0], ⟨fenced.addNode .main fence, [.issued 0], [(fencingRoute, 6)]⟩) := by
  cbv

/-- The text of the statement has neither the comma nor the blanks around a point with which it
was read. -/
theorem readers_agree_fencing :
    (fenced.load .main fencing).1 = .ok [.issued 0] ∧
    (fenced.draftOf .main fencing).routes = [(fencingRoute, 6)] ∧
    Statement.parse "ROUTE TOx.a TO DEF_.IS1" = .ok fencingRoute ∧
    (fenced.load .main "ROUTE TOx.a TO DEF_.IS1").1 = .ok [] := by
  have draft := draftOf_of_read tokenize_fencing document_fencing
  have completed : (commit .main fencing [.issued 0]
      ⟨fenced.addNode .main fence, [.issued 0], [(fencingRoute, 6)]⟩).1 = .ok () := rfl
  have loaded : (fenced.load .main fencing).1 = .ok [.issued 0] := by
    rw [load_of_read rfl tokenize_fencing document_fencing (Prod.ext completed rfl)]
  obtain ⟨given, kept⟩ := readers_agree
  obtain ⟨names, parsed⟩ := kept _ _ _ _ loaded (fencingRoute, 6) (by simp [draft])
  obtain ⟨-, again⟩ := (given _ names).2 fenced .main rfl
  have text : fencingRoute.text = "ROUTE TOx.a TO DEF_.IS1" := rfl
  rw [text] at parsed again
  refine ⟨loaded, congrArg Draft.routes draft, parsed, ?_⟩
  rw [again]

end fenced

end Scene

end SceneGraph
