import SceneGraph.Proofs.Drawing

/-!
A reader that meets a fault complains about one of its tokens, or about the end of the text. The
scene refuses nothing that no place in the text is to blame for.
-/

namespace SceneGraph

namespace Reader

variable {env : Surroundings} {d : Draft} {ts ts' : List Spanned} {ε α β : Type}

/-- The complaint is about one of the tokens or about the end of the text. -/
def Blames (env : Surroundings) (ts : List Spanned) : Fault → Prop
  | .textual o _ => (∃ t ∈ ts, t.start = o) ∨ o = env.stop
  | .refusal _ => False

/-- A fault of the reading blames the tokens; where the reading ends well it leaves some of them. -/
def Blaming (env : Surroundings) (ts : List Spanned) (fault : ε → Fault)
    (left : α → List Spanned) : Except ε α → Prop
  | .ok a => left a ⊆ ts
  | .error e => Blames env ts (fault e)

section

variable {fault : ε → Fault} {left : α → List Spanned} {left' : β → List Spanned}

theorem Blames.mono {f : Fault} (h : Blames env ts f) (hs : ts ⊆ ts') : Blames env ts' f := by
  cases f with
  | textual o c => exact h.imp_left fun ⟨t, ht, ho⟩ ↦ ⟨t, hs ht, ho⟩
  | refusal e => exact h

theorem blames_startOf (env : Surroundings) (ts : List Spanned) (c : Complaint) :
    Blames env ts (.textual (startOf env ts) c) := by
  cases ts with
  | nil => exact .inr rfl
  | cons t ts => exact .inl ⟨t, List.mem_cons_self, rfl⟩

theorem blames_complain (env : Surroundings) (wanted : String) (ts : List Spanned) :
    Blames env ts (complain env wanted ts) := by
  cases ts with
  | nil => exact .inr rfl
  | cons t ts => exact .inl ⟨t, List.mem_cons_self, rfl⟩

theorem Blaming.error {e : ε} (h : Blames env ts (fault e)) :
    Blaming env ts fault left (.error e) := h

theorem Blaming.mono {x : Except ε α} (h : Blaming env ts fault left x) (hs : ts ⊆ ts') :
    Blaming env ts' fault left x := by
  cases x with
  | ok a => exact List.Subset.trans h hs
  | error e => exact Blames.mono h hs

theorem Blaming.bind {x : Except ε α} {f : α → Except ε β} (h : Blaming env ts fault left x)
    (hf : ∀ a, left a ⊆ ts → Blaming env ts fault left' (f a)) :
    Blaming env ts fault left' (x >>= f) := by
  cases x with
  | ok a => exact hf a h
  | error e => exact h

/-- The draft is worked on, and no token is taken. -/
theorem Blaming.bind_keeping {x : Except Fault α} {f : α → Except (Fault × Draft) β}
    (h : ∀ e, x = .error e → Blames env ts e)
    (hf : ∀ a, x = .ok a → Blaming env ts Prod.fst left' (f a)) :
    Blaming env ts Prod.fst left' (keeping d x >>= f) := by
  cases x with
  | ok a => exact hf a rfl
  | error e => exact h e rfl

theorem Blaming.keeping {x : Except Fault α} (h : Blaming env ts id left x) :
    Blaming env ts Prod.fst left (keeping d x) := by
  cases x with
  | ok a => exact h
  | error e => exact h

end

section tokens

variable {item : Item α}

/-- The reading takes the tokens `ts`, or the first of them, and has no draft. -/
abbrev Blameless (env : Surroundings) {P : List Spanned → Prop} (ts : List Spanned)
    (x : Except Fault (α × { rest // P rest })) : Prop :=
  Blaming env ts id (fun a ↦ a.2.1) x

theorem one_blaming : Blameless env ts (one env item ts) := by
  cases ts with
  | nil => exact .error (blames_complain ..)
  | cons t ts =>
    rw [one]
    split
    · exact List.subset_cons_self t ts
    · exact .inl ⟨t, List.mem_cons_self, rfl⟩
    · exact .error (blames_complain ..)

theorem exactly_blaming {n : Nat} : Blameless env ts (exactly env item n ts) := by
  induction n generalizing ts with
  | zero => exact List.Subset.refl ts
  | succ n ih =>
    refine one_blaming.bind fun a ha ↦ ?_
    exact (ih.mono ha).bind fun _ hr ↦ hr

theorem bracketed_blaming : Blameless env ts (bracketed env item ts) := by
  induction ts with
  | nil => exact .error (blames_complain ..)
  | cons t ts ih =>
    rw [bracketed]
    split
    · exact List.subset_cons_self t ts
    split
    · exact (ih.mono (List.subset_cons_self t ts)).bind fun _ hr ↦ hr
    · exact .inl ⟨t, List.mem_cons_self, rfl⟩
    · exact .error (blames_complain ..)

theorem list_blaming {width : Nat} {positive : 0 < width} :
    Blameless env ts (list env item width positive ts) := by
  unfold list
  split
  · exact (bracketed_blaming.mono (List.subset_cons_self ..)).bind fun _ hr ↦ hr
  · exact exactly_blaming.bind fun _ hr ↦ hr

theorem array_blaming {t : FieldType} {make : List α → Value} :
    Blameless env ts (array env t item make ts) := by
  unfold array
  split
  · exact exactly_blaming.bind fun _ hr ↦ hr
  · exact list_blaming.bind fun _ hr ↦ hr

theorem scalar_blaming {make : α → Value} : Blameless env ts (scalar env item make ts) :=
  one_blaming.bind fun _ hr ↦ hr

theorem plainValue_blaming (t : FieldType) : Blameless env ts (plainValue env t ts) := by
  unfold plainValue
  split
  case h_11 => exact .error (blames_complain ..)
  all_goals first | exact scalar_blaming | exact array_blaming

theorem next_blaming {r : Rest ts} (hr : r.1 ⊆ ts) {x : Except Fault (α × Rest r.1)}
    (h : Blameless env r.1 x) : Blameless env ts (routeStatement.next r x) := by
  cases x with
  | ok a => exact List.Subset.trans h hr
  | error e => exact Blames.mono h hr

theorem routeStatement_blaming : Blameless env ts (routeStatement env ts) := by
  unfold routeStatement
  refine one_blaming.bind fun _ h ↦ ?_
  refine (next_blaming h one_blaming).bind fun _ h ↦ ?_
  refine (next_blaming h one_blaming).bind fun _ h ↦ ?_
  refine (next_blaming h one_blaming).bind fun _ h ↦ ?_
  refine (next_blaming h one_blaming).bind fun _ h ↦ ?_
  refine (next_blaming h one_blaming).bind fun _ h ↦ ?_
  refine (next_blaming h one_blaming).bind fun _ h ↦ ?_
  exact (next_blaming h one_blaming).bind fun _ h ↦ h

end tokens

section drafts

variable {id : NodeId} {name : Option String} {start : Nat}

/-- The reading takes the tokens `ts`, or the first of them, for its draft. -/
abbrev Accusing (env : Surroundings) {P : List Spanned → Prop} (ts : List Spanned)
    (x : Except (Fault × Draft) (α × Draft × { rest // P rest })) : Prop :=
  Blaming env ts Prod.fst (fun a ↦ a.2.2.1) x

theorem blames_of_create {typeName : String} {e : Fault}
    (h : d.create env (startOf env ts) typeName = .error e) : Blames env ts e := by
  unfold Draft.create at h
  split at h
  · cases h
    exact blames_startOf ..
  · cases h

/-- A node that was just made can take any name. -/
theorem exists_named_of_create {typeName : String} {d' : Draft}
    (h : d.create env start typeName = .ok (id, d')) (name : Option String) :
    ∃ d'', nameNode env d' id name = .ok d'' := by
  cases name with
  | none => exact ⟨d', rfl⟩
  | some name =>
    obtain ⟨s, hs, rfl⟩ := Draft.create_eq_ok.mp h
    obtain ⟨x, type, hx, -, rfl, rfl⟩ := Scene.createNode_eq_ok.mp hs
    have home : (d.scene.addNode env.space type).space? env.space = _ :=
      Scene.space?_addNode_of_some hx
    rw [if_pos rfl] at home
    have member := List.mem_append_right x.nodes (List.mem_singleton_self d.scene.nextNode)
    exact ⟨_, keeping_eq_ok.mpr (Draft.define_eq_ok.mpr
      ⟨_, Scene.define_eq_ok.mpr ⟨_, home, member, rfl⟩, rfl⟩)⟩

theorem header_accusing : Accusing env ts (header env d name ts) := by
  unfold header
  refine one_blaming.keeping.bind fun a ha ↦ ?_
  refine Blaming.bind_keeping (fun e he ↦ blames_of_create he) ?_
  rintro ⟨id, d₁⟩ hc
  obtain ⟨d₂, hn⟩ := exists_named_of_create hc name
  dsimp only
  rw [hn]
  exact (one_blaming.keeping.mono ha).bind fun _ hr ↦ hr

theorem addRoute_accusing : Accusing env ts (addRoute env d ts) :=
  routeStatement_blaming.keeping.bind fun _ hr ↦ hr

theorem blames_of_locate {t : Spanned} {e : Fault} {name : String} (ht : t ∈ ts)
    (h : d.locate id t.start name = .error e) : Blames env ts e := by
  unfold Draft.locate at h
  repeat' split at h
  all_goals cases h
  all_goals exact .inl ⟨t, ht, rfl⟩

theorem blames_of_set {index : Nat} {v : Value} {e : Fault}
    (h : d.set id index (startOf env ts) v = .error e) : Blames env ts e := by
  unfold Draft.set at h
  split at h
  · cases h
    exact blames_startOf ..
  · cases h

/-- The parts of a text blame what they read. -/
structure Accuses (env : Surroundings) (ts : List Spanned) : Prop where
  statement : ∀ d, Accusing env ts (statement env d ts)
  statements : ∀ d, Accusing env ts (statements env d ts)
  body : ∀ d id, Accusing env ts (body env d id ts)
  fieldValue : ∀ d t, Accusing env ts (fieldValue env d t ts)

section steps

variable (ih : ∀ r : List Spanned, r.length < ts.length → Accuses env r)
include ih

theorem statement_accusing : Accusing env ts (statement env d ts) := by
  unfold Reader.statement
  split
  · exact List.subset_cons_self ..
  · refine Blaming.mono ?_ (List.subset_cons_self ..)
    refine one_blaming.keeping.bind ?_
    rintro ⟨name, r⟩ hr
    dsimp only
    split
    · exact hr
    · exact .error (blames_startOf ..)
  · refine Blaming.mono ?_ (List.subset_cons_self ..)
    refine one_blaming.keeping.bind ?_
    rintro ⟨name, r⟩ hr
    refine (header_accusing.mono hr).bind ?_
    rintro ⟨id, d₁, r₁⟩ hr₁
    have shorter := Nat.lt_succ_of_lt (Nat.lt_trans r₁.2 r.2)
    exact (((ih _ shorter).body d₁ id).mono hr₁).bind fun _ hr₂ ↦ hr₂
  · refine header_accusing.bind ?_
    rintro ⟨id, d₁, r₁⟩ hr₁
    exact (((ih _ r₁.2).body d₁ id).mono hr₁).bind fun _ hr₂ ↦ hr₂
  · exact .error (blames_complain ..)

theorem body_accusing : Accusing env ts (body env d id ts) := by
  unfold Reader.body
  split
  · exact List.subset_cons_self ..
  · refine addRoute_accusing.bind ?_
    rintro ⟨_, d₁, r₁⟩ hr₁
    exact (((ih _ r₁.2).body d₁ id).mono hr₁).bind fun _ hr₂ ↦ hr₂
  · refine Blaming.bind_keeping (fun e he ↦ blames_of_locate List.mem_cons_self he) ?_
    rintro ⟨index, t⟩ -
    refine Blaming.mono ?_ (List.subset_cons_self ..)
    refine ((ih _ (Nat.lt_succ_self _)).fieldValue d t).bind ?_
    rintro ⟨v, d₁, r₁⟩ hr₁
    refine Blaming.bind_keeping (fun e he ↦ blames_of_set he) fun d₂ _ ↦ ?_
    exact (((ih _ (Nat.lt_succ_of_lt r₁.2)).body d₂ id).mono hr₁).bind fun _ hr₂ ↦ hr₂
  · exact .error (blames_complain ..)

theorem statements_accusing : Accusing env ts (statements env d ts) := by
  cases ts with
  | nil =>
    rw [Reader.statements]
    exact .error (blames_complain ..)
  | cons t rest =>
    rw [Reader.statements]
    split
    · exact List.subset_cons_self ..
    refine (statement_accusing ih).bind ?_
    rintro ⟨id, d₁, r₁⟩ hr₁
    exact (((ih _ r₁.2).statements d₁).mono hr₁).bind fun _ hr₂ ↦ hr₂

theorem fieldValue_accusing (t : FieldType) : Accusing env ts (fieldValue env d t ts) := by
  unfold Reader.fieldValue
  split
  · exact (plainValue_blaming t).keeping.bind fun _ hr ↦ hr
  split
  · exact (statement_accusing ih).bind fun _ hr ↦ hr
  split
  · exact (((ih _ (Nat.lt_succ_self _)).statements d).mono (List.subset_cons_self ..)).bind
      fun _ hr ↦ hr
  · exact (statement_accusing ih).bind fun _ hr ↦ hr

end steps

theorem accuses (env : Surroundings) (ts : List Spanned) : Accuses env ts := by
  refine (measure List.length).wf.induction ts fun ts below ↦ ?_
  exact ⟨fun _ ↦ statement_accusing below, fun _ ↦ statements_accusing below,
    fun _ _ ↦ body_accusing below, fun _ t ↦ fieldValue_accusing below t⟩

/-- A text that cannot be read is to blame, at one of its tokens or at its end. -/
theorem document_blames (env : Surroundings) (d : Draft) (ts : List Spanned) {e : Fault × Draft}
    (h : document env d ts = .error e) : Blames env ts e.1 := by
  suffices read : Blaming env ts Prod.fst (fun _ ↦ []) (document env d ts) by
    rwa [h] at read
  clear h
  induction hn : ts.length using Nat.strongRecOn generalizing ts d with
  | _ n ih =>
    subst hn
    cases ts with
    | nil =>
      rw [document]
      exact List.nil_subset _
    | cons t rest =>
      rw [document]
      split
      · refine addRoute_accusing.bind ?_
        rintro ⟨_, d₁, r₁⟩ hr₁
        exact (ih _ r₁.2 _ _ rfl).mono hr₁
      · exact .inl ⟨t, List.mem_cons_self, rfl⟩
      · exact .inl ⟨t, List.mem_cons_self, rfl⟩
      · refine ((accuses env _).statement d).bind ?_
        rintro ⟨id, d₁, r₁⟩ hr₁
        exact ((ih _ r₁.2 _ _ rfl).mono hr₁).bind fun _ _ ↦ List.nil_subset _

end drafts

end Reader

end SceneGraph
