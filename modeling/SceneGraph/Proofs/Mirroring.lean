import SceneGraph.Proofs.Pairing
import SceneGraph.Scene.Reading

/-!
Values are written to scenes that are alike, and texts are read into them: both scenes refuse the
same, and stay alike.
-/

namespace SceneGraph

namespace Scene

variable {s t : Scene} {n m : Node} {v w : Value}

namespace Alike

section writing

theorem withPending (h : s.Alike t) (f : List (NodeId × Nat) → List (NodeId × Nat)) :
    Alike { s with pending := f s.pending } { t with pending := f t.pending } :=
  h.aside (fun s ↦ { s with pending := f s.pending }) (fun _ ↦ rfl) ⟨rfl, rfl⟩

theorem flag (h : s.Alike t) (id : NodeId) (f : List Bool → List Bool) :
    (s.modifyNode id fun n ↦ { n with changed := f n.changed }).Alike
      (t.modifyNode id fun n ↦ { n with changed := f n.changed }) :=
  h.retouch id _ (fun _ _ ↦ rfl) fun _ ↦ ⟨rfl, rfl⟩

theorem markChanged (h : s.Alike t) (id : NodeId) (index : Nat) :
    (s.markChanged id index).Alike (t.markChanged id index) :=
  ((h.flag id (·.set index true)).withPending (· ++ [(id, index)])).log _

theorem viewOf (h : s.Alike t) (id : NodeId) (alike : n.Alike m) :
    (s.viewOf id n).Alike (t.viewOf id m) := by
  cases h with
  | mk h _ =>
    refine ⟨?_, alike.values⟩
    unfold Scene.viewOf
    rw [alike.type, h.issued]

theorem fill (h : s.Alike t) (id : NodeId) {vs ws : List Value} (hv : AllAlike vs ws) :
    (s.modifyNode id fun n ↦ { n with values := vs }).Alike
      (t.modifyNode id fun n ↦ { n with values := ws }) :=
  h.modifyNode id fun n m alike ↦ by
    cases alike with
    | mk _ blind => exact ⟨hv, blind⟩

/-- A script that does alike what it does for alike nodes leaves the scenes alike. -/
theorem perform (h : s.Alike t) (id : NodeId) {script : Behavior → Script}
    (hs : ∀ b, b.Blind → (script b).Alike (script b)) :
    (s.perform id script).Alike (t.perform id script) := by
  unfold Scene.perform
  rcases h.node_cases id with ⟨hn, hm⟩ | ⟨n, m, hn, hm, alike⟩ <;> rw [hn, hm]
  · exact h
  have ended := (hs _ alike.blind).perform (h.viewOf id alike)
  dsimp only
  rw [alike.type, alike.inSetup, ended.notes, ended.outputs]
  have stored := (h.fill id ended.view.values).log
    (((script n.type.behavior).perform (s.viewOf id n)).notes.map .note)
  split
  · exact stored
  · exact foldl (fun index h ↦ h.markChanged id index) _ stored

theorem refsAt (alike : n.Alike m) (index : Nat) : refsAt m index = refsAt n index :=
  congrArg (·.getD []) (alike.map index Value.refs_trim)

theorem editChildren (h : s.Alike t) (id : NodeId) (input children : Nat)
    (edit : List NodeId → List NodeId → List NodeId) :
    (s.editChildren id input children edit).Alike (t.editChildren id input children edit) := by
  unfold Scene.editChildren
  rcases h.node_cases id with ⟨hn, hm⟩ | ⟨n, m, hn, hm, alike⟩ <;> rw [hn, hm]
  · exact h
  dsimp only
  rw [refsAt alike, refsAt alike, alike.inSetup]
  split
  · exact h
  have stored := h.modifyNode id fun _ _ alike ↦ alike.store children
    (.refl (.ofNodes (edit (Scene.refsAt n children) (Scene.refsAt n input))))
  split
  · exact stored
  · exact stored.markChanged id children

theorem applyLoadable (h : s.Alike t) (id : NodeId) (type : NodeType) (index : Nat) :
    (s.applyLoadable id type index).Alike (t.applyLoadable id type index) := by
  unfold Scene.applyLoadable
  split
  · exact h.urlChanged id
  split
  · exact h.loadSwitched id index
  · exact h

theorem applyCapabilities (h : s.Alike t) (id : NodeId) (type : NodeType) (index : Nat) :
    (s.applyCapabilities id type index).Alike (t.applyCapabilities id type index) := by
  unfold Scene.applyCapabilities
  split
  · split
    · exact h.editChildren ..
    split
    · exact h.editChildren ..
    · exact h.applyLoadable ..
  · exact h.applyLoadable ..

theorem admits (alike : n.Alike m) (issued index : Nat) (hv : v.Alike w) :
    m.admits issued index w = n.admits issued index v := by
  have shape (d : Declaration) : d.checkShape n.type.name w = d.checkShape n.type.name v := by
    unfold Declaration.checkShape
    rw [hv.congr d.shapeFault?_trim]
  have valid (d : Declaration) : n.type.behavior.validate issued index d w =
      n.type.behavior.validate issued index d v :=
    (hv.congr (alike.blind.validate issued index d)).symm
  unfold Node.admits
  simp only [alike.type, alike.inSetup, shape, valid]

/-- Both scenes take a value or refuse it, whatever follows its valid elements. -/
theorem setValue (h : s.Alike t) (id : NodeId) (index : Nat) (hv : v.Alike w) :
    Both Eq Alike (s.setValue id index v) (t.setValue id index w) := by
  refine (h.node id).bind fun n m alike ↦ ?_
  rw [h.issued, admits alike _ index hv]
  refine (Both.of_eq (fun _ ↦ rfl) rfl).bind fun _ _ _ ↦ ?_
  have stored := h.modifyNode id fun _ _ alike ↦ alike.store index hv
  dsimp only
  rw [alike.inSetup, alike.type]
  split
  · exact stored
  · exact ((stored.markChanged id index).applyCapabilities id _ index).perform id
      fun b blind ↦ blind.fieldChanged index

theorem fieldIndex (h : s.Alike t) (id : NodeId) (name : String) :
    t.fieldIndex id name = s.fieldIndex id name := by
  unfold Scene.fieldIndex Scene.node
  rcases h.node_cases id with ⟨hn, hm⟩ | ⟨n, m, hn, hm, alike⟩ <;> rw [hn, hm]
  exact congrArg (NodeType.lookup · name) alike.type

theorem locate (h : s.Alike t) (id : NodeId) (target : Target) :
    t.locate id target = s.locate id target := by
  cases target with
  | index i => rfl
  | name name => exact h.fieldIndex id name

theorem set (h : s.Alike t) (id : NodeId) (target : Target) (hv : v.Alike w) :
    Both Eq Alike (s.set id target v) (t.set id target w) := by
  unfold Scene.set
  rw [h.locate]
  refine (Both.of_eq (fun _ ↦ rfl) rfl).bind ?_
  rintro index _ rfl
  exact h.setValue id index hv

theorem endSetup (h : s.Alike t) (id : NodeId) :
    (s.modifyNode id fun n ↦ { n with inSetup := false }).Alike
      (t.modifyNode id fun n ↦ { n with inSetup := false }) :=
  h.retouch id _ (fun _ _ ↦ rfl) fun _ ↦ ⟨rfl, rfl⟩

theorem finishSetup (h : s.Alike t) (id : NodeId) :
    Both Eq Alike (s.finishSetup id) (t.finishSetup id) := by
  refine (h.node id).bind fun n m alike ↦ ?_
  rw [alike.inSetup, alike.type]
  split
  · exact h
  have ended := (h.endSetup id).perform id fun b blind ↦ blind.setupFinished
  dsimp only
  split
  · exact ended.autoLoad id
  · exact ended

end writing

section wiring

theorem isMember (h : s.Alike t) : t.isMember = s.isMember := h.agree Scene.isMember fun _ ↦ rfl

theorem named? (h : s.Alike t) : t.named? = s.named? := h.agree Scene.named? fun _ ↦ rfl

theorem openSpace (h : s.Alike t) (kind : SpaceKind) (parent : SpaceId) (owner : Option NodeId) :
    Both Eq Parallel (s.openSpace kind parent owner) (t.openSpace kind parent owner) := by
  refine (h.space parent).bind fun _ _ _ ↦ ⟨?_, ?_⟩
  · exact (h.agree Scene.nextSpace fun _ ↦ rfl).symm
  · exact h.aside (·.addSpace kind parent owner) (fun _ ↦ rfl) ⟨rfl, rfl⟩

theorem createNode (h : s.Alike t) (sp : SpaceId) (typeName : String) :
    Both Eq Parallel (s.createNode sp typeName) (t.createNode sp typeName) := by
  refine (h.space sp).bind fun _ _ _ ↦ ?_
  have blind : ∀ type ∈ s.catalog.types, type.behavior.Blind := by
    cases h
    assumption
  unfold Catalog.resolve
  rw [h.agree Scene.catalog fun _ ↦ rfl]
  cases ht : s.catalog.get? typeName with
  | none => exact rfl
  | some type =>
    refine ⟨?_, h.addNode sp (blind type (List.mem_of_find?_eq_some ht))⟩
    exact congrArg NodeId.issued h.issued.symm

theorem addRoot (h : s.Alike t) (sp : SpaceId) (id : NodeId) :
    Both Eq Parallel (s.addRoot sp id) (t.addRoot sp id) := by
  refine (h.node id).bind fun _ _ _ ↦ (h.space sp).bind ?_
  rintro x _ rfl
  dsimp only
  split
  · exact rfl
  split
  · exact ⟨rfl, h⟩
  · exact ⟨rfl, h.modifySpace sp _⟩

theorem removeRoot (h : s.Alike t) (sp : SpaceId) (id : NodeId) :
    Both Eq Parallel (s.removeRoot sp id) (t.removeRoot sp id) := by
  refine (h.space sp).bind ?_
  rintro x _ rfl
  exact ⟨rfl, h.modifySpace sp _⟩

theorem define (h : s.Alike t) (sp : SpaceId) (name : String) (id : NodeId) :
    Both Eq Alike (s.define sp name id) (t.define sp name id) := by
  refine (h.space sp).bind ?_
  rintro x _ rfl
  split
  · exact rfl
  · exact h.modifySpace sp _

theorem checkRoute (h : s.Alike t) (sp : SpaceId) (r : Route) :
    t.checkRoute sp r = s.checkRoute sp r := by
  refine Both.eq ((h.node r.source).bind fun a a' source ↦ (h.node r.dest).bind fun b b' dest ↦ ?_)
  rw [h.isMember, source.type, dest.type]
  exact Both.of_eq (fun _ ↦ rfl) rfl

theorem addRouteIn (h : s.Alike t) (sp : SpaceId) (r : Route) :
    Both Eq Parallel (s.addRouteIn sp r) (t.addRouteIn sp r) := by
  refine (h.space sp).bind ?_
  rintro x _ rfl
  rw [h.checkRoute]
  refine (Both.of_eq (fun _ ↦ rfl) rfl).bind fun _ _ _ ↦ ?_
  split
  · exact ⟨rfl, h⟩
  · exact ⟨rfl, h.modifySpace sp _⟩

theorem addRoute (h : s.Alike t) (r : Route) :
    Both Eq Parallel (s.addRoute r) (t.addRoute r) := by
  refine (h.node r.source).bind fun n m alike ↦ ?_
  cases alike
  exact h.addRouteIn _ r

theorem removeRoute (h : s.Alike t) (r : Route) :
    Parallel (s.removeRoute r) (t.removeRoute r) := by
  unfold Scene.removeRoute
  have found := h.bind_agree r.source
    (fun n ↦ (s.space? n.space).map fun x ↦ (n.space, x)) fun _ _ ↦ rfl
  simp only [h.space?, found]
  split
  · exact ⟨rfl, h⟩
  split
  · exact ⟨rfl, h.modifySpace _ _⟩
  · exact ⟨rfl, h⟩

theorem resolve (h : s.Alike t) (sp : SpaceId) (statement : Statement) :
    t.resolve sp statement = s.resolve sp statement := by
  unfold Scene.resolve routeByName
  simp only [h.named?, h.fieldIndex]

theorem addStatement (h : s.Alike t) (sp : SpaceId) (statement : Statement) :
    Both Eq Parallel (s.addStatement sp statement) (t.addStatement sp statement) := by
  unfold Scene.addStatement
  rw [h.resolve]
  refine (Both.of_eq (fun _ ↦ rfl) rfl).bind ?_
  rintro r _ rfl
  exact h.addRouteIn sp r

theorem addStatementOrWarn (text : String) (sp : SpaceId) (h : s.Alike t) (r : Statement × Nat) :
    (s.addStatementOrWarn text sp r).Alike (t.addStatementOrWarn text sp r) := by
  unfold Scene.addStatementOrWarn
  rcases (h.addStatement sp r.1).cases with ⟨e, _, hx, hy, rfl⟩ | ⟨a, b, hx, hy, both⟩ <;>
    rw [hx, hy]
  · split
    · contradiction
    · exact h.log _
    · exact h.log _
  · exact both.scene

end wiring

end Alike

end Scene

/-- The draft is `d` with a scene that is alike. -/
inductive Draft.Alike (d : Draft) : Draft → Prop
  | mk {scene : Scene} (h : d.scene.Alike scene) : Alike d { d with scene }

namespace Draft.Alike

variable {d e : Draft} {v w : Value}

theorem scene (h : d.Alike e) : d.scene.Alike e.scene := by
  cases h
  assumption

theorem addRoute (h : d.Alike e) (statement : Statement) (start : Nat) :
    (d.addRoute statement start).Alike (e.addRoute statement start) := by
  cases h with
  | mk h => exact ⟨h⟩

theorem create (h : d.Alike e) (env : Surroundings) (start : Nat) (typeName : String) :
    Both Eq (fun a b ↦ a.1 = b.1 ∧ a.2.Alike b.2) (d.create env start typeName)
      (e.create env start typeName) := by
  cases h with
  | mk h =>
    unfold Draft.create
    rcases (h.createNode env.space typeName).cases with ⟨e, _, hx, hy, rfl⟩ | ⟨a, b, hx, hy, both⟩
    · rw [hx, hy]
      exact rfl
    · obtain ⟨r, s, t, rfl, rfl, alike⟩ := both.cases
      rw [hx, hy]
      exact ⟨rfl, ⟨alike⟩⟩

theorem define (h : d.Alike e) (env : Surroundings) (name : String) (id : NodeId) :
    Both Eq Alike (d.define env name id) (e.define env name id) := by
  cases h with
  | mk h =>
    unfold Draft.define
    rcases (h.define env.space name id).cases with ⟨e, _, hx, hy, rfl⟩ | ⟨s, t, hx, hy, alike⟩ <;>
      rw [hx, hy]
    · exact rfl
    · exact ⟨alike⟩

theorem named? (h : d.Alike e) (env : Surroundings) (name : String) :
    e.named? env name = d.named? env name := by
  unfold Draft.named?
  rw [h.scene.named?]

theorem locate (h : d.Alike e) (id : NodeId) (start : Nat) (name : String) :
    e.locate id start name = d.locate id start name := by
  have declared (index : Nat) :=
    h.scene.bind_agree id (fun n ↦ n.type.table.get? index) fun _ _ ↦ rfl
  unfold Draft.locate
  simp only [h.scene.fieldIndex, declared]

theorem set (h : d.Alike e) (id : NodeId) (index start : Nat) (v : Value) :
    Both Eq Alike (d.set id index start v) (e.set id index start v) := by
  cases h with
  | mk h =>
    unfold Draft.set
    rcases (h.setValue id index (.refl v)).cases with
      ⟨e, _, hx, hy, rfl⟩ | ⟨s, t, hx, hy, alike⟩ <;> rw [hx, hy]
    · exact rfl
    · exact ⟨alike⟩

theorem rollBack (h : d.Alike e) : d.rollBack.Alike e.rollBack := by
  cases h with
  | mk h =>
    refine Scene.Alike.foldl (fun id h ↦ ?_) _ h
    rcases (h.removeNode id).cases with ⟨e, _, hx, hy, rfl⟩ | ⟨s, t, hx, hy, alike⟩ <;> rw [hx, hy]
    · exact h
    · exact alike

end Draft.Alike

namespace Reader

variable {α : Type} {env : Surroundings} {ts : List Spanned} {d e : Draft} {id : NodeId}

/-- Both texts have one fault, or give results that are related. The drafts with a fault are
alike. -/
abbrev Echoed {β : Type} (R : α → β → Prop) (x : Except (Fault × Draft) α)
    (y : Except (Fault × Draft) β) : Prop :=
  Both (fun f g ↦ f.1 = g.1 ∧ f.2.Alike g.2) R x y

/-- Both texts have one fault, or give one result and leave the same tokens. The drafts are
alike. -/
abbrev Mirrored {β : Type} (x y : Except (Fault × Draft) (α × Draft × β)) : Prop :=
  Echoed (fun a b ↦ a.1 = b.1 ∧ a.2.1.Alike b.2.1 ∧ a.2.2 = b.2.2) x y

theorem Mirrored.andThen {β γ : Type} {R : γ → γ → Prop}
    {x y : Except (Fault × Draft) (α × Draft × β)} (h : Mirrored x y)
    {f g : α × Draft × β → Except (Fault × Draft) γ}
    (hf : ∀ a b {d e}, d.Alike e → Echoed R (f (a, d, b)) (g (a, e, b))) :
    Echoed R (x >>= f) (y >>= g) := by
  refine h.bind ?_
  rintro ⟨a, d, b⟩ ⟨_, e, _⟩ ⟨rfl, hd, rfl⟩
  exact hf a b hd

theorem keeping_mirrored {γ : Type} {R : γ → γ → Prop} {x y : Except Fault γ} (h : d.Alike e)
    (hx : Both Eq R x y) : Echoed R (keeping d x) (keeping e y) := by
  rcases hx.cases with ⟨f, _, rfl, rfl, rfl⟩ | ⟨a, b, rfl, rfl, hab⟩
  · exact ⟨rfl, h⟩
  · exact hab

theorem keeping_same {x : Except Fault α} (h : d.Alike e) :
    Echoed Eq (keeping d x) (keeping e x) :=
  keeping_mirrored h (.of_eq (fun _ ↦ rfl) rfl)

theorem addRoute_mirrored (h : d.Alike e) (ts : List Spanned) :
    Mirrored (addRoute env d ts) (addRoute env e ts) := by
  refine (keeping_same h).bind ?_
  rintro ⟨s, r⟩ _ rfl
  exact ⟨rfl, h.addRoute s _, rfl⟩

theorem header_mirrored (h : d.Alike e) (name : Option String) (ts : List Spanned) :
    Mirrored (header env d name ts) (header env e name ts) := by
  refine (keeping_same h).bind ?_
  rintro ⟨typeName, r⟩ _ rfl
  refine (keeping_mirrored h (h.create env _ typeName)).bind ?_
  rintro ⟨id, d₁⟩ ⟨_, e₁⟩ ⟨rfl, h₁⟩
  have named : Echoed Draft.Alike (nameNode env d₁ id name) (nameNode env e₁ id name) := by
    cases name with
    | none => exact h₁
    | some name => exact keeping_mirrored h₁ (h₁.define env name id)
  refine named.bind fun d₂ e₂ h₂ ↦ (keeping_same h₂).bind ?_
  rintro ⟨_, r'⟩ _ rfl
  exact ⟨rfl, h₂, rfl⟩

/-- The parts of a text are read alike. -/
structure Mirrors (env : Surroundings) (ts : List Spanned) : Prop where
  statement : ∀ {d e}, d.Alike e → Mirrored (statement env d ts) (statement env e ts)
  statements : ∀ {d e}, d.Alike e → Mirrored (statements env d ts) (statements env e ts)
  body : ∀ {d e} id, d.Alike e → Mirrored (body env d id ts) (body env e id ts)
  fieldValue : ∀ {d e} t, d.Alike e → Mirrored (fieldValue env d t ts) (fieldValue env e t ts)

section steps

variable (ih : ∀ r : List Spanned, r.length < ts.length → Mirrors env r)
include ih

theorem statement_mirrored (h : d.Alike e) :
    Mirrored (statement env d ts) (statement env e ts) := by
  unfold Reader.statement
  split
  · exact ⟨rfl, h, rfl⟩
  · refine (keeping_same h).bind ?_
    rintro ⟨name, r⟩ _ rfl
    dsimp only
    rw [h.named?]
    split
    · exact ⟨rfl, h, rfl⟩
    · exact ⟨rfl, h⟩
  · refine (keeping_same h).bind ?_
    rintro ⟨name, r⟩ _ rfl
    refine (header_mirrored h _ _).andThen fun id r₁ _ _ h₁ ↦ ?_
    have shorter := Nat.lt_succ_of_lt (Nat.lt_trans r₁.2 r.2)
    exact ((ih _ shorter).body id h₁).andThen fun _ _ _ _ h₂ ↦ ⟨rfl, h₂, rfl⟩
  · refine (header_mirrored h _ _).andThen fun id r₁ _ _ h₁ ↦ ?_
    exact ((ih _ r₁.2).body id h₁).andThen fun _ _ _ _ h₂ ↦ ⟨rfl, h₂, rfl⟩
  · exact ⟨rfl, h⟩

theorem body_mirrored (h : d.Alike e) (id : NodeId) :
    Mirrored (body env d id ts) (body env e id ts) := by
  unfold Reader.body
  split
  · exact ⟨rfl, h, rfl⟩
  · refine (addRoute_mirrored h _).andThen fun _ r₁ _ _ h₁ ↦ ?_
    exact ((ih _ r₁.2).body id h₁).andThen fun _ _ _ _ h₂ ↦ ⟨rfl, h₂, rfl⟩
  · rw [h.locate]
    refine (keeping_same h).bind ?_
    rintro ⟨index, t⟩ _ rfl
    refine ((ih _ (Nat.lt_succ_self _)).fieldValue t h).andThen fun v r₁ _ _ h₁ ↦ ?_
    refine (keeping_mirrored h₁ (h₁.set id index _ v)).bind fun d₂ e₂ h₂ ↦ ?_
    exact ((ih _ (Nat.lt_succ_of_lt r₁.2)).body id h₂).andThen fun _ _ _ _ h₃ ↦ ⟨rfl, h₃, rfl⟩
  · exact ⟨rfl, h⟩

theorem statements_mirrored (h : d.Alike e) :
    Mirrored (statements env d ts) (statements env e ts) := by
  cases ts with
  | nil =>
    simp only [Reader.statements]
    exact ⟨rfl, h⟩
  | cons t rest =>
    simp only [Reader.statements]
    split
    · exact ⟨rfl, h, rfl⟩
    refine (statement_mirrored ih h).andThen fun id r₁ _ _ h₁ ↦ ?_
    exact ((ih _ r₁.2).statements h₁).andThen fun _ _ _ _ h₂ ↦ ⟨rfl, h₂, rfl⟩

theorem fieldValue_mirrored (h : d.Alike e) (t : FieldType) :
    Mirrored (fieldValue env d t ts) (fieldValue env e t ts) := by
  unfold Reader.fieldValue
  split
  · refine (keeping_same h).bind ?_
    rintro ⟨v, r⟩ _ rfl
    exact ⟨rfl, h, rfl⟩
  split
  · exact (statement_mirrored ih h).andThen fun _ _ _ _ h₁ ↦ ⟨rfl, h₁, rfl⟩
  split
  · exact ((ih _ (Nat.lt_succ_self _)).statements h).andThen fun _ _ _ _ h₁ ↦ ⟨rfl, h₁, rfl⟩
  · exact (statement_mirrored ih h).andThen fun _ _ _ _ h₁ ↦ ⟨rfl, h₁, rfl⟩

end steps

theorem mirrors (env : Surroundings) (ts : List Spanned) : Mirrors env ts := by
  refine (measure List.length).wf.induction ts fun ts below ↦ ?_
  exact ⟨statement_mirrored below, statements_mirrored below,
    fun id h ↦ body_mirrored below h id, fun t h ↦ fieldValue_mirrored below h t⟩

/-- A text is read alike into drafts that are alike. -/
theorem document_mirrored (env : Surroundings) (h : d.Alike e) (ts : List Spanned) :
    Echoed (fun a b ↦ a.1 = b.1 ∧ a.2.Alike b.2) (document env d ts) (document env e ts) := by
  induction hn : ts.length using Nat.strongRecOn generalizing ts d e with
  | _ n ih =>
    subst hn
    cases ts with
    | nil =>
      simp only [document]
      exact ⟨rfl, h⟩
    | cons t rest =>
      rw [document, document]
      split
      · exact (addRoute_mirrored h _).andThen fun _ r₁ _ _ h₁ ↦ ih _ r₁.2 h₁ _ rfl
      · exact ⟨rfl, h⟩
      · exact ⟨rfl, h⟩
      · refine ((mirrors env _).statement h).andThen fun id r₁ _ _ h₁ ↦
          (ih _ r₁.2 h₁ _ rfl).bind ?_
        rintro ⟨ids, d₂⟩ ⟨_, e₂⟩ ⟨rfl, h₂⟩
        exact ⟨rfl, h₂⟩

end Reader

namespace Scene.Alike

variable {s t : Scene}

theorem commit (sp : SpaceId) (text : String) (roots : List NodeId) {d e : Draft}
    (h : d.Alike e) : Parallel (commit sp text roots d) (commit sp text roots e) := by
  cases h with
  | @mk scene h =>
    unfold Scene.commit
    have rooted := h.inTurn (f := fun id s ↦ s.keep ((s.addRoot sp id).map Prod.snd))
      (fun id h ↦ h.keep ((h.addRoot sp id).map fun _ _ both ↦ both.scene)) roots
    obtain ⟨r, s, t, hs, ht, alike⟩ := rooted.cases
    rw [hs, ht]
    cases r with
    | error e => exact ⟨rfl, alike⟩
    | ok _ =>
      exact (foldl (fun r h ↦ h.addStatementOrWarn text sp r) _ alike).inTurn
        (fun id h ↦ h.keep (h.finishSetup id)) _

theorem load (h : s.Alike t) (sp : SpaceId) (text : String) :
    Parallel (s.load sp text) (t.load sp text) := by
  have present : t.hasSpace sp = s.hasSpace sp := by
    unfold hasSpace
    rw [h.space?]
  unfold Scene.load
  dsimp only
  rw [present]
  split
  · exact ⟨rfl, h⟩
  split
  · exact ⟨rfl, h.log _⟩
  rename_i tokens _
  have draft : Draft.Alike ⟨s, [], []⟩ ⟨t, [], []⟩ := .mk (d := ⟨s, [], []⟩) h
  rcases (Reader.document_mirrored ⟨sp, text.utf8ByteSize⟩ draft tokens).cases with
    ⟨⟨fault, d⟩, ⟨_, e⟩, hx, hy, rfl, given⟩ | ⟨⟨roots, d⟩, ⟨_, e⟩, hx, hy, rfl, read⟩ <;>
    rw [hx, hy]
  · exact ⟨rfl, given.rollBack.log _⟩
  dsimp only
  obtain ⟨r, s', t', hs, ht, alike⟩ := (commit sp text roots read).cases
  rw [hs, ht]
  cases r <;> exact ⟨rfl, alike⟩

end Scene.Alike

end SceneGraph
