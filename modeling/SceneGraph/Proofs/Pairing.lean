import SceneGraph.Proofs.Stroke
import SceneGraph.Proofs.Trimming
import SceneGraph.Scene.Outline

/-!
Scenes that differ only in what follows the valid elements of arrays. Removals and loads go the same
way in both, and leave scenes that differ in nothing else.
-/

namespace SceneGraph

theorem rel_cases {α β : Type} {R : α → β → Prop} {x : Option α} {y : Option β}
    (h : Option.Rel R x y) :
    x = none ∧ y = none ∨ ∃ a b, x = some a ∧ y = some b ∧ R a b := by
  cases h with
  | none => exact .inl ⟨rfl, rfl⟩
  | some h => exact .inr ⟨_, _, rfl, rfl, h⟩

/-- The tables have issued the same numbers, and those in use are for entries that are related. -/
structure Arena.Paired {α : Type} (R : α → α → Prop) (a b : Arena α) : Prop where
  issued : b.issued = a.issued
  get? : ∀ k, Option.Rel R (a.get? k) (b.get? k)

namespace Arena.Paired

variable {α : Type} {R : α → α → Prop} {a b : Arena α}

theorem insert (h : a.Paired R b) {v w : α} (hv : R v w) : (a.insert v).Paired R (b.insert w) where
  issued := by rw [issued_insert, issued_insert, h.issued]
  get? k := by
    rw [get?_insert, get?_insert, h.issued]
    split
    · exact .some hv
    · exact h.get? k

theorem modify (h : a.Paired R b) (k : Nat) {f g : α → α} (hf : ∀ v w, R v w → R (f v) (g w)) :
    (a.modify k f).Paired R (b.modify k g) where
  issued := by rw [issued_modify, issued_modify, h.issued]
  get? j := by
    rw [get?_modify, get?_modify]
    split
    · rcases rel_cases (h.get? j) with ⟨ha, hb⟩ | ⟨v, w, ha, hb, hv⟩ <;> rw [ha, hb]
      · exact .none
      · exact .some (hf v w hv)
    · exact h.get? j

theorem erase (h : a.Paired R b) (k : Nat) : (a.erase k).Paired R (b.erase k) where
  issued := by rw [issued_erase, issued_erase, h.issued]
  get? j := by
    rw [get?_erase, get?_erase]
    split
    · exact .none
    · exact h.get? j

theorem contains (h : a.Paired R b) : b.contains = a.contains := by
  funext k
  unfold Arena.contains
  rcases rel_cases (h.get? k) with ⟨ha, hb⟩ | ⟨v, w, ha, hb, -⟩ <;> rw [ha, hb]
  rfl

theorem keys (h : a.Paired R b) : b.keys = a.keys := by
  rw [Arena.keys, h.issued, h.contains, Arena.keys]

end Arena.Paired

/-- The node is `n` with other rests of its arrays, which its type does not look at. -/
inductive Node.Alike (n : Node) : Node → Prop
  | mk {values : List Value} (h : AllAlike n.values values) (blind : n.type.behavior.Blind) :
    Alike n { n with values }

namespace Node.Alike

variable {n m : Node}

theorem blind (h : n.Alike m) : n.type.behavior.Blind := by
  cases h
  assumption

theorem agree {α : Type} (h : n.Alike m) (f : Node → α)
    (hf : ∀ values, f { n with values } = f n) : f m = f n := by
  cases h
  exact hf _

theorem type (h : n.Alike m) : m.type = n.type := h.agree Node.type fun _ ↦ rfl

theorem inSetup (h : n.Alike m) : m.inSetup = n.inSetup := h.agree Node.inSetup fun _ ↦ rfl

theorem load (h : n.Alike m) : m.load = n.load := h.agree Node.load fun _ ↦ rfl

theorem loadState? (h : n.Alike m) : m.loadState? = n.loadState? :=
  congrArg (·.map LoadSlot.state) h.load

theorem values (h : n.Alike m) : AllAlike n.values m.values := by
  cases h
  assumption

/-- What an observer that does not look at the rest of an array makes of a field. -/
theorem map {α : Type} (h : n.Alike m) (i : Nat) {f : Value → α} (hf : ∀ v, f v.trim = f v) :
    m.values[i]?.map f = n.values[i]?.map f :=
  (AllAlike.option_map hf (h.values.getElem? i)).symm

theorem bind {α : Type} (h : n.Alike m) (i : Nat) {f : Value → Option α}
    (hf : ∀ v, f v.trim = f v) : m.values[i]?.bind f = n.values[i]?.bind f :=
  (AllAlike.option_bind hf (h.values.getElem? i)).symm

/-- A change that is not for the values. -/
theorem aside (h : n.Alike m) (f : Node → Node)
    (hf : ∀ values, f { n with values } = { f n with values })
    (kept : (f n).type = n.type ∧ (f n).values = n.values) : (f n).Alike (f m) := by
  cases h with
  | @mk values same blind =>
    rw [hf values]
    exact ⟨kept.2 ▸ same, kept.1 ▸ blind⟩

theorem store (h : n.Alike m) (index : Nat) {v w : Value} (hv : v.Alike w) :
    (n.store index v).Alike (m.store index w) := by
  cases h with
  | mk values blind => exact ⟨values.set index hv, blind⟩

end Node.Alike

/-- The scene is `s` with other rests of the arrays of its nodes, which no type looks at. -/
inductive Scene.Alike (s : Scene) : Scene → Prop
  | mk {nodes : Arena Node} (h : s.nodes.Paired Node.Alike nodes)
    (blind : ∀ type ∈ s.catalog.types, type.behavior.Blind) : Alike s { s with nodes }

/-- The results are the same, and the scenes are alike. -/
structure Scene.Parallel {α : Type} (a b : α × Scene) : Prop where
  result : a.1 = b.1
  scene : a.2.Alike b.2

namespace Scene

variable {s t : Scene} {id : NodeId} {n m : Node} {sp : SpaceId}

theorem Parallel.cases {α : Type} {a b : α × Scene} (h : Parallel a b) :
    ∃ r s t, a = (r, s) ∧ b = (r, t) ∧ s.Alike t := by
  obtain ⟨r, s⟩ := a
  obtain ⟨_, t⟩ := b
  obtain ⟨rfl, alike⟩ := h
  exact ⟨r, s, t, rfl, rfl, alike⟩

namespace Alike

theorem agree {α : Type} (h : s.Alike t) (f : Scene → α)
    (hf : ∀ nodes, f { s with nodes } = f s) : f t = f s := by
  cases h
  exact hf _

theorem settings (h : s.Alike t) : t.settings = s.settings := h.agree Scene.settings fun _ ↦ rfl

theorem loader (h : s.Alike t) : t.loader = s.loader := h.agree Scene.loader fun _ ↦ rfl

theorem issued (h : s.Alike t) : t.nodes.issued = s.nodes.issued := by
  cases h with
  | mk h _ => exact h.issued

theorem space? (h : s.Alike t) (sp : SpaceId) : t.space? sp = s.space? sp :=
  h.agree (·.space? sp) fun _ ↦ rfl

theorem node? (h : s.Alike t) (id : NodeId) : Option.Rel Node.Alike (s.node? id) (t.node? id) := by
  cases h with
  | mk h _ =>
    cases id with
    | issued k => exact h.get? k
    | void => exact .none

theorem node_cases (h : s.Alike t) (id : NodeId) : s.node? id = none ∧ t.node? id = none ∨
    ∃ n m, s.node? id = some n ∧ t.node? id = some m ∧ n.Alike m :=
  rel_cases (h.node? id)

theorem node (h : s.Alike t) (id : NodeId) : Both Eq Node.Alike (s.node id) (t.node id) := by
  unfold Scene.node
  rcases h.node_cases id with ⟨hn, hm⟩ | ⟨n, m, hn, hm, alike⟩ <;> rw [hn, hm]
  · exact rfl
  · exact alike

theorem space (h : s.Alike t) (sp : SpaceId) : Both Eq Eq (s.space sp) (t.space sp) := by
  unfold Scene.space
  rw [h.space?]
  cases s.space? sp <;> exact rfl

theorem modifyNode (h : s.Alike t) (id : NodeId) {f g : Node → Node}
    (hf : ∀ n m, n.Alike m → (f n).Alike (g m)) :
    (s.modifyNode id f).Alike (t.modifyNode id g) := by
  cases h with
  | mk h blind =>
    cases id with
    | issued k => exact ⟨h.modify k hf, blind⟩
    | void => exact ⟨h, blind⟩

theorem retouch (h : s.Alike t) (id : NodeId) (f : Node → Node)
    (hf : ∀ n values, f { n with values } = { f n with values })
    (kept : ∀ n, (f n).type = n.type ∧ (f n).values = n.values) :
    (s.modifyNode id f).Alike (t.modifyNode id f) :=
  h.modifyNode id fun n _ alike ↦ alike.aside f (hf n) (kept n)

/-- A change that is not for the nodes. -/
theorem aside (h : s.Alike t) (f : Scene → Scene)
    (hf : ∀ nodes, f { s with nodes } = { f s with nodes })
    (kept : (f s).nodes = s.nodes ∧ (f s).catalog = s.catalog) : (f s).Alike (f t) := by
  cases h with
  | @mk nodes h blind =>
    rw [hf nodes]
    exact ⟨kept.1 ▸ h, kept.2 ▸ blind⟩

theorem modifySpace (h : s.Alike t) (sp : SpaceId) (f : Space → Space) :
    (s.modifySpace sp f).Alike (t.modifySpace sp f) :=
  h.aside (·.modifySpace sp f) (fun _ ↦ rfl) ⟨rfl, rfl⟩

theorem log (h : s.Alike t) (js : Journal) : (s.log js).Alike (t.log js) :=
  h.aside (·.log js) (fun _ ↦ rfl) ⟨rfl, rfl⟩

theorem addNode (h : s.Alike t) (sp : SpaceId) {type : NodeType} (ht : type.behavior.Blind) :
    (s.addNode sp type).Alike (t.addNode sp type) := by
  cases h with
  | mk h blind =>
    unfold Scene.addNode nextNode nextPlace
    rw [h.issued]
    exact ⟨h.insert ⟨.refl _, ht⟩, blind⟩

theorem bind_agree {α : Type} (h : s.Alike t) (id : NodeId) (f : Node → Option α)
    (hf : ∀ n values, f { n with values } = f n) : (t.node? id).bind f = (s.node? id).bind f := by
  rcases h.node_cases id with ⟨hn, hm⟩ | ⟨n, m, hn, hm, alike⟩ <;> rw [hn, hm]
  exact alike.agree f (hf n)

theorem liveNodes (h : s.Alike t) : t.liveNodes = s.liveNodes := by
  cases h with
  | mk h _ => exact congrArg (List.map NodeId.issued) h.keys

theorem foldl {α : Type} {f : Scene → α → Scene}
    (hf : ∀ {s t} a, s.Alike t → (f s a).Alike (f t a)) (l : List α) (h : s.Alike t) :
    (l.foldl f s).Alike (l.foldl f t) := by
  induction l generalizing s t with
  | nil => exact h
  | cons a l ih => exact ih (hf a h)

section removal

theorem cancel (h : s.Alike t) (r : Option Request) : (s.cancel r).Alike (t.cancel r) := by
  cases r with
  | none => exact h
  | some r => exact h.aside (·.cancel (some r)) (fun _ ↦ rfl) ⟨rfl, rfl⟩

theorem dropSpace (h : s.Alike t) (sp : SpaceId) (parent : Option SpaceId) :
    (s.dropSpace sp parent).Alike (t.dropSpace sp parent) := by
  refine h.aside (·.dropSpace sp parent) (fun _ ↦ ?_) ?_ <;> cases parent
  · rfl
  · rfl
  · exact ⟨rfl, rfl⟩
  · exact ⟨rfl, rfl⟩

theorem dropNode (h : s.Alike t) (k : Nat) (alike : n.Alike m) :
    (s.dropNode k n).Alike (t.dropNode k m) := by
  cases h with
  | mk h blind =>
    cases alike
    refine cancel ?_ _
    exact ⟨h.erase k, blind⟩

theorem gone (h : s.Alike t) {d : Doomed} (hd : s.Gone d) : t.Gone d := by
  rcases d with sp | k | _
  · exact hd.imp_right (h.space? sp).trans
  · rcases h.node_cases (.issued k) with ⟨-, hm⟩ | ⟨n, m, hn, -⟩
    · exact hm
    · cases hn.symm.trans hd
  · rfl

theorem demolish (h : s.Alike t) (doomed : List Doomed) :
    (s.demolish doomed).Alike (t.demolish doomed) := by
  refine demolish_induction (motive := fun ds s s' ↦ ∀ t, s.Alike t → s'.Alike (t.demolish ds))
    ?_ ?_ ?_ ?_ doomed s t h
  · intro s t h
    rwa [demolish_nil]
  · intro d rest s s' hd ih t h
    rw [demolish_of_gone (h.gone hd)]
    exact ih t h
  · intro sp x rest s s' hsp hx ih t h
    rw [demolish_space hsp ((h.space? sp).trans hx)]
    exact ih _ (h.dropSpace sp x.parent)
  · intro k n rest s s' hn ih t h
    rcases h.node_cases (.issued k) with ⟨gone, -⟩ | ⟨n', m, hn', hm, alike⟩
    · cases gone.symm.trans hn
    · cases hn'.symm.trans hn
      have same := alike.agree (Belongings · rest) fun _ ↦ rfl
      rw [demolish_node hm, same]
      exact ih _ (h.dropNode k alike)

theorem removeSpace (h : s.Alike t) (sp : SpaceId) :
    Both Eq Alike (s.removeSpace sp) (t.removeSpace sp) := by
  unfold Scene.removeSpace
  split
  · exact rfl
  · exact (h.space sp).bind fun _ _ _ ↦ h.demolish _

theorem removeNode (h : s.Alike t) (id : NodeId) :
    Both Eq Alike (s.removeNode id) (t.removeNode id) := by
  refine (h.node id).bind fun n m alike ↦ ?_
  cases alike
  exact (h.modifySpace _ _).demolish _

theorem refsOf (h : s.Alike t) : t.refsOf = s.refsOf := by
  funext id
  unfold Scene.refsOf
  rcases h.node_cases id with ⟨hn, hm⟩ | ⟨n, m, hn, hm, alike⟩ <;> rw [hn, hm]
  unfold Node.refs
  simp only [Option.map_some, alike.type, alike.map _ Value.refs_trim]

theorem unreachable (h : s.Alike t) (sp : SpaceId) : t.unreachable sp = s.unreachable sp := by
  unfold Scene.unreachable reachable members roots
  rw [h.refsOf, h.space?]

theorem foldlM {α : Type} {f : Scene → α → Except Error Scene}
    (hf : ∀ {s t} a, s.Alike t → Both Eq Alike (f s a) (f t a)) (l : List α) (h : s.Alike t) :
    Both Eq Alike (l.foldlM f s) (l.foldlM f t) := by
  induction l generalizing s t with
  | nil => exact h
  | cons a l ih => exact (hf a h).bind fun _ _ ↦ ih

theorem collect (h : s.Alike t) (sp : SpaceId) :
    Both Eq Parallel (s.collect sp) (t.collect sp) := by
  refine (h.space sp).bind fun _ _ _ ↦ ?_
  rw [h.unreachable]
  exact (h.foldlM (fun id h ↦ h.removeNode id) _).bind fun _ _ left ↦ ⟨rfl, left⟩

end removal

section loading

theorem modifySlot (h : s.Alike t) (id : NodeId) (f : LoadSlot → LoadSlot) :
    (s.modifySlot id f).Alike (t.modifySlot id f) :=
  h.retouch id _ (fun _ _ ↦ rfl) fun _ ↦ ⟨rfl, rfl⟩

theorem discard (h : s.Alike t) (sp : Option SpaceId) :
    Both Eq Alike (s.discard sp) (t.discard sp) := by
  cases sp with
  | none => exact h
  | some sp => exact h.removeSpace sp

theorem setLoadState (h : s.Alike t) (id : NodeId) (state : LoadState) :
    Parallel (s.setLoadState id state) (t.setLoadState id state) := by
  unfold Scene.setLoadState
  rcases h.node_cases id with ⟨hn, hm⟩ | ⟨n, m, hn, hm, alike⟩ <;> rw [hn, hm]
  · exact ⟨rfl, h⟩
  cases alike
  dsimp only
  cases n.type.url? with
  | none => exact ⟨rfl, h⟩
  | some field =>
    dsimp only
    split
    · exact ⟨rfl, h⟩
    have entered := (h.modifySlot id (·.enter state)).cancel
      (if state = .loading then none else (n.load.getD {}).pending)
    have left := entered.discard (if state = .notLoaded then (n.load.getD {}).space else none)
    rcases left.cases with ⟨e, _, hx, hy, rfl⟩ | ⟨s', t', hx, hy, discarded⟩ <;> rw [hx, hy]
    · exact ⟨rfl, entered⟩
    · exact ⟨rfl, discarded.log _⟩

theorem urls (alike : n.Alike m) : urls m = urls n := by
  unfold Scene.urls
  rw [alike.type]
  cases n.type.url? with
  | none => rfl
  | some i => exact congrArg (·.getD []) (alike.bind i Value.asStrings?_trim)

theorem withLoader (h : s.Alike t) (f : Option Pool → Option Pool) :
    Alike { s with loader := f s.loader } { t with loader := f t.loader } :=
  h.aside (fun s ↦ { s with loader := f s.loader }) (fun _ ↦ rfl) ⟨rfl, rfl⟩

theorem submit (h : s.Alike t) (id : NodeId) (ticket : Nat) (urls : List String) :
    (s.submit id ticket urls).Alike (t.submit id ticket urls) :=
  withLoader (h.modifySlot id fun slot ↦ { slot with ticket, pending := some ⟨id, ticket⟩ })
    (·.map (Pool.submit · { request := ⟨id, ticket⟩, urls }))

theorem requestLoad (h : s.Alike t) (id : NodeId) :
    Parallel (s.requestLoad id) (t.requestLoad id) := by
  unfold Scene.requestLoad
  rcases h.node_cases id with ⟨hn, hm⟩ | ⟨n, m, hn, hm, alike⟩ <;> rw [hn, hm]
  · exact ⟨rfl, h⟩
  dsimp only
  rw [urls alike, alike.load]
  obtain ⟨r, s', t', hs, ht, left⟩ := (h.setLoadState id .loading).cases
  rw [hs, ht]
  cases r with
  | error e => exact ⟨rfl, left⟩
  | ok _ =>
    dsimp only
    rw [left.loader]
    split
    · exact (left.log _).setLoadState id .failed
    split
    · exact (left.log _).setLoadState id .failed
    · exact ⟨rfl, left.submit ..⟩

theorem wantsLoad (h : s.Alike t) (id : NodeId) : t.wantsLoad id = s.wantsLoad id := by
  unfold Scene.wantsLoad
  rcases h.node_cases id with ⟨hn, hm⟩ | ⟨n, m, hn, hm, alike⟩ <;> rw [hn, hm]
  have switch :
      (m.valueOf? "load").bind Value.asBool? = (n.valueOf? "load").bind Value.asBool? := by
    unfold Node.valueOf?
    rw [alike.type]
    cases n.type.table.indexOf? "load" with
    | none => rfl
    | some i => exact alike.bind i Value.asBool?_trim
  dsimp only
  rw [h.loader, switch, alike.loadState?, alike.type]
  cases n.type.url? with
  | none => rfl
  | some i => simp only [Option.bind_some, alike.map i Value.validCount_trim]

theorem orWarn {a b : Attempt} (h : Parallel a b) (text : String) :
    (orWarn text a).Alike (orWarn text b) := by
  obtain ⟨r, s, t, rfl, rfl, alike⟩ := h.cases
  cases r with
  | error e => exact alike.log _
  | ok _ => exact alike

theorem autoLoad (h : s.Alike t) (id : NodeId) : (s.autoLoad id).Alike (t.autoLoad id) := by
  unfold Scene.autoLoad
  rw [h.wantsLoad]
  split
  · exact orWarn (h.requestLoad id) _
  · exact h

theorem loadState? (h : s.Alike t) (id : NodeId) :
    (t.node? id).bind Node.loadState? = (s.node? id).bind Node.loadState? :=
  h.bind_agree id Node.loadState? fun _ _ ↦ rfl

theorem urlChanged (h : s.Alike t) (id : NodeId) : (s.urlChanged id).Alike (t.urlChanged id) := by
  unfold Scene.urlChanged
  dsimp only
  rw [h.loadState?]
  split
  · exact (orWarn (h.setLoadState id .notLoaded) _).autoLoad id
  · exact h.autoLoad id

theorem loadSwitched (h : s.Alike t) (id : NodeId) (index : Nat) :
    (s.loadSwitched id index).Alike (t.loadSwitched id index) := by
  unfold Scene.loadSwitched
  rcases h.node_cases id with ⟨hn, hm⟩ | ⟨n, m, hn, hm, alike⟩ <;> rw [hn, hm]
  · exact h
  dsimp only
  rw [alike.bind index Value.asBool?_trim, alike.loadState?]
  split
  · exact h.autoLoad id
  split
  · exact orWarn (h.setLoadState id .notLoaded) _
  · exact h

theorem keep (h : s.Alike t) {x y : Except Error Scene} (hx : Both Eq Alike x y) :
    Parallel (s.keep x) (t.keep y) := by
  rcases hx.cases with ⟨e, _, rfl, rfl, rfl⟩ | ⟨s', t', rfl, rfl, alike⟩
  · exact ⟨rfl, h⟩
  · exact ⟨rfl, alike⟩

theorem inTurn {α : Type} {f : α → Scene → Attempt}
    (hf : ∀ {s t} a, s.Alike t → Parallel (f a s) (f a t)) (l : List α) (h : s.Alike t) :
    Parallel (inTurn f l s) (inTurn f l t) := by
  induction l generalizing s t with
  | nil => exact ⟨rfl, h⟩
  | cons a l ih =>
    unfold Scene.inTurn
    obtain ⟨r, s', t', hs, ht, alike⟩ := (hf a h).cases
    rw [hs, ht]
    cases r with
    | error e => exact ⟨rfl, alike⟩
    | ok _ => exact ih alike

theorem interrupted (h : s.Alike t) : t.interrupted = s.interrupted := by
  unfold Scene.interrupted
  rw [h.liveNodes]
  have same (id : NodeId) := h.bind_agree id (fun n ↦
    if n.loadState? = some .loading then some (n.place, id) else none) fun _ _ ↦ rfl
  simp only [same]

theorem setProvider (h : s.Alike t) (provider : Provider) :
    Parallel (s.setProvider provider) (t.setProvider provider) := by
  unfold Scene.setProvider
  rw [h.settings, h.interrupted]
  cases Pool.new provider s.settings.loaderThreads with
  | error e => exact ⟨rfl, h⟩
  | ok pool =>
    dsimp only
    obtain ⟨r, s', t', hs, ht, alike⟩ :=
      (h.inTurn (fun id h ↦ h.setLoadState id .notLoaded) s.interrupted).cases
    rw [hs, ht]
    cases r with
    | error e => exact ⟨rfl, alike⟩
    | ok _ =>
      exact ⟨rfl, foldl (fun id h ↦ h.autoLoad id) _ (alike.withLoader fun _ ↦ some pool)⟩

theorem held (h : s.Alike t) : t.held = s.held := by
  have content (id : NodeId) : (t.node? id).bind Node.load = (s.node? id).bind Node.load :=
    h.bind_agree id Node.load fun _ _ ↦ rfl
  unfold Scene.held
  rw [h.liveNodes, h.loader]
  simp only [content]

end loading

end Alike

end Scene

end SceneGraph
