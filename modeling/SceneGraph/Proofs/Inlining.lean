import SceneGraph.Proofs.Bounding
import SceneGraph.Proofs.History
import SceneGraph.Proofs.Publishing

/-!
The content of an inline node is read whole or not at all. A text that is given up leaves a fatal
report and the state of the node that asked for it.
-/

namespace SceneGraph

theorem Space.removeChild_addChild {x : Space} {c : SpaceId} (hc : c ∉ x.children) :
    (x.addChild c).removeChild c = x := by
  have kept : x.children.filter (· ≠ c) = x.children :=
    List.filter_eq_self.mpr fun d hd ↦ decide_eq_true (ne_of_mem_of_not_mem hd hc)
  have gone : [c].filter (· ≠ c) = [] := by simp
  simp only [addChild, removeChild, List.filter_append, kept, gone, List.append_nil]

namespace Scene

variable {s t u : Scene} {guest : Option SpaceId} {id : NodeId} {n : Node} {slot : LoadSlot}
  {field : Nat} {sp : SpaceId} {x y : Space} {content : Content} {text : String}
  {tokens : List Spanned} {ids : List NodeId} {g : Gist} {c : Completion} {cs : List Completion}
  {requested : Double}

section deliveries

/-- The completions that are applied in turn, each with the scene that it meets. -/
def landings : List Completion → Scene → List (Completion × Scene)
  | [], _ => []
  | c :: cs, s => if s.awaits c then (c, s) :: landings cs (s.applied c) else landings cs s

/-- The completions that a tick applies, each with the scene that it meets. -/
def deliveries (s : Scene) (requested : Double) : List (Completion × Scene) :=
  match s.advanceClock requested with
  | .error _ => []
  | .ok (_, s) => landings s.posted { s with loader := s.loader.map fun p ↦ p.drain.2 }

theorem fst_landings (cs : List Completion) (s : Scene) :
    (landings cs s).map Prod.fst = landed cs s := by
  induction cs generalizing s with
  | nil => rfl
  | cons c cs ih =>
    rw [landings, landed]
    split
    · rw [List.map_cons, ih]
    · exact ih s

/-- The completions of a tick are those that it delivers. -/
theorem fst_deliveries (s : Scene) (requested : Double) :
    (s.deliveries requested).map Prod.fst = s.delivered requested := by
  unfold deliveries delivered
  cases s.advanceClock requested with
  | error => rfl
  | ok => exact fst_landings ..

theorem Coherent.landings (h : s.Coherent [] none) (hm : (c, t) ∈ landings cs s) :
    t.Coherent [] none := by
  induction cs generalizing s with
  | nil => cases hm
  | cons c' cs ih =>
    rw [Scene.landings] at hm
    split at hm
    · next ha =>
      rcases List.mem_cons.mp hm with he | hm
      · cases he
        exact h
      · exact ih (h.applied ha) hm
    · exact ih h hm

theorem awaits_of_mem_landings (hm : (c, t) ∈ landings cs s) : t.awaits c := by
  induction cs generalizing s with
  | nil => cases hm
  | cons c' cs ih =>
    rw [landings] at hm
    split at hm
    · next ha =>
      rcases List.mem_cons.mp hm with he | hm
      · cases he
        exact ha
      · exact ih hm
    · exact ih hm

/-- What is applied is awaited. -/
theorem awaits_of_mem_deliveries (hm : (c, t) ∈ s.deliveries requested) : t.awaits c := by
  unfold deliveries at hm
  split at hm
  · cases hm
  · exact awaits_of_mem_landings hm

theorem Coherent.deliveries (h : s.Coherent [] none) (hm : (c, t) ∈ s.deliveries requested) :
    t.Coherent [] none := by
  unfold Scene.deliveries at hm
  split at hm
  · cases hm
  · next ha =>
    refine Coherent.landings ?_ hm
    exact (h.advanceClock ha).congr rfl rfl rfl rfl fun _ hp ↦ hp

end deliveries

/-- What a text may refer to that is read into a new space. -/
def freshLanguage (s : Scene) : Language := ⟨s.catalog, s.nodes.issued, fun _ ↦ none⟩

/-- The scene in which a node has its content in a new space, where nothing is as yet. -/
def receive (s : Scene) (id : NodeId) (n : Node) (content : Content) : Scene :=
  (s.addSpace .inline n.space (some id)).modifySlot id (·.fill content (some s.nextSpace))

/-- The node has the content, and what the content says is in the new space. -/
structure Inlined (s : Scene) (id : NodeId) (n : Node) (content : Content) (ids : List NodeId)
    (g : Gist) (t : Scene) : Prop where
  new : s.space? s.nextSpace = none
  node : ∃ m, t.node? id = some m ∧ m.loadState? = some .complete ∧
    m.load.bind LoadSlot.content = some content ∧ m.contentSpace? = some s.nextSpace
  space : ∃ y, t.space? s.nextSpace = some y ∧ y.kind = .inline ∧ y.owner = some id ∧
    y.parent = some n.space ∧ y.nodes = g.nodes s.freshLanguage
  published : Published (s.receive id n content) s.nextSpace ids g t

/-- The node has failed, which was reported once, and all else is as it was. -/
structure Spoiled (s : Scene) (id : NodeId) (t : Scene) : Prop where
  node : ∃ n slot, s.node? id = some n ∧ n.load = some slot ∧
    t.node? id = some { n with load := some { slot with state := .failed, pending := none } }
  other : ∀ {k}, k ≠ id → t.node? k = s.node? k
  space : ∀ q, t.space? q = s.space? q
  sensors : t.sensors = s.sensors
  pending : t.pending = s.pending
  journal : ∃ r field, r.severity = .fatal ∧
    t.journal = s.journal ++ [.report r, .event (.loadState id field .failed)]

theorem language_addSpace (hx : s.space? sp = some x) (owner : Option NodeId) :
    (s.addSpace .inline sp owner).language s.nextSpace = s.freshLanguage := by
  have unnamed : (s.addSpace .inline sp owner).named? s.nextSpace = fun _ ↦ none := by
    funext name
    rw [named?, space?_addSpace_self hx]
    rfl
  rw [language, unnamed]
  rfl

/-- A text is published beside a node that is not its own, whatever becomes of that node. -/
theorem Published.modifyNode {f : Node → Node} (h : Published s sp ids g u)
    (old : id ∉ g.nodes (s.language sp)) (hf : ∀ n, (f n).type = n.type)
    (nodes : t.nodes = (u.modifyNode id f).nodes) (spaces : t.spaces = u.spaces) :
    Published (s.modifyNode id f) sp ids g t := by
  have same : (s.modifyNode id f).language sp = s.language sp := by
    have named : (s.modifyNode id f).named? sp = s.named? sp := by
      funext name
      rw [named?, named?, space?_modifyNode]
    rw [language, language, named, catalog_modifyNode, issued_modifyNode]
  have issued : t.nodes.issued = u.nodes.issued := by rw [nodes, issued_modifyNode]
  have link : t.link? sp = u.link? sp := by
    refine link?_congr (fun k ↦ table?_congr ?_) fun name ↦ by
      rw [named?, named?, space?_congr spaces]
    rw [node?_congr nodes, node?_modifyNode]
    split
    · rw [Option.map_map]
      exact congrArg (Option.map · (u.node? k)) (funext hf)
    · rfl
  exact {
    issued := by rw [issued, h.issued, issued_modifyNode]
    node := by
      intro k type typed
      rw [same] at typed
      obtain ⟨m, hm, type', space, inSetup, values⟩ := h.node typed
      have hk : k ≠ id := by
        rintro rfl
        exact old (Gist.mem_nodes.mpr ⟨type, typed⟩)
      refine ⟨m, ?_, type', space, inSetup, values.trans ?_⟩
      · rw [node?_congr nodes, node?_modifyNode_of_ne _ _ _ hk, hm]
      · rw [settled, settled, time_modifyNode, issued]
    old := by
      intro k hk
      rw [same] at hk
      rw [node?_congr nodes, node?_modifyNode, node?_modifyNode, h.old hk]
    home := by
      intro x hx
      rw [space?_modifyNode] at hx
      rw [space?_congr spaces, link, same]
      exact h.home hx
    other := by
      intro q hq
      rw [space?_congr spaces, space?_modifyNode, h.other hq] }

/-- The nodes of the text are newer than the node that waits for it. -/
theorem not_mem_nodes_of_node? (hn : s.node? id = some n) : id ∉ g.nodes s.freshLanguage := by
  obtain ⟨k, rfl, hk⟩ := issued_of_node? hn
  simp only [Gist.nodes, freshLanguage, List.mem_map, List.mem_range, NodeId.issued.injEq,
    not_exists, not_and]
  omega

theorem exists_tokens_of_load (hl : s.load sp text = (.ok ids, t)) :
    ∃ tokens, Lexer.tokenize text = .ok tokens := by
  unfold load at hl
  split at hl
  · cases hl
  split at hl
  · cases hl
  · next tokens ht => exact ⟨tokens, ht⟩

theorem removeSpace_of_empty (hm : sp ≠ .main) (hx : s.space? sp = some x) (hc : x.children = [])
    (hn : x.nodes = []) : s.removeSpace sp = .ok (s.dropSpace sp x.parent) := by
  rw [removeSpace_eq hm, if_pos (hasSpace_iff.mpr ⟨x, hx⟩), demolish_space hm hx, Contents, hc, hn]
  exact congrArg Except.ok (demolish_nil _)

theorem setLoadState_failed (hn : s.node? id = some n) (hu : n.type.url? = some field)
    (hs : (n.load.getD {}).state = .loading) : s.setLoadState id .failed =
      (.ok (), ((s.modifySlot id (·.enter .failed)).cancel (n.load.getD {}).pending).emit
        (loadEvent id field .failed)) := by
  unfold setLoadState
  simp only [hn, hu, hs]
  rfl

/-- The node waits for its content. -/
structure Waiting (s : Scene) (id : NodeId) (n : Node) (slot : LoadSlot) (field : Nat) : Prop where
  coherent : s.Coherent [] none
  node : s.node? id = some n
  load : n.load = some slot
  state : slot.state = .loading
  url : n.type.url? = some field

theorem space?_nextSpace_inline (id : NodeId) (hy : s.space? sp = some y) :
    (s.addSpace .inline sp (some id)).space? s.nextSpace =
      some { kind := .inline, parent := some sp, owner := some id } :=
  space?_addSpace_self hy

section waiting

variable (h : s.Waiting id n slot field)

include h

theorem Waiting.loading : (n.load.getD {}).state = .loading := by
  rw [h.load]
  exact h.state

/-- A node that fails after one fatal report, in a scene that has not changed otherwise, is
spoiled. -/
theorem Waiting.spoiled {r : Report} (node : ∀ k, u.node? k = s.node? k)
    (space : ∀ q, u.space? q = s.space? q) (sensors : u.sensors = s.sensors)
    (pending : u.pending = s.pending) (fatal : r.severity = .fatal)
    (journal : u.journal = s.journal ++ [.report r]) :
    ∃ t, u.setLoadState id .failed = (.ok (), t) ∧ Spoiled s id t := by
  have hn : u.node? id = some n := (node id).trans h.node
  refine ⟨_, setLoadState_failed hn h.url h.loading, ?_⟩
  exact {
    node := by
      refine ⟨n, slot, h.node, h.load, ?_⟩
      refine (node?_cancel ..).trans ((node?_modifyNode_self _ _ _ hn).trans ?_)
      rw [h.load]
      rfl
    other := fun {k} hk ↦ (node?_cancel ..).trans ((node?_modifyNode_of_ne _ _ _ hk).trans (node k))
    space := fun q ↦ (space?_cancel ..).trans ((space?_modifyNode ..).trans (space q))
    sensors := (sensors_cancel ..).trans ((sensors_modifyNode ..).trans sensors)
    pending := (pending_cancel ..).trans ((pending_modifyNode ..).trans pending)
    journal := by
      refine ⟨r, field, fatal, ?_⟩
      have before : ((u.modifySlot id (·.enter .failed)).cancel (n.load.getD {}).pending).journal =
          s.journal ++ [.report r] :=
        (journal_cancel ..).trans ((journal_modifyNode ..).trans journal)
      rw [emit, log, before, List.append_assoc]
      rfl }

/-- A space that was made for a content, and has nothing in it, goes without a trace. -/
theorem Waiting.space?_dropSpace (hu : ∀ q, u.space? q =
    (s.addSpace .inline n.space (some id)).space? q) (q : SpaceId) :
    (u.dropSpace s.nextSpace (some n.space)).space? q = s.space? q := by
  obtain ⟨y, hy, -⟩ := h.coherent.home h.node
  rw [Scene.space?_dropSpace, hu, space?_addSpace _ _ _ _ hy]
  split
  · next hq => rw [hq, space?_nextSpace]
  split
  · next hp =>
    cases hp
    -- the new space is the last child of its parent
    have hc : s.nextSpace ∉ y.children := by
      intro hc
      obtain ⟨z, hz, -⟩ := h.coherent.rooted.child hy hc
      rw [space?_nextSpace] at hz
      cases hz
    rw [if_pos rfl, Option.map_some, Space.removeChild_addChild hc, hy]
  · next hq => rw [if_neg fun he ↦ hq (congrArg some he.symm)]

theorem Waiting.inlined (kind : n.type.content = .scene) (ht : content.text? = some text)
    (hw : Lexer.tokenize text = .ok tokens)
    (derived : Derives s.freshLanguage {} (.document ids) tokens g) :
    ∃ t, s.applyContent id content = (.ok (), t) ∧ Inlined s id n content ids g t := by
  obtain ⟨opened, coherent, -, -, -, -, -, -, hn⟩ := h.coherent.readContent h.node text
  obtain ⟨y, hy, -⟩ := h.coherent.home h.node
  have hx := space?_nextSpace_inline id hy
  obtain ⟨u, hl, published⟩ := load_of_derives coherent hx hw
    (by rwa [language_addSpace hy])
  rw [hl] at hn
  have applied : s.applyContent id content =
      (.ok (), ((u.modifySlot id (·.fill content (some s.nextSpace))).cancel
        (n.load.getD {}).pending).emit (loadEvent id field .complete)) := by
    unfold applyContent
    simp only [h.node, kind, ht, opened, hl]
    exact complete_eq hn h.url h.loading content (some s.nextSpace)
  refine ⟨_, applied, ?_⟩
  obtain ⟨z, hz, zkind, zparent, zowner, -, znodes, -⟩ := published.home hx
  have self : (u.modifySlot id (·.fill content (some s.nextSpace))).node? id =
      some { n with load := some ((n.load.getD {}).fill content (some s.nextSpace)) } :=
    node?_modifyNode_self _ _ _ hn
  exact {
    new := space?_nextSpace s
    node := ⟨_, (node?_cancel ..).trans self, rfl, rfl, rfl⟩
    space := by
      refine ⟨z, (space?_cancel ..).trans ((space?_modifyNode ..).trans hz), zkind, zowner, zparent,
        znodes.trans ?_⟩
      rw [language_addSpace hy]
      rfl
    published := by
      refine published.modifyNode ?_ (fun _ ↦ rfl) (nodes_cancel ..)
        ((spaces_cancel ..).trans (spaces_modifyNode ..))
      rw [language_addSpace hy]
      exact not_mem_nodes_of_node? h.node }

theorem Waiting.exists_spoiled (kind : n.type.content = .scene)
    (unread : ∀ text tokens ids g, content.text? = some text → Lexer.tokenize text = .ok tokens →
      ¬Derives s.freshLanguage {} (.document ids) tokens g) :
    ∃ t, s.applyContent id content = (.ok (), t) ∧ Spoiled s id t := by
  unfold applyContent
  simp only [h.node, kind]
  cases ht : content.text? with
  | none =>
    exact h.spoiled (r := ⟨.fatal, "Inline content could not be read.", _⟩) (fun _ ↦ rfl)
      (fun _ ↦ rfl) rfl rfl rfl rfl
  | some text =>
    obtain ⟨opened, coherent, hm, -⟩ := h.coherent.readContent h.node text
    obtain ⟨y, hy, -⟩ := h.coherent.home h.node
    have hx := space?_nextSpace_inline id hy
    obtain ⟨drafting, ⟨e, he⟩ | ⟨ids, u, he, -⟩⟩ := load_cases coherent hx text
    · obtain ⟨-, names, -, drafted⟩ := drafting.rollBack coherent hx
      generalize ((s.addSpace .inline n.space (some id)).draftOf s.nextSpace text).rollBack = u
        at he drafted
      have aside := drafted.aside
      simp only [Scene.aside, Prod.mk.injEq] at aside
      have same (q : SpaceId) :
          (u.report .fatal "Scene content could not be read." (some e)).space? q =
            (s.addSpace .inline n.space (some id)).space? q := by
        by_cases hq : q = s.nextSpace
        · rw [hq, hx]
          exact drafted.home
        · exact drafted.other hq
      have removed := removeSpace_of_empty hm ((same _).trans hx) rfl rfl
      simp only [opened, he, removed]
      refine h.spoiled (r := ⟨.fatal, "Scene content could not be read.", some e⟩) (fun k ↦ ?_)
        (h.space?_dropSpace same) ?_ ?_ rfl ?_
      · exact (node?_dropSpace ..).trans (drafted.old List.not_mem_nil)
      · exact (sensors_dropSpace ..).trans
          ((List.filter_eq_self.mpr (by simp)).symm.trans drafted.sensors)
      · exact (pending_dropSpace ..).trans aside.1
      · exact (journal_dropSpace ..).trans (congrArg (· ++ _) drafted.journal_eq)
    · obtain ⟨tokens, hw⟩ := exists_tokens_of_load he
      obtain ⟨g, derived⟩ := derives_of_load coherent hx hw he
      rw [language_addSpace hy] at derived
      exact absurd derived (unread text tokens ids g ht hw)

end waiting

theorem Coherent.waiting (h : s.Coherent [] none) (ha : s.awaits c)
    (hn : s.node? c.request.node = some n) :
    ∃ slot field, s.Waiting c.request.node n slot field := by
  obtain ⟨slot, hs, -, hw⟩ := slot?_of_awaits ha
  obtain ⟨m, field, hm, hl, hu, -⟩ := exists_node_of_loading h hs hw
  cases hn.symm.trans hm
  exact ⟨slot, field, h, hn, hl, hw, hu⟩

theorem applied_of_loaded (hc : c.outcome = .loaded content)
    (ha : s.applyContent c.request.node content = (.ok (), t)) : s.applied c = t := by
  unfold applied applyCompletion
  rw [hc]
  dsimp only
  rw [ha]

/-- Whatever content a tick gives to an inline node that waits for it: the content is a text of the
grammar and is read whole, or it is given up and nothing of it is left. -/
theorem Reachable.content_whole_or_not (h : s.Reachable) {met : Completion}
    (hm : (met, t) ∈ s.deliveries requested) (ha : t.awaits c) (hc : c.outcome = .loaded content)
    (hn : t.node? c.request.node = some n) (kind : n.type.content = .scene) :
    (∃ text tokens ids g, content.text? = some text ∧ Lexer.tokenize text = .ok tokens ∧
        Derives t.freshLanguage {} (.document ids) tokens g ∧
        Inlined t c.request.node n content ids g (t.applied c)) ∨
      (∀ text tokens ids g, content.text? = some text → Lexer.tokenize text = .ok tokens →
        ¬Derives t.freshLanguage {} (.document ids) tokens g) ∧
      Spoiled t c.request.node (t.applied c) := by
  obtain ⟨slot, field, waiting⟩ := (h.coherent.deliveries hm).waiting ha hn
  by_cases read : ∃ text tokens ids g, content.text? = some text ∧
      Lexer.tokenize text = .ok tokens ∧ Derives t.freshLanguage {} (.document ids) tokens g
  · obtain ⟨text, tokens, ids, g, ht, hw, derived⟩ := read
    obtain ⟨u, applied, inlined⟩ := waiting.inlined kind ht hw derived
    rw [applied_of_loaded hc applied]
    exact .inl ⟨text, tokens, ids, g, ht, hw, derived, inlined⟩
  · simp only [not_exists, not_and] at read
    obtain ⟨u, applied, spoiled⟩ := waiting.exists_spoiled kind read
    rw [applied_of_loaded hc applied]
    exact .inr ⟨read, spoiled⟩

section delivering

/-- The content of a frame has come. -/
def delivering (content : ByteArray) : Scene :=
  List.foldl Operation.run (start ⟨[meter, frame]⟩ {})
    ([.setProvider (.ofEntries [("a", content)]), .createNode .main "Inline",
      .setValue (.issued 0) 0 (.ofStrings ["a"]), .finishSetup (.issued 0)] ++ takeOne)

theorem reachable_delivering (content : ByteArray) : (delivering content).Reachable := by
  have built : ∀ t ∈ [meter, frame], t.Built := by simpa using ⟨built_meter, built_frame⟩
  exact (story_start built rfl _).reachable

theorem exists_delivery {α : Type} {ds : List (Completion × Scene)} {f : Content → Scene → α}
    {a : α} (h : ds.map (fun d ↦ (d.1.request.node,
      (d.2.node? d.1.request.node).map (·.type.content),
      d.1.content?.map fun content ↦ f content (d.2.applied d.1))) =
        [(.issued 0, some .scene, some a)]) :
    ∃ c t content n, (c, t) ∈ ds ∧ c.request.node = .issued 0 ∧ c.outcome = .loaded content ∧
      t.node? c.request.node = some n ∧ n.type.content = .scene ∧ f content (t.applied c) = a := by
  obtain ⟨⟨c, t⟩, rfl, he⟩ := List.map_eq_singleton_iff.mp h
  simp only [Prod.mk.injEq] at he
  obtain ⟨request, kind, seen⟩ := he
  obtain ⟨n, hn, kind⟩ := Option.map_eq_some_iff.mp kind
  obtain ⟨content, hc, seen⟩ := Option.map_eq_some_iff.mp seen
  refine ⟨c, t, content, n, List.mem_singleton_self _, request, ?_, hn, kind, seen⟩
  unfold Completion.content? at hc
  cases ho : c.outcome with
  | loaded => simpa [ho, Outcome.content?] using hc
  | failed | cancelled => simp [ho, Outcome.content?] at hc

/-- A text with one node is read, and a byte that is no text is not. -/
theorem content_whole_or_not_delivering :
    (∃ c t n content ids g, (delivering "Meter\x7b\x7d".toUTF8).Reachable ∧
      (c, t) ∈ (delivering "Meter\x7b\x7d".toUTF8).deliveries 0 ∧
      Inlined t (.issued 0) n content ids g (t.applied c)) ∧
    ∃ c t, (delivering ⟨#[0xff]⟩).Reachable ∧ (c, t) ∈ (delivering ⟨#[0xff]⟩).deliveries 0 ∧
      Spoiled t (.issued 0) (t.applied c) := by
  constructor
  · have seen : ((delivering "Meter\x7b\x7d".toUTF8).deliveries 0).map (fun d ↦
        (d.1.request.node, (d.2.node? d.1.request.node).map (·.type.content),
          d.1.content?.map fun _ ↦ ((d.2.applied d.1).slot? (.issued 0)).map LoadSlot.state)) =
        [(.issued 0, some .scene, some (some .complete))] := by cbv
    obtain ⟨c, t, content, n, hm, hr, hc, hn, kind, hs⟩ := exists_delivery
      (f := fun _ t ↦ (t.slot? (.issued 0)).map LoadSlot.state) seen
    have reachable := reachable_delivering "Meter\x7b\x7d".toUTF8
    rcases reachable.content_whole_or_not hm (awaits_of_mem_deliveries hm) hc hn kind with
      ⟨-, -, ids, g, -, -, -, inlined⟩ | ⟨-, spoiled⟩
    · exact ⟨c, t, n, content, ids, g, reachable, hm, hr ▸ inlined⟩
    · obtain ⟨m, slot, -, -, failed⟩ := spoiled.node
      rw [slot?, ← hr, failed] at hs
      cases hs
  · have seen : ((delivering ⟨#[0xff]⟩).deliveries 0).map (fun d ↦
        (d.1.request.node, (d.2.node? d.1.request.node).map (·.type.content),
          d.1.content?.map Content.text?)) = [(.issued 0, some .scene, some none)] := by cbv
    obtain ⟨c, t, content, n, hm, hr, hc, hn, kind, unread⟩ := exists_delivery
      (f := fun content _ ↦ content.text?) seen
    have reachable := reachable_delivering ⟨#[0xff]⟩
    rcases reachable.content_whole_or_not hm (awaits_of_mem_deliveries hm) hc hn kind with
      ⟨text, -, -, -, read, -⟩ | ⟨-, spoiled⟩
    · cases unread.symm.trans read
    · exact ⟨c, t, reachable, hm, hr ▸ spoiled⟩

end delivering

end Scene

end SceneGraph
