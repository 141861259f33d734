import SceneGraph.Proofs.Entering

/-!
Operations on a scene as sequences of turns, each of which changes the slot of at most one node.
What becomes of the requests is recorded beside them.
-/

namespace SceneGraph

/-- What becomes of a request: a node hands its urls to the loader, a worker finds content under one
of them, and the completion is applied to the node. -/
inductive Deed where
  | ask (request : Request) (urls : List String)
  | find (request : Request) (url : String) (content : Content)
  | answer (c : Completion)

def Deed.answer? : Deed → Option Completion
  | answer c => some c
  | ask .. | find .. => none

/-- Deeds in their order, each with the scene that it was done in. -/
abbrev Deeds := List (Deed × Scene)

/-- The completions that were applied. -/
def Deeds.answers (ds : Deeds) : List Completion := ds.filterMap fun d ↦ d.1.answer?

@[simp] theorem Deeds.answers_append (ds es : Deeds) :
    Deeds.answers (ds ++ es) = ds.answers ++ es.answers :=
  List.filterMap_append

/-- The urls that a worker has left, with the one it is at. -/
def Stage.urls : Stage → List String
  | trying urls _ => urls
  | fetching url rest _ => url :: rest
  | ended _ | struck _ | posted => []

namespace Run

/-- The url that a worker is at. -/
def url? (r : Run) : Option String := r.stage.urls.head?

variable {r : Run} {provider : Provider} {held : List Content} {cache : Cache} {content : Content}

/-- Content comes out of the cache or from the provider, under the url that the worker is at. -/
theorem url?_of_loaded (h : (r.step provider held cache).1 = .ended (.loaded content)) :
    ∃ url, r.url? = some url ∧ ((cache.get held url).1 = some content ∨
      ∃ bytes, provider.fetch url = .ok bytes ∧ content.url = url ∧ content.bytes = bytes) := by
  unfold step at h
  split at h
  · cases h
  · next url rest _ hs =>
    refine ⟨url, by rw [url?, hs]; rfl, .inl ?_⟩
    split at h
    · cases h
    split at h
    · next he =>
      cases h
      rw [he]
    · cases h
  · next url rest _ hs =>
    refine ⟨url, by rw [url?, hs]; rfl, .inr ?_⟩
    split at h
    · cases h
    split at h
    · next bytes he =>
      cases h
      exact ⟨bytes, he, rfl, rfl⟩
    · cases h
  · cases h
  · cases h
  · cases h

theorem ended_of_struck {outcome : Outcome}
    (h : (r.step provider held cache).1 = .struck outcome) : r.stage = .ended outcome := by
  unfold step at h
  split at h
  · cases h
  · split at h
    · cases h
    split at h <;> cases h
  · split at h
    · cases h
    split at h <;> cases h
  · next hs =>
    cases h
    exact hs
  · cases h
  · cases h

/-- A worker that goes on has no new urls. -/
theorem urls_of_step (r : Run) (provider : Provider) (held : List Content) (cache : Cache) :
    (r.step provider held cache).1.urls ⊆ r.stage.urls := by
  unfold step
  split
  · exact List.nil_subset _
  · next hs =>
    rw [hs]
    split
    · exact List.nil_subset _
    split
    · exact List.nil_subset _
    · exact List.Subset.refl _
  · next hs =>
    rw [hs]
    split
    · exact List.nil_subset _
    split
    · exact List.nil_subset _
    · exact List.subset_cons_self ..
  · exact List.nil_subset _
  · exact List.nil_subset _
  · exact List.nil_subset _

end Run

namespace Scene

/-- One turn of a scene: the slot of at most one node changes, and no content is destroyed but that
of the node itself. -/
inductive Turn : Deeds → Scene → Scene → Prop
  | calm {s s'} (h : Calm [] s s') : Turn [] s s'
  | ask {s s' id n slot} (hn : s.node? id = some n) (hl : n.load = some slot)
      (hs : slot.state = .notLoaded) (he : slot.space = none)
      (h : Turned id (slot.ask id) [.loading] s s')
      (ht : Tended ((⟨id, slot.ticket + 1⟩, urls n) :: s.jobs) s s') :
      Turn [(.ask ⟨id, slot.ticket + 1⟩ (urls n), s)] s s'
  | vain {s s' id slot} (hl : s.slot? id = some slot) (hs : slot.state = .notLoaded)
      (he : slot.space = none)
      (h : Turned id ((slot.enter .loading).enter .failed) [.loading, .failed] s s')
      (ht : Tended s.jobs s s') : Turn [] s s'
  | reset {s s' id slot} (hl : s.slot? id = some slot) (hs : slot.state ≠ .notLoaded)
      (hg : s.contentGone id = false) (h : Turned id (slot.enter .notLoaded) [.notLoaded] s s')
      (ht : Tended s.jobs s s') : Turn [] s s'
  | lapse {s s' id slot} (hl : s.slot? id = some slot) (hs : slot.state = .complete)
      (hg : s.contentGone id) (h : Turned id (slot.enter .notLoaded) [] s s')
      (ht : Tended s.jobs s s') : Turn [] s s'
  | fill {s s' c content space slot} (ha : s.awaits c) (ho : c.outcome = .loaded content)
      (hl : s.slot? c.request.node = some slot) (he : slot.space = none)
      (hp : ∀ sp ∈ space, s.hasSpace sp)
      (h : Turned c.request.node (slot.fill content space) [.complete] s s')
      (ht : Tended s.jobs s s') : Turn [(.answer c, s)] s s'
  | fail {s s' c slot} (ha : s.awaits c) (hl : s.slot? c.request.node = some slot)
      (he : slot.space = none) (h : Turned c.request.node (slot.enter .failed) [.failed] s s')
      (ht : Tended s.jobs s s') : Turn [(.answer c, s)] s s'
  | release {s s' c slot} (ha : s.awaits c) (hl : s.slot? c.request.node = some slot)
      (he : slot.space = none) (h : Turned c.request.node (slot.enter .notLoaded) [.notLoaded] s s')
      (ht : Tended s.jobs s s') : Turn [(.answer c, s)] s s'
  | take {s p} (hp : s.loader = some p) : Turn [] s { s with loader := some p.take }
  | find {s p i r url content} (hp : s.loader = some p) (hr : p.running[i]? = some r)
      (hu : r.url? = some url)
      (hs : (r.step p.provider s.held s.cache).1 = .ended (.loaded content)) :
      Turn [(.find r.job.request url content, s)] s { s with
        loader := some (p.advance i s.held s.cache).1
        cache := (p.advance i s.held s.cache).2 }
  | advance {s p i} (hp : s.loader = some p) (hs : ∀ r ∈ p.running[i]?, ∀ content,
      (r.step p.provider s.held s.cache).1 ≠ .ended (.loaded content)) :
      Turn [] s { s with
        loader := some (p.advance i s.held s.cache).1
        cache := (p.advance i s.held s.cache).2 }

inductive Turns (s : Scene) : Deeds → Scene → Prop
  | refl : Turns s [] s
  | step {t s' ds es} (h : Turns s ds t) (ht : Turn es t s') :
      Turns s (ds ++ es) s'

/-- Some turns lead from the first scene to the second, and apply the completions `cs`. -/
def Proceeds (cs : List Completion) (s s' : Scene) : Prop :=
  ∃ ds, Turns s ds s' ∧ Deeds.answers ds = cs

variable {s s' s'' t : Scene} {guest : Option SpaceId} {id : NodeId} {n : Node} {slot : LoadSlot}
  {cs cs' : List Completion} {sp : SpaceId} {x : Space} {index : Nat}

theorem Turns.trans {ds es : Deeds} (h : Turns s ds t) (h' : Turns t es s') :
    Turns s (ds ++ es) s' := by
  induction h' with
  | refl => rwa [List.append_nil]
  | step _ ht ih =>
    rw [← List.append_assoc]
    exact ih.step ht

namespace Proceeds

protected theorem refl (s : Scene) : Proceeds [] s s := ⟨[], .refl, rfl⟩

theorem turn {ds : Deeds} (h : Turn ds s s') : Proceeds (Deeds.answers ds) s s' :=
  ⟨[] ++ ds, .step .refl h, rfl⟩

theorem calm (h : Calm [] s s') : Proceeds [] s s' := turn (.calm h)

protected theorem trans (h : Proceeds cs s t) (h' : Proceeds cs' t s') :
    Proceeds (cs ++ cs') s s' := by
  obtain ⟨ds, hd, rfl⟩ := h
  obtain ⟨es, he, rfl⟩ := h'
  exact ⟨ds ++ es, hd.trans he, Deeds.answers_append ds es⟩

/-- What comes after turns that apply nothing. -/
theorem next (h : Proceeds [] s t) (h' : Proceeds cs t s') : Proceeds cs s s' :=
  h.trans h'

/-- What comes before turns that apply nothing. -/
theorem rest (h : Proceeds cs s t) (h' : Proceeds [] t s') : Proceeds cs s s' :=
  List.append_nil cs ▸ h.trans h'

section loading

theorem reset (h : s.Coherent [] guest) (id : NodeId) :
    Proceeds [] s (s.setLoadState id .notLoaded).2 := by
  rcases setLoadState_cases h id .notLoaded with ⟨e, he⟩ |
    ⟨n, slot, field, t, hn, hl, hu, hc, entered, ⟨-, hg, he, -⟩ | ⟨hg, he⟩⟩
  · rw [he]
    exact .refl s
  · have completed : slot.state = .complete := by
      obtain ⟨sp, hs, -⟩ := contentGone_iff.mp hg
      obtain ⟨slot', hs, hp⟩ := inlineSpace?_eq_some.mp hs
      cases (slot?_of_load hn hl).symm.trans hs
      exact (h.sound hn).content slot hl (by rw [hp]; rfl)
    rw [he]
    exact turn (.lapse (slot?_of_load hn hl) completed hg entered.turned entered.tended)
  · have started : slot.state ≠ .notLoaded := by
      intro hs
      rw [hs] at hc
      cases hc
    have whole : s.contentGone id = false :=
      Bool.eq_false_iff.mpr fun gone ↦ hg ⟨rfl, gone⟩
    rw [he]
    exact turn (.reset (slot?_of_load hn hl) started whole
      (entered.turned.emit id field .notLoaded) (entered.tended.trans (.of_loader rfl)))

theorem requestLoad (h : s.Coherent [] guest) (id : NodeId) :
    Proceeds [] s (s.requestLoad id).2 := by
  rcases requestLoad_cases h id with ⟨e, he⟩ |
    ⟨n, slot, s', hn, hl, hs, he, ⟨asked, tended⟩ | ⟨failed, tended⟩⟩
  · rw [he]
    exact .refl s
  · rw [he]
    have empty := (h.sound hn).space_eq_none hl (by rw [hs]; nofun)
    exact turn (.ask hn hl hs empty asked tended)
  · rw [he]
    have empty := (h.sound hn).space_eq_none hl (by rw [hs]; nofun)
    exact turn (.vain (slot?_of_load hn hl) hs empty failed tended)

theorem orWarn {a : Attempt} (h : Proceeds [] s a.2) (text : String) :
    Proceeds [] s (orWarn text a) := by
  obtain ⟨_ | _, t⟩ := a
  · exact h.next (calm (.report ..))
  · exact h

theorem autoLoad (h : s.Coherent [] guest) (id : NodeId) :
    Proceeds [] s (s.autoLoad id) := by
  unfold Scene.autoLoad
  split
  · exact (requestLoad h id).orWarn _
  · exact .refl s

theorem urlChanged (h : s.Coherent [] guest) (id : NodeId) :
    Proceeds [] s (s.urlChanged id) := by
  unfold Scene.urlChanged
  dsimp only
  split
  · have reset : Proceeds [] s (Scene.orWarn "Could not reset load state."
        (s.setLoadState id .notLoaded)) := (reset h id).orWarn _
    exact reset.next (autoLoad (Edited.orWarn (Edited.setLoadState h _) _).coherent id)
  · exact autoLoad h id

theorem loadSwitched (h : s.Coherent [] guest) (id : NodeId) (index : Nat) :
    Proceeds [] s (s.loadSwitched id index) := by
  unfold Scene.loadSwitched
  split
  · exact .refl s
  split
  · exact autoLoad h id
  split
  · exact (reset h id).orWarn _
  · exact .refl s

theorem applyLoadable (h : s.Coherent [] guest) (id : NodeId) (type : NodeType) (index : Nat) :
    Proceeds [] s (s.applyLoadable id type index) := by
  unfold Scene.applyLoadable
  split
  · exact urlChanged h id
  split
  · exact loadSwitched h id index
  · exact .refl s

theorem applyCapabilities (h : s.Coherent [] guest) (id : NodeId) (type : NodeType)
    (index : Nat) : Proceeds [] s (s.applyCapabilities id type index) := by
  unfold Scene.applyCapabilities
  split
  · split
    · exact calm (.editChildren ..)
    split
    · exact calm (.editChildren ..)
    · exact applyLoadable h id type index
  · exact applyLoadable h id type index

end loading

theorem setValue (h : s.Coherent [] guest) {v : Value} (hs : s.setValue id index v = .ok s') :
    Proceeds [] s s' := by
  have stored : Calm [] s (s.modifyNode id fun n ↦ n.store index v) :=
    .modifyNode fun _ _ ↦ rfl
  obtain ⟨n, -, ⟨-, -, rfl⟩ | ⟨-, marked, rfl⟩⟩ := Edited.setValue_stages h hs
  · exact calm stored
  · have changed := calm (stored.trans (.markChanged _ id index))
    have applied := changed.next (applyCapabilities marked.coherent id n.type index)
    exact applied.next (calm (.perform ..))

theorem finishSetup (h : s.Coherent [] guest) (hs : s.finishSetup id = .ok s') :
    Proceeds [] s s' := by
  unfold Scene.finishSetup at hs
  obtain ⟨n, -, hs⟩ := bind_eq_ok.mp hs
  split at hs
  · cases hs
    exact .refl _
  have opened : Calm [] s (s.modifyNode id fun n ↦ { n with inSetup := false }) :=
    .modifyNode fun _ _ ↦ rfl
  have performed := calm (opened.trans (.perform _ id Behavior.setupFinished))
  cases hs
  split
  · exact performed.next (autoLoad (Edited.endSetup h).coherent id)
  · exact performed

end Proceeds

end Scene

end SceneGraph
