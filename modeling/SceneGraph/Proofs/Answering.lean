import SceneGraph.Proofs.History
import SceneGraph.Proofs.Requesting

/-!
What a run owes to the requests of its nodes. Only the last request of a node is answered, once, and
while the node waits for it; whatever makes a node let go of a request makes it unanswered for good.
Hence a complete node has content that was found under one of the urls of its last request.
-/

namespace SceneGraph

namespace Scene

/-- An operation that leads from the first scene to the second sets the value of a field: by itself,
or, if it is a tick, by a route that fires or for a hook. The last scene is the one it is set in. -/
inductive Sets (s s' : Scene) : NodeId → Nat → Value → Scene → Prop
  | setValue {id index v} (h : s.setValue id index v = .ok s') : Sets s s' id index v s
  | set {id target index v} (hi : s.locate id target = .ok index)
      (h : s.set id target v = .ok s') : Sets s s' id index v s
  | setStrings {id index data count a} (ha : s.counted id index data count = .ok a)
      (h : s.setStrings id index data count = .ok s') : Sets s s' id index (.strings a) s
  | route {hooks requested tally o r m m' v} (ht : s.tick hooks requested = .ok (tally, s'))
      (ho : o ∈ s.outsets hooks requested) (hm : (.fire r, m) ∈ o.course)
      (hv : m.value r.source r.sourceField = .ok v) (hs : m.send r = .ok m') :
      Sets s s' r.dest r.destField v m
  | hook {hooks requested tally o w m m' index} (ht : s.tick hooks requested = .ok (tally, s'))
      (ho : o ∈ (s.outsets hooks requested).head?) (hm : (w, m) ∈ hookWrites hooks o.run.2)
      (hi : m.locate w.node w.target = .ok index)
      (hs : m.set w.node w.target w.value = .ok m') : Sets s s' w.node index w.value m

/-- A node out of setup is given urls, or its load is switched off. -/
def Resets (s : Scene) (id : NodeId) (index : Nat) (v : Value) : Prop :=
  ∃ n, s.node? id = some n ∧ n.inSetup = false ∧ (n.type.url? = some index ∨
    n.type.table.indexOf? "load" = some index ∧ v.asBool? = some false)

/-- An operation that bears on loads, or the work of a worker of the loader. -/
inductive Operates (s : Scene) : Scene → Prop
  | createNode {s' sp typeName id} (h : s.createNode sp typeName = .ok (id, s')) : Operates s s'
  | finishSetup {s' id} (h : s.finishSetup id = .ok s') : Operates s s'
  | setValue {s' id index v} (h : s.setValue id index v = .ok s') : Operates s s'
  | set {s' id target v} (h : s.set id target v = .ok s') : Operates s s'
  | setStrings {s' id index data count} (h : s.setStrings id index data count = .ok s') :
      Operates s s'
  | removeNode {s' id} (h : s.removeNode id = .ok s') : Operates s s'
  | removeSpace {s' sp} (h : s.removeSpace sp = .ok s') : Operates s s'
  | collect {s' sp ids} (h : s.collect sp = .ok (ids, s')) : Operates s s'
  | load (sp text) : Operates s (s.load sp text).2
  | requestLoad (id) : Operates s (s.requestLoad id).2
  | cancelLoad (id) : Operates s (s.cancelLoad id).2
  | terminateLoads : Operates s s.terminateLoads.2
  | setProvider (provider) : Operates s (s.setProvider provider).2
  | tick {s' hooks requested t} (h : s.tick hooks requested = .ok (t, s')) : Operates s s'
  | poolTake {p} (h : s.loader = some p) : Operates s { s with loader := some p.take }
  | poolAdvance {p} (h : s.loader = some p) (i : Nat) : Operates s { s with
      loader := some (p.advance i s.held s.cache).1
      cache := (p.advance i s.held s.cache).2 }

/-- What holds of a run to this scene, with its record. -/
structure Orderly (ds : Deeds) (s : Scene) : Prop where
  /-- The run goes on with operations that bear on loads, in any order. -/
  operates : ∀ {s'}, Operates s s' → ∃ es, Goes es s s' ∧ Deeds.answers es ⊆ s.posted
  /-- It does so with any other operation but a load state that is set by hand. -/
  steps : ∀ {s'}, Step s s' → (∃ id state, state ≠ .notLoaded ∧
    s.setLoadState id state = (.ok (), s')) ∨ ∃ es, Goes es s s' ∧ Deeds.answers es ⊆ s.posted
  /-- A tick applies the completions that are awaited when it is their turn, and no others. -/
  ticks : ∀ {hooks requested t s'}, s.tick hooks requested = .ok (t, s') →
    ∃ es, Goes es s s' ∧ Deeds.answers es = s.delivered requested
  drains : ∀ cs σ, applyCompletions cs σ = ((landed cs σ).length, (landed cs σ).foldl applied σ)
  /-- What is applied answers the last request of its node until then, and the node waits. -/
  answered : ∀ {i c σ}, ds[i]? = some (.answer c, σ) → σ.awaits c ∧
    ∃ urls τ, Deeds.latest? (ds.take i) c.request.node = some (c.request, urls, τ)
  once : (ds.answers.map Completion.request).Nodup
  waiting : ∀ {id slot}, s.slot? id = some slot → slot.state = .loading →
    ∃ urls σ, ds.latest? id = some (⟨id, slot.ticket⟩, urls, σ)
  superseded : ∀ {a b}, a ∈ ds.asks → ds.latest? a.1.node = some b → a ≠ b → s.Forsaken a.1
  cancelled : ∀ {a}, a ∈ ds.asks → (s.cancelLoad a.1.node).2.Forsaken a.1
  removed : ∀ {a}, a ∈ ds.asks → s.hasNode a.1.node = false → s.Forsaken a.1
  /-- This includes the requests that were made in the same tick before. -/
  reset : ∀ {s' id index v m}, s.Sets s' id index v m → m.Resets id index v →
    ∃ es es', Goes es s m ∧ Deeds.answers es ⊆ s.posted ∧ Goes es' m s' ∧
      Deeds.answers es' = [] ∧ ∀ a ∈ Deeds.asks (ds ++ es), a.1.node = id → s'.Forsaken a.1
  /-- The content of a node was found under one of the urls that its last request read. -/
  complete : ∀ {id slot}, s.slot? id = some slot → slot.state = .complete →
    ∃ urls σ n content url τ, slot.content = some content ∧
      ds.latest? id = some (⟨id, slot.ticket⟩, urls, σ) ∧
      σ.node? id = some n ∧ urls = Scene.urls n ∧ url ∈ urls ∧
      (.find ⟨id, slot.ticket⟩ url content, τ) ∈ ds ∧ τ.Offers url content

variable {s s' t m : Scene} {id : NodeId} {index : Nat} {v : Value} {ds es : Deeds}
  {seen cs : List Completion} {r : Request} {a b : Request × List String × Scene}

/-- What is done before a value is set and after it are turns. -/
theorem Sets.turns (h : s.Coherent [] none) (hs : s.Sets s' id index v m) :
    s'.Coherent [] none ∧ m.Coherent [] none ∧ ∃ m', m.setValue id index v = .ok m' ∧
      (∃ cs, Proceeds cs s m ∧ cs ⊆ s.posted) ∧ Proceeds [] m' s' := by
  have here : ∃ cs, Proceeds cs s s ∧ cs ⊆ s.posted := ⟨[], .refl s, List.nil_subset _⟩
  cases hs with
  | setValue hs => exact ⟨(Edited.setValue h hs).coherent, h, s', hs, here, .refl s'⟩
  | set hi hs =>
    have coherent := h.set hs
    rw [Scene.set, hi] at hs
    exact ⟨coherent, h, s', hs, here, .refl s'⟩
  | setStrings ha hs =>
    rw [Scene.setStrings, ha] at hs
    exact ⟨(Edited.setValue h hs).coherent, h, s', hs, here, .refl s'⟩
  | @route hooks requested tally o r m m' v ht ho hm hv hs =>
    have fired : (m.fire r).2 = m' := by rw [fire, hs]
    obtain ⟨ready, finish⟩ := Proceeds.tick_outset h ht ho
    obtain ⟨before, coherent, after⟩ := Proceeds.course (h.outsets o ho) hm
    rw [fired] at after
    rw [send, hv] at hs
    exact ⟨h.tick ht, coherent, m', hs,
      ⟨_, ready.rest before, delivered_subset ..⟩, after.next finish⟩
  | @hook hooks requested tally o w m m' index ht ho hm hi hs =>
    have acted : (hookHost.act m w).1 = m' := by simp only [hookHost, hs]
    obtain ⟨ready, begun, finish⟩ := Proceeds.tick_hooks h ht ho
    obtain ⟨before, coherent, after⟩ := Proceeds.hookWrites begun hm
    rw [acted] at after
    rw [Scene.set, hi] at hs
    exact ⟨h.tick ht, coherent, m', hs,
      ⟨_, ready.rest before, delivered_subset ..⟩, after.next finish⟩

theorem Operates.goes (h : s.Coherent [] none) (hs : Operates s s') :
    ∃ es, Goes es s s' ∧ Deeds.answers es ⊆ s.posted := by
  have quiet (step : Step s s') (hp : Proceeds [] s s') :
      ∃ es, Goes es s s' ∧ Deeds.answers es ⊆ s.posted :=
    hp.goes_of_posted (h.step step) (List.nil_subset _)
  cases hs with
  | createNode hs => exact quiet (.createNode hs) (.calm (.createNode hs))
  | finishSetup hs => exact quiet (.finishSetup hs) (.finishSetup h hs)
  | setValue hs => exact quiet (.setValue hs) (.setValue h hs)
  | set hs =>
    obtain ⟨i, -, hv⟩ := bind_eq_ok.mp hs
    exact quiet (.set hs) (.setValue h hv)
  | setStrings hs =>
    obtain ⟨a, -, hv⟩ := bind_eq_ok.mp hs
    exact quiet (.setStrings hs) (.setValue h hv)
  | removeNode hs => exact quiet (.removeNode hs) (.calm (.removeNode h hs))
  | removeSpace hs => exact ⟨[], .removeSpace hs, List.nil_subset _⟩
  | collect hs => exact quiet (.collect hs) (.calm (.collect h hs))
  | load sp text => exact quiet (.load s sp text) (.load h sp text)
  | requestLoad id => exact quiet (.requestLoad s id) (.requestLoad h id)
  | cancelLoad id => exact quiet (.cancelLoad s id) (.reset h id)
  | terminateLoads => exact quiet (.terminateLoads s) (.calm (.terminateLoads s))
  | setProvider p => exact quiet (.setProvider s p) (.setProvider h p)
  | tick ht => exact (Proceeds.tick h ht).goes_of_posted (h.tick ht) (delivered_subset ..)
  | poolTake hp => exact quiet (.poolTake hp) (.turn (.take hp))
  | poolAdvance hp i => exact quiet (.poolAdvance hp i) (.advance hp i)

namespace Ran

theorem goes (h : Ran ds seen s) (hs : Goes es s s') (posted : Deeds.answers es ⊆ s.posted) :
    Ran (ds ++ es) (seen ++ s.posted) s' :=
  h.step hs (List.Subset.trans posted (List.subset_append_right _ _))

theorem made (h : Ran ds seen s) (ha : a ∈ ds.asks) : s.Made a.1 :=
  h.kept.booked.made ha

theorem superseded (h : Ran ds seen s) (ha : a ∈ ds.asks)
    (hb : ds.latest? a.1.node = some b) (hab : a ≠ b) : s.Forsaken a.1 := by
  have lt := (h.kept.booked.le_latest ha hb).resolve_left hab
  have made : s.Made b.1 := h.made (Deeds.mem_of_latest? hb)
  have same : b.1.node = a.1.node := Deeds.node_of_latest? hb
  refine Over.forsaken h.kept.coherent ⟨h.made ha, fun hs ht ↦ ?_⟩
  have old := made.old (same ▸ hs)
  omega

theorem cancelled (h : Ran ds seen s) (ha : a ∈ ds.asks) :
    (s.cancelLoad a.1.node).2.Forsaken a.1 := by
  have coherent := h.kept.coherent
  exact Over.forsaken (coherent.step (.cancelLoad s a.1.node)) ((h.made ha).over_reset coherent)

theorem removed (h : Ran ds seen s) (ha : a ∈ ds.asks) (hn : s.hasNode a.1.node = false) :
    s.Forsaken a.1 := by
  refine Over.forsaken h.kept.coherent ((h.made ha).over fun hs ↦ ?_)
  obtain ⟨n, hn', -⟩ := slot?_eq_some.mp hs
  rw [hasNode, hn'] at hn
  cases hn

theorem reset (h : Ran ds seen s) (hs : s.Sets s' id index v m) (hr : m.Resets id index v) :
    ∃ es es', Goes es s m ∧ Deeds.answers es ⊆ s.posted ∧ Goes es' m s' ∧
      Deeds.answers es' = [] ∧ ∀ a ∈ Deeds.asks (ds ++ es), a.1.node = id → s'.Forsaken a.1 := by
  obtain ⟨hc', hc, m', set, ⟨cs, before, posted⟩, after⟩ := hs.turns h.kept.coherent
  obtain ⟨es, goes, rfl⟩ := before.goes hc
  obtain ⟨es', goes', none⟩ := ((Proceeds.setValue hc set).next after).goes hc'
  refine ⟨es, es', goes, posted, goes', none, fun a ha hn ↦ ?_⟩
  obtain ⟨n, hm, out, hi⟩ := hr
  subst hn
  have made : m.Made a.1 := (h.goes goes posted).made ha
  exact Over.forsaken hc' (after.over (made.over_setValue hc hm out hi set))

theorem complete {slot : LoadSlot} (h : Ran ds seen s) (hl : s.slot? id = some slot)
    (hs : slot.state = .complete) : ∃ urls σ n content url τ, slot.content = some content ∧
      ds.latest? id = some (⟨id, slot.ticket⟩, urls, σ) ∧
      σ.node? id = some n ∧ urls = Scene.urls n ∧ url ∈ urls ∧
      (.find ⟨id, slot.ticket⟩ url content, τ) ∈ ds ∧ τ.Offers url content := by
  have kept := h.kept
  obtain ⟨urls, σ, content, url, τ, latest, filled, hu, hf⟩ := (kept.booked.slots hl).complete hs
  obtain ⟨n, hn, asked⟩ := kept.honest.asked (Deeds.mem_of_latest? latest)
  exact ⟨urls, σ, n, content, url, τ, filled, latest, hn, asked, hu, hf, kept.honest.found hf⟩

/-- However operations and workers follow each other, the requests of a scene are in order. -/
theorem orderly (h : Ran ds seen s) : Orderly ds s := by
  obtain ⟨coherent, booked, -, honest, -⟩ := h.kept
  exact {
    operates := fun hs ↦ hs.goes coherent
    steps := fun hs ↦ hs.goes coherent
    ticks := fun ht ↦ (Proceeds.tick coherent ht).goes (coherent.tick ht)
    drains := applyCompletions_eq
    answered := honest.answered
    once := honest.unrepeated
    waiting := fun hl ↦ (booked.slots hl).waiting
    superseded := h.superseded
    cancelled := h.cancelled
    removed := h.removed
    reset := h.reset
    complete := h.complete }

end Ran

/-- Some run leads to the scene. -/
def Led (s : Scene) : Prop := ∃ ds seen, Ran ds seen s

theorem Led.operates (h : s.Led) (hs : Operates s s') : s'.Led := by
  obtain ⟨ds, seen, ran⟩ := h
  obtain ⟨es, goes, posted⟩ := hs.goes ran.kept.coherent
  exact ⟨_, _, ran.goes goes posted⟩

theorem Led.after {x : Except Error Scene} (h : s.Led)
    (hx : ∀ s', x = .ok s' → Operates s s') : (s.after x).Led :=
  after_induction h fun s' he ↦ h.operates (hx s' he)

theorem Led.after_snd {α : Type} {x : Except Error (α × Scene)} (h : s.Led)
    (hx : ∀ y s', x = .ok (y, s') → Operates s s') : (s.after (x.map Prod.snd)).Led :=
  after_snd_induction h fun y s' he ↦ h.operates (hx y s' he)

theorem led_filled : filled.Led := by
  have built : ∀ t ∈ [frame], t.Built := by simpa using built_frame
  have new : Scene.new ⟨[frame]⟩ {} = .ok (start ⟨[frame]⟩ {}) := rfl
  have asked : framed.Led := by
    refine Led.after (Led.operates ?_ (.setProvider _)) fun _ hs ↦ .finishSetup hs
    refine Led.after ?_ fun _ hs ↦ .setValue hs
    exact Led.after_snd ⟨[], [], .new built new⟩ fun _ _ hs ↦ .createNode hs
  have worked := work_induction asked (fun _ _ hp h ↦ h.operates (.poolTake hp))
    (fun _ _ hp h ↦ h.operates (.poolAdvance hp 0)) true
  exact worked.after_snd fun _ _ hs ↦ .tick hs

/-- A frame found its content under a url it asked for last. Once it gives the content up, it does
not take the answer to that request again. -/
theorem orderly_filled : ∃ ds seen slot urls σ content url τ, Ran ds seen filled ∧
    filled.slot? (.issued 0) = some slot ∧ slot.content = some content ∧
    ds.latest? (.issued 0) = some (⟨.issued 0, slot.ticket⟩, urls, σ) ∧ url ∈ urls ∧
    (.find ⟨.issued 0, slot.ticket⟩ url content, τ) ∈ ds ∧
    (filled.cancelLoad (.issued 0)).2.Forsaken ⟨.issued 0, slot.ticket⟩ := by
  obtain ⟨ds, seen, ran⟩ := led_filled
  have orderly := ran.orderly
  have completed : (filled.slot? (.issued 0)).map LoadSlot.state = some .complete := by cbv
  obtain ⟨slot, hl, hs⟩ := Option.map_eq_some_iff.mp completed
  obtain ⟨urls, σ, n, content, url, τ, hc, latest, -, -, hu, hf, -⟩ := orderly.complete hl hs
  exact ⟨ds, seen, slot, urls, σ, content, url, τ, ran, hl, hc, latest, hu, hf,
    orderly.cancelled (Deeds.mem_of_latest? latest)⟩

end Scene

end SceneGraph
