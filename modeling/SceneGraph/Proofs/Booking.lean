import Mathlib.Data.List.Nodup
import SceneGraph.Proofs.Proceeding

/-!
A record of deeds and the scene it is kept of. Tickets grow, so a request is over once its node has
moved on; a node that waits, waits for its last request; and what the loader works at was asked for.
-/

namespace SceneGraph

def Deed.ask? : Deed → Option (Request × List String)
  | ask request urls => some (request, urls)
  | find .. | answer _ => none

/-- After a turn from one slot to the other, no request of before is waited for. -/
def LoadSlot.Onward (slot slot' : LoadSlot) : Prop :=
  slot.ticket < slot'.ticket ∨ slot'.ticket = slot.ticket ∧ slot'.state ≠ .loading

namespace Deeds

/-- The requests with the urls that were handed over, and the scenes they were made in. -/
def asks (ds : Deeds) : List (Request × List String × Scene) :=
  ds.filterMap fun d ↦ d.1.ask?.map fun a ↦ (a.1, a.2, d.2)

/-- The last request of the node. -/
def latest? (ds : Deeds) (id : NodeId) : Option (Request × List String × Scene) :=
  (ds.asks.filter fun a ↦ a.1.node = id).getLast?

/-- A worker found the content under one of the urls of the request. -/
def Found (ds : Deeds) (r : Request) (content : Content) : Prop :=
  ∃ urls σ url τ, (r, urls, σ) ∈ ds.asks ∧ url ∈ urls ∧ (.find r url content, τ) ∈ ds

/-- A worker is at urls of a request that was made, and what it is about to post was found there. -/
structure Backs (ds : Deeds) (work : Request × List String × Stage) : Prop where
  asked : ∃ σ, (work.1, work.2.1, σ) ∈ ds.asks
  left : work.2.2.urls ⊆ work.2.1
  found : ∀ content, work.2.2 = .ended (.loaded content) ∨ work.2.2 = .struck (.loaded content) →
    ds.Found work.1 content

/-- What the record says of the slot of a node. A node that waits, waits for its last request, and a
node that is complete has what was found for it. -/
structure Matches (ds : Deeds) (id : NodeId) (slot : LoadSlot) : Prop where
  waiting : slot.state = .loading → ∃ urls σ, ds.latest? id = some (⟨id, slot.ticket⟩, urls, σ)
  complete : slot.state = .complete → ∃ urls σ content url τ,
    ds.latest? id = some (⟨id, slot.ticket⟩, urls, σ) ∧ slot.content = some content ∧
      url ∈ urls ∧ (.find ⟨id, slot.ticket⟩ url content, τ) ∈ ds

variable {ds es : Deeds} {id : NodeId} {r : Request} {urls : List String} {σ : Scene}
  {content : Content} {slot : LoadSlot}

@[simp] theorem asks_append (ds es : Deeds) : asks (ds ++ es) = ds.asks ++ es.asks :=
  List.filterMap_append

theorem latest?_append (h : ∀ a ∈ asks es, a.1.node ≠ id) :
    latest? (ds ++ es) id = ds.latest? id := by
  have none : es.asks.filter (fun a ↦ a.1.node = id) = [] :=
    List.filter_eq_nil_iff.mpr fun a ha hn ↦ h a ha (of_decide_eq_true hn)
  rw [latest?, asks_append, List.filter_append, none, List.append_nil, latest?]

theorem latest?_ask (ds : Deeds) (r : Request) (urls : List String) (σ : Scene) :
    latest? (ds ++ [(.ask r urls, σ)]) r.node = some (r, urls, σ) := by
  have one : asks [(.ask r urls, σ)] = [(r, urls, σ)] := rfl
  rw [latest?, asks_append, one, List.filter_append, List.filter_singleton]
  simp

theorem mem_of_latest? (h : ds.latest? id = some (r, urls, σ)) : (r, urls, σ) ∈ ds.asks :=
  List.mem_of_mem_filter (List.mem_of_getLast? h)

theorem node_of_latest? {a : Request × List String × Scene} (h : ds.latest? id = some a) :
    a.1.node = id :=
  of_decide_eq_true (List.mem_filter.mp (List.mem_of_getLast? h)).2

theorem Found.append (h : ds.Found r content) (es : Deeds) : Found (ds ++ es) r content := by
  obtain ⟨urls, σ, url, τ, ha, hu, hf⟩ := h
  exact ⟨urls, σ, url, τ, by rw [asks_append]; exact List.mem_append_left _ ha, hu,
    List.mem_append_left _ hf⟩

namespace Matches

theorem idle (loading : slot.state ≠ .loading) (complete : slot.state ≠ .complete) :
    ds.Matches id slot :=
  ⟨fun h ↦ absurd h loading, fun h ↦ absurd h complete⟩

protected theorem append (h : ds.Matches id slot) (quiet : ∀ a ∈ asks es, a.1.node ≠ id) :
    Matches (ds ++ es) id slot where
  waiting hs := by
    rw [latest?_append quiet]
    exact h.waiting hs
  complete hs := by
    obtain ⟨urls, σ, content, url, τ, hl, hc, hu, hf⟩ := h.complete hs
    exact ⟨urls, σ, content, url, τ, (latest?_append quiet).trans hl, hc, hu,
      List.mem_append_left _ hf⟩

end Matches

/-- A worker goes on with the urls it has, to an end that the record backs. -/
theorem Backs.step {r : Run} {provider : Provider} {held : List Content} {cache : Cache}
    (h : ds.Backs (r.job.request, r.job.urls, r.stage))
    (found : ∀ content, (r.step provider held cache).1 = .ended (.loaded content) →
      ds.Found r.job.request content) :
    ds.Backs (r.job.request, r.job.urls, (r.step provider held cache).1) where
  asked := h.asked
  left := List.Subset.trans (Run.urls_of_step r provider held cache) h.left
  found content hc := by
    rcases hc with hc | hc
    · exact found content hc
    · exact h.found content (.inl (Run.ended_of_struck hc))

end Deeds

namespace Scene

/-- A node made the request, or at least the scene gave its handle. -/
structure Made (s : Scene) (r : Request) : Prop where
  met : ¬s.Fresh r.node
  old : ∀ {slot}, s.slot? r.node = some slot → r.ticket ≤ slot.ticket

/-- Nobody waits for the answer to the request any more. -/
structure Over (s : Scene) (r : Request) : Prop extends Made s r where
  done : ∀ {slot}, s.slot? r.node = some slot → slot.ticket = r.ticket → slot.state ≠ .loading

/-- The record and the slots of the scene agree. -/
structure Booked (ds : Deeds) (s : Scene) : Prop where
  made : ∀ {r urls σ}, (r, urls, σ) ∈ ds.asks → s.Made r
  ordered : ds.asks.Pairwise fun a b ↦ a.1.node = b.1.node → a.1.ticket < b.1.ticket
  answered : ∀ {c}, c ∈ ds.answers → s.Over c.request
  slots : ∀ {id slot}, s.slot? id = some slot → ds.Matches id slot

variable {s s' t : Scene} {id k : NodeId} {n : Node} {slot slot' : LoadSlot}
  {states : List LoadState} {loads : List (NodeId × LoadState)} {razed : List SpaceId}
  {slots : NodeId → Option LoadSlot} {ds es : Deeds} {r : Request} {c : Completion}

theorem not_fresh_of_slot (hl : s.slot? id = some slot) : ¬s.Fresh id := by
  intro h
  cases h.slot?.symm.trans hl

theorem Shifted.met (h : Shifted slots loads razed s s') (hm : ¬s.Fresh id) : ¬s'.Fresh id :=
  fun hf ↦ hm (hf.of_issued h.nodesIssued)

theorem Shifted.slot_of_met (h : Shifted slots loads razed s s') (hm : ¬s.Fresh id)
    (hs : s'.slot? id = some slot) : slots id = some slot :=
  (h.slot hs).resolve_right fun hf ↦ hm hf.1

theorem Shifted.made (h : Shifted s.slot? loads razed s s') (hm : s.Made r) : s'.Made r where
  met := h.met hm.met
  old hs := hm.old (h.slot_of_met hm.met hs)

theorem Shifted.over (h : Shifted s.slot? loads razed s s') (ho : s.Over r) : s'.Over r where
  toMade := h.made ho.toMade
  done hs := ho.done (h.slot_of_met ho.met hs)

theorem Turned.other (h : Turned k slot' states s s') (hm : ¬s.Fresh id) (hk : id ≠ k)
    (hs : s'.slot? id = some slot) : s.slot? id = some slot := by
  have same := Shifted.slot_of_met h hm hs
  rwa [Function.update_of_ne hk] at same

theorem Turned.made (hl : s.slot? k = some slot) (h : Turned k slot' states s s')
    (on : slot.Onward slot') (hm : s.Made r) : s'.Made r where
  met := Shifted.met h hm.met
  old {σ} hs := by
    by_cases hk : r.node = k
    · subst hk
      obtain rfl := Turned.slot_eq hl h hs
      have old := hm.old hl
      rcases on with lt | ⟨same, -⟩ <;> omega
    · exact hm.old (Turned.other h hm.met hk hs)

/-- A node that moves on lets go of its requests. -/
theorem Turned.over_self (hl : s.slot? r.node = some slot) (h : Turned r.node slot' states s s')
    (on : slot.Onward slot') (hm : s.Made r) : s'.Over r where
  toMade := Turned.made hl h on hm
  done {σ} hs ht := by
    obtain rfl := Turned.slot_eq hl h hs
    have old := hm.old hl
    rcases on with lt | ⟨-, done⟩
    · omega
    · exact done

theorem Turned.over (hl : s.slot? k = some slot) (h : Turned k slot' states s s')
    (on : slot.Onward slot') (ho : s.Over r) : s'.Over r := by
  by_cases hk : r.node = k
  · subst hk
    exact Turned.over_self hl h on ho.toMade
  · exact ⟨Turned.made hl h on ho.toMade, fun hs ↦ ho.done (Turned.other h ho.met hk hs)⟩

/-- A turn leaves the slots, or one node moves on. -/
theorem Turn.onward (h : Turn es s s') : Shifted s.slot? [] [] s s' ∨
    ∃ k slot slot' states, s.slot? k = some slot ∧ Turned k slot' states s s' ∧
      slot.Onward slot' := by
  cases h with
  | calm h => exact .inl h.shifted
  | ask hn hl hs he h =>
    exact .inr ⟨_, _, _, _, slot?_of_load hn hl, h, .inl (Nat.lt_succ_self _)⟩
  | vain hl hs he h => exact .inr ⟨_, _, _, _, hl, h, .inr ⟨rfl, nofun⟩⟩
  | reset hl hs hg h => exact .inr ⟨_, _, _, _, hl, h, .inr ⟨rfl, nofun⟩⟩
  | lapse hl hs hg h => exact .inr ⟨_, _, _, _, hl, h, .inr ⟨rfl, nofun⟩⟩
  | fill ha ho hl he hp h => exact .inr ⟨_, _, _, _, hl, h, .inr ⟨rfl, nofun⟩⟩
  | fail ha hl he h => exact .inr ⟨_, _, _, _, hl, h, .inr ⟨rfl, nofun⟩⟩
  | release ha hl he h => exact .inr ⟨_, _, _, _, hl, h, .inr ⟨rfl, nofun⟩⟩
  | take | find | advance =>
    left
    exact (Calm.refl s).shifted.of_tables rfl rfl rfl

theorem Turn.made (h : Turn es s s') (hm : s.Made r) : s'.Made r := by
  rcases h.onward with h | ⟨k, slot, slot', states, hl, h, on⟩
  · exact h.made hm
  · exact Turned.made hl h on hm

theorem Turn.over (h : Turn es s s') (ho : s.Over r) : s'.Over r := by
  rcases h.onward with h | ⟨k, slot, slot', states, hl, h, on⟩
  · exact h.over ho
  · exact Turned.over hl h on ho

/-- A turn is at most one deed. -/
theorem Turn.single (h : Turn es s s') : es = [] ∨ ∃ d, es = [(d, s)] := by
  cases h with
  | calm | vain | reset | lapse | take | advance => exact .inl rfl
  | ask | find | fill | fail | release => exact .inr ⟨_, rfl⟩

theorem Over.not_awaits (h : s.Over c.request) : s.awaits c = false := by
  rw [← Bool.not_eq_true]
  intro ha
  obtain ⟨slot, hl, ht, hw⟩ := slot?_of_awaits ha
  exact h.done hl ht hw

theorem Turn.awaits (h : Turn es s s') (hc : c ∈ Deeds.answers es) : s.awaits c := by
  cases h with
  | calm | vain | reset | lapse | take | advance => cases hc
  | ask | find => cases hc
  | fill ha | fail ha | release ha =>
    cases List.mem_singleton.mp hc
    exact ha

theorem made_of_awaits (ha : s.awaits c) : s.Made c.request := by
  obtain ⟨slot, hl, same, -⟩ := slot?_of_awaits ha
  refine ⟨not_fresh_of_slot hl, fun hs ↦ ?_⟩
  cases hl.symm.trans hs
  exact Nat.le_of_eq same.symm

/-- What is answered is over. -/
theorem Turn.answered (h : Turn es s s') (hc : c ∈ Deeds.answers es) : s'.Over c.request := by
  cases h with
  | calm | vain | reset | lapse | take | advance => cases hc
  | ask | find => cases hc
  | fill ha _ hl _ _ h =>
    cases List.mem_singleton.mp hc
    exact Turned.over_self hl h (.inr ⟨rfl, nofun⟩) (made_of_awaits ha)
  | fail ha hl _ h =>
    cases List.mem_singleton.mp hc
    exact Turned.over_self hl h (.inr ⟨rfl, nofun⟩) (made_of_awaits ha)
  | release ha hl _ h =>
    cases List.mem_singleton.mp hc
    exact Turned.over_self hl h (.inr ⟨rfl, nofun⟩) (made_of_awaits ha)

theorem Turned.matches (hb : s.Booked ds) (hl : s.slot? k = some slot)
    (h : Turned k slot' states s s') (quiet : ∀ a ∈ Deeds.asks es, a.1.node = k)
    (hm : Deeds.Matches (ds ++ es) k slot') {σ : LoadSlot} (hs : s'.slot? id = some σ) :
    Deeds.Matches (ds ++ es) id σ := by
  by_cases hk : id = k
  · subst hk
    rwa [Turned.slot_eq hl h hs]
  · rcases Shifted.slot h hs with hs | ⟨-, rfl⟩
    · rw [Function.update_of_ne hk] at hs
      exact (hb.slots hs).append fun a ha he ↦ hk (he.symm.trans (quiet a ha))
    · exact .idle nofun nofun

/-- No request is made twice. -/
theorem Booked.once (hb : s.Booked ds) : (ds.asks.map Prod.fst).Nodup := by
  rw [List.Nodup, List.pairwise_map]
  refine hb.ordered.imp fun {a b} lt he ↦ ?_
  have lt := lt (congrArg Request.node he)
  rw [he] at lt
  exact Nat.lt_irrefl _ lt

theorem Booked.urls_unique (hb : s.Booked ds) {a b : List String × Scene}
    (ha : (r, a) ∈ ds.asks) (ha' : (r, b) ∈ ds.asks) : a = b := by
  have same := List.inj_on_of_nodup_map hb.once ha ha' rfl
  exact (Prod.mk.inj same).2

/-- The last request of a node has the largest ticket. -/
theorem Booked.le_latest (hb : s.Booked ds) {a b : Request × List String × Scene}
    (ha : a ∈ ds.asks) (hl : ds.latest? a.1.node = some b) :
    a = b ∨ a.1.ticket < b.1.ticket := by
  have mem : a ∈ ds.asks.filter fun c ↦ c.1.node = a.1.node :=
    List.mem_filter.mpr ⟨ha, decide_eq_true rfl⟩
  have ordered := hb.ordered.filter fun c ↦ c.1.node = a.1.node
  obtain ⟨before, hs⟩ := List.getLast?_eq_some_iff.mp hl
  have hb' : b.1.node = a.1.node := Deeds.node_of_latest? hl
  rw [hs] at mem ordered
  rcases List.mem_append.mp mem with hm | hm
  · exact .inr ((List.pairwise_append.mp ordered).2.2 a hm b (List.mem_singleton_self b) hb'.symm)
  · exact .inl (List.mem_singleton.mp hm)

theorem Turn.matches (hb : s.Booked ds) (h : Turn es s s')
    (found : ∀ c ∈ Deeds.answers es, ∀ content, c.outcome = .loaded content →
      ds.Found c.request content) {σ : LoadSlot} (hs : s'.slot? id = some σ) :
    Deeds.Matches (ds ++ es) id σ := by
  cases h with
  | calm h =>
    rcases h.shifted.slot hs with hs | ⟨-, rfl⟩
    · rw [List.append_nil]
      exact hb.slots hs
    · exact .idle nofun nofun
  | take | advance | find => exact (hb.slots hs).append fun a ha ↦ by cases ha
  | vain hl _ _ h | reset hl _ _ h | lapse hl _ _ h =>
    exact Turned.matches hb hl h (fun a ha ↦ by cases ha) (.idle nofun nofun) hs
  | fail _ hl _ h | release _ hl _ h =>
    exact Turned.matches hb hl h (fun a ha ↦ by cases ha) (.idle nofun nofun) hs
  | ask hn hl _ _ h =>
    refine Turned.matches hb (slot?_of_load hn hl) h (fun a ha ↦ ?_) ⟨fun _ ↦ ?_, nofun⟩ hs
    · cases List.mem_singleton.mp ha
      rfl
    · exact ⟨_, _, Deeds.latest?_ask ..⟩
  | @fill _ _ c content space slot ha ho hl _ _ h =>
    obtain ⟨slot', hl', same, loading⟩ := slot?_of_awaits ha
    cases hl.symm.trans hl'
    refine Turned.matches hb hl h (fun a ha ↦ by cases ha) ⟨nofun, fun _ ↦ ?_⟩ hs
    have request : (⟨c.request.node, slot.ticket⟩ : Request) = c.request := by rw [same]
    obtain ⟨urls, σ, latest⟩ := (hb.slots hl).waiting loading
    -- what was found for a request was found under the urls of that request, as none is made twice
    obtain ⟨urls', σ', url, τ, asked, hu, hf⟩ :=
      found c (List.mem_singleton_self _) content ho
    rw [request] at latest
    cases hb.urls_unique (Deeds.mem_of_latest? latest) asked
    refine ⟨urls, σ, content, url, τ, ?_, rfl, hu, ?_⟩
    · rw [Deeds.latest?_append fun a ha ↦ by cases ha]
      exact request ▸ latest
    · exact List.mem_append_left _ (request ▸ hf)

theorem Turn.asked (h : Turn es s s') {urls : List String} {σ : Scene}
    (ha : (r, urls, σ) ∈ Deeds.asks es) : σ = s ∧ s'.Made r ∧
      ∃ n slot, s.node? r.node = some n ∧ n.load = some slot ∧ r.ticket = slot.ticket + 1 ∧
        urls = Scene.urls n := by
  cases h with
  | calm | vain | reset | lapse | take | advance => cases ha
  | find | fill | fail | release => cases ha
  | ask hn hl _ _ h =>
    cases List.mem_singleton.mp ha
    have hl' := slot?_of_load hn hl
    refine ⟨rfl, ⟨Shifted.met h (not_fresh_of_slot hl'), fun hs ↦ ?_⟩,
      _, _, hn, hl, rfl, rfl⟩
    obtain rfl := Turned.slot_eq hl' h hs
    exact Nat.le_refl _

theorem Booked.turn (hb : s.Booked ds) (h : Turn es s s')
    (found : ∀ c ∈ Deeds.answers es, ∀ content, c.outcome = .loaded content →
      ds.Found c.request content) : s'.Booked (ds ++ es) where
  made {r urls σ} ha := by
    rw [Deeds.asks_append] at ha
    rcases List.mem_append.mp ha with ha | ha
    · exact h.made (hb.made ha)
    · exact (h.asked ha).2.1
  ordered := by
    rw [Deeds.asks_append, List.pairwise_append]
    refine ⟨hb.ordered, ?_, fun a ha b hb' hn ↦ ?_⟩
    · rcases h.single with rfl | ⟨d, rfl⟩
      · exact List.Pairwise.nil
      · cases d <;> simp [Deeds.asks, Deed.ask?]
    · obtain ⟨-, -, n, slot, hn', hl, ticket, -⟩ := h.asked hb'
      have old := (hb.made ha).old (hn ▸ slot?_of_load hn' hl)
      omega
  answered {c} hc := by
    rw [Deeds.answers_append] at hc
    rcases List.mem_append.mp hc with hc | hc
    · exact h.over (hb.answered hc)
    · exact h.answered hc
  slots hs := h.matches hb found hs

/-- There is nothing to record of a calm step. -/
theorem Booked.calm (hb : s.Booked ds) (h : Calm razed s s') : s'.Booked ds where
  made ha := h.shifted.made (hb.made ha)
  ordered := hb.ordered
  answered hc := h.shifted.over (hb.answered hc)
  slots hs := by
    rcases h.shifted.slot hs with hs | ⟨-, rfl⟩
    · exact hb.slots hs
    · exact .idle nofun nofun

theorem Made.takeJournal (h : s.Made r) : s.takeJournal.2.Made r := ⟨h.met, h.old⟩

theorem Over.takeJournal (h : s.Over r) : s.takeJournal.2.Over r := ⟨h.toMade.takeJournal, h.done⟩

theorem Booked.takeJournal (hb : s.Booked ds) : s.takeJournal.2.Booked ds :=
  ⟨fun ha ↦ (hb.made ha).takeJournal, hb.ordered, fun hc ↦ (hb.answered hc).takeJournal, hb.slots⟩

section loader

/-- What the loader has to do was asked for, and what it found was found there. -/
structure Vouched (ds : Deeds) (s : Scene) : Prop where
  jobs : ∀ job ∈ s.jobs, ∃ σ, (job.1, job.2, σ) ∈ ds.asks
  works : ∀ work ∈ s.works, ds.Backs work
  posted : ∀ c ∈ s.posted, ∀ content, c.outcome = .loaded content → ds.Found c.request content

variable {p q : Pool} {i : Nat}

theorem jobs_of_loader (hp : s.loader = some p) : s.jobs = p.jobs := by
  rw [Scene.jobs, hp]
  rfl

theorem works_of_loader (hp : s.loader = some p) : s.works = p.works := by
  rw [Scene.works, hp]
  rfl

theorem posted_of_loader (hp : s.loader = some p) : s.posted = p.completions := by
  rw [Scene.posted, hp]
  rfl

theorem Vouched.append (h : s.Vouched ds) (es : Deeds) : s.Vouched (ds ++ es) where
  jobs job hj := by
    obtain ⟨σ, hs⟩ := h.jobs job hj
    exact ⟨σ, by rw [Deeds.asks_append]; exact List.mem_append_left _ hs⟩
  works work hw := by
    obtain ⟨⟨σ, hs⟩, hu, found⟩ := h.works work hw
    exact ⟨⟨σ, by rw [Deeds.asks_append]; exact List.mem_append_left _ hs⟩, hu,
      fun content hc ↦ (found content hc).append es⟩
  posted c hc content ho := (h.posted c hc content ho).append es

theorem Vouched.tended {jobs : List (Request × List String)} (h : s.Vouched ds)
    (ht : Tended jobs s s') (hj : ∀ job ∈ jobs, ∃ σ, (job.1, job.2, σ) ∈ ds.asks) :
    s'.Vouched ds where
  jobs job hm := hj job (ht.jobs hm)
  works work hw := h.works work (ht.works hw)
  posted c hc := h.posted c (ht.posted hc)

theorem Vouched.of_loader (hp : s.loader = some p)
    (jobs : ∀ job ∈ p.jobs, ∃ σ, (job.1, job.2, σ) ∈ ds.asks)
    (works : ∀ work ∈ p.works, ds.Backs work)
    (posted : ∀ c ∈ p.completions, ∀ content, c.outcome = .loaded content →
      ds.Found c.request content) : s.Vouched ds where
  jobs := by rwa [jobs_of_loader hp]
  works := by rwa [works_of_loader hp]
  posted := by rwa [posted_of_loader hp]

theorem Vouched.take (h : s.Vouched ds) (hp : s.loader = some p)
    (hs : s'.loader = some p.take) : s'.Vouched ds := by
  obtain ⟨jobs, works, posted⟩ := h
  rw [jobs_of_loader hp] at jobs
  rw [works_of_loader hp] at works
  rw [posted_of_loader hp] at posted
  unfold Pool.take at hs
  split at hs
  · exact .of_loader hs jobs works posted
  next job queue hq =>
  split at hs
  · have asked : ∀ j ∈ job :: queue, ∃ σ, (j.request, j.urls, σ) ∈ ds.asks := by
      intro j hj
      exact jobs (j.request, j.urls) (List.mem_map.mpr ⟨j, hq ▸ hj, rfl⟩)
    refine .of_loader hs (fun a ha ↦ ?_) (fun w hw ↦ ?_) posted
    · obtain ⟨j, hj, rfl⟩ := List.mem_map.mp ha
      exact asked j (List.mem_cons_of_mem _ hj)
    · obtain ⟨r, hr, rfl⟩ := List.mem_map.mp hw
      rcases List.mem_append.mp hr with hr | hr
      · exact works _ (List.mem_map.mpr ⟨r, hr, rfl⟩)
      · cases List.mem_singleton.mp hr
        exact ⟨asked job List.mem_cons_self, List.Subset.refl _, nofun⟩
  · exact .of_loader hs jobs works posted

/-- A worker goes on, or posts what it found, or leaves. -/
theorem Vouched.advance (h : s.Vouched ds) (hp : s.loader = some p)
    (hs : s'.loader = some (p.advance i s.held s.cache).1)
    (found : ∀ r ∈ p.running[i]?, ∀ content,
      (r.step p.provider s.held s.cache).1 = .ended (.loaded content) →
        ds.Found r.job.request content) : s'.Vouched ds := by
  obtain ⟨jobs, works, posted⟩ := h
  rw [jobs_of_loader hp] at jobs
  rw [works_of_loader hp] at works
  rw [posted_of_loader hp] at posted
  unfold Pool.advance at hs
  split at hs
  · exact .of_loader hs jobs works posted
  next r hr =>
  have backed := works _ (List.mem_map.mpr ⟨r, List.mem_of_getElem? hr, rfl⟩)
  have entered : ∀ w ∈
      (p.running.set i { r with stage := (r.step p.provider s.held s.cache).1 }).map
        (fun r ↦ (r.job.request, r.job.urls, r.stage)), ds.Backs w := by
    intro w hw
    obtain ⟨r', hr', rfl⟩ := List.mem_map.mp hw
    rcases List.mem_or_eq_of_mem_set hr' with hm | rfl
    · exact works _ (List.mem_map.mpr ⟨r', hm, rfl⟩)
    · exact backed.step (found r hr)
  cases hr' : r.stage with
  | trying | fetching | ended =>
    simp only [Pool.proceed, hr'] at hs
    exact .of_loader hs jobs entered posted
  | struck outcome =>
    simp only [Pool.proceed, hr'] at hs
    refine .of_loader hs jobs entered fun c hc content ho ↦ ?_
    rcases List.mem_append.mp hc with hc | hc
    · exact posted c hc content ho
    · cases List.mem_singleton.mp hc
      obtain rfl : outcome = .loaded content := ho
      exact backed.found content (.inr hr')
  | posted =>
    simp only [Pool.proceed, hr'] at hs
    refine .of_loader hs jobs (fun w hw ↦ ?_) posted
    obtain ⟨r', hr', rfl⟩ := List.mem_map.mp hw
    exact works _ (List.mem_map.mpr ⟨r', List.mem_of_mem_eraseIdx hr', rfl⟩)

theorem Vouched.turn (h : s.Vouched ds) (ht : Turn es s s') : s'.Vouched (ds ++ es) := by
  have h' := h.append es
  cases ht with
  | calm ht => exact h'.tended ht.tended h'.jobs
  | vain _ _ _ _ ht | reset _ _ _ _ ht | lapse _ _ _ _ ht => exact h'.tended ht h'.jobs
  | fill _ _ _ _ _ _ ht | fail _ _ _ _ ht | release _ _ _ _ ht => exact h'.tended ht h'.jobs
  | ask _ _ _ _ _ ht =>
    refine h'.tended ht fun job hj ↦ ?_
    rcases List.mem_cons.mp hj with rfl | hj
    · exact ⟨s, by rw [Deeds.asks_append]; exact List.mem_append_right _ List.mem_cons_self⟩
    · exact h'.jobs job hj
  | take hp => exact h'.take hp rfl
  | advance hp hs =>
    exact h'.advance hp rfl fun r hr content he ↦ absurd he (hs r hr content)
  | find hp hr hu hs =>
    refine h'.advance hp rfl fun r hr' content he ↦ ?_
    obtain rfl := Option.some.inj ((Option.mem_def.mp hr').symm.trans hr)
    cases hs.symm.trans he
    have working : (r.job.request, r.job.urls, r.stage) ∈ s.works := by
      rw [works_of_loader hp]
      exact List.mem_map.mpr ⟨r, List.mem_of_getElem? hr, rfl⟩
    obtain ⟨⟨σ, asked⟩, left, -⟩ := h'.works _ working
    exact ⟨_, σ, _, s, asked, left (List.mem_of_mem_head? hu),
      List.mem_append_right _ (List.mem_singleton_self _)⟩

end loader

section record

/-- The content was in the cache under the url, or the provider served it for the url. -/
def Offers (s : Scene) (url : String) (content : Content) : Prop :=
  (s.cache.get s.held url).1 = some content ∨ ∃ p bytes, s.loader = some p ∧
    p.provider.fetch url = .ok bytes ∧ content.url = url ∧ content.bytes = bytes

/-- The record by itself: urls are those of the node, content is what was offered, and answers are
those to the last request of a node that waits, once for each request. -/
structure Honest (ds : Deeds) : Prop where
  asked : ∀ {r urls σ}, (r, urls, σ) ∈ ds.asks →
    ∃ n, σ.node? r.node = some n ∧ urls = Scene.urls n
  found : ∀ {r url content τ}, (.find r url content, τ) ∈ ds → τ.Offers url content
  answered : ∀ {i c σ}, ds[i]? = some (.answer c, σ) → σ.awaits c ∧
    ∃ urls τ, Deeds.latest? (ds.take i) c.request.node = some (c.request, urls, τ)
  unrepeated : (ds.answers.map Completion.request).Nodup

theorem Turn.offers {url : String} {content : Content} {τ : Scene} (h : Turn es s s')
    (hf : (.find r url content, τ) ∈ es) : τ.Offers url content := by
  cases h with
  | calm | vain | reset | lapse | take | advance => cases hf
  | ask | fill | fail | release => cases List.mem_singleton.mp hf
  | find hp hr hu hs =>
    cases List.mem_singleton.mp hf
    obtain ⟨url', hu', source⟩ := Run.url?_of_loaded hs
    cases hu.symm.trans hu'
    rcases source with cached | ⟨bytes, served, hc⟩
    · exact .inl cached
    · exact .inr ⟨_, bytes, hp, served, hc⟩

theorem Booked.latest (hb : s.Booked ds) (ha : s.awaits c) :
    ∃ urls τ, ds.latest? c.request.node = some (c.request, urls, τ) := by
  obtain ⟨slot, hl, same, loading⟩ := slot?_of_awaits ha
  obtain ⟨urls, τ, latest⟩ := (hb.slots hl).waiting loading
  exact ⟨urls, τ, by rw [latest, same]⟩

/-- What a turn answers is waited for, and it is the last request of its node. -/
theorem Turn.latest (h : Turn es s s') (hb : s.Booked ds) {i : Nat} {σ : Scene}
    (hi : es[i]? = some (.answer c, σ)) : i = 0 ∧ σ.awaits c ∧
      ∃ urls τ, ds.latest? c.request.node = some (c.request, urls, τ) := by
  rcases h.single with rfl | ⟨d, rfl⟩
  · cases hi
  · obtain ⟨hlt, he⟩ := List.getElem?_eq_some_iff.mp hi
    obtain rfl : i = 0 := Nat.lt_one_iff.mp hlt
    cases he
    have ha : s.awaits c := h.awaits (List.mem_singleton_self c)
    exact ⟨rfl, ha, hb.latest ha⟩

theorem Honest.turn (hd : Honest ds) (hb : s.Booked ds) (h : Turn es s s') :
    Honest (ds ++ es) where
  asked {r urls σ} ha := by
    rw [Deeds.asks_append] at ha
    rcases List.mem_append.mp ha with ha | ha
    · exact hd.asked ha
    · obtain ⟨rfl, -, n, slot, hn, -, -, hu⟩ := h.asked ha
      exact ⟨n, hn, hu⟩
  found hf := by
    rcases List.mem_append.mp hf with hf | hf
    · exact hd.found hf
    · exact h.offers hf
  answered {i c σ} hi := by
    rcases Nat.lt_or_ge i ds.length with lt | ge
    · rw [List.getElem?_append_left lt] at hi
      rw [List.take_append_of_le_length (Nat.le_of_lt lt)]
      exact hd.answered hi
    · rw [List.getElem?_append_right ge] at hi
      obtain ⟨first, latest⟩ := h.latest hb hi
      obtain rfl : i = ds.length := by omega
      rwa [List.take_left]
  unrepeated := by
    rw [Deeds.answers_append, List.map_append, List.nodup_append]
    refine ⟨hd.unrepeated, ?_, fun r hr r' hr' he ↦ ?_⟩
    · rcases h.single with rfl | ⟨d, rfl⟩
      · exact List.nodup_nil
      · cases d <;> simp [Deeds.answers, Deed.answer?]
    · obtain ⟨c, hc, rfl⟩ := List.mem_map.mp hr
      obtain ⟨c', hc', rfl⟩ := List.mem_map.mp hr'
      have passed : s.Over c'.request := he ▸ hb.answered hc
      cases passed.not_awaits.symm.trans (h.awaits hc')

end record

end Scene

end SceneGraph
