import SceneGraph.Proofs.Booking

/-!
The requests of a run. Operations on a scene and the work of its loader come in any order; still, a
node only takes the answer to its last request, and only while it waits.
-/

namespace SceneGraph

namespace Scene

/-- What happens between two moments at which the tables of a scene agree: turns, the removal of a
space, or the taking of the journal. The parts of a tick are turns as well as whole operations. -/
inductive Goes : Deeds → Scene → Scene → Prop
  | turns {ds s s'} (h : Turns s ds s') (hc : s'.Coherent [] none) : Goes ds s s'
  | removeSpace {s s' sp} (h : s.removeSpace sp = .ok s') : Goes [] s s'
  | takeJournal (s) : Goes [] s s.takeJournal.2

/-- A run led from a new scene to this one. The first list is the record of the run, the second
the completions that were posted before its last step; only such are applied. -/
inductive Ran : Deeds → List Completion → Scene → Prop
  | new {catalog settings s} (built : ∀ t ∈ catalog.types, t.Built)
      (h : Scene.new catalog settings = .ok s) : Ran [] [] s
  | step {ds es seen s s'} (h : Ran ds seen s) (hs : Goes es s s')
      (posted : Deeds.answers es ⊆ seen ++ s.posted) : Ran (ds ++ es) (seen ++ s.posted) s'

/-- A run may lead from the first scene to the second. -/
inductive Later (s : Scene) : Deeds → Scene → Prop
  | refl : Later s [] s
  | step {t s' ds es} (h : Later s ds t) (hs : Goes es t s') : Later s (ds ++ es) s'

/-- However a run goes on, the request is not answered. -/
def Forsaken (s : Scene) (r : Request) : Prop :=
  ∀ es s', Later s es s' → ∀ c ∈ Deeds.answers es, c.request ≠ r

variable {s s' t : Scene} {guest : Option SpaceId} {id : NodeId} {n : Node} {slot : LoadSlot}
  {ds es : Deeds} {seen : List Completion} {r : Request} {c : Completion} {index : Nat} {v : Value}

section steps

theorem Goes.coherent (h : s.Coherent [] none) (hs : Goes es s s') : s'.Coherent [] none := by
  cases hs with
  | turns _ hc => exact hc
  | removeSpace hr => exact h.removeSpace hr
  | takeJournal => exact h.congr rfl rfl rfl rfl fun _ hp ↦ hp

theorem Proceeds.goes {cs : List Completion} (hp : Proceeds cs s s') (hc : s'.Coherent [] none) :
    ∃ es, Goes es s s' ∧ Deeds.answers es = cs := by
  obtain ⟨es, turns, rfl⟩ := hp
  exact ⟨es, .turns turns hc, rfl⟩

theorem Proceeds.goes_of_posted {cs : List Completion} (hp : Proceeds cs s s')
    (hc : s'.Coherent [] none) (posted : cs ⊆ s.posted) :
    ∃ es, Goes es s s' ∧ Deeds.answers es ⊆ s.posted := by
  obtain ⟨es, goes, rfl⟩ := hp.goes hc
  exact ⟨es, goes, posted⟩

/-- A run goes on with any operation but a state that is set by hand. -/
theorem Step.goes (h : s.Coherent [] none) (hs : Step s s') :
    (∃ id state, state ≠ .notLoaded ∧ s.setLoadState id state = (.ok (), s')) ∨
      ∃ es, Goes es s s' ∧ Deeds.answers es ⊆ s.posted := by
  have hc := h.step hs
  rcases hs.proceeds h with rfl | ⟨id, state, rfl⟩ | ⟨sp, hr, -⟩ | ⟨cs, hp, posted⟩
  · exact .inr ⟨[], .takeJournal s, List.nil_subset _⟩
  · by_cases reset : state = .notLoaded
    · subst reset
      exact .inr ((Proceeds.reset h id).goes_of_posted hc (List.nil_subset _))
    · rcases setLoadState_cases h id state with ⟨e, he⟩ |
        ⟨n, slot, field, t, -, -, -, -, -, ⟨hs, -⟩ | ⟨-, he⟩⟩
      · rw [he]
        exact .inr ((Proceeds.refl s).goes_of_posted h (List.nil_subset _))
      · exact absurd hs reset
      · exact .inl ⟨id, state, reset, he ▸ he⟩
  · exact .inr ⟨[], .removeSpace hr, List.nil_subset _⟩
  · exact .inr (hp.goes_of_posted hc posted)

theorem Turns.over (h : Turns s es s') (ho : s.Over r) :
    s'.Over r ∧ ∀ c ∈ Deeds.answers es, c.request ≠ r := by
  induction h with
  | refl => exact ⟨ho, nofun⟩
  | step _ ht ih =>
    obtain ⟨passed, unanswered⟩ := ih
    refine ⟨ht.over passed, fun c hc he ↦ ?_⟩
    rw [Deeds.answers_append] at hc
    rcases List.mem_append.mp hc with hc | hc
    · exact unanswered c hc he
    · subst he
      cases passed.not_awaits.symm.trans (ht.awaits hc)

theorem Proceeds.over {cs : List Completion} (h : Proceeds cs s s') (ho : s.Over r) :
    s'.Over r := by
  obtain ⟨ds, turns, -⟩ := h
  exact (turns.over ho).1

theorem Goes.over (h : s.Coherent [] none) (hs : Goes es s s') (ho : s.Over r) :
    s'.Over r ∧ ∀ c ∈ Deeds.answers es, c.request ≠ r := by
  cases hs with
  | turns turns => exact turns.over ho
  | removeSpace hr =>
    have calm := Calm.removeSpace h hr
    exact ⟨calm.shifted.over ho, nofun⟩
  | takeJournal => exact ⟨ho.takeJournal, nofun⟩

/-- A request that is over stays so, and is not answered. -/
theorem Over.forsaken (h : s.Coherent [] none) (ho : s.Over r) : s.Forsaken r := by
  intro es s' later
  have kept : s'.Coherent [] none ∧ s'.Over r ∧ ∀ c ∈ Deeds.answers es, c.request ≠ r := by
    induction later with
    | refl => exact ⟨h, ho, nofun⟩
    | step _ hs ih =>
      obtain ⟨coherent, passed, unanswered⟩ := ih
      obtain ⟨passed', unanswered'⟩ := hs.over coherent passed
      refine ⟨hs.coherent coherent, passed', fun c hc ↦ ?_⟩
      rw [Deeds.answers_append] at hc
      rcases List.mem_append.mp hc with hc | hc
      · exact unanswered c hc
      · exact unanswered' c hc
  exact kept.2.2

end steps

section abandoning

theorem Made.over (h : s.Made r)
    (done : ∀ {slot}, s.slot? r.node = some slot → slot.state ≠ .loading) : s.Over r :=
  ⟨h, fun hs _ ↦ done hs⟩

theorem Over.orWarn {a : Attempt} (h : a.2.Over r) (text : String) : (orWarn text a).Over r := by
  obtain ⟨e | _, u⟩ := a
  · have warned : Calm [] u (u.warn text (some e)) := .report ..
    exact warned.shifted.over h
  · exact h

/-- A node that is sent back to the beginning waits for nothing. -/
theorem Made.over_reset (h : s.Coherent [] guest) (hm : s.Made r) :
    (s.setLoadState r.node .notLoaded).2.Over r := by
  rcases setLoadState_cases h r.node .notLoaded with ⟨e, he⟩ |
    ⟨n, slot, field, u, hn, hl, hu, hc, entered, ⟨-, -, he, -⟩ | ⟨-, he⟩⟩
  · rw [he]
    refine hm.over fun {slot} hs hw ↦ ?_
    -- a node that waits can be sent back
    obtain ⟨n, field, u, -, he'⟩ := setLoadState_reset_of_loading h hs hw
    cases (Prod.mk.inj (he.symm.trans he')).1
  · rw [he]
    exact Turned.over_self (slot?_of_load hn hl) entered.turned (.inr ⟨rfl, nofun⟩) hm
  · rw [he]
    have turned : Turned r.node (slot.enter .notLoaded) [.notLoaded] s _ :=
      entered.turned.emit r.node field .notLoaded
    exact Turned.over_self (slot?_of_load hn hl) turned (.inr ⟨rfl, nofun⟩) hm

theorem Made.over_urlChanged (h : s.Coherent [] guest) (hm : s.Made r) :
    (s.urlChanged r.node).Over r := by
  unfold Scene.urlChanged
  dsimp only
  split
  · have reset := (hm.over_reset h).orWarn "Could not reset load state."
    exact (Proceeds.autoLoad (Edited.orWarn (Edited.setLoadState h _) _).coherent r.node).over
      reset
  · next idle =>
    refine (Proceeds.autoLoad h r.node).over (hm.over fun hs hw ↦ idle ?_)
    obtain ⟨n, hn, hl⟩ := slot?_eq_some.mp hs
    rw [hn, Option.bind_some, Node.loadState?, hl, Option.map_some, hw]
    rfl

theorem Made.over_loadSwitched (h : s.Coherent [] guest) (hm : s.Made r)
    (off : ∀ n, s.node? r.node = some n →
      (n.values[index]?).bind Value.asBool? = some false) :
    (s.loadSwitched r.node index).Over r := by
  unfold Scene.loadSwitched
  split
  · next hn =>
    refine hm.over fun hs ↦ ?_
    obtain ⟨n, hn', -⟩ := slot?_eq_some.mp hs
    cases hn.symm.trans hn'
  next n hn =>
  rw [off n hn]
  split
  · next on => cases on
  split
  · exact (hm.over_reset h).orWarn "Could not unload content."
  · next idle =>
    refine hm.over fun hs hw ↦ idle ?_
    obtain ⟨n', hn', hl⟩ := slot?_eq_some.mp hs
    cases hn.symm.trans hn'
    rw [Node.loadState?, hl, Option.map_some, hw]
    decide

theorem applyCapabilities_named {type : NodeType} (built : type.Built) {name : String}
    (hi : type.table.indexOf? name = some index) (hn : name = "url" ∨ name = "load") :
    s.applyCapabilities id type index = s.applyLoadable id type index := by
  obtain ⟨notAdded, notRemoved⟩ := built.children_input_ne hi hn
  unfold Scene.applyCapabilities
  split
  · rw [if_neg notAdded, if_neg notRemoved]
  · rfl

theorem Made.over_applyLoadable {type : NodeType} (h : s.Coherent [] guest) (hm : s.Made r)
    (hu : type.url?.isSome) (hi : type.url? = some index ∨ type.table.indexOf? "load" = some index ∧
      ∀ n, s.node? r.node = some n → (n.values[index]?).bind Value.asBool? = some false) :
    (s.applyLoadable r.node type index).Over r := by
  unfold Scene.applyLoadable
  split
  · exact hm.over_urlChanged h
  next other =>
  obtain ⟨hi, off⟩ := hi.resolve_left other
  rw [if_pos ⟨hu, hi⟩]
  exact hm.over_loadSwitched h off

theorem getElem?_store {name : String} (h : s.Coherent [] guest) (hn : s.node? id = some n)
    (hi : n.type.table.indexOf? name = some index) :
    (n.store index v).values[index]? = some v := by
  have inside : index < n.values.length := by
    rw [(h.sound hn).values.length]
    exact (List.findIdx?_eq_some_iff_getElem.mp hi).1
  exact List.getElem?_set_self inside

/-- New urls, or a load that is switched off, make the node let go of its requests. -/
theorem Made.over_setValue (h : s.Coherent [] guest) (hm : s.Made r)
    (hn : s.node? r.node = some n) (out : n.inSetup = false)
    (hi : n.type.url? = some index ∨
      n.type.table.indexOf? "load" = some index ∧ v.asBool? = some false)
    (hs : s.setValue r.node index v = .ok s') : s'.Over r := by
  cases hu : n.type.url? with
  | none =>
    refine (Proceeds.setValue h hs).over (hm.over fun hs' ↦ ?_)
    obtain ⟨m, hm, hl⟩ := slot?_eq_some.mp hs'
    cases hn.symm.trans hm
    obtain ⟨field, hu'⟩ := exists_url_of_slot h hn hl
    cases hu.symm.trans hu'
  | some field =>
  obtain ⟨n', hn', ⟨hi', -⟩ | ⟨-, marked, rfl⟩⟩ := Edited.setValue_stages h hs
  · cases hn.symm.trans hn'
    cases out.symm.trans hi'
  cases hn.symm.trans hn'
  let s₁ := (s.modifyNode r.node fun n ↦ n.store index v).markChanged r.node index
  have stored : Calm [] s (s.modifyNode r.node fun n ↦ n.store index v) :=
    .modifyNode fun _ _ ↦ rfl
  have changed : Calm [] s s₁ := stored.trans (.markChanged _ r.node index)
  have named : ∃ name, n.type.table.indexOf? name = some index ∧
      (name = "url" ∨ name = "load") := by
    rcases hi with hi | ⟨hi, -⟩
    · exact ⟨_, NodeType.indexOf?_of_url? hi, .inl rfl⟩
    · exact ⟨_, hi, .inr rfl⟩
  obtain ⟨name, hname, hnamed⟩ := named
  have passed : (s₁.applyCapabilities r.node n.type index).Over r := by
    rw [applyCapabilities_named (h.sound hn).built hname hnamed]
    refine (changed.shifted.made hm).over_applyLoadable marked.coherent (by rw [hu]; rfl)
      (hi.imp_right fun ⟨hi, off⟩ ↦ ⟨hi, fun m hm ↦ ?_⟩)
    have self : s₁.node? r.node =
        some { n.store index v with changed := n.changed.set index true } :=
      node?_modifyNode_self _ _ _ (node?_modifyNode_self _ _ _ hn)
    cases self.symm.trans hm
    exact (congrArg (·.bind Value.asBool?) (getElem?_store h hn hi)).trans off
  have performed : Calm [] (s₁.applyCapabilities r.node n.type index)
      ((s₁.applyCapabilities r.node n.type index).perform r.node fun b ↦ b.fieldChanged index) :=
    .perform ..
  exact performed.shifted.over passed

end abandoning

section run

theorem Turns.book (h : Turns s es s') (hb : s.Booked ds) (hv : s.Vouched ds) (hd : Honest ds)
    (found : ∀ c ∈ Deeds.answers es, ∀ content, c.outcome = .loaded content →
      ds.Found c.request content) :
    s'.Booked (ds ++ es) ∧ s'.Vouched (ds ++ es) ∧ Honest (ds ++ es) := by
  induction h with
  | refl =>
    rw [List.append_nil]
    exact ⟨hb, hv, hd⟩
  | @step t s' es es' _ ht ih =>
    rw [Deeds.answers_append] at found
    obtain ⟨hb, hv, hd⟩ := ih fun c hc ↦ found c (List.mem_append_left _ hc)
    rw [← List.append_assoc]
    refine ⟨hb.turn ht fun c hc content ho ↦ ?_, hv.turn ht, hd.turn hb ht⟩
    exact (found c (List.mem_append_right _ hc) content ho).append es

/-- The record of a run, the scene and what was posted agree. -/
structure Kept (ds : Deeds) (seen : List Completion) (s : Scene) : Prop where
  coherent : s.Coherent [] none
  booked : s.Booked ds
  vouched : s.Vouched ds
  honest : Honest ds
  found : ∀ c ∈ seen, ∀ content, c.outcome = .loaded content → ds.Found c.request content

theorem Kept.start {catalog : Catalog} (built : ∀ t ∈ catalog.types, t.Built)
    (settings : Settings) : Kept [] [] (start catalog settings) where
  coherent := coherent_start built settings
  booked := ⟨nofun, .nil, nofun, fun {id slot} hs ↦ by
    rw [slot?, node?_start] at hs
    cases hs⟩
  vouched := ⟨nofun, nofun, nofun⟩
  honest := ⟨nofun, nofun, nofun, .nil⟩
  found := nofun

theorem Kept.goes (h : Kept ds seen s) (hs : Goes es s s')
    (posted : Deeds.answers es ⊆ seen ++ s.posted) : Kept (ds ++ es) (seen ++ s.posted) s' := by
  -- the loader forgets what it hands over, so `found` keeps it
  have found : ∀ c ∈ seen ++ s.posted, ∀ content, c.outcome = .loaded content →
      ds.Found c.request content := by
    intro c hc
    rcases List.mem_append.mp hc with hc | hc
    · exact h.found c hc
    · exact h.vouched.posted c hc
  have found' : ∀ c ∈ seen ++ s.posted, ∀ content, c.outcome = .loaded content →
      Deeds.Found (ds ++ es) c.request content :=
    fun c hc content ho ↦ (found c hc content ho).append es
  have coherent := hs.coherent h.coherent
  cases hs with
  | turns turns =>
    obtain ⟨booked, vouched, honest⟩ :=
      turns.book h.booked h.vouched h.honest fun c hc ↦ found c (posted hc)
    exact ⟨coherent, booked, vouched, honest, found'⟩
  | removeSpace hr =>
    rw [List.append_nil] at found' ⊢
    have calm := Calm.removeSpace h.coherent hr
    exact ⟨coherent, h.booked.calm calm, h.vouched.tended calm.tended h.vouched.jobs, h.honest,
      found'⟩
  | takeJournal =>
    rw [List.append_nil] at found' ⊢
    exact ⟨coherent, h.booked.takeJournal, h.vouched.tended (.of_loader rfl) h.vouched.jobs,
      h.honest, found'⟩

theorem Ran.kept (h : Ran ds seen s) : Kept ds seen s := by
  induction h with
  | new built h =>
    obtain ⟨⟨⟩, -, h⟩ := bind_eq_ok.mp h
    cases h
    exact .start built _
  | step _ hs posted ih => exact ih.goes hs posted

end run

end Scene

end SceneGraph
