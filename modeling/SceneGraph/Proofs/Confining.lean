import Mathlib
import SceneGraph.Proofs.Spreading

/-!
A cascade stays in the space that its changes come from. Routes do not leave their space, and what
else a node does when a value comes in is done to the node itself. A content that goes takes its
space down, which is below that of the node.
-/

namespace SceneGraph

/-- The node that an event is about. -/
def Event.subject? : Event → Option NodeId
  | .fieldChanged id _ | .loadState id _ _ | .contentReady id _ => some id
  | .tickFinished .. => none

theorem Journal.mem_changes {js : Journal} {id : NodeId} {i : Nat} :
    (id, i) ∈ js.changes ↔ .event (.fieldChanged id i) ∈ js := by
  rw [changes, List.mem_filterMap]
  constructor
  · rintro ⟨entry, hm, he⟩
    rcases entry with (_ | _ | _ | _) | _ | _ <;> cases he
    exact hm
  · intro hm
    exact ⟨_, hm, rfl⟩

namespace Scene

variable {s s' t : Scene} {guest : Option SpaceId} {id k : NodeId} {n m : Node} {sp p q c : SpaceId}
  {x y : Space} {js js' : Journal} {index field : Nat} {state : LoadState}

@[simp] theorem subject_loadEvent (id : NodeId) (field : Nat) (state : LoadState) :
    (loadEvent id field state).subject? = some id := by
  cases state <;> rfl

/-- From the first scene to the second, all events are about one node. -/
def Speaks (id : NodeId) (s s' : Scene) : Prop :=
  ∃ js, s'.journal = s.journal ++ js ∧ ∀ e, .event e ∈ js → e.subject? = some id

namespace Speaks

theorem of_journal (h : s'.journal = s.journal) : Speaks id s s' :=
  ⟨[], by rw [h, List.append_nil], by simp⟩

theorem trans (h : Speaks id s t) (h' : Speaks id t s') : Speaks id s s' := by
  obtain ⟨js, hj, hs⟩ := h
  obtain ⟨js', hj', hs'⟩ := h'
  refine ⟨js ++ js', by rw [hj', hj, List.append_assoc], fun e he ↦ ?_⟩
  exact (List.mem_append.mp he).elim (hs e) (hs' e)

theorem report (severity : Severity) (text : String) (cause : Option Error) :
    Speaks id s (s.report severity text cause) :=
  ⟨[.report ⟨severity, text, cause⟩], rfl, by simp⟩

theorem event {e : Event} (h : e.subject? = some id) : Speaks id s (s.emit e) := by
  refine ⟨[.event e], rfl, fun e' he ↦ ?_⟩
  cases List.mem_singleton.mp he
  exact h

theorem notes (texts : List String) : Speaks id s (s.log (texts.map .note)) :=
  ⟨texts.map .note, rfl, by simp⟩

theorem modifyNode (f : Node → Node) : Speaks id s (s.modifyNode k f) :=
  of_journal (journal_modifyNode ..)

theorem setLoadState (hs : state ≠ .notLoaded) : Speaks id s (s.setLoadState id state).2 := by
  unfold Scene.setLoadState
  split
  · exact of_journal rfl
  split
  · exact of_journal rfl
  dsimp only
  split
  · exact of_journal rfl
  exact (of_journal ((journal_cancel ..).trans (journal_modifyNode ..))).trans
    (event (subject_loadEvent ..))

theorem requestLoad : Speaks id s (s.requestLoad id).2 := by
  have loading : Speaks id s (s.setLoadState id .loading).2 := setLoadState (by decide)
  unfold Scene.requestLoad
  split
  · exact of_journal rfl
  split
  · next he => rwa [he] at loading
  next t he =>
  rw [he] at loading
  have failed (text : String) : Speaks id s ((t.warn text none).setLoadState id .failed).2 :=
    (loading.trans (report ..)).trans (setLoadState (by decide))
  split
  · exact failed _
  split
  · exact failed _
  · exact loading.trans (modifyNode _)

theorem autoLoad : Speaks id s (s.autoLoad id) := by
  have requested : Speaks id s (s.requestLoad id).2 := requestLoad
  unfold Scene.autoLoad
  split
  · unfold orWarn
    split
    · next he => rwa [he] at requested
    · next he =>
      rw [he] at requested
      exact requested.trans (report ..)
  · exact of_journal rfl

theorem markChanged : Speaks id s (s.markChanged id index) :=
  (modifyNode _).trans (event (s := { s.modifyNode id _ with pending := _ }) rfl)

theorem perform (script : Behavior → Script) : Speaks id s (s.perform id script) := by
  unfold Scene.perform
  split
  · exact of_journal rfl
  have written (f : Node → Node) (texts : List String) :
      Speaks id s ((s.modifyNode id f).log (texts.map .note)) := (modifyNode f).trans (notes texts)
  dsimp only
  split
  · exact written ..
  · exact List.foldlRecOn _ _ (motive := fun t ↦ Speaks id s t) (written ..)
      fun t ht i _ ↦ ht.trans markChanged

theorem editChildren (input children : Nat) (edit : List NodeId → List NodeId → List NodeId) :
    Speaks id s (s.editChildren id input children edit) := by
  unfold Scene.editChildren
  split
  · exact of_journal rfl
  dsimp only
  split
  · exact of_journal rfl
  split
  · exact modifyNode _
  · exact (modifyNode _).trans markChanged

end Speaks

/-- The node lives in the space. -/
def Lodges (s : Scene) (sp : SpaceId) (id : NodeId) : Prop :=
  ∃ n, s.node? id = some n ∧ n.space = sp

/-- The second space is the first one or below it. -/
def Beneath (s : Scene) : SpaceId → SpaceId → Prop :=
  Relation.ReflTransGen fun p q ↦ s.IsBelow q p

/-- The space was the content of an inline node in `sp` that was heard to go back to the
beginning. -/
def Unloaded (s : Scene) (sp : SpaceId) (js : Journal) (c : SpaceId) : Prop :=
  ∃ x id field, s.space? c = some x ∧ x.kind = .inline ∧ x.parent = some sp ∧ x.owner = some id ∧
    s.Lodges sp id ∧ .event (.loadState id field .notLoaded) ∈ js

/-- What was done from the first scene to the second, with the entries `js`, was done in the
space `sp`. -/
structure Confined (sp : SpaceId) (js : Journal) (s s' : Scene) : Prop where
  coherent : s'.Coherent [] none
  home : ∀ {x}, s.space? sp = some x → ∃ cs, s'.space? sp = some { x with children := cs }
  own : ∀ {id n}, s.node? id = some n → n.space = sp →
    ∃ m, s'.node? id = some m ∧ m.type = n.type ∧ m.space = sp
  space : ∀ {q x}, s.space? q = some x → q ≠ sp →
    (∃ cs, s'.space? q = some { x with children := cs }) ∨
      ∃ c, s.Unloaded sp js c ∧ s.Beneath c q ∧ s'.space? c = none
  /-- A space is destroyed with all that is below it. -/
  whole : ∀ {p q}, s.Beneath p q → s'.space? p = none → s'.space? q = none
  node : ∀ {id n}, s.node? id = some n → n.space ≠ sp →
    s'.node? id = some n ∨ s'.node? id = none ∧ s'.space? n.space = none
  oldSpace : ∀ {q y}, s'.space? q = some y →
    ∃ x, s.space? q = some x ∧ y = { x with children := y.children }
  oldNode : ∀ {id m}, s'.node? id = some m → ∃ n, s.node? id = some n ∧ m.space = n.space
  queue : ∀ {id i}, (id, i) ∈ s'.pending → (id, i) ∈ s.pending ∨ s.Lodges sp id
  journal : s'.journal = s.journal ++ js
  events : ∀ {e}, .event e ∈ js → ∃ id, e.subject? = some id ∧ s.Lodges sp id

/-- A space that is there has its parent. -/
theorem Coherent.razed_of_parent (h : s'.Coherent [] guest) (old : ∀ {q y}, s'.space? q = some y →
      ∃ x, s.space? q = some x ∧ y.parent = x.parent)
    (hb : s.Beneath p q) (gone : s'.space? p = none) : s'.space? q = none := by
  induction hb with
  | refl => exact gone
  | @tail p' q' hb hq ih =>
    obtain ⟨x, hx, hp⟩ := hq
    rw [Option.eq_none_iff_forall_ne_some]
    intro y hy
    obtain ⟨z, hz, he⟩ := old hy
    cases hx.symm.trans hz
    have parent : y.parent = some p' := he.trans hp
    have hm : q' ≠ .main := by
      rintro rfl
      obtain ⟨w, hw, top, -⟩ := h.rooted.main
      cases hw.symm.trans hy
      cases top.symm.trans parent
    obtain ⟨p'', hp'', -, hd | ⟨w, hw, -⟩⟩ := h.rooted.below hy hm
    · cases hd
    · cases parent.symm.trans hp''
      cases ih.symm.trans hw

theorem Coherent.razed (h : s'.Coherent [] guest) (old : ∀ {q y}, s'.space? q = some y →
      ∃ x, s.space? q = some x ∧ y = { x with children := y.children })
    (hb : s.Beneath p q) (gone : s'.space? p = none) : s'.space? q = none := by
  refine h.razed_of_parent (fun {q y} hy ↦ ?_) hb gone
  obtain ⟨x, hx, he⟩ := old hy
  exact ⟨x, hx, by rw [he]⟩

namespace Edited

variable (h : Edited guest id s s')

include h

theorem oldNode (hm : s'.node? k = some m) : ∃ n, s.node? k = some n ∧ m.space = n.space := by
  by_cases hk : k = id
  · subst hk
    have self := h.self
    rw [hm] at self
    obtain ⟨n, hn, he⟩ := Option.map_eq_some_iff.mp self.symm
    exact ⟨n, hn, (congrArg Prod.snd he).symm⟩
  · exact ⟨m, h.node hk hm, rfl⟩

theorem own (hid : s.Lodges sp id) (hn : s.node? k = some n) (hs : n.space = sp) :
    ∃ m, s'.node? k = some m ∧ m.type = n.type ∧ m.space = sp := by
  obtain ⟨o, ho, rfl⟩ := hid
  by_cases hk : k = id
  · subst hk
    obtain ⟨m, hm, ht, he⟩ := h.exists_self hn
    exact ⟨m, hm, ht, he.trans hs⟩
  · exact ⟨n, h.spared ho hk hn (Nat.le_of_eq (congrArg _ hs)), rfl, hs⟩

theorem queued (hs : Speaks id s s') {i : Nat} (hp : (k, i) ∈ s'.pending) :
    (k, i) ∈ s.pending ∨ k = id := by
  obtain ⟨js, hj, hs⟩ := hs
  obtain ⟨js', hj', hq⟩ := h.queue
  cases List.append_cancel_left (hj.symm.trans hj')
  rw [hq] at hp
  refine (List.mem_append.mp (List.mem_filter.mp hp).1).imp_right fun hc ↦ ?_
  exact Option.some.inj (hs _ (Journal.mem_changes.mp hc))

end Edited

namespace Confined

/-- Work beside the tables that announces nothing. It may shorten the queue. -/
theorem aside (h : s.Coherent [] none) (nodes : s'.nodes = s.nodes) (spaces : s'.spaces = s.spaces)
    (sensors : s'.sensors = s.sensors) (catalog : s'.catalog = s.catalog)
    (pending : ∀ p ∈ s'.pending, p ∈ s.pending) (journal : s'.journal = s.journal ++ js)
    (silent : ∀ e, .event e ∉ js) : Confined sp js s s' where
  coherent := h.congr nodes spaces sensors catalog pending
  home {x} hx := ⟨x.children, by rw [space?_congr spaces, hx]⟩
  own {id n} hn hs := ⟨n, by rw [node?_congr nodes, hn], rfl, hs⟩
  space {q x} hx _ := .inl ⟨x.children, by rw [space?_congr spaces, hx]⟩
  whole := (h.congr nodes spaces sensors catalog pending).razed fun {q y} hy ↦
    ⟨y, by rw [← space?_congr spaces, hy], rfl⟩
  node hn _ := .inl (by rw [node?_congr nodes, hn])
  oldSpace {q y} hy := ⟨y, by rw [← space?_congr spaces, hy], rfl⟩
  oldNode {id m} hm := ⟨m, by rw [← node?_congr nodes, hm], rfl⟩
  queue hp := .inl (pending _ hp)
  journal := journal
  events he := absurd he (silent _)

theorem refl (h : s.Coherent [] none) : Confined sp [] s s :=
  aside h rfl rfl rfl rfl (fun _ ↦ id) (List.append_nil _).symm (by simp)

theorem report (h : s.Coherent [] none) (severity : Severity) (text : String)
    (cause : Option Error) :
    Confined sp [.report ⟨severity, text, cause⟩] s (s.report severity text cause) :=
  aside h rfl rfl rfl rfl (fun _ ↦ id) rfl (by simp)

/-- Work on a node of the space that keeps all spaces. -/
theorem of_edited (h : s.Coherent [] none) (hid : s.Lodges sp id) (edited : Edited none id s s')
    (spaces : s'.spaces = s.spaces) (speaks : Speaks id s s') : ∃ js, Confined sp js s s' := by
  have said := speaks
  obtain ⟨js, hj, hs⟩ := said
  have same (q : SpaceId) : s'.space? q = s.space? q := space?_congr spaces q
  exact ⟨js, {
    coherent := edited.coherent
    home := fun {x} hx ↦ ⟨x.children, (same sp).trans hx⟩
    own := edited.own hid
    space := fun {q x} hx _ ↦ .inl ⟨x.children, (same q).trans hx⟩
    whole := edited.coherent.razed edited.space
    node := by
      intro k n hn hne
      refine .inl ?_
      have hk : k ≠ id := by
        rintro rfl
        obtain ⟨o, ho, he⟩ := hid
        cases hn.symm.trans ho
        exact hne he
      cases hm : s'.node? k with
      | none =>
        have gone := (node?_eq_none_iff_of_space? h edited.coherent same k).mp hm
        cases gone.symm.trans hn
      | some m => exact (edited.node hk hm).symm.trans hn
    oldSpace := edited.space
    oldNode := edited.oldNode
    queue := fun hp ↦ (edited.queued speaks hp).imp_right fun hk ↦ by
      rw [hk]
      exact hid
    journal := hj
    events := fun he ↦ ⟨id, hs _ he, hid⟩ }⟩

section trans

variable (h : Confined sp js s t) (h' : Confined sp js' t s')

include h

theorem lodges (hid : s.Lodges sp id) : t.Lodges sp id := by
  obtain ⟨n, hn, hs⟩ := hid
  obtain ⟨m, hm, -, hms⟩ := h.own hn hs
  exact ⟨m, hm, hms⟩

theorem of_lodges (hid : t.Lodges sp id) : s.Lodges sp id := by
  obtain ⟨m, hm, hs⟩ := hid
  obtain ⟨n, hn, he⟩ := h.oldNode hm
  exact ⟨n, hn, he.symm.trans hs⟩

theorem of_beneath (hb : t.Beneath p q) : s.Beneath p q := by
  refine Relation.ReflTransGen.mono (fun a b hab ↦ ?_) _ _ hb
  obtain ⟨y, hy, hp⟩ := hab
  obtain ⟨x, hx, he⟩ := h.oldSpace hy
  exact ⟨x, hx, by rw [← hp, he]⟩

theorem gone (hq : s.space? q = none) : t.space? q = none := by
  rw [Option.eq_none_iff_forall_ne_some]
  intro y hy
  obtain ⟨x, hx, -⟩ := h.oldSpace hy
  cases hq.symm.trans hx

theorem of_unloaded (hc : t.Unloaded sp js' c) : s.Unloaded sp (js ++ js') c := by
  obtain ⟨y, id, field, hy, kind, parent, owner, hid, he⟩ := hc
  obtain ⟨x, hx, hxy⟩ := h.oldSpace hy
  rw [hxy] at kind parent owner
  exact ⟨x, id, field, hx, kind, parent, owner, h.of_lodges hid, List.mem_append_right _ he⟩

include h'

theorem old {y : Space} (hy : s'.space? q = some y) :
    ∃ x, s.space? q = some x ∧ y = { x with children := y.children } := by
  obtain ⟨z, hz, hy⟩ := h'.oldSpace hy
  obtain ⟨x, hx, hz⟩ := h.oldSpace hz
  exact ⟨x, hx, hy.trans (by rw [hz])⟩

protected theorem trans : Confined sp (js ++ js') s s' where
  coherent := h'.coherent
  home hx := by
    obtain ⟨cs, ht⟩ := h.home hx
    obtain ⟨cs', hs'⟩ := h'.home ht
    exact ⟨cs', hs'⟩
  own hn hs := by
    obtain ⟨m, hm, ht, hms⟩ := h.own hn hs
    obtain ⟨m', hm', ht', hms'⟩ := h'.own hm hms
    exact ⟨m', hm', ht'.trans ht, hms'⟩
  space {q x} hx hq := by
    rcases h.space hx hq with ⟨cs, ht⟩ | ⟨c, hu, hb, hc⟩
    · rcases h'.space ht hq with ⟨cs', hs'⟩ | ⟨c, hc, hb, gone⟩
      · exact .inl ⟨cs', hs'⟩
      · exact .inr ⟨c, h.of_unloaded hc, h.of_beneath hb, gone⟩
    · obtain ⟨y, id, field, hy, kind, parent, owner, hid, he⟩ := hu
      refine .inr ⟨c, ⟨y, id, field, hy, kind, parent, owner, hid, ?_⟩, hb, h'.gone hc⟩
      exact List.mem_append_left _ he
  whole := h'.coherent.razed (h.old h')
  node hn hs := by
    rcases h.node hn hs with ht | ⟨ht, hg⟩
    · exact h'.node ht hs
    · refine .inr ⟨?_, h'.gone hg⟩
      rw [Option.eq_none_iff_forall_ne_some]
      intro m hm
      obtain ⟨n', hn', -⟩ := h'.oldNode hm
      cases ht.symm.trans hn'
  oldSpace := h.old h'
  oldNode hm := by
    obtain ⟨n', hn', he'⟩ := h'.oldNode hm
    obtain ⟨n, hn, he⟩ := h.oldNode hn'
    exact ⟨n, hn, he'.trans he⟩
  queue hp := by
    rcases h'.queue hp with hp | hid
    · exact h.queue hp
    · exact .inr (h.of_lodges hid)
  journal := by rw [h'.journal, h.journal, List.append_assoc]
  events he := by
    rcases List.mem_append.mp he with he | he
    · exact h.events he
    · obtain ⟨id, hs, hid⟩ := h'.events he
      exact ⟨id, hs, h.of_lodges hid⟩

end trans

end Confined

section unloading

/-- A node goes back to the beginning, or it is refused. If its content has a space, that is taken
down. -/
theorem setLoadState_notLoaded (h : s.Coherent [] none) (hn : s.node? id = some n) :
    (s.setLoadState id .notLoaded).2.spaces = s.spaces ∧
        Speaks id s (s.setLoadState id .notLoaded).2 ∨
      ∃ c r field, n.load.isSome ∧ n.contentSpace? = some c ∧ s.hasSpace c ∧
        (s.setLoadState id .notLoaded).2 =
          (((s.modifySlot id (·.enter .notLoaded)).cancel r).demolish [.space c]).emit
            (loadEvent id field .notLoaded) := by
  have entered (r : Option Request) :
      Speaks id s ((s.modifySlot id (·.enter .notLoaded)).cancel r) :=
    .of_journal ((journal_cancel ..).trans (journal_modifyNode ..))
  have spaces (r : Option Request) :
      ((s.modifySlot id (·.enter .notLoaded)).cancel r).spaces = s.spaces :=
    (spaces_cancel ..).trans (spaces_modifyNode ..)
  unfold setLoadState
  simp only [hn]
  split
  · exact .inl ⟨rfl, .of_journal rfl⟩
  next field hu =>
  obtain ⟨slot, hl⟩ := (h.sound hn).exists_slot hu
  have content : n.contentSpace? = slot.space := by
    rw [Node.contentSpace?, hl, Option.bind_some]
  simp only [hl, Option.getD_some]
  split
  · exact .inl ⟨rfl, .of_journal rfl⟩
  simp only [reduceCtorEq, if_false, if_true]
  cases hc : slot.space with
  | none => exact .inl ⟨spaces _, (entered _).trans (.event (subject_loadEvent ..))⟩
  | some c =>
    have same : ((s.modifySlot id (·.enter .notLoaded)).cancel slot.pending).hasSpace c =
        s.hasSpace c := by
      rw [hasSpace, hasSpace, space?_congr (spaces _)]
    rw [discard, removeSpace_eq (h.content_ne_main hn (content.trans hc)), same]
    cases hs : s.hasSpace c with
    | false => exact .inl ⟨spaces _, entered _⟩
    | true => exact .inr ⟨c, slot.pending, field, rfl, content.trans hc, hs, rfl⟩

theorem space?_demolish_self (hm : c ≠ .main) : (s.demolish [.space c]).space? c = none := by
  rw [Option.eq_none_iff_forall_ne_some]
  intro y hy
  obtain ⟨x, hx, -⟩ := (shrunk_demolish _ s).space hy
  rw [demolish_space hm hx] at hy
  obtain ⟨z, hz, -⟩ := (shrunk_demolish _ _).space hy
  exact (of_space?_dropSpace hz).1 rfl

/-- What goes with the content of a node of the space. -/
theorem Confined.unload (h : s.Coherent [] none) (hn : s.node? id = some n) (hl : n.load.isSome)
    (hc : n.contentSpace? = some c) (live : s.hasSpace c) (r : Option Request) (field : Nat) :
    Confined n.space [.event (.loadState id field .notLoaded)] s
      ((((s.modifySlot id (·.enter .notLoaded)).cancel r).demolish [.space c]).emit
        (loadEvent id field .notLoaded)) := by
  have edited := Edited.unload h hn hl (f := (·.enter .notLoaded)) (fun _ ↦ rfl) r
  obtain ⟨retouched, coherent, -⟩ := h.letGo hn hl (f := (·.enter .notLoaded)) (fun _ ↦ rfl) r
  have journal : ((s.modifySlot id (·.enter .notLoaded)).cancel r).journal = s.journal :=
    (journal_cancel ..).trans (journal_modifyNode ..)
  rw [hc, Option.toList_some, List.map_singleton] at edited coherent
  generalize (s.modifySlot id (·.enter .notLoaded)).cancel r = t at *
  have closed : t.Closed (s.Beneath c) := fun q y p hy hp hb ↦
    hb.tail ⟨y, retouched.frame.space q ▸ hy, hp⟩
  have within : Within (s.Beneath c) t [.space c] := by
    refine ⟨fun q x hq _ ↦ ?_, fun k m hk _ ↦ ?_⟩
    · cases List.mem_singleton.mp hq
      exact .refl
    · cases List.mem_singleton.mp hk
  have spared := spared_demolish coherent closed within
  have gone : (t.demolish [.space c]).space? c = none :=
    space?_demolish_self (h.content_ne_main hn hc)
  have speaks : Speaks id s (t.demolish [.space c]) :=
    .of_journal ((shrunk_demolish ..).journal.trans journal)
  obtain ⟨x, hx⟩ := hasSpace_iff.mp live
  obtain ⟨kind, owner, parent⟩ := (h.claimed.content hn hc).2 x hx
  have hid : s.Lodges n.space id := ⟨n, hn, rfl⟩
  have unloaded : s.Unloaded n.space [.event (.loadState id field .notLoaded)] c :=
    ⟨x, id, field, hx, kind, parent, owner, hid, List.mem_singleton_self _⟩
  exact {
    coherent := edited.coherent.log _
    home := fun hx ↦ edited.sparedSpace hn hx (Nat.le_refl _)
    own := edited.own hid
    space := by
      intro q y hy hq
      by_cases hb : s.Beneath c q
      · exact .inr ⟨c, unloaded, hb, gone⟩
      · exact .inl (spared.space ((retouched.frame.space q).trans hy) hb)
    whole := edited.coherent.razed edited.space
    node := by
      intro k m hm hne
      have hk : k ≠ id := by
        rintro rfl
        cases hn.symm.trans hm
        exact hne rfl
      by_cases hb : s.Beneath c m.space
      · have razed := edited.coherent.razed edited.space hb gone
        refine .inr ⟨?_, razed⟩
        rw [Option.eq_none_iff_forall_ne_some]
        intro m' hm'
        obtain ⟨y, hy, -⟩ := edited.coherent.home hm'
        cases hm.symm.trans (edited.node hk hm')
        cases razed.symm.trans hy
      · exact .inl (spared.node ((retouched.other hk).trans hm) hb)
    oldSpace := edited.space
    oldNode := edited.oldNode
    queue := fun hp ↦ (edited.queued speaks hp).imp_right fun hk ↦ by
      rw [hk]
      exact hid
    journal := congrArg (· ++ _) ((shrunk_demolish ..).journal.trans journal)
    events := fun he ↦ by
      cases List.mem_singleton.mp he
      exact ⟨id, rfl, hid⟩ }

end unloading

/-- What was done was done in the space `sp`. -/
def Stays (sp : SpaceId) (s s' : Scene) : Prop := ∃ js, Confined sp js s s'

namespace Stays

theorem refl (h : s.Coherent [] none) : Stays sp s s := ⟨[], .refl h⟩

theorem trans (h : Stays sp s t) (h' : Stays sp t s') : Stays sp s s' := by
  obtain ⟨js, h⟩ := h
  obtain ⟨js', h'⟩ := h'
  exact ⟨js ++ js', h.trans h'⟩

theorem report (h : s.Coherent [] none) (severity : Severity) (text : String)
    (cause : Option Error) : Stays sp s (s.report severity text cause) :=
  ⟨_, .report h severity text cause⟩

theorem coherent (h : Stays sp s s') : s'.Coherent [] none := by
  obtain ⟨js, h⟩ := h
  exact h.coherent

theorem lodges (h : Stays sp s s') (hid : s.Lodges sp id) : s'.Lodges sp id := by
  obtain ⟨js, h⟩ := h
  exact h.lodges hid

theorem orWarn {a : Attempt} (ha : Stays sp s a.2) (text : String) :
    Stays sp s (Scene.orWarn text a) := by
  obtain ⟨_ | _, t⟩ := a
  · exact ha.trans (report ha.coherent ..)
  · exact ha

variable (h : s.Coherent [] none) (hid : s.Lodges sp id)

include h hid

theorem reset : Stays sp s (s.setLoadState id .notLoaded).2 := by
  have edited : Edited none id s (s.setLoadState id .notLoaded).2 := .setLoadState h .notLoaded
  have lodged := hid
  obtain ⟨n, hn, rfl⟩ := lodged
  rcases setLoadState_notLoaded h hn with ⟨spaces, speaks⟩ | ⟨c, r, field, hl, hc, live, he⟩
  · exact Confined.of_edited h hid edited spaces speaks
  · rw [he]
    exact ⟨_, .unload h hn hl hc live r field⟩

theorem autoLoad : Stays sp s (s.autoLoad id) :=
  Confined.of_edited h hid (.autoLoad h) (spaces_autoLoad ..) .autoLoad

theorem urlChanged : Stays sp s (s.urlChanged id) := by
  unfold Scene.urlChanged
  dsimp only
  split
  · have cleared := orWarn (reset h hid) "Could not reset load state."
    exact cleared.trans (autoLoad cleared.coherent (cleared.lodges hid))
  · exact autoLoad h hid

theorem loadSwitched : Stays sp s (s.loadSwitched id index) := by
  unfold Scene.loadSwitched
  split
  · exact refl h
  split
  · exact autoLoad h hid
  split
  · exact orWarn (reset h hid) _
  · exact refl h

theorem applyLoadable (type : NodeType) : Stays sp s (s.applyLoadable id type index) := by
  unfold Scene.applyLoadable
  split
  · exact urlChanged h hid
  split
  · exact loadSwitched h hid
  · exact refl h

theorem editChildren {children : Nat}
    (hc : ∀ n, s.node? id = some n → n.type.children? = some children) (input : Nat)
    (edit : List NodeId → List NodeId → List NodeId) :
    Stays sp s (s.editChildren id input children edit) := by
  have edited : Edited none id s (s.editChildren id input children edit) :=
    .editChildren h hc input edit
  refine Confined.of_edited h hid edited ?_ (.editChildren input children edit)
  unfold Scene.editChildren
  split
  · rfl
  dsimp only
  split
  · rfl
  split
  · exact spaces_modifyNode ..
  · exact (spaces_modifyNode ..).trans (spaces_modifyNode ..)

theorem applyCapabilities {type : NodeType} (ht : ∀ n, s.node? id = some n → n.type = type) :
    Stays sp s (s.applyCapabilities id type index) := by
  unfold Scene.applyCapabilities
  split
  · next children hc =>
    have hc : ∀ n, s.node? id = some n → n.type.children? = some children :=
      fun n hn ↦ (ht n hn) ▸ hc
    split
    · exact editChildren h hid hc ..
    split
    · exact editChildren h hid hc ..
    · exact applyLoadable h hid type
  · exact applyLoadable h hid type

theorem perform (script : Behavior → Script) : Stays sp s (s.perform id script) :=
  Confined.of_edited h hid (.perform h script) (spaces_perform ..) (.perform script)

theorem setValue {v : Value} (hs : s.setValue id index v = .ok s') : Stays sp s s' := by
  obtain ⟨n, hn, ⟨-, stored, rfl⟩ | ⟨-, marked, rfl⟩⟩ := Edited.setValue_stages h hs
  · exact Confined.of_edited h hid stored (spaces_modifyNode ..) (.modifyNode _)
  · obtain ⟨m, hm, ht, -⟩ := marked.exists_self hn
    have announced : Stays sp s ((s.modifyNode id fun n ↦ n.store index v).markChanged id index) :=
      Confined.of_edited h hid marked ((spaces_modifyNode ..).trans (spaces_modifyNode ..))
        ((Speaks.modifyNode _).trans .markChanged)
    have ofType : ∀ m', ((s.modifyNode id fun n ↦ n.store index v).markChanged id index).node? id =
        some m' → m'.type = n.type := fun m' hm' ↦ by
      cases hm.symm.trans hm'
      exact ht
    have applied : Stays sp s (((s.modifyNode id fun n ↦ n.store index v).markChanged id
        index).applyCapabilities id n.type index) :=
      announced.trans (applyCapabilities marked.coherent (announced.lodges hid) ofType)
    exact applied.trans (perform applied.coherent (applied.lodges hid) _)

omit hid in
theorem fire {r : Route} (hr : s.Lodges sp r.dest) : Stays sp s (s.fire r).2 := by
  unfold Scene.fire
  split
  · next he =>
    obtain ⟨v, -, he⟩ := bind_eq_ok.mp he
    exact setValue h hr he
  · exact report h ..

end Stays

/-- Where a cascade stands that began in the scene `s` with changes of the space. -/
structure Keeps (sp : SpaceId) (s : Scene) (a : Stand) : Prop where
  stays : Stays sp s a.scene
  waiting : ∀ r ∈ a.waiting, s.Lodges sp r.dest

variable {limit : Nat} {move : Move} {a b : Stand} {course : Course}

theorem Keeps.advances (hq : ∀ p ∈ s.pending, s.Lodges sp p.1) (h : Keeps sp s a)
    (hm : a.Advances limit move b) : Keeps sp s b := by
  obtain ⟨⟨js, confined⟩, waiting⟩ := h
  cases hm with
  | @take fired t u id field pending hp =>
    have taken : Confined sp [] u { u with pending } :=
      .aside confined.coherent rfl rfl rfl rfl (fun p hm ↦ hp ▸ List.mem_cons_of_mem _ hm)
        (List.append_nil _).symm (by simp)
    refine ⟨⟨_, confined.trans taken⟩, fun r hr ↦ ?_⟩
    have queued : u.Lodges sp id := by
      refine confined.lodges ?_
      rcases confined.queue (hp ▸ List.mem_cons_self) with hm | hid
      · exact hq _ hm
      · exact hid
    -- a route stays in the space of the field that it leaves
    obtain ⟨n, x, hn, hx, hr, -⟩ := (mem_routesFor confined.coherent).mp hr
    obtain ⟨n', hn', rfl⟩ := queued
    cases hn.symm.trans hn'
    obtain ⟨m, hm, hs⟩ :=
      confined.coherent.housed.lodged hx ((confined.coherent.wired hx).ends r hr).2
    exact confined.of_lodges ⟨m, hm, hs⟩
  | skip => exact ⟨⟨js, confined⟩, fun r hr ↦ waiting r (List.mem_cons_of_mem _ hr)⟩
  | fire =>
    have dest := confined.lodges (waiting _ List.mem_cons_self)
    exact ⟨.trans ⟨js, confined⟩ (.fire confined.coherent dest),
      fun r hr ↦ waiting r (List.mem_cons_of_mem _ hr)⟩

theorem Keeps.leads (hq : ∀ p ∈ s.pending, s.Lodges sp p.1) (h : Keeps sp s a)
    (hl : Stand.Leads limit a course b) : Keeps sp s b := by
  induction hl with
  | refl => exact h
  | move hm _ ih => exact ih (h.advances hq hm)

/-- If all queued changes are of nodes of one space, then all that a cascade does is done in that
space, and all that it queues is queued for nodes of the space. -/
theorem cascade_confined (h : s.Reachable) (hq : ∀ p ∈ s.pending, s.Lodges sp p.1) (limit : Nat)
    (t : Tally) :
    (∃ js, Confined sp js s (cascade limit [] [] t s).2) ∧
      ∀ course b, Stand.Leads limit ⟨[], [], t, s⟩ course b →
        (∃ js, Confined sp js s b.scene) ∧ ∀ p ∈ b.scene.pending, s.Lodges sp p.1 := by
  have start : Keeps sp s ⟨[], [], t, s⟩ := ⟨.refl h.coherent, by simp⟩
  constructor
  · obtain ⟨z, leads, result⟩ := Stand.exists_ends limit ⟨[], [], t, s⟩
    obtain ⟨js, confined⟩ := (start.leads hq leads).stays
    change ∃ js, Confined sp js s (Stand.run limit ⟨[], [], t, s⟩).2
    rcases result with ⟨-, -, he⟩ | ⟨-, he⟩
    · rw [he]
      exact ⟨js, confined⟩
    · rw [he]
      have emptied : Confined sp [_] z.scene (z.scene.truncate z.tally).2 :=
        .aside confined.coherent rfl rfl rfl rfl (by simp [truncate, warn, Scene.report, log]) rfl
          (by simp)
      exact ⟨_, confined.trans emptied⟩
  · intro course b leads
    obtain ⟨js, confined⟩ := (start.leads hq leads).stays
    refine ⟨⟨js, confined⟩, fun p hp ↦ ?_⟩
    rcases confined.queue hp with hm | hid
    · exact hq p hm
    · exact hid

/-- A panel has its content, and a change is queued that switches the panel off. -/
def dimmed : Scene :=
  List.foldl Operation.run (start ⟨[cell, panel]⟩ {})
    ([.setProvider light, .createNode .main "Cell", .createNode .main "Panel",
      .setValue (.issued 1) 0 (.ofStrings ["a"]), .finishSetup (.issued 0),
      .finishSetup (.issued 1), .addRoute ⟨.issued 0, 0, .issued 1, 1⟩] ++ takeOne ++
      [.tick [] 0, .setValue (.issued 0) 0 (.bool false)])

theorem reachable_dimmed : dimmed.Reachable := by
  have built : ∀ t ∈ [cell, panel], t.Built := by simpa using ⟨built_cell, built_panel⟩
  exact (story_start built rfl _).reachable

/-- The space of the content goes, and that is all that happens outside the main space. -/
theorem cascade_confined_dimmed : ∃ js s', dimmed.Reachable ∧ dimmed.pending = [(.issued 0, 0)] ∧
    dimmed.Lodges .main (.issued 0) ∧ (cascade 100 [] [] { time := 0 } dimmed).2 = s' ∧
    Confined .main js dimmed s' ∧ dimmed.hasSpace ⟨1⟩ ∧ s'.hasSpace ⟨1⟩ = false := by
  have queue : dimmed.pending = [(.issued 0, 0)] := by cbv
  have home : (dimmed.node? (.issued 0)).map Node.space = some .main := by cbv
  have before : dimmed.hasSpace ⟨1⟩ = true := by cbv
  have after : (cascade 100 [] [] { time := 0 } dimmed).2.hasSpace ⟨1⟩ = false := by cbv
  have lodged : dimmed.Lodges .main (.issued 0) := Option.map_eq_some_iff.mp home
  have queued : ∀ p ∈ dimmed.pending, dimmed.Lodges .main p.1 := by
    rw [queue]
    intro p hp
    rw [List.mem_singleton.mp hp]
    exact lodged
  obtain ⟨⟨js, confined⟩, -⟩ := cascade_confined reachable_dimmed queued 100 { time := 0 }
  exact ⟨js, _, reachable_dimmed, queue, lodged, rfl, confined, before, after⟩

end Scene

end SceneGraph
