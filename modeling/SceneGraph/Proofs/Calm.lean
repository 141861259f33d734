import Mathlib.Logic.Function.Basic
import SceneGraph.Proofs.Ticking

/-!
What operations do to the load slots of the nodes, to the spaces of their contents and to the
loader.

`Shifted` compares two scenes in these respects alone. A step is `Calm` if no slot changes, nobody
hears of a load and the loader gets no work.
-/

namespace SceneGraph

/-- The node that entered a state, and the state, if the entry tells of that. -/
def Entry.load? : Entry → Option (NodeId × LoadState)
  | .event (.loadState id _ state) => some (id, state)
  | .event (.contentReady id _) => some (id, .complete)
  | _ => none

def Journal.loads (j : Journal) : List (NodeId × LoadState) := j.filterMap Entry.load?

@[simp] theorem Journal.loads_nil : Journal.loads [] = [] := rfl

@[simp] theorem Journal.loads_append (j j' : Journal) :
    Journal.loads (j ++ j') = j.loads ++ j'.loads :=
  List.filterMap_append

@[simp] theorem Journal.loads_notes (notes : List String) : Journal.loads (notes.map .note) = [] :=
  List.filterMap_eq_nil_iff.mpr (by simp [Entry.load?])

namespace Pool

/-- What waits in the queue. -/
def jobs (p : Pool) : List (Request × List String) :=
  p.queue.map fun job ↦ (job.request, job.urls)

/-- What the workers are at. -/
def works (p : Pool) : List (Request × List String × Stage) :=
  p.running.map fun r ↦ (r.job.request, r.job.urls, r.stage)

@[simp] theorem jobs_mark (p : Pool) (hit : Job → Bool) : (p.mark hit).jobs = p.jobs := by
  simp only [jobs, mark, List.map_map]
  rfl

@[simp] theorem works_mark (p : Pool) (hit : Job → Bool) : (p.mark hit).works = p.works := by
  simp only [works, mark, List.map_map]
  rfl

@[simp] theorem jobs_flag (p : Pool) (rs : List Request) : (p.flag rs).jobs = p.jobs :=
  jobs_mark ..

@[simp] theorem works_flag (p : Pool) (rs : List Request) : (p.flag rs).works = p.works :=
  works_mark ..

@[simp] theorem jobs_terminate (p : Pool) : p.terminate.2.jobs = p.jobs :=
  p.jobs_mark fun job ↦ decide (job.number ∈ p.active)

@[simp] theorem works_terminate (p : Pool) : p.terminate.2.works = p.works :=
  p.works_mark fun job ↦ decide (job.number ∈ p.active)

@[simp] theorem completions_flag (p : Pool) (rs : List Request) :
    (p.flag rs).completions = p.completions := rfl

end Pool

namespace Scene

variable {s s' t : Scene} {guest : Option SpaceId} {id : NodeId} {sp : SpaceId} {x : Space}

def slot? (s : Scene) (id : NodeId) : Option LoadSlot := (s.node? id).bind Node.load

/-- The space that the node goes by as that of its content. -/
def inlineSpace? (s : Scene) (id : NodeId) : Option SpaceId := (s.slot? id).bind LoadSlot.space

/-- The scene has not given the handle to a node yet. -/
def Fresh (s : Scene) (id : NodeId) : Prop := ∀ k, id = .issued k → s.nodes.issued ≤ k

theorem slot?_eq_some {slot : LoadSlot} :
    s.slot? id = some slot ↔ ∃ n, s.node? id = some n ∧ n.load = some slot :=
  Option.bind_eq_some_iff

theorem inlineSpace?_eq_some :
    s.inlineSpace? id = some sp ↔ ∃ slot, s.slot? id = some slot ∧ slot.space = some sp :=
  Option.bind_eq_some_iff

theorem Fresh.node? (h : s.Fresh id) : s.node? id = none := by
  cases id with
  | issued k => exact Arena.get?_of_le (h k rfl)
  | void => rfl

theorem Fresh.slot? (h : s.Fresh id) : s.slot? id = none := by
  rw [Scene.slot?, h.node?]
  rfl

theorem Fresh.of_issued (h : s'.Fresh id) (hi : s.nodes.issued ≤ s'.nodes.issued) : s.Fresh id :=
  fun k hk ↦ Nat.le_trans hi (h k hk)

section work

def jobs (s : Scene) : List (Request × List String) := (s.loader.map Pool.jobs).getD []

def works (s : Scene) : List (Request × List String × Stage) :=
  (s.loader.map Pool.works).getD []

def posted (s : Scene) : List Completion := (s.loader.map Pool.completions).getD []

/-- The loader has nothing that it had not before, but for what waits in its queue now. -/
structure Tended (jobs : List (Request × List String)) (s s' : Scene) : Prop where
  jobs : s'.jobs ⊆ jobs
  works : s'.works ⊆ s.works
  posted : s'.posted ⊆ s.posted

theorem Tended.of_loader (h : s'.loader = s.loader) : Tended s.jobs s s' := by
  constructor
  · simp [Scene.jobs, h]
  · simp [Scene.works, h]
  · simp [Scene.posted, h]

theorem Tended.trans {jobs : List (Request × List String)} (h : Tended jobs s t)
    (h' : Tended t.jobs t s') : Tended jobs s s' :=
  ⟨List.Subset.trans h'.jobs h.jobs, List.Subset.trans h'.works h.works,
    List.Subset.trans h'.posted h.posted⟩

theorem Tended.cancel (h : t.loader = s.loader) (r : Option Request) :
    Tended s.jobs s (t.cancel r) := by
  cases r with
  | none => exact .of_loader h
  | some r =>
    cases hl : s.loader <;>
      constructor <;> simp [Scene.jobs, Scene.works, Scene.posted, Scene.cancel, h, hl]

end work

/-- The slots of the nodes come from `slots`, `heard` was announced, and of the spaces of contents
at most those that were `razed` are gone. Handles are not given again, and new nodes have not
loaded. -/
structure Shifted (slots : NodeId → Option LoadSlot) (heard : List (NodeId × LoadState))
    (razed : List SpaceId) (s s' : Scene) : Prop where
  nodesIssued : s.nodes.issued ≤ s'.nodes.issued
  spacesIssued : s.spaces.issued ≤ s'.spaces.issued
  slot : ∀ {id slot}, s'.slot? id = some slot → slots id = some slot ∨ s.Fresh id ∧ slot = {}
  space : ∀ {sp}, s'.hasSpace sp → s.hasSpace sp ∨ s.spaces.issued ≤ sp.number
  kept : ∀ {id slot sp}, s'.slot? id = some slot → slot.space = some sp → s.hasSpace sp →
    s'.hasSpace sp ∨ sp ∈ razed
  journal : ∃ js, s'.journal = s.journal ++ js ∧ Journal.loads js = heard

structure Calm (razed : List SpaceId) (s s' : Scene) : Prop where
  shifted : Shifted s.slot? [] razed s s'
  tended : Tended s.jobs s s'

variable {razed : List SpaceId}

/-- What is calm may follow anything. -/
theorem Shifted.calm {slots : NodeId → Option LoadSlot} {heard : List (NodeId × LoadState)}
    (h : Shifted slots heard razed s t) (h' : Calm razed t s') :
    Shifted slots heard razed s s' where
  nodesIssued := Nat.le_trans h.nodesIssued h'.shifted.nodesIssued
  spacesIssued := Nat.le_trans h.spacesIssued h'.shifted.spacesIssued
  slot hs := by
    rcases h'.shifted.slot hs with hs | ⟨hf, he⟩
    · exact h.slot hs
    · exact .inr ⟨hf.of_issued h.nodesIssued, he⟩
  space hs := by
    rcases h'.shifted.space hs with hs | hi
    · exact h.space hs
    · exact .inr (Nat.le_trans h.spacesIssued hi)
  kept {id slot sp} hs hp hl := by
    rcases h'.shifted.slot hs with ht | ⟨-, rfl⟩
    · rcases h.kept ht hp hl with hl | hr
      · exact h'.shifted.kept hs hp hl
      · exact .inr hr
    · cases hp
  journal := by
    obtain ⟨js, hj, hh⟩ := h.journal
    obtain ⟨js', hj', hh'⟩ := h'.shifted.journal
    exact ⟨js ++ js', by rw [hj', hj, List.append_assoc], by simp [hh, hh']⟩

namespace Calm

protected theorem trans (h : Calm razed s t) (h' : Calm razed t s') : Calm razed s s' :=
  ⟨h.shifted.calm h', h.tended.trans h'.tended⟩

theorem of_same (slots : ∀ id, s'.slot? id = s.slot? id)
    (nodes : s'.nodes.issued = s.nodes.issued) (space : ∀ sp, s'.hasSpace sp = s.hasSpace sp)
    (spaces : s'.spaces.issued = s.spaces.issued) (tended : Tended s.jobs s s')
    (journal : ∃ js, s'.journal = s.journal ++ js ∧ Journal.loads js = []) :
    Calm razed s s' where
  shifted := {
    nodesIssued := Nat.le_of_eq nodes.symm
    spacesIssued := Nat.le_of_eq spaces.symm
    slot := fun hs ↦ .inl (slots _ ▸ hs)
    space := fun hs ↦ .inl (space _ ▸ hs)
    kept := fun _ _ hs ↦ .inl (space _ ▸ hs)
    journal := journal }
  tended := tended

/-- Work beside the tables that nobody hears of as a load. -/
theorem aside (nodes : s'.nodes = s.nodes) (spaces : s'.spaces = s.spaces)
    (tended : Tended s.jobs s s')
    (journal : ∃ js, s'.journal = s.journal ++ js ∧ Journal.loads js = []) : Calm razed s s' := by
  refine of_same (fun id ↦ ?_) (by rw [nodes]) (fun sp ↦ ?_) (by rw [spaces]) tended journal
  · rw [slot?, slot?, node?_congr nodes]
  · rw [hasSpace, hasSpace, space?_congr spaces]

protected theorem refl (s : Scene) : Calm razed s s :=
  aside rfl rfl (.of_loader rfl) ⟨[], (List.append_nil _).symm, rfl⟩

theorem log {js : Journal} (h : js.loads = []) : Calm razed s (s.log js) :=
  aside rfl rfl (.of_loader rfl) ⟨js, rfl, h⟩

theorem report (severity : Severity) (text : String) (cause : Option Error) :
    Calm razed s (s.report severity text cause) :=
  log rfl

theorem tickFinished (time : Double) (fired : Nat) :
    Calm razed s (s.emit (.tickFinished time fired)) :=
  log rfl

theorem modifyNode {f : Node → Node} (hf : ∀ n, s.node? id = some n → (f n).load = n.load) :
    Calm razed s (s.modifyNode id f) := by
  refine of_same (fun k ↦ ?_) (issued_modifyNode ..) (fun sp ↦ ?_) (by rw [spaces_modifyNode])
    (.of_loader (loader_modifyNode ..)) ⟨[], by simp⟩
  · rw [slot?, slot?, node?_modifyNode]
    split
    · next hk =>
      subst hk
      cases hn : s.node? k with
      | none => rfl
      | some n => exact hf n hn
    · rfl
  · rw [hasSpace, hasSpace, space?_modifyNode]

theorem modifySpace (f : Space → Space) : Calm razed s (s.modifySpace sp f) := by
  refine of_same (fun _ ↦ rfl) rfl (fun q ↦ ?_) (issued_modifySpace ..) (.of_loader rfl)
    ⟨[], (List.append_nil _).symm, rfl⟩
  rw [hasSpace, hasSpace, space?_modifySpace]
  split
  · exact Option.isSome_map
  · rfl

theorem addNode (type : NodeType) : Calm razed s (s.addNode sp type) where
  shifted := {
    nodesIssued := by
      rw [Scene.addNode, Scene.modifySpace, Arena.issued_insert]
      exact Nat.le_succ _
    spacesIssued := Nat.le_of_eq (issued_modifySpace ..).symm
    slot := fun {id slot} hs ↦ by
      obtain ⟨n, hn, hl⟩ := slot?_eq_some.mp hs
      rcases of_node?_addNode hn with ⟨rfl, rfl⟩ | hn
      · refine .inr ⟨fun k hk ↦ Nat.le_of_eq (NodeId.issued.inj hk), ?_⟩
        unfold Node.new at hl
        split at hl <;> cases hl
        rfl
      · exact .inl (slot?_eq_some.mpr ⟨n, hn, hl⟩)
    space := fun {q} hs ↦ by
      obtain ⟨y, hy⟩ := hasSpace_iff.mp hs
      obtain ⟨z, hz, -⟩ := of_space?_addNode hy
      exact .inl (hasSpace_iff.mpr ⟨z, hz⟩)
    kept := fun _ _ hs ↦ by
      obtain ⟨y, hy⟩ := hasSpace_iff.mp hs
      exact .inl (hasSpace_iff.mpr ⟨_, space?_addNode_of_some hy⟩)
    journal := ⟨[], (List.append_nil _).symm, rfl⟩ }
  tended := .of_loader rfl

theorem addSpace {kind : SpaceKind} {owner : Option NodeId} (hx : s.space? sp = some x) :
    Calm razed s (s.addSpace kind sp owner) where
  shifted := {
    nodesIssued := Nat.le_refl _
    spacesIssued := by
      rw [Scene.addSpace, issued_modifySpace, Arena.issued_insert]
      exact Nat.le_succ _
    slot := fun hs ↦ .inl hs
    space := fun {q} hs ↦ by
      obtain ⟨y, hy⟩ := hasSpace_iff.mp hs
      rcases of_space?_addSpace hx hy with ⟨rfl, -⟩ | ⟨-, z, hz, -⟩
      · exact .inr (Nat.le_refl _)
      · exact .inl (hasSpace_iff.mpr ⟨z, hz⟩)
    kept := fun _ _ hs ↦ by
      obtain ⟨y, hy⟩ := hasSpace_iff.mp hs
      exact .inl (hasSpace_iff.mpr ⟨_, space?_addSpace_of_some hx hy⟩)
    journal := ⟨[], (List.append_nil _).symm, rfl⟩ }
  tended := .of_loader rfl

end Calm

section demolish

variable {doomed rest : List Doomed}

/-- What a demolition leaves: none of the doomed nodes, and of the spaces of contents all that were
not doomed themselves. -/
structure Razed (doomed : List Doomed) (s s' : Scene) : Prop where
  node : ∀ {id n}, s'.node? id = some n → s.node? id = some n
  gone : ∀ {id}, .node id ∈ doomed → s'.node? id = none
  kept : ∀ {id n sp}, s'.node? id = some n → n.contentSpace? = some sp → s.hasSpace sp →
    s'.hasSpace sp ∨ .space sp ∈ doomed
  tended : Tended s.jobs s s'

theorem Razed.refl (s : Scene) : Razed [] s s where
  node hn := hn
  gone := nofun
  kept _ _ hs := .inl hs
  tended := .of_loader rfl

theorem Razed.skip {d : Doomed} (h : Razed rest s s') (hd : s.Gone d) :
    Razed (d :: rest) s s' where
  node := h.node
  gone {id} hm := by
    rcases List.mem_cons.mp hm with rfl | hm
    · cases hn : s'.node? id with
      | none => rfl
      | some n => exact (Eq.symm hd).trans (h.node hn) |>.symm
    · exact h.gone hm
  kept hn hc hs := (h.kept hn hc hs).imp_right (List.mem_cons_of_mem _)
  tended := h.tended

theorem hasSpace_dropSpace {q : SpaceId} {p : Option SpaceId} (hq : q ≠ sp) :
    (s.dropSpace sp p).hasSpace q = s.hasSpace q := by
  rw [hasSpace, hasSpace, space?_dropSpace, if_neg hq]
  split
  · exact Option.isSome_map
  · rfl

/-- The owner of a space below one that is taken down lives in that one. -/
theorem Razed.dropSpace (hc : s.Coherent (.space sp :: rest) guest) (hx : s.space? sp = some x)
    (h : Razed (Contents x rest) (s.dropSpace sp x.parent) s') :
    Razed (.space sp :: rest) s s' where
  node hn := by simpa using h.node hn
  gone hm := h.gone (node_mem_contents.mpr (.inr (by simpa using hm)))
  kept {id n q} hn hs hl := by
    by_cases hq : q = sp
    · exact .inr (hq ▸ List.mem_cons_self)
    rcases h.kept hn hs ((hasSpace_dropSpace hq).trans hl) with hl | hm
    · exact .inl hl
    rcases space_mem_contents.mp hm with hm | hm
    · exfalso
      have hn' : s.node? id = some n := by simpa using h.node hn
      obtain ⟨y, hy, hp⟩ := hc.rooted.child hx hm
      obtain ⟨-, -, hp'⟩ := (hc.claimed.content hn' hs).2 y hy
      have home : n.space = sp := Option.some.inj (hp'.symm.trans hp)
      have doomed : .node id ∈ Contents x rest := by
        rw [node_mem_contents]
        rcases hc.housed.listed hn' with hd | ⟨z, hz, hid⟩
        · exact .inr (by simpa using hd)
        · cases hx.symm.trans (home ▸ hz)
          exact .inl hid
      cases (h.gone doomed).symm.trans hn
    · exact .inr (List.mem_cons_of_mem _ hm)
  tended := by
    have same : (s.dropSpace sp x.parent).loader = s.loader := by cases x.parent <;> rfl
    exact (Tended.of_loader same).trans h.tended

/-- Nobody else owns the space of a node's content. -/
theorem Razed.dropNode {k : Nat} {n : Node} (hc : s.Coherent (.node (.issued k) :: rest) guest)
    (hn : s.node? (.issued k) = some n) (h : Razed (Belongings n rest) (s.dropNode k n) s') :
    Razed (.node (.issued k) :: rest) s s' where
  node hm := (of_node?_dropNode (h.node hm)).2
  gone {id} hm := by
    rcases List.mem_cons.mp hm with he | hm
    · cases hl : s'.node? id with
      | none => rfl
      | some m => exact absurd (Doomed.node.inj he) (of_node?_dropNode (h.node hl)).1
    · exact h.gone (node_mem_belongings.mpr hm)
  kept {id m q} hm hs hl := by
    obtain ⟨hne, hm'⟩ := of_node?_dropNode (h.node hm)
    have hl' : (s.dropNode k n).hasSpace q := by rwa [hasSpace, space?_dropNode]
    rcases h.kept hm hs hl' with hl | hd
    · exact .inl hl
    rcases space_mem_belongings.mp hd with hd | hd
    · obtain ⟨y, hy⟩ := hasSpace_iff.mp hl
      obtain ⟨-, ho, -⟩ := (hc.claimed.content hn hd).2 y hy
      obtain ⟨-, ho', -⟩ := (hc.claimed.content hm' hs).2 y hy
      exact absurd (Option.some.inj (ho'.symm.trans ho)) hne
    · exact .inr (List.mem_cons_of_mem _ hd)
  tended := by
    have dropped : Tended s.jobs s (s.dropNode k n) := by
      unfold Scene.dropNode
      exact .cancel (by rfl) _
    exact dropped.trans h.tended

theorem razed_demolish (h : s.Coherent doomed guest) : Razed doomed s (s.demolish doomed) := by
  refine demolish_induction (motive := fun ds s s' ↦ s.Coherent ds guest → Razed ds s s')
    ?_ ?_ ?_ ?_ doomed s h
  · exact fun s _ ↦ .refl s
  · exact fun _ _ _ _ hd ih h ↦ (ih (h.skip hd)).skip hd
  · exact fun _ _ _ _ _ hsp hx ih h ↦ .dropSpace h hx (ih (h.dropSpace hx hsp))
  · exact fun _ _ _ _ _ hn ih h ↦ .dropNode h hn (ih (h.dropNode hn))

theorem Calm.demolish (h : s.Coherent doomed guest)
    (hr : ∀ {id n sp}, (s.demolish doomed).node? id = some n → n.contentSpace? = some sp →
      s.hasSpace sp → .space sp ∈ doomed → sp ∈ razed) :
    Calm razed s (s.demolish doomed) where
  shifted := {
    nodesIssued := Nat.le_of_eq (shrunk_demolish doomed s).nodesIssued.symm
    spacesIssued := Nat.le_of_eq (shrunk_demolish doomed s).spacesIssued.symm
    slot := fun hs ↦ by
      obtain ⟨n, hn, hl⟩ := slot?_eq_some.mp hs
      exact .inl (slot?_eq_some.mpr ⟨n, (razed_demolish h).node hn, hl⟩)
    space := fun hs ↦ by
      obtain ⟨y, hy⟩ := hasSpace_iff.mp hs
      obtain ⟨z, hz, -⟩ := (shrunk_demolish doomed s).space hy
      exact .inl (hasSpace_iff.mpr ⟨z, hz⟩)
    kept := fun {id slot sp} hs hp hl ↦ by
      obtain ⟨n, hn, hl'⟩ := slot?_eq_some.mp hs
      have hc : n.contentSpace? = some sp := by
        rw [Node.contentSpace?, hl', Option.bind_some, hp]
      exact ((razed_demolish h).kept hn hc hl).imp_right (hr hn hc hl)
    journal := ⟨[], by rw [(shrunk_demolish doomed s).journal, List.append_nil], rfl⟩ }
  tended := (razed_demolish h).tended

theorem Calm.removeNode (h : s.Coherent [] guest) (hr : s.removeNode id = .ok s') :
    Calm razed s s' := by
  obtain ⟨n, hn, rfl⟩ := removeNode_eq_ok.mp hr
  exact (modifySpace _).trans (.demolish (h.detach hn) fun _ _ _ hm ↦ by simp at hm)

theorem Calm.removeSpace (h : s.Coherent [] guest) (hr : s.removeSpace sp = .ok s') :
    Calm [sp] s s' := by
  unfold Scene.removeSpace at hr
  split at hr
  · cases hr
  obtain ⟨x, -, hr⟩ := bind_eq_ok.mp hr
  cases hr
  exact .demolish (h.doom sp) fun _ _ _ hm ↦ by simpa using hm

theorem Calm.removeNodes (h : s.Coherent [] guest) {ids : List NodeId}
    (hr : ids.foldlM Scene.removeNode s = .ok s') : Calm razed s s' := by
  induction ids generalizing s with
  | nil =>
    cases hr
    exact .refl _
  | cons id ids ih =>
    obtain ⟨t, ht, hr⟩ := bind_eq_ok.mp hr
    exact (removeNode h ht).trans (ih (h.removeNode ht) hr)

theorem Calm.collect (h : s.Coherent [] guest) {ids : List NodeId}
    (hc : s.collect sp = .ok (ids, s')) : Calm razed s s' := by
  unfold Scene.collect at hc
  obtain ⟨x, -, hc⟩ := bind_eq_ok.mp hc
  obtain ⟨t, ht, hc⟩ := bind_eq_ok.mp hc
  cases hc
  exact removeNodes h ht

end demolish

namespace Calm

section operations

variable {r : Route} {b : Bool} {index : Nat}

theorem markChanged (s : Scene) (id : NodeId) (index : Nat) :
    Calm razed s (s.markChanged id index) := by
  have marked : Calm razed s
      (s.modifyNode id fun n ↦ { n with changed := n.changed.set index true }) :=
    modifyNode fun _ _ ↦ rfl
  exact marked.trans
    (aside rfl rfl (.of_loader rfl) ⟨[.event (.fieldChanged id index)], rfl, rfl⟩)

theorem perform (s : Scene) (id : NodeId) (script : Behavior → Script) :
    Calm razed s (s.perform id script) := by
  unfold Scene.perform
  split
  · exact .refl s
  next n _ =>
  generalize (script n.type.behavior).perform (s.viewOf id n) = a
  have written : Calm razed s (s.modifyNode id fun n ↦ { n with values := a.view.values }) :=
    modifyNode fun _ _ ↦ rfl
  have noted := written.trans (log (Journal.loads_notes a.notes))
  dsimp only
  split
  · exact noted
  · exact List.foldlRecOn a.outputs (fun s index ↦ s.markChanged id index)
      (motive := fun t ↦ Calm razed s t) noted fun t ht i _ ↦ ht.trans (markChanged t id i)

theorem editChildren (s : Scene) (id : NodeId) (input children : Nat)
    (edit : List NodeId → List NodeId → List NodeId) :
    Calm razed s (s.editChildren id input children edit) := by
  unfold Scene.editChildren
  split
  · exact .refl s
  next n _ =>
  dsimp only
  split
  · exact .refl s
  have stored : Calm razed s (s.modifyNode id fun n' ↦
      n'.store children (.ofNodes (edit (refsAt n children) (refsAt n input)))) :=
    modifyNode fun _ _ ↦ rfl
  split
  · exact stored
  · exact stored.trans (markChanged ..)

theorem tickSensors (s : Scene) : Calm razed s s.tickSensors := by
  refine List.foldlRecOn s.sensors tickSensor (motive := fun t ↦ Calm razed s t) (.refl s) ?_
  intro t ht id _
  refine ht.trans ?_
  unfold tickSensor
  split
  · exact .refl t
  split
  · exact .refl t
  · exact perform ..

theorem checkChanged (h : s.checkChanged id index = .ok (b, s')) : Calm razed s s' := by
  obtain ⟨n, -, h⟩ := bind_eq_ok.mp h
  cases h
  exact modifyNode fun _ _ ↦ rfl

theorem addRoot (h : s.addRoot sp id = .ok (b, s')) : Calm razed s s' := by
  obtain ⟨-, x, -, -, ⟨-, -, rfl⟩ | ⟨-, -, rfl⟩⟩ := addRoot_eq_ok.mp h
  · exact .refl s'
  · exact modifySpace _

theorem removeRoot (h : s.removeRoot sp id = .ok (b, s')) : Calm razed s s' := by
  obtain ⟨x, -, h⟩ := bind_eq_ok.mp h
  cases h
  exact modifySpace _

theorem define {name : String} (h : s.define sp name id = .ok s') : Calm razed s s' := by
  obtain ⟨x, -, -, rfl⟩ := define_eq_ok.mp h
  exact modifySpace _

theorem addRouteIn (h : s.addRouteIn sp r = .ok (b, s')) : Calm razed s s' := by
  unfold Scene.addRouteIn at h
  obtain ⟨x, -, h⟩ := bind_eq_ok.mp h
  obtain ⟨⟨⟩, -, h⟩ := bind_eq_ok.mp h
  split at h
  · cases h
    exact .refl _
  · cases h
    exact modifySpace _

theorem addRoute (h : s.addRoute r = .ok (b, s')) : Calm razed s s' := by
  obtain ⟨n, -, h⟩ := bind_eq_ok.mp h
  exact addRouteIn h

theorem addStatement {statement : Statement} (h : s.addStatement sp statement = .ok (b, s')) :
    Calm razed s s' := by
  obtain ⟨r, -, h⟩ := bind_eq_ok.mp h
  exact addRouteIn h

theorem addStatementOrWarn (text : String) (sp : SpaceId) (s : Scene) (r : Statement × Nat) :
    Calm razed s (addStatementOrWarn text sp s r) := by
  rcases addStatementOrWarn_cases text sp s r with ⟨new, he⟩ | ⟨cause, he⟩
  · exact addStatement he
  · rw [he]
    exact report ..

theorem removeRoute (s : Scene) (r : Route) : Calm razed s (s.removeRoute r).2 := by
  unfold Scene.removeRoute
  split
  · exact .refl s
  split
  · exact modifySpace _
  · exact .refl s

theorem createNode {typeName : String} (h : s.createNode sp typeName = .ok (id, s')) :
    Calm razed s s' := by
  obtain ⟨x, type, -, -, -, rfl⟩ := createNode_eq_ok.mp h
  exact addNode type

theorem openSpace {kind : SpaceKind} {owner : Option NodeId} {q : SpaceId}
    (h : s.openSpace kind sp owner = .ok (q, s')) : Calm razed s s' := by
  obtain ⟨x, hx, -, rfl⟩ := openSpace_eq_ok.mp h
  exact addSpace hx

/-- The loader is given up, or another one takes over that has nothing to do yet. -/
theorem reload {loader : Option Pool} (jobs : ∀ p ∈ loader, p.jobs ⊆ s.jobs)
    (works : ∀ p ∈ loader, p.works ⊆ s.works)
    (posted : ∀ p ∈ loader, p.completions ⊆ s.posted) :
    Calm razed s { s with loader := loader } := by
  refine aside rfl rfl ?_ ⟨[], (List.append_nil _).symm, rfl⟩
  cases loader with
  | none => exact ⟨List.nil_subset _, List.nil_subset _, List.nil_subset _⟩
  | some p => exact ⟨jobs p rfl, works p rfl, posted p rfl⟩

theorem terminateLoads (s : Scene) : Calm razed s s.terminateLoads.2 := by
  unfold Scene.terminateLoads
  split
  · exact .refl s
  next p hp =>
  refine reload ?_ ?_ ?_ <;> rintro _ ⟨⟩
  · simp [Scene.jobs, hp]
  · simp [Scene.works, hp]
  · change p.completions ⊆ s.posted
    simp [Scene.posted, hp]

theorem advanceClock {requested time : Double} (h : s.advanceClock requested = .ok (time, s')) :
    Calm razed s s' := by
  rcases advanceClock_cases h with ⟨text, rfl⟩ | rfl
  · exact report ..
  · exact aside rfl rfl (.of_loader rfl) ⟨[], (List.append_nil _).symm, rfl⟩

end operations

section reading

variable {s₀ : Scene} {x₀ : Space} {env : Surroundings} {d d' : Draft}

/-- Nodes are written in setup only while a text is read. -/
theorem step (h : Drafting s₀ guest env.space x₀ d) (hs : Draft.Step env d d') :
    Calm razed d.scene d'.scene := by
  cases hs with
  | create hc =>
    obtain ⟨t, ht, rfl⟩ := Draft.create_eq_ok.mp hc
    exact createNode ht
  | define _ hc =>
    obtain ⟨t, ht, rfl⟩ := Draft.define_eq_ok.mp hc
    exact define ht
  | set hid hc =>
    obtain ⟨t, ht, rfl⟩ := Draft.set_eq_ok.mp hc
    obtain ⟨names, hd, -⟩ := h.drafted
    obtain ⟨n, hn, hb⟩ := hd.blank hid
    rw [((setValue_eq_ok_of_inSetup hn hb.inSetup).mp ht).2]
    exact modifyNode fun _ _ ↦ rfl
  | addRoute => exact .refl _

theorem steps (h₀ : s₀.Coherent [] guest) (hx : s₀.space? env.space = some x₀)
    (h : Drafting s₀ guest env.space x₀ d) (hs : Draft.Steps env d d') :
    Calm razed d.scene d'.scene := by
  induction hs with
  | refl => exact .refl _
  | tail hs hs' ih => exact ih.trans (step (h.steps h₀ hx hs) hs')

theorem rollBack (h : d.scene.Coherent [] guest) : Calm razed d.scene d.rollBack := by
  unfold Draft.rollBack
  have undone : Calm razed d.scene (d.created.reverse.foldl
      (fun s id ↦ (s.removeNode id).toOption.getD s) d.scene) ∧
      (d.created.reverse.foldl (fun s id ↦ (s.removeNode id).toOption.getD s)
        d.scene).Coherent [] guest := by
    refine List.foldlRecOn _ _ (motive := fun s ↦ Calm razed d.scene s ∧ s.Coherent [] guest)
      ⟨.refl _, h⟩ ?_
    rintro s ⟨hc, hs⟩ id -
    cases hr : s.removeNode id with
    | error => exact ⟨hc, hs⟩
    | ok t => exact ⟨hc.trans (removeNode hs hr), hs.removeNode hr⟩
  exact undone.1

end reading

end Calm

end Scene

end SceneGraph
