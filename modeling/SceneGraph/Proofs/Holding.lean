import SceneGraph.Proofs.Owing
import SceneGraph.Proofs.Passing

/-!
What a node holds of its content in each load state, and what becomes of a request that it waits for
no longer.
-/

namespace SceneGraph

/-- The slot holds what its state lets it hold: a request while the node waits for the answer, the
content when the load is complete, and with content that was read as a scene its space. -/
structure LoadSlot.Tidy (id : NodeId) (type : NodeType) (slot : LoadSlot) : Prop where
  pending : ∀ r, slot.pending = some r → slot.state = .loading ∧ r = ⟨id, slot.ticket⟩
  content : slot.content.isSome → slot.state = .complete
  space : slot.space.isSome → slot.content.isSome ∧ type.content = .scene

namespace LoadSlot

variable {id : NodeId} {type : NodeType} {slot slot' : LoadSlot}

theorem Tidy.new (id : NodeId) (type : NodeType) : Tidy id type {} := ⟨nofun, nofun, nofun⟩

namespace Tidy

theorem pending_eq_none (h : slot.Tidy id type) (hs : slot.state ≠ .loading) :
    slot.pending = none :=
  Option.eq_none_iff_forall_ne_some.mpr fun r hr ↦ hs (h.pending r hr).1

theorem content_eq_none (h : slot.Tidy id type) (hs : slot.state ≠ .complete) :
    slot.content = none :=
  Option.not_isSome_iff_eq_none.mp fun hc ↦ hs (h.content hc)

theorem space_eq_none (h : slot.Tidy id type) (hs : slot.state ≠ .complete) : slot.space = none :=
  Option.not_isSome_iff_eq_none.mp fun hsp ↦ hs (h.content (h.space hsp).1)

/-- A slot without content is in order when it is known what it waits for. -/
theorem of_empty (content : slot.content = none) (space : slot.space = none)
    (pending : ∀ r, slot.pending = some r → slot.state = .loading ∧ r = ⟨id, slot.ticket⟩) :
    slot.Tidy id type :=
  ⟨pending, by rw [content]; nofun, by rw [space]; nofun⟩

theorem next (h : slot.Tidy id type) (hs : slot.Next id type slot') : slot'.Tidy id type := by
  have empty (he : slot.state ≠ .complete) : slot.content = none ∧ slot.space = none :=
    ⟨h.content_eq_none he, h.space_eq_none he⟩
  have fresh (he : slot.state = .notLoaded) : slot.content = none ∧ slot.space = none :=
    empty (by rw [he]; nofun)
  cases hs with
  | idle hs =>
    obtain ⟨content, space⟩ := fresh hs
    have free : slot.pending = none := h.pending_eq_none (by rw [hs]; nofun)
    exact of_empty content space fun r hr ↦ nomatch free.symm.trans hr
  | vain hs =>
    obtain ⟨content, space⟩ := fresh hs
    exact of_empty content space nofun
  | ask hs =>
    obtain ⟨content, space⟩ := fresh hs
    exact of_empty content space fun r hr ↦ ⟨rfl, (Option.some.inj hr).symm⟩
  | fill content space hs hk => exact ⟨nofun, fun _ ↦ rfl, fun hsp ↦ ⟨rfl, hk hsp⟩⟩
  | @leave state hc hs =>
    cases state with
    | notLoaded => exact of_empty rfl rfl nofun
    | loading => exact absurd rfl hs
    | complete => exact ⟨nofun, fun _ ↦ rfl, h.space⟩
    | failed =>
      obtain ⟨content, space⟩ := empty fun he ↦ by
        rw [he] at hc
        cases hc
      exact of_empty content space nofun

end Tidy

end LoadSlot

namespace Pool

variable {p q : Pool} {r : Request}

/-- The jobs that wait or are being worked on. -/
def undone (p : Pool) : List Job := p.queue ++ p.running.map Run.job

/-- The pool has a job for the request that was not cancelled. -/
def Pursues (p : Pool) (r : Request) : Prop :=
  ∃ job ∈ p.undone, job.cancelled = false ∧ job.request = r

namespace Pursues

theorem of_subset (h : q.Pursues r) (hs : q.undone ⊆ p.undone) : p.Pursues r :=
  have ⟨job, hj, pursued⟩ := h
  ⟨job, hs hj, pursued⟩

theorem of_new {provider : Provider} {workers : Nat} (h : Pool.new provider workers = .ok p) :
    ¬p.Pursues r := by
  unfold Pool.new at h
  split at h
  · cases h
  · cases h
    rintro ⟨job, hj, -⟩
    cases hj

theorem of_mark {hit : Job → Bool} {active : List Nat}
    (h : Pursues { p.mark hit with active } r) :
    ∃ job ∈ p.undone, job.cancelled = false ∧ job.request = r ∧ hit job = false := by
  obtain ⟨job, hj, spared, hr⟩ := h
  have marked : ∃ was ∈ p.undone, { was with cancelled := was.cancelled || hit was } = job := by
    rcases List.mem_append.mp hj with hj | hj
    · obtain ⟨was, hw, he⟩ := List.mem_map.mp hj
      exact ⟨was, List.mem_append_left _ hw, he⟩
    · obtain ⟨_, hm, rfl⟩ := List.mem_map.mp hj
      obtain ⟨run, hrun, rfl⟩ := List.mem_map.mp hm
      exact ⟨run.job, List.mem_append_right _ (List.mem_map_of_mem hrun), rfl⟩
  obtain ⟨was, hw, rfl⟩ := marked
  rw [Bool.or_eq_false_iff] at spared
  exact ⟨was, hw, spared.1, hr, spared.2⟩

theorem of_flag {requests : List Request} (h : (p.flag requests).Pursues r) :
    p.Pursues r ∧ r ∉ requests := by
  have marked : Pursues { p.mark fun job ↦ job.request ∈ requests with active := p.active } r := h
  obtain ⟨job, hj, spared, rfl, missed⟩ := of_mark marked
  exact ⟨⟨job, hj, spared, rfl⟩, of_decide_eq_false missed⟩

theorem of_terminate (h : p.terminate.2.Pursues r) : p.Pursues r :=
  have ⟨job, hj, spared, hr, _⟩ := of_mark h
  ⟨job, hj, spared, hr⟩

theorem of_submit {job : Job} (h : (p.submit job).Pursues r) : p.Pursues r ∨ r = job.request := by
  obtain ⟨job', hj, spared, rfl⟩ := h
  rcases List.mem_append.mp hj with hj | hj
  · rcases List.mem_append.mp hj with hj | hj
    · exact .inl ⟨job', List.mem_append_left _ hj, spared, rfl⟩
    · cases List.mem_singleton.mp hj
      exact .inr rfl
  · exact .inl ⟨job', List.mem_append_right _ hj, spared, rfl⟩

theorem of_take (h : p.take.Pursues r) : p.Pursues r := by
  refine h.of_subset fun job hj ↦ ?_
  unfold Pool.take at hj
  split at hj
  · exact hj
  next first queue hq =>
  split at hj
  · rw [undone, List.map_append] at hj
    rw [undone, hq]
    simp only [List.map_cons, List.map_nil, List.mem_append, List.mem_cons, List.not_mem_nil,
      or_false] at hj ⊢
    exact hj.elim (.inl ∘ .inr) fun hj ↦ hj.elim .inr (.inl ∘ .inl)
  · exact hj

theorem of_advance {i : Nat} {held : List Content} {cache : Cache}
    (h : (p.advance i held cache).1.Pursues r) : p.Pursues r := by
  cases hr : p.running[i]? with
  | none => rwa [Pool.advance, hr] at h
  | some run =>
    rw [advance_eq hr] at h
    refine h.of_subset fun job hj ↦ ?_
    rw [undone, queue_proceed] at hj
    refine (List.mem_append.mp hj).elim (List.mem_append_left _) fun hj ↦ ?_
    obtain ⟨run', hrun, rfl⟩ := List.mem_map.mp hj
    refine List.mem_append_right _ ?_
    rcases running_proceed p i run (run.step p.provider held cache).1 with he | he
    · rcases List.mem_or_eq_of_mem_set (he ▸ hrun) with hrun | rfl
      · exact List.mem_map_of_mem hrun
      · exact List.mem_map.mpr ⟨run, List.mem_of_getElem? hr, rfl⟩
    · exact List.mem_map_of_mem (List.mem_of_mem_eraseIdx (he ▸ hrun))

end Pursues

end Pool

namespace Scene

variable {l : Licence} {s s' t : Scene} {id k : NodeId} {n m : Node} {r : Request}

/-- The request whose answer the node waits for. -/
def awaited? (s : Scene) (id : NodeId) : Option Request := (s.slot? id).bind LoadSlot.pending

def Pursues (s : Scene) (r : Request) : Prop := ∃ p, s.loader = some p ∧ p.Pursues r

def Tidy (s : Scene) : Prop :=
  ∀ {id n slot}, s.node? id = some n → n.load = some slot → slot.Tidy id n.type

theorem Tidy.getD (h : s.Tidy) (hn : s.node? id = some n) : (n.load.getD {}).Tidy id n.type := by
  cases hl : n.load with
  | none => exact .new id n.type
  | some slot => exact h hn hl

theorem awaited?_eq (hn : s.node? id = some n) : s.awaited? id = (n.load.getD {}).pending := by
  rw [awaited?, slot?, hn]
  change n.load.bind _ = _
  cases n.load <;> rfl

theorem Met.tidy (h : s.Met) : s.Tidy := fun {id n slot} hn hl ↦ by
  have tidy : (n.load.getD {}).Tidy id n.type := by
    refine (h.forall_nodes (P := fun id n ↦ (n.load.getD {}).Tidy id n.type) ?_ ?_ hn).2
    · intro type _ _ id sp place
      unfold Node.new
      dsimp only
      split <;> exact .new id type
    · intro t id n m _ tidy ha
      cases ha with
      | load _ hs => exact tidy.next hs
      | same | flagged | stored | performed | edited | opened => exact tidy
  rwa [hl] at tidy

section loader

theorem loader_perform (s : Scene) (id : NodeId) (script : Behavior → Script) :
    (s.perform id script).loader = s.loader := by
  unfold perform
  split
  · rfl
  dsimp only
  split
  · exact loader_modifyNode ..
  · exact (loader_markAll ..).trans (loader_modifyNode ..)

theorem loader_editChildren (s : Scene) (id : NodeId) (input children : Nat)
    (edit : List NodeId → List NodeId → List NodeId) :
    (s.editChildren id input children edit).loader = s.loader := by
  unfold editChildren
  split
  · rfl
  dsimp only
  split
  · rfl
  split
  · exact loader_modifyNode ..
  · exact (loader_modifyNode ..).trans (loader_modifyNode ..)

theorem loader_cancel (h : t.loader = s.loader) (r : Option Request) :
    (t.cancel r).loader = (s.cancel r).loader := by
  cases r with
  | none => exact h
  | some r => exact congrArg (Option.map fun p ↦ p.flag [r]) h

theorem Pursues.of_cancel {o : Option Request} (h : (s.cancel o).Pursues r) :
    s.Pursues r ∧ o ≠ some r := by
  cases o with
  | none => exact ⟨h, nofun⟩
  | some r' =>
    obtain ⟨q, hq, pursued⟩ := h
    obtain ⟨p, hp, rfl⟩ := Option.map_eq_some_iff.mp hq
    obtain ⟨pursued, hne⟩ := pursued.of_flag
    exact ⟨⟨p, hp, pursued⟩, fun he ↦ hne (List.mem_singleton.mpr (Option.some.inj he).symm)⟩

end loader

section awaited

open Function (update)

theorem awaited?_modifySlot {f : LoadSlot → LoadSlot} (hn : s.node? id = some n) :
    (s.modifySlot id f).awaited? = update s.awaited? id (f (n.load.getD {})).pending := by
  funext k
  have modified : (s.modifySlot id f).node? k =
      if k = id then (s.node? k).map fun n ↦ { n with load := some (f (n.load.getD {})) }
      else s.node? k := node?_modifyNode ..
  by_cases hk : k = id
  · subst hk
    rw [if_pos rfl, hn] at modified
    rw [awaited?_eq modified, Function.update_self]
    rfl
  · rw [if_neg hk] at modified
    rw [awaited?, slot?, modified, Function.update_of_ne hk]
    rfl

theorem awaited?_congr (h : ∀ k, s'.slot? k = s.slot? k) (k : NodeId) :
    s'.awaited? k = s.awaited? k := by
  rw [awaited?, h, awaited?]

theorem awaited?_cancel (s : Scene) (r : Option Request) : (s.cancel r).awaited? = s.awaited? :=
  funext (awaited?_congr (slot?_congr (nodes_cancel ..)))

theorem awaited?_addNode (s : Scene) (sp : SpaceId) (type : NodeType) (k : NodeId) :
    (s.addNode sp type).awaited? k = s.awaited? k := by
  unfold awaited? slot?
  rw [node?_addNode]
  split
  · next hk =>
    have fresh : s.node? k = none := hk ▸ Arena.get?_of_le (Nat.le_refl _)
    rw [fresh]
    change ((if type.has .loadable then some {} else none : Option LoadSlot).bind _) = none
    split <;> rfl
  · rfl

theorem awaited?_dropNode {j : Nat} :
    (s.dropNode j n).awaited? = update s.awaited? (.issued j) none := by
  funext k
  unfold awaited? slot?
  rw [node?_dropNode]
  split
  · next hk => rw [hk, Function.update_self]; rfl
  · next hk => rw [Function.update_of_ne hk]

theorem Remade.slot?_eq (h : Remade id m s s') (hn : s.node? id = some n) (hl : m.load = n.load)
    (k : NodeId) : s'.slot? k = s.slot? k := by
  rw [Scene.slot?, h, Scene.slot?]
  split
  · next hk => rw [hk, hn]; exact hl
  · rfl

end awaited

section handled

open Function (update)

/-- What a pass does to the requests that nodes wait for, and to those that the loader pursues. -/
inductive Handled (s s' : Scene) : Prop
  | kept (awaited : ∀ k, s'.awaited? k = s.awaited? k) (pursued : ∀ {r}, s'.Pursues r → s.Pursues r)
  | asked {id : NodeId} {r : Request} (free : s.awaited? id = none) (hr : r.node = id)
      (awaited : s'.awaited? = update s.awaited? id (some r))
      (pursued : ∀ {r' : Request}, s'.Pursues r' → s.Pursues r' ∨ r' = r)
  /-- The node waits no longer, and what it waited for is cancelled. -/
  | dropped {id : NodeId} (awaited : s'.awaited? = update s.awaited? id none)
      (loader : s'.loader = (s.cancel (s.awaited? id)).loader)

namespace Handled

theorem of_slots (slots : ∀ k, s'.slot? k = s.slot? k) (loader : s'.loader = s.loader) :
    Handled s s' :=
  .kept (awaited?_congr slots) fun ⟨p, hp, pursued⟩ ↦ ⟨p, loader ▸ hp, pursued⟩

theorem of_loader {p q : Pool} (nodes : s'.nodes = s.nodes) (hp : s.loader = some p)
    (hq : s'.loader = some q) (pursued : ∀ {r}, q.Pursues r → p.Pursues r) : Handled s s' := by
  refine .kept (awaited?_congr (slot?_congr nodes)) fun ⟨q', hq', h⟩ ↦ ⟨p, hp, ?_⟩
  cases hq.symm.trans hq'
  exact pursued h

theorem of_slot {f : LoadSlot → LoadSlot} (hn : s.node? id = some n)
    (hf : (f (n.load.getD {})).pending = none) :
    Handled s ((s.modifySlot id f).cancel (n.load.getD {}).pending) := by
  refine @dropped _ _ id ?_ ?_
  · rw [awaited?_cancel, awaited?_modifySlot hn, hf]
  · rw [awaited?_eq hn]
    exact loader_cancel (loader_modifyNode ..) _

end Handled

theorem Touch.handled (h : Touch l s s') (tidy : s.Tidy) : Handled s s' := by
  cases h with
  | log | reroute | useCache | dequeue => exact .of_slots (fun _ ↦ rfl) rfl
  | terminate hp => exact .of_loader rfl hp rfl Pool.Pursues.of_terminate
  | renew _ hp =>
    refine .kept (fun _ ↦ rfl) fun ⟨q, hq, pursued⟩ ↦ ?_
    cases hq
    exact absurd pursued (Pool.Pursues.of_new hp)
  | drain _ hp => exact .of_loader rfl hp rfl fun h ↦ h
  | take _ hp => exact .of_loader rfl hp rfl Pool.Pursues.of_take
  | advance _ hp i => exact .of_loader rfl hp rfl Pool.Pursues.of_advance
  | @idle id n field _ hn =>
    have awaited : (s.modifySlot id (·.enter .loading)).awaited? = s.awaited? := by
      rw [awaited?_modifySlot hn]
      change update s.awaited? id (n.load.getD {}).pending = _
      rw [← awaited?_eq hn, Function.update_eq_self]
    have loader : (s.modifySlot id (·.enter .loading)).loader = s.loader := loader_modifyNode ..
    exact .kept (congrFun awaited) fun ⟨p, hp, pursued⟩ ↦ ⟨p, loader.symm.trans hp, pursued⟩
  | @leave id n field state hn _ _ hs =>
    exact .of_slot hn (by cases state <;> first | rfl | exact absurd rfl hs)
  | vain hn => exact .of_slot hn rfl
  | fill _ _ hn => exact .of_slot hn rfl
  | @ask id n field p hn _ hs _ hp =>
    have free : s.awaited? id = none := by
      rw [awaited?_eq hn]
      exact (tidy.getD hn).pending_eq_none (by rw [hs]; nofun)
    refine .asked free rfl (awaited?_modifySlot hn) fun ⟨q, hq, pursued⟩ ↦ ?_
    cases hq
    exact pursued.of_submit.imp_left fun h ↦ ⟨p, hp, h⟩
  | @write id n index v hn =>
    have written := Remade.modifyNode hn fun n ↦ n.store index v
    have marked := written.trans (.markAll written.self [index])
    exact .of_slots (marked.slot?_eq hn rfl)
      ((loader_markAll _ id [index]).trans (loader_modifyNode ..))
  | draft | endSetup => exact .of_slots (slot?_modifyNode fun _ ↦ rfl) (loader_modifyNode ..)
  | @perform id n script hn =>
    obtain ⟨flags, -, remade⟩ := Remade.perform hn script
    exact .of_slots (remade.slot?_eq hn rfl) (loader_perform s id script)
  | @editChildren id n input children edit hn =>
    have loader := loader_editChildren s id input children edit
    rcases Remade.editChildren hn input children edit with he | ⟨flags, -, remade⟩
    · exact .of_slots (slot?_congr (congrArg nodes he)) loader
    · exact .of_slots (remade.slot?_eq hn rfl) loader
  | @addNode sp _ type => exact .kept (awaited?_addNode s sp type) fun h ↦ h
  | @dropNode k n hn =>
    refine .dropped awaited?_dropNode ?_
    rw [awaited?, slot?, hn, Scene.dropNode]
    exact loader_cancel (by rfl) _

theorem Pass.handled (h : Pass s s') (tidy : s.Tidy) : Handled s s' := by
  cases h with
  | touch h => exact h.handled tidy
  | check => exact .of_slots (slot?_modifyNode fun _ ↦ rfl) (loader_modifyNode ..)
  | clock | journal => exact .of_slots (fun _ ↦ rfl) rfl

end handled

/-- What the loader pursues is waited for. -/
theorem Met.pursues (h : s.Met) (hr : s.Pursues r) : s.awaited? r.node = some r := by
  obtain ⟨catalog, settings, built, passes⟩ := h
  induction passes generalizing r with
  | refl =>
    obtain ⟨p, hp, -⟩ := hr
    cases hp
  | @tail s s' before hp ih =>
    have met : s.Met := ⟨catalog, settings, built, before⟩
    cases hp.handled met.tidy with
    | kept awaited pursued => exact (awaited _).trans (ih (pursued hr))
    | asked free same awaited pursued =>
      rw [awaited]
      rcases pursued hr with hr | rfl
      · rw [Function.update_of_ne fun he ↦ ?_, ih hr]
        exact nomatch (ih hr).symm.trans ((congrArg s.awaited? he).trans free)
      · rw [same, Function.update_self]
    | @dropped id awaited loader =>
      obtain ⟨hr, hne⟩ := Pursues.of_cancel (o := s.awaited? id) (by rwa [Pursues, ← loader])
      rw [awaited, Function.update_of_ne fun he ↦ ?_, ih hr]
      exact hne ((congrArg s.awaited? he).symm.trans (ih hr))

/-- A node waits for a request no longer, since on the way the request was cancelled. -/
theorem Met.cancelled (h : s.Met) (passes : Passes s t) (hs : s.awaited? id = some r)
    (ht : t.awaited? id ≠ some r) : ∃ u v, Passes s u ∧ u.awaited? id = some r ∧
      Pass u v ∧ v.loader = u.loader.map (fun p ↦ p.flag [r]) ∧ Passes v t := by
  induction passes with
  | refl => exact absurd hs ht
  | @tail u t before hp ih =>
    by_cases hu : u.awaited? id = some r
    · refine ⟨u, t, before, hu, hp, ?_, .refl⟩
      cases hp.handled (h.passes before).tidy with
      | kept awaited => exact absurd ((awaited id).trans hu) ht
      | @asked k _ free _ awaited =>
        refine absurd ?_ ht
        rw [awaited, Function.update_of_ne fun he ↦ ?_, hu]
        exact nomatch (he ▸ hu).symm.trans free
      | @dropped k awaited loader =>
        by_cases hk : id = k
        · subst hk
          rw [loader, hu]
          rfl
        · rw [awaited, Function.update_of_ne hk] at ht
          exact absurd hu ht
    · obtain ⟨u', v, before, hu', hv, loader, after⟩ := ih hu
      exact ⟨u', v, before, hu', hv, loader, after.tail hp⟩

/-- In the midst of operations as between them, a node has a request to cancel only while it waits
for the answer, its content only while the load is complete, and a space only with content that was
read as a scene. The loader works on nothing that is not waited for: a node that ceases to wait for
a request cancels it. -/
theorem Reachable.holding (h : s.Reachable) (passes : Passes s t) :
    (∀ {id n slot}, t.node? id = some n → n.load = some slot → slot.Tidy id n.type) ∧
    (∀ {r}, t.Pursues r → t.awaited? r.node = some r) ∧
    ∀ {id r}, s.awaited? id = some r → t.awaited? id ≠ some r →
      ∃ u v, Passes s u ∧ u.awaited? id = some r ∧ Pass u v ∧
        v.loader = u.loader.map (fun p ↦ p.flag [r]) ∧ Passes v t :=
  have met := h.met.passes passes
  ⟨met.tidy, met.pursues, h.met.cancelled passes⟩

theorem holding_framed : ∃ slot u v, framed.slot? (.issued 0) = some slot ∧ slot.state = .loading ∧
    slot.pending = some ⟨.issued 0, slot.ticket⟩ ∧ slot.content = none ∧
    Pass u v ∧ u.awaited? (.issued 0) = slot.pending ∧
    v.loader = u.loader.map (fun p ↦ p.flag [⟨.issued 0, slot.ticket⟩]) ∧
    ¬((Operation.cancelLoad (.issued 0)).run framed).Pursues ⟨.issued 0, slot.ticket⟩ := by
  have pending : (framed.slot? (.issued 0)).map LoadSlot.pending = some (some ⟨.issued 0, 1⟩) := by
    cbv
  have free : ((Operation.cancelLoad (.issued 0)).run framed).awaited? (.issued 0) = none := by cbv
  obtain ⟨slot, hl, hr⟩ := Option.map_eq_some_iff.mp pending
  obtain ⟨n, hn, hl'⟩ := slot?_eq_some.mp hl
  have passes := reachable_framed.coherent.passes (.cancelLoad (.issued 0))
  have tidy := (reachable_framed.holding .refl).1 hn hl'
  obtain ⟨loading, same⟩ := tidy.pending _ hr
  have awaited : framed.awaited? (.issued 0) = some ⟨.issued 0, slot.ticket⟩ := by
    rw [awaited?, hl, ← same]
    exact hr
  obtain ⟨-, pursues, cancelled⟩ := reachable_framed.holding passes
  have ceased {r : Request} :
      ((Operation.cancelLoad (.issued 0)).run framed).awaited? (.issued 0) ≠ some r := by
    intro hw
    cases free.symm.trans hw
  obtain ⟨u, v, -, hu, hp, loader, -⟩ := cancelled awaited ceased
  have incomplete : slot.state ≠ .complete := by
    rw [loading]
    decide
  rw [same] at hr
  exact ⟨slot, u, v, hl, loading, hr, tidy.content_eq_none incomplete, hp, hu.trans hr.symm, loader,
    fun pursued ↦ ceased (pursues pursued)⟩

end Scene

end SceneGraph
