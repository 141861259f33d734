import SceneGraph.Proofs.Owing

/-!
Where the results come from that a loader posts. Each answers a request that the loader was asked,
and content is what the provider served for one of its urls, or what was live in the cache there.
-/

namespace SceneGraph

namespace Pool

variable {asked asked' : Request → Provider → List String → Prop}
  {had had' : Provider → List String → Content → Prop} {p : Pool} {i : Nat} {r : Run}

/-- The requests that a pool has anything of. -/
def requests (p : Pool) : List Request :=
  p.queue.map Job.request ++ (p.running.map (·.job.request) ++ p.completions.map Completion.request)

/-- What the pool has was asked of a pool with some provider, and the content is had from there. -/
structure Backed (asked : Request → Provider → List String → Prop)
    (had : Provider → List String → Content → Prop) (p : Pool) : Prop where
  queue : ∀ job ∈ p.queue, asked job.request p.provider job.urls
  running : ∀ r ∈ p.running, asked r.job.request p.provider r.job.urls ∧
    r.stage.urls ⊆ r.job.urls ∧
      ∀ content, r.outcome? = some (.loaded content) → had p.provider r.job.urls content
  completions : ∀ c ∈ p.completions, ∃ provider urls, asked c.request provider urls ∧
    ∀ content, c.outcome = .loaded content → had provider urls content

namespace Backed

theorem of_new {provider : Provider} {workers : Nat} (h : Pool.new provider workers = .ok p) :
    p.Backed asked had := by
  unfold Pool.new at h
  split at h
  · cases h
  · cases h
    exact ⟨nofun, nofun, nofun⟩

theorem mono (h : p.Backed asked had)
    (ha : ∀ {r provider urls}, asked r provider urls → asked' r provider urls)
    (hh : ∀ {provider urls content}, had provider urls content → had' provider urls content) :
    p.Backed asked' had' where
  queue job hj := ha (h.queue job hj)
  running r hr :=
    have ⟨was, left, found⟩ := h.running r hr
    ⟨ha was, left, fun content hc ↦ hh (found content hc)⟩
  completions c hc :=
    have ⟨provider, urls, was, found⟩ := h.completions c hc
    ⟨provider, urls, ha was, fun content ho ↦ hh (found content ho)⟩

theorem of_mem_requests {q : Request} (h : p.Backed asked had) (hq : q ∈ p.requests) :
    ∃ provider urls, asked q provider urls := by
  simp only [requests, List.mem_append, List.mem_map] at hq
  rcases hq with ⟨job, hj, rfl⟩ | ⟨r, hr, rfl⟩ | ⟨c, hc, rfl⟩
  · exact ⟨_, _, h.queue job hj⟩
  · exact ⟨_, _, (h.running r hr).1⟩
  · obtain ⟨provider, urls, was, -⟩ := h.completions c hc
    exact ⟨provider, urls, was⟩

theorem mark (h : p.Backed asked had) (hit : Job → Bool) (active : List Nat) :
    Backed asked had { p.mark hit with active } where
  queue job hj := by
    obtain ⟨job', hj', rfl⟩ := List.mem_map.mp hj
    exact h.queue job' hj'
  running r hr := by
    obtain ⟨r', hr', rfl⟩ := List.mem_map.mp hr
    exact h.running r' hr'
  completions := h.completions

theorem submit (h : p.Backed asked had) {job : Job} (ha : asked job.request p.provider job.urls) :
    (p.submit job).Backed asked had where
  queue job' hj := by
    rcases List.mem_append.mp hj with hj | hj
    · exact h.queue job' hj
    · cases List.mem_singleton.mp hj
      exact ha
  running := h.running
  completions := h.completions

theorem drain (h : p.Backed asked had) : p.drain.2.Backed asked had :=
  ⟨h.queue, h.running, nofun⟩

theorem take (h : p.Backed asked had) : p.take.Backed asked had := by
  unfold Pool.take
  split
  · exact h
  next job queue hq =>
  split
  · refine ⟨fun j hj ↦ h.queue j (hq ▸ List.mem_cons_of_mem _ hj), fun r hr ↦ ?_, h.completions⟩
    rcases List.mem_append.mp hr with hr | hr
    · exact h.running r hr
    · cases List.mem_singleton.mp hr
      exact ⟨h.queue job (hq ▸ List.mem_cons_self), List.Subset.refl _, nofun⟩
  · exact h

/-- A worker goes on; what it finds is had for a url of its job. -/
theorem advance (h : p.Backed asked had) (hr : p.running[i]? = some r) {held : List Content}
    {cache : Cache} (found : ∀ url ∈ r.job.urls, ∀ content,
      ((cache.get held url).1 = some content ∨ ∃ bytes, p.provider.fetch url = .ok bytes ∧
        content.url = url ∧ content.bytes = bytes) → had p.provider r.job.urls content) :
    (p.advance i held cache).1.Backed asked had := by
  obtain ⟨was, left, before⟩ := h.running r (List.mem_of_getElem? hr)
  have after : ∀ content, Run.outcome? { r with stage := (r.step p.provider held cache).1 } =
      some (.loaded content) → had p.provider r.job.urls content := by
    intro content hc
    unfold Run.outcome? at hc
    split at hc
    · next outcome hs =>
      cases hc
      obtain ⟨url, hu, source⟩ := Run.url?_of_loaded hs
      exact found url (left (List.mem_of_mem_head? hu)) content source
    · next outcome hs =>
      cases hc
      exact before content (by rw [Run.outcome?, Run.ended_of_struck hs])
    · cases hc
    · cases hc
    · cases hc
  have provider : (p.advance i held cache).1.provider = p.provider := by
    rw [advance_eq hr, proceed]
    split <;> rfl
  refine ⟨fun job hj ↦ ?_, fun r' hr' ↦ ?_, fun c hc ↦ ?_⟩
  · rw [advance_eq hr, queue_proceed] at hj
    rw [provider]
    exact h.queue job hj
  · rw [provider]
    have cases : r' = { r with stage := (r.step p.provider held cache).1 } ∨ r' ∈ p.running := by
      rw [advance_eq hr] at hr'
      rcases running_proceed p i r (r.step p.provider held cache).1 with he | he
      · exact (List.mem_or_eq_of_mem_set (he ▸ hr')).symm
      · exact .inr (List.mem_of_mem_eraseIdx (he ▸ hr'))
    rcases cases with rfl | hr'
    · exact ⟨was, List.Subset.trans (Run.urls_of_step ..) left, after⟩
    · exact h.running r' hr'
  · rw [advance_eq hr, completions_proceed] at hc
    rcases List.mem_append.mp hc with hc | hc
    · exact h.completions c hc
    · refine ⟨p.provider, r.job.urls, ?_⟩
      obtain ⟨⟨k, c⟩, hc, rfl⟩ := List.mem_map.mp hc
      unfold Run.posting at hc
      split at hc
      · next outcome hs =>
        cases List.mem_singleton.mp hc
        refine ⟨was, fun content ho ↦ before content ?_⟩
        rw [Run.outcome?, hs]
        exact congrArg some ho
      all_goals cases hc

end Backed

end Pool

namespace Scene

/-- The ticket of the request was given by its node, or the node is gone. -/
structure Past (s : Scene) (r : Request) : Prop where
  met : ¬s.Fresh r.node
  old : ∀ {n}, s.node? r.node = some n → r.ticket ≤ (n.load.getD {}).ticket

def Backing (asked : Request → Provider → List String → Prop)
    (had : Provider → List String → Content → Prop) (s : Scene) : Prop :=
  ∀ p, s.loader = some p → p.Backed asked had

/-- Requests that are past stay so, and a loader that is backed stays so if what was asked on the
way was asked rightly. -/
structure Conveys (asked : Request → Provider → List String → Prop)
    (had : Provider → List String → Content → Prop) (s s' : Scene) : Prop where
  past : ∀ {r}, s.Past r → s'.Past r
  backing : (∀ {r provider urls}, ¬s.Past r → s'.Past r → asked r provider urls) →
    s.Backing asked had → s'.Backing asked had

variable {asked : Request → Provider → List String → Prop}
  {had : Provider → List String → Content → Prop} {l : Licence} {s s' t : Scene} {id : NodeId}
  {n : Node} {r : Request} {os : List (Operation × Scene)}

/-- Nodes that are not new come from nodes that were there, with tickets that are not smaller. -/
theorem Past.of_nodes (h : s.Past r) (issued : s.nodes.issued ≤ s'.nodes.issued)
    (nodes : ∀ {n'}, s'.node? r.node = some n' → s.Fresh r.node ∨
      ∃ n, s.node? r.node = some n ∧ (n.load.getD {}).ticket ≤ (n'.load.getD {}).ticket) :
    s'.Past r where
  met hf := h.met (hf.of_issued issued)
  old hn' := by
    obtain ⟨n, hn, le⟩ := (nodes hn').resolve_left h.met
    exact Nat.le_trans (h.old hn) le

theorem Past.congr (h : s.Past r) (nodes : s'.nodes = s.nodes) : s'.Past r :=
  h.of_nodes (Nat.le_of_eq (by rw [nodes])) fun hn ↦
    .inr ⟨_, (node?_congr nodes _).symm.trans hn, Nat.le_refl _⟩

theorem Past.modifyNode (h : s.Past r) {f : Node → Node} (hf : ∀ n, s.node? id = some n →
    (n.load.getD {}).ticket ≤ ((f n).load.getD {}).ticket) : (s.modifyNode id f).Past r := by
  refine h.of_nodes (Nat.le_of_eq (issued_modifyNode ..).symm) fun hn' ↦ .inr ?_
  rw [node?_modifyNode] at hn'
  split at hn'
  · next he =>
    obtain ⟨n, hn, rfl⟩ := Option.map_eq_some_iff.mp hn'
    exact ⟨n, hn, hf n (he ▸ hn)⟩
  · exact ⟨_, hn', Nat.le_refl _⟩

namespace Conveys

theorem of_loader (past : ∀ {r}, s.Past r → s'.Past r)
    (loader : ∀ q, s'.loader = some q → s.loader = some q ∨ ∃ p, s.loader = some p ∧
      (p.Backed asked had → q.Backed asked had)) : Conveys asked had s s' where
  past := past
  backing _ hb q hq := by
    rcases loader q hq with hp | ⟨p, hp, kept⟩
    · exact hb q hp
    · exact kept (hb p hp)

protected theorem refl (s : Scene) : Conveys asked had s s := ⟨id, fun _ h ↦ h⟩

protected theorem trans (h : Conveys asked had s t) (h' : Conveys asked had t s') :
    Conveys asked had s s' where
  past hr := h'.past (h.past hr)
  backing ha hb := by
    have first := h.backing (fun new past ↦ ha new (h'.past past)) hb
    exact h'.backing (fun new past ↦ ha (fun hr ↦ new (h.past hr)) past) first

theorem of_stroke (h : Stroke l s s') (tends : ¬l.tends) : Conveys asked had s s' := by
  cases h with
  | aside nodes _ loader => exact of_loader (fun hr ↦ hr.congr nodes) fun q hq ↦ .inl (loader ▸ hq)
  | dequeue => exact of_loader (fun hr ↦ hr.congr rfl) fun q hq ↦ .inl hq
  | flag hp requests =>
    refine of_loader (fun hr ↦ hr.congr rfl) fun q hq ↦ .inr ⟨_, hp, fun hb ↦ ?_⟩
    cases hq
    exact hb.mark _ _
  | terminate hp =>
    refine of_loader (fun hr ↦ hr.congr rfl) fun q hq ↦ .inr ⟨_, hp, fun hb ↦ ?_⟩
    cases hq
    exact hb.mark _ []
  | tend ht => exact absurd ht tends
  | @slot _ id n f hn ticket _ =>
    refine of_loader (fun hr ↦ hr.modifyNode fun m hm ↦ ?_) fun q hq ↦
      .inl ((loader_modifyNode ..).symm.trans hq)
    cases hn.symm.trans hm
    exact Nat.le_of_eq ticket.symm
  | @ask _ id n p hn hs hp =>
    have self : (s.modifySlot id (·.ask id)).node? id =
        some { n with load := some ((n.load.getD {}).ask id) } := node?_modifyNode_self _ _ _ hn
    refine ⟨fun hr ↦ (hr.modifyNode fun m hm ↦ Nat.le_succ _).congr rfl, fun ha hb q hq ↦ ?_⟩
    cases hq
    refine (hb p hp).submit (ha (fun hr ↦ ?_) ⟨fun hf ↦ ?_, fun {m} hm ↦ ?_⟩)
    · have le := hr.old hn
      exact Nat.not_succ_le_self _ le
    · cases self.symm.trans hf.node?
    · cases self.symm.trans hm
      exact Nat.le_refl _
  | revise =>
    refine of_loader (fun hr ↦ ?_) fun q hq ↦
      .inl (((loader_markAll ..).trans (loader_modifyNode ..)).symm.trans hq)
    refine hr.of_nodes
      (Nat.le_of_eq ((issued_markAll ..).trans (issued_modifyNode ..)).symm) fun hn' ↦ .inr ?_
    rw [node?_markAll, node?_modifyNode] at hn'
    split at hn'
    · obtain ⟨m, hm, rfl⟩ := Option.map_eq_some_iff.mp hn'
      obtain ⟨n, hn, rfl⟩ := Option.map_eq_some_iff.mp hm
      exact ⟨n, hn, Nat.le_refl _⟩
    · exact ⟨_, hn', Nat.le_refl _⟩
  | draft | endSetup =>
    exact of_loader (fun hr ↦ hr.modifyNode fun _ _ ↦ Nat.le_refl _) fun q hq ↦
      .inl ((loader_modifyNode ..).symm.trans hq)
  | addNode s sp type =>
    have issued := Stroke.issued_le (.addNode (l := l) s sp type)
    refine of_loader (fun hr ↦ hr.of_nodes issued fun hn' ↦ ?_) fun q hq ↦ .inl hq
    rcases of_node?_addNode hn' with ⟨he, -⟩ | hn
    · refine .inl fun k hk ↦ ?_
      cases he.symm.trans hk
      exact Nat.le_refl _
    · exact .inr ⟨_, hn, Nat.le_refl _⟩
  | dropNode hn =>
    refine of_loader (fun hr ↦ hr.of_nodes (Stroke.issued_le (.dropNode (l := l) hn)) fun hn' ↦
      .inr ⟨_, (of_node?_dropNode hn').2, Nat.le_refl _⟩) fun q hq ↦ ?_
    unfold Scene.dropNode Scene.cancel at hq
    split at hq
    · exact .inl hq
    · obtain ⟨p, hp, rfl⟩ := Option.map_eq_some_iff.mp hq
      exact .inr ⟨p, hp, fun hb ↦ hb.mark _ _⟩

theorem of_strokes (h : Strokes l s s') (tends : ¬l.tends) : Conveys asked had s s' := by
  induction h with
  | refl => exact .refl s
  | tail _ hs ih => exact ih.trans (of_stroke hs tends)

theorem of_aside (h : Strokes .aside s s') : Conveys asked had s s' := of_strokes h id

theorem drain (s : Scene) :
    Conveys asked had s { s with loader := s.loader.map fun p ↦ p.drain.2 } := by
  refine of_loader (fun hr ↦ hr.congr rfl) fun q hq ↦ .inr ?_
  obtain ⟨p, hp, rfl⟩ := Option.map_eq_some_iff.mp hq
  exact ⟨p, hp, fun hb ↦ hb.drain⟩

theorem renew {provider : Provider} {workers : Nat} {p : Pool}
    (hp : Pool.new provider workers = .ok p) : Conveys asked had s { s with loader := some p } where
  past hr := hr.congr rfl
  backing _ _ q hq := by
    cases hq
    exact .of_new hp

/-- Whatever is done, be it to the loader or by its workers. -/
theorem run (h : s.Coherent [] none) (op : Operation)
    (found : ∀ p urls url content, s.loader = some p → url ∈ urls →
      ((s.cache.get s.held url).1 = some content ∨ ∃ bytes, p.provider.fetch url = .ok bytes ∧
        content.url = url ∧ content.bytes = bytes) → had p.provider urls content) :
    Conveys asked had s (op.run s) := by
  by_cases tends : op.Tends
  · cases tends with
    | tick hooks requested =>
      refine after_snd_induction (.refl s) fun tally s' ht ↦ ?_
      obtain ⟨time, t, ha, after⟩ := Strokes.tick (l := .aside) h trivial ht
      have clock := Strokes.advanceClock (l := .aside) ha
      have drained := Touches.drainLoads (h.advanceClock ha) (Licence.covers_aside t)
      exact (((of_aside clock).trans (drain t)).trans (of_aside drained.strokes)).trans (of_aside after)
    | setProvider provider =>
      rcases Touches.setProvider (l := .aside) h provider with touches |
        ⟨p, t, hp, -, -, before, he⟩
      · exact of_aside touches.strokes
      · rw [Operation.run, he]
        exact ((of_aside before.strokes).trans (renew hp)).trans (of_aside (Touches.autoLoads ..).strokes)
    | poolTake =>
      cases hp : s.loader with
      | none => simpa only [Operation.run, hp] using .refl s
      | some p =>
        simp only [Operation.run, hp]
        refine of_loader (fun hr ↦ hr.congr rfl) fun q hq ↦ .inr ⟨p, hp, fun hb ↦ ?_⟩
        cases hq
        exact hb.take
    | poolAdvance i =>
      cases hp : s.loader with
      | none => simpa only [Operation.run, hp] using .refl s
      | some p =>
        simp only [Operation.run, hp]
        refine of_loader (fun hr ↦ hr.congr rfl) fun q hq ↦ .inr ⟨p, hp, fun hb ↦ ?_⟩
        cases hq
        cases hr : p.running[i]? with
        | none => rwa [Pool.advance, hr]
        | some r =>
          exact hb.advance hr fun url hu content hc ↦ found p r.job.urls url content hp hu hc
  rcases h.run_cases op with ⟨id, index, rfl⟩ | rfl | strokes
  · rw [Operation.run_checkChanged]
    exact of_loader (fun hr ↦ hr.modifyNode fun _ _ ↦ Nat.le_refl _) fun q hq ↦
      .inl ((loader_modifyNode ..).symm.trans hq)
  · exact of_loader (fun hr ↦ hr.congr rfl) fun q hq ↦ .inl hq
  · exact of_strokes strokes tends

end Conveys

/-- The content was had for one of the urls: the provider served it, or it was live in the cache at
a moment of the trail. -/
def Supplied (os : List (Operation × Scene)) (provider : Provider) (urls : List String)
    (content : Content) : Prop :=
  ∃ url ∈ urls, (∃ bytes, provider.fetch url = .ok bytes ∧ content.url = url ∧
      content.bytes = bytes) ∨
    ∃ o ∈ os, (o.2.cache.get o.2.held url).1 = some content

theorem Supplied.append {provider : Provider} {urls : List String} {content : Content}
    (h : Supplied os provider urls content) (os' : List (Operation × Scene)) :
    Supplied (os ++ os') provider urls content := by
  obtain ⟨url, hu, served | ⟨o, ho, live⟩⟩ := h
  · exact ⟨url, hu, .inl served⟩
  · exact ⟨url, hu, .inr ⟨o, List.mem_append_left _ ho, live⟩⟩

/-- Nothing but requests of its nodes is with the loader of a scene. -/
theorem Story.past (h : Story os s) : s.Backing (fun r _ _ ↦ s.Past r) fun _ _ _ ↦ True := by
  induction h with
  | new built h =>
    obtain ⟨-, -, h⟩ := bind_eq_ok.mp h
    cases h
    intro p hp
    cases hp
  | @next os s h op ih =>
    have conveys : Conveys (fun r _ _ ↦ (op.run s).Past r) (fun _ _ _ ↦ True) s (op.run s) :=
      .run h.coherent op fun _ _ _ _ _ _ _ ↦ trivial
    refine conveys.backing (fun _ past ↦ past) fun p hp ↦ ?_
    exact (ih p hp).mono conveys.past id

/-- However operations go on, the results come from what was asked rightly. -/
theorem Backing.trail (base : Scene) (hb : s.Backing asked (Supplied os))
    (hc : s.Coherent [] none)
    (past : ∀ {r}, base.Past r → s.Past r)
    (ha : ∀ {r provider urls}, ¬base.Past r → asked r provider urls) (ops : List Operation) :
    (ops.foldl Operation.run s).Backing asked (Supplied (os ++ s.trail ops)) := by
  induction ops generalizing s os with
  | nil => rwa [Scene.trail, List.append_nil]
  | cons op ops ih =>
    have conveys : Conveys asked (Supplied (os ++ [(op, s)])) s (op.run s) :=
      .run hc op fun p urls url content hp hu source ↦ ⟨url, hu, source.symm.imp_right fun live ↦
        ⟨(op, s), List.mem_append_right _ (List.mem_singleton_self _), live⟩⟩
    rw [Scene.trail, List.append_cons]
    refine ih (conveys.backing (fun new _ ↦ ha fun hr ↦ new (past hr)) fun p hp ↦ ?_) (hc.run op)
      fun hr ↦ conveys.past (past hr)
    exact (hb p hp).mono id fun h ↦ h.append _

end Scene

end SceneGraph
