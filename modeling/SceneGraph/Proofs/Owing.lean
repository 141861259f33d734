import Mathlib.Data.Option.Basic
import SceneGraph.Proofs.History
import SceneGraph.Proofs.Operation
import SceneGraph.Proofs.Requesting
import SceneGraph.Proofs.Traffic

/-!
A scene and its loader. The loader is a pool at work; and unless states are set by hand, a node that
waits for content has a job there, or a completion that was not fetched.
-/

namespace SceneGraph

namespace Pool

/-- What a pool is told, apart from its work and from what is fetched of it. -/
inductive Order : Pool → Pool → Prop
  | flag (p requests) : Order p (p.flag requests)
  | terminate (p) : Order p p.terminate.2
  | submit (p job) : Order p (p.submit job)

/-- A job for the request waits or is with a worker, or its completion waits to be fetched. -/
def Owes (p : Pool) (r : Request) : Prop :=
  (∃ job ∈ p.queue, job.request = r) ∨
    (∃ run ∈ p.running, run.job.request = r ∧ run.stage ≠ .posted) ∨
      ∃ c ∈ p.completions, c.request = r

theorem advance_eq {p : Pool} {i : Nat} {r : Run} (hr : p.running[i]? = some r)
    (held : List Content) (cache : Cache) :
    (p.advance i held cache).1 = p.proceed i r (r.step p.provider held cache).1 := by
  rw [advance, hr]

section proceed

variable (p : Pool) (i : Nat) (r : Run) (stage : Stage)

theorem queue_proceed : (p.proceed i r stage).queue = p.queue := by
  unfold proceed
  split <;> rfl

theorem completions_proceed :
    (p.proceed i r stage).completions = p.completions ++ r.posting.map Prod.snd := by
  unfold proceed Run.posting
  split <;> next hs => simp [hs, enter, strike, post, leave]

theorem running_proceed : (p.proceed i r stage).running = p.running.set i { r with stage } ∨
    (p.proceed i r stage).running = p.running.eraseIdx i := by
  unfold proceed
  split
  case h_5 => exact .inr rfl
  all_goals exact .inl rfl

end proceed

namespace Owes

variable {p q : Pool} {r : Request}

theorem mark (h : p.Owes r) (hit : Job → Bool) (active : List Nat) :
    Owes { p.mark hit with active } r := by
  rcases h with ⟨job, hj, rfl⟩ | ⟨run, hr, rfl, hs⟩ | posted
  · exact .inl ⟨_, List.mem_map_of_mem hj, rfl⟩
  · exact .inr (.inl ⟨_, List.mem_map_of_mem hr, rfl, hs⟩)
  · exact .inr (.inr posted)

theorem order (h : p.Owes r) (ho : Order p q) : q.Owes r := by
  cases ho with
  | flag requests => exact h.mark _ p.active
  | terminate => exact h.mark _ []
  | submit job =>
    refine h.imp_left fun ⟨job', hj, hr⟩ ↦ ⟨job', ?_, hr⟩
    exact List.mem_append_left _ hj

theorem submitted (p : Pool) (job : Job) : (p.submit job).Owes job.request :=
  .inl ⟨_, List.mem_append_right _ (List.mem_singleton_self _), rfl⟩

theorem take (h : p.Owes r) : p.take.Owes r := by
  unfold Pool.take
  split
  · exact h
  next job queue hq =>
  split
  · rcases h with ⟨job', hj, rfl⟩ | ⟨run, hr, waiting⟩ | posted
    · rw [hq] at hj
      rcases List.mem_cons.mp hj with rfl | hj
      · exact .inr (.inl ⟨_, List.mem_append_right _ (List.mem_singleton_self _), rfl, nofun⟩)
      · exact .inl ⟨job', hj, rfl⟩
    · exact .inr (.inl ⟨run, List.mem_append_left _ hr, waiting⟩)
    · exact .inr (.inr posted)
  · exact h

theorem advance (h : p.Owes r) (i : Nat) (held : List Content) (cache : Cache) :
    (p.advance i held cache).1.Owes r := by
  cases hi : p.running[i]? with
  | none => rwa [Pool.advance, hi]
  | some run =>
    rw [Pool.advance_eq hi]
    have posted (h : (run.step p.provider held cache).1 = .posted) := Run.step_posted h
    generalize (run.step p.provider held cache).1 = stage at posted
    rcases h with ⟨job, hj, hr⟩ | ⟨run', hm, hr, hs⟩ | ⟨c, hc, hr⟩
    · exact .inl ⟨job, (queue_proceed ..).symm ▸ hj, hr⟩
    · obtain ⟨l₁, l₂, he, hset, herase⟩ := Traffic.exists_split hi
      rw [he, List.mem_append, List.mem_cons, or_left_comm, ← List.mem_append] at hm
      rcases hm with rfl | other
      · cases hs' : run'.stage with
        | posted => exact absurd hs' hs
        | struck outcome =>
          refine .inr (.inr ⟨⟨run'.job.request, outcome⟩, ?_, hr⟩)
          simp [proceed, hs', Pool.enter, post]
        | trying | fetching | ended =>
          refine .inr (.inl ⟨{ run' with stage }, ?_, hr, fun hp ↦ ?_⟩)
          · simp [proceed, hs', Pool.enter, strike, he, hset]
          · rcases posted hp with ⟨outcome, he⟩ | he
            · cases hs'.symm.trans he
            · cases hs'.symm.trans he
      · -- the other workers do not go on
        refine .inr (.inl ⟨run', ?_, hr, hs⟩)
        rcases running_proceed p i run stage with hp | hp
        · rw [hp, he, hset]
          exact List.mem_append.mpr ((List.mem_append.mp other).imp_right (List.mem_cons_of_mem _))
        · rwa [hp, he, herase]
    · exact .inr (.inr ⟨c, completions_proceed .. ▸ List.mem_append_left _ hc, hr⟩)

end Owes

end Pool

namespace Traffic

variable {w : Traffic} {provider : Provider} {workers : Nat}

theorem Reached.order {q : Pool} (h : w.Reached provider workers) (idle : w.offers = [])
    (ho : Pool.Order w.pool q) : ∃ w' : Traffic,
      w'.Reached provider workers ∧ w'.pool = q ∧ w'.offers = [] := by
  cases ho with
  | flag requests =>
    exact ⟨_, h.steps (.single (.steer (.flag w requests))), rfl, by rw [idle]; rfl⟩
  | terminate => exact ⟨_, h.steps (.single (.steer (.terminate w))), rfl, by rw [idle]; rfl⟩
  | submit job => exact ⟨_, h.steps (w.submitted job), rfl, idle⟩

theorem Reached.take (h : w.Reached provider workers) (idle : w.offers = []) :
    ∃ w' : Traffic, w'.Reached provider workers ∧ w'.pool = w.pool.take ∧ w'.offers = [] := by
  cases hq : w.pool.queue with
  | nil => exact ⟨w, h, by rw [Pool.take, hq], idle⟩
  | cons job queue =>
    by_cases free : w.pool.running.length < w.pool.workers
    · exact ⟨_, h.steps (.single (.work (.take hq free))), rfl, idle⟩
    · exact ⟨w, h, by simp [Pool.take, hq, free], idle⟩

theorem Reached.advance (h : w.Reached provider workers) (idle : w.offers = []) (i : Nat)
    (held : List Content) (cache : Cache) : ∃ w' : Traffic, w'.Reached provider workers ∧
      w'.pool = (w.pool.advance i held cache).1 ∧ w'.offers = [] := by
  cases hr : w.pool.running[i]? with
  | none => exact ⟨w, h, by rw [Pool.advance, hr], idle⟩
  | some r =>
    rw [Pool.advance_eq hr]
    exact ⟨_, h.steps (.single (.work (.go hr w.pool.provider held cache))), rfl, idle⟩

end Traffic

namespace Scene

/-- The loader is a pool at work, and no submission is under way. -/
def Staffed (s : Scene) : Prop :=
  ∀ p, s.loader = some p → ∃ provider workers w, Traffic.Reached provider workers w ∧
    w.pool = p ∧ w.offers = []

/-- A node that waits is owed an answer by the loader, or finds it among the completions. -/
def Attended (cs : List Completion) (s : Scene) : Prop :=
  ∀ id slot, s.slot? id = some slot → slot.state = .loading →
    (∃ p, s.loader = some p ∧ p.Owes ⟨id, slot.ticket⟩) ∨ ∃ c ∈ cs, c.request = ⟨id, slot.ticket⟩

/-- The pool was only told what to do. A node that waits had waited before or is owed an answer by
now, unless it is let wait for nothing. -/
structure Instructed (idles : Prop) (s s' : Scene) : Prop where
  pool : Option.Rel (Relation.ReflTransGen Pool.Order) s.loader s'.loader
  waiting : ¬idles → ∀ {id slot'}, s'.slot? id = some slot' → slot'.state = .loading →
    (∃ slot, s.slot? id = some slot ∧ slot.state = .loading ∧ slot.ticket = slot'.ticket) ∨
      ∃ p, s'.loader = some p ∧ p.Owes ⟨id, slot'.ticket⟩

variable {l : Licence} {idles : Prop} {s s' t : Scene} {id : NodeId} {n : Node}
  {slot slot' : LoadSlot} {guest : Option SpaceId} {cs : List Completion} {c : Completion}
  {op : Operation} {os : List (Operation × Scene)}

section strokes

theorem slot?_modifyNode {f : Node → Node} (h : ∀ n, (f n).load = n.load) (k : NodeId) :
    (s.modifyNode id f).slot? k = s.slot? k := by
  rw [slot?, node?_modifyNode, slot?]
  split
  · cases s.node? k with
    | none => rfl
    | some n => exact h n
  · rfl

theorem slot?_markAll (outputs : List Nat) (k : NodeId) :
    (s.markAll id outputs).slot? k = s.slot? k := by
  rw [slot?, node?_markAll, slot?]
  split
  · cases s.node? k <;> rfl
  · rfl

theorem of_node?_modifySlot {f : LoadSlot → LoadSlot} {k : NodeId} {n' : Node}
    (hn' : (s.modifySlot id f).node? k = some n') :
    (k = id ∧ ∃ n, s.node? id = some n ∧ n' = { n with load := some (f (n.load.getD {})) }) ∨
      k ≠ id ∧ s.node? k = some n' := by
  rw [modifySlot, node?_modifyNode] at hn'
  split at hn'
  · next he =>
    subst he
    obtain ⟨n, hn, rfl⟩ := Option.map_eq_some_iff.mp hn'
    exact .inl ⟨rfl, n, hn, rfl⟩
  · next hk => exact .inr ⟨hk, hn'⟩

theorem of_slot?_modifySlot {f : LoadSlot → LoadSlot} {k : NodeId}
    (hs : (s.modifySlot id f).slot? k = some slot') :
    k = id ∧ (∃ n, s.node? id = some n ∧ slot' = f (n.load.getD {})) ∨ s.slot? k = some slot' := by
  obtain ⟨n', hn', hl⟩ := slot?_eq_some.mp hs
  rcases of_node?_modifySlot hn' with ⟨rfl, n, hn, rfl⟩ | ⟨-, hn⟩
  · exact .inl ⟨rfl, n, hn, (Option.some.inj hl).symm⟩
  · exact .inr (slot?_of_load hn hl)

theorem slot?_congr (h : s'.nodes = s.nodes) (k : NodeId) : s'.slot? k = s.slot? k := by
  rw [slot?, node?_congr h, slot?]

namespace Instructed

theorem of_slots (loader : Option.Rel (Relation.ReflTransGen Pool.Order) s.loader s'.loader)
    (slots : ∀ {k slot'}, s'.slot? k = some slot' → slot'.state = .loading →
      s.slot? k = some slot') : Instructed idles s s' :=
  ⟨loader, fun _ _ _ hs hw ↦ .inl ⟨_, slots hs hw, hw, rfl⟩⟩

theorem rel_of_eq (h : s'.loader = s.loader) :
    Option.Rel (Relation.ReflTransGen Pool.Order) s.loader s'.loader := by
  rw [h]
  cases s.loader with
  | none => exact .none
  | some p => exact .some .refl

theorem rel_cancel (h : t.loader = s.loader) (r : Option Request) :
    Option.Rel (Relation.ReflTransGen Pool.Order) s.loader (t.cancel r).loader := by
  cases r with
  | none => exact rel_of_eq h
  | some r =>
    simp only [Scene.cancel, h]
    cases s.loader with
    | none => exact .none
    | some p => exact .some (.single (.flag p [r]))

protected theorem refl (s : Scene) : Instructed idles s s := of_slots (rel_of_eq rfl) fun hs _ ↦ hs

theorem owes {r : Request} (h : Instructed idles s s') {p : Pool} (hp : s.loader = some p)
    (ho : p.Owes r) : ∃ q, s'.loader = some q ∧ q.Owes r := by
  have told := h.pool
  rw [hp] at told
  generalize hq : s'.loader = o at told
  cases told with
  | some orders =>
    refine ⟨_, rfl, ?_⟩
    clear hq
    induction orders with
    | refl => exact ho
    | tail _ order ih => exact ih.order order

protected theorem trans (h : Instructed idles s t) (h' : Instructed idles t s') :
    Instructed idles s s' where
  pool := by
    have first := h.pool
    have second := h'.pool
    generalize s.loader = a, t.loader = b, s'.loader = c at first second
    cases first with
    | none => exact second
    | some before =>
      cases second with
      | some after => exact .some (before.trans after)
  waiting hi _ _ hs hw := by
    rcases h'.waiting hi hs hw with ⟨slot, ht, hw, same⟩ | owed
    · rcases h.waiting hi ht hw with ⟨slot', hs, hw, same'⟩ | ⟨p, hp, owed⟩
      · exact .inl ⟨slot', hs, hw, same'.trans same⟩
      · exact .inr (h'.owes hp (same ▸ owed))
    · exact .inr owed

theorem of_stroke (h : Stroke l s s') (tends : ¬l.tends) : Instructed l.idles s s' := by
  cases h with
  | aside nodes _ loader =>
    exact of_slots (rel_of_eq loader) fun hs _ ↦ (slot?_congr nodes _).symm.trans hs
  | dequeue => exact of_slots (rel_of_eq rfl) fun hs _ ↦ hs
  | flag hp requests =>
    exact of_slots (by rw [hp]; exact .some (.single (.flag ..))) fun hs _ ↦ hs
  | terminate hp => exact of_slots (by rw [hp]; exact .some (.single (.terminate _))) fun hs _ ↦ hs
  | tend ht => exact absurd ht tends
  | @slot _ id n f hn same hf =>
    refine ⟨rel_of_eq (loader_modifyNode ..), fun idles _ _ hs hw ↦ .inl ?_⟩
    rcases of_slot?_modifySlot hs with ⟨rfl, n', hn', rfl⟩ | hs
    · cases hn.symm.trans hn'
      have waits := (hf hw).resolve_left idles
      cases hl : n.load with
      | none =>
        rw [hl] at waits
        cases waits
      | some slot =>
        rw [hl] at waits same
        exact ⟨slot, slot?_of_load hn hl, waits, same.symm⟩
    · exact ⟨_, hs, hw, rfl⟩
  | @ask _ id n p hn hs hp =>
    refine ⟨?_, fun _ _ _ hs' hw ↦ ?_⟩
    · rw [hp]
      exact .some (.single (.submit ..))
    · rcases of_slot?_modifySlot hs' with ⟨rfl, n', hn', rfl⟩ | hs'
      · cases hn.symm.trans hn'
        exact .inr ⟨_, rfl, .submitted ..⟩
      · exact .inl ⟨_, hs', hw, rfl⟩
  | revise =>
    refine of_slots (rel_of_eq ((loader_markAll ..).trans (loader_modifyNode ..))) fun hs _ ↦ ?_
    rw [slot?_markAll, slot?_modifyNode] at hs
    · exact hs
    · exact fun _ ↦ rfl
  | draft | endSetup =>
    refine of_slots (rel_of_eq (loader_modifyNode ..)) fun hs _ ↦ ?_
    rw [slot?_modifyNode] at hs
    · exact hs
    · exact fun _ ↦ rfl
  | addNode =>
    refine of_slots (rel_of_eq rfl) fun hs hw ↦ ?_
    obtain ⟨n, hn, hl⟩ := slot?_eq_some.mp hs
    rcases of_node?_addNode hn with ⟨-, rfl⟩ | hn
    · rw [Node.new] at hl
      dsimp only at hl
      split at hl
      · cases hl
        cases hw
      · cases hl
    · exact slot?_of_load hn hl
  | dropNode =>
    refine of_slots (rel_cancel (by rfl) _) fun hs _ ↦ ?_
    obtain ⟨n, hn, hl⟩ := slot?_eq_some.mp hs
    exact slot?_of_load (of_node?_dropNode hn).2 hl

theorem of_strokes (h : Strokes l s s') (tends : ¬l.tends) : Instructed l.idles s s' := by
  induction h with
  | refl => exact .refl s
  | tail _ hs ih => exact ih.trans (of_stroke hs tends)

/-- An operation that does not tend the loader. -/
theorem run (h : s.Coherent [] none) (tends : ¬op.Tends) :
    Instructed (∃ id state, op = .setLoadState id state) s (op.run s) := by
  rcases h.run_cases op with ⟨id, index, rfl⟩ | rfl | strokes
  · rw [Operation.run_checkChanged]
    refine of_slots (rel_of_eq (loader_modifyNode ..)) fun hs _ ↦ ?_
    rw [slot?_modifyNode] at hs
    · exact hs
    · exact fun _ ↦ rfl
  · exact of_slots (rel_of_eq rfl) fun hs _ ↦ hs
  · exact of_strokes strokes tends

end Instructed

end strokes

section tending

/-- Leave for all but to tend the loader and to let nodes wait for nothing. -/
def Licence.aside : Licence where
  opens _ := True
  dequeues := True
  tends := False
  idles := False
  links _ := True

theorem Instructed.of_aside (h : Strokes .aside s s') : Instructed False s s' :=
  of_strokes h id

theorem Licence.covers_aside (s : Scene) : Licence.aside.Covers s :=
  ⟨fun _ _ ↦ trivial, fun _ _ ↦ trivial⟩

namespace Staffed

theorem instructed (h : s.Staffed) (hs : Instructed idles s s') : s'.Staffed := by
  intro q hq
  have told := hs.pool
  rw [hq] at told
  generalize hp : s.loader = o at told
  cases told with
  | some orders =>
    obtain ⟨provider, workers, w, reached, rfl, idle⟩ := h _ hp
    clear hp hq
    induction orders with
    | refl => exact ⟨provider, workers, w, reached, rfl, idle⟩
    | tail _ order ih =>
      obtain ⟨provider, workers, w, reached, rfl, idle⟩ := ih
      obtain ⟨w', reached, he, idle⟩ := reached.order idle order
      exact ⟨provider, workers, w', reached, he, idle⟩

theorem of_new {provider : Provider} {workers : Nat} {p : Pool}
    (hp : Pool.new provider workers = .ok p) : Staffed { s with loader := some p } := by
  intro q hq
  cases hq
  exact ⟨provider, workers, { pool := p }, ⟨p, hp, .refl⟩, rfl, rfl⟩

theorem drain (h : s.Staffed) :
    Staffed { s with loader := s.loader.map fun p ↦ p.drain.2 } := by
  intro q hq
  obtain ⟨p, hp, rfl⟩ := Option.map_eq_some_iff.mp hq
  obtain ⟨provider, workers, w, reached, rfl, idle⟩ := h p hp
  exact ⟨provider, workers, _, reached.steps (.single (.steer (.drain w))), rfl, idle⟩

theorem run (h : s.Staffed) (hc : s.Coherent [] none) (op : Operation) : (op.run s).Staffed := by
  by_cases tends : op.Tends
  · cases tends with
    | tick hooks requested =>
      refine after_snd_induction h fun tally s' ht ↦ ?_
      obtain ⟨time, t, ha, after⟩ := Strokes.tick (l := .aside) hc trivial ht
      have clock := Strokes.advanceClock (l := .aside) ha
      have drained := Touches.drainLoads (hc.advanceClock ha) (Licence.covers_aside t)
      exact ((h.instructed (.of_aside clock)).drain.instructed (.of_aside drained.strokes)).instructed
        (.of_aside after)
    | setProvider provider =>
      rcases Touches.setProvider (l := .aside) hc provider with touches |
        ⟨p, t, hp, -, -, -, he⟩
      · exact h.instructed (.of_aside touches.strokes)
      · rw [Operation.run, he]
        exact (of_new hp).instructed (.of_aside (Touches.autoLoads ..).strokes)
    | poolTake =>
      cases hp : s.loader with
      | none => simpa only [Operation.run, hp] using h
      | some p =>
        simp only [Operation.run, hp]
        intro q hq
        cases hq
        obtain ⟨provider, workers, w, reached, rfl, idle⟩ := h p hp
        exact ⟨provider, workers, reached.take idle⟩
    | poolAdvance i =>
      cases hp : s.loader with
      | none => simpa only [Operation.run, hp] using h
      | some p =>
        simp only [Operation.run, hp]
        intro q hq
        cases hq
        obtain ⟨provider, workers, w, reached, rfl, idle⟩ := h p hp
        exact ⟨provider, workers, reached.advance idle i s.held s.cache⟩
  · exact h.instructed (.run hc tends)

end Staffed

section applying

theorem Turns.answered {es : Deeds} (h : Turns s es s') (hc : c ∈ Deeds.answers es) :
    s'.Over c.request := by
  induction h with
  | refl => cases hc
  | step _ ht ih =>
    rw [Deeds.answers_append] at hc
    rcases List.mem_append.mp hc with hc | hc
    · exact ht.over (ih hc)
    · exact ht.answered hc

theorem Proceeds.made {r : Request} (h : Proceeds cs s s') (hm : s.Made r) : s'.Made r := by
  obtain ⟨es, turns, -⟩ := h
  induction turns with
  | refl => exact hm
  | step _ ht ih => exact ht.made ih

/-- What is applied is over. -/
theorem Coherent.over_applied (h : s.Coherent [] none) (ha : s.awaits c) :
    (s.applied c).Over c.request := by
  obtain ⟨es, turns, answers⟩ := Proceeds.applied h ha
  exact turns.answered (answers ▸ List.mem_singleton_self c)

theorem not_loading_of_not_awaits (ha : s.awaits c = false)
    (hl : s.slot? c.request.node = some slot) (same : slot.ticket = c.request.ticket) :
    slot.state ≠ .loading := by
  intro hw
  rw [slot?] at hl
  rw [awaits, hl, Option.any_some, same, hw] at ha
  simp at ha

/-- A request is over once its completion had its turn, be it applied or dropped. -/
theorem Made.over_applyCompletions {r : Request} (hm : s.Made r) (h : s.Coherent [] none)
    (hr : ∃ c ∈ cs, c.request = r) : (Scene.applyCompletions cs s).2.Over r := by
  induction cs generalizing s with
  | nil =>
    obtain ⟨c, hc, -⟩ := hr
    cases hc
  | cons c cs ih =>
    obtain ⟨c', hc, hr⟩ := hr
    rw [applyCompletions_cons]
    cases ha : s.awaits c with
    | false =>
      simp only [Bool.false_eq_true, if_false]
      rcases List.mem_cons.mp hc with rfl | hc
      · have passed : s.Over r := ⟨hm, fun hl same ↦ by
          subst hr
          exact not_loading_of_not_awaits ha hl same⟩
        exact (Proceeds.applyCompletions h cs).over passed
      · exact ih hm h ⟨c', hc, hr⟩
    | true =>
      simp only [if_true]
      have applied := h.applied ha
      rcases List.mem_cons.mp hc with rfl | hc
      · exact (Proceeds.applyCompletions applied cs).over (hr ▸ h.over_applied ha)
      · exact ih ((Proceeds.applied h ha).made hm) applied ⟨c', hc, hr⟩

end applying

section resetting

theorem mem_interrupted (hl : s.slot? id = some slot) (hw : slot.state = .loading) :
    id ∈ s.interrupted := by
  obtain ⟨n, hn, hl⟩ := slot?_eq_some.mp hl
  unfold Scene.interrupted
  refine List.mem_map.mpr ⟨(n.place, id), List.mem_mergeSort.mpr ?_, rfl⟩
  refine List.mem_filterMap.mpr ⟨id, mem_liveNodes.mpr (hasNode_iff.mpr ⟨n, hn⟩), ?_⟩
  rw [hn, Option.bind_some, Node.loadState?, hl, Option.map_some, hw, if_pos rfl]

/-- Nodes that were sent back to the beginning do not wait, and no other begins to wait. -/
theorem slot?_of_inTurn_reset {ids : List NodeId} (h : s.Coherent [] guest)
    (he : inTurn (fun id s ↦ s.setLoadState id .notLoaded) ids s = (.ok (), t))
    (hl : t.slot? id = some slot) (hw : slot.state = .loading) :
    s.slot? id = some slot ∧ id ∉ ids := by
  induction ids generalizing s with
  | nil =>
    cases he
    exact ⟨hl, List.not_mem_nil⟩
  | cons k ids ih =>
    rw [inTurn] at he
    rcases setLoadState_cases h k .notLoaded with ⟨e, hs⟩ |
      ⟨n, old, field, u, hn, hk, hu, hc, entered, ⟨-, -, hs, -⟩ | ⟨-, hs⟩⟩
    · rw [hs] at he
      cases he
    · rw [hs] at he
      cases he
    · have coherent : (s.setLoadState k .notLoaded).2.Coherent [] guest :=
        (Edited.setLoadState h .notLoaded).coherent
      rw [hs] at he coherent
      obtain ⟨hl, others⟩ := ih coherent he
      have turned : Turned k (old.enter .notLoaded) [.notLoaded] s _ :=
        entered.turned.emit k field .notLoaded
      by_cases hk' : id = k
      · subst hk'
        cases Turned.slot_eq (slot?_of_load hn hk) turned hl
        cases hw
      · rcases Shifted.slot turned hl with hl | ⟨-, rfl⟩
        · rw [Function.update_of_ne hk'] at hl
          exact ⟨hl, fun hm ↦ (List.mem_cons.mp hm).elim hk' others⟩
        · cases hw

theorem not_loading_of_interrupted (h : s.Coherent [] guest)
    (he : inTurn (fun id s ↦ s.setLoadState id .notLoaded) s.interrupted s = (.ok (), t))
    (hl : t.slot? id = some slot) : slot.state ≠ .loading := by
  intro hw
  obtain ⟨hl, others⟩ := slot?_of_inTurn_reset h he hl hw
  exact others (mem_interrupted hl hw)

end resetting

namespace Attended

theorem instructed (h : s.Attended cs) (hs : Instructed idles s s') (hi : ¬idles) :
    s'.Attended cs := by
  intro id slot' hl hw
  rcases hs.waiting hi hl hw with ⟨slot, hl, hw, same⟩ | owed
  · rw [← same]
    exact (h id slot hl hw).imp_left fun ⟨p, hp, ho⟩ ↦ hs.owes hp ho
  · exact .inl owed

theorem of_idle (h : ∀ {id slot}, s.slot? id = some slot → slot.state ≠ .loading) :
    s.Attended cs :=
  fun _ _ hl hw ↦ absurd hw (h hl)

theorem tend {p q : Pool} (h : s.Attended cs) (hp : s.loader = some p)
    (hq : ∀ r, p.Owes r → q.Owes r) (cache : Cache) :
    Attended cs { s with loader := some q, cache } := by
  intro id slot hl hw
  refine (h id slot hl hw).imp_left fun ⟨p', hp', ho⟩ ↦ ⟨q, rfl, hq _ ?_⟩
  cases hp.symm.trans hp'
  exact ho

theorem drain {p : Pool} (h : s.Attended []) (hp : s.loader = some p) :
    Attended p.completions { s with loader := some p.drain.2 } := by
  intro id slot hl hw
  obtain ⟨p', hp', owed⟩ := (h id slot hl hw).resolve_right (by simp)
  cases hp.symm.trans hp'
  rcases owed with queued | running | posted
  · exact .inl ⟨_, rfl, .inl queued⟩
  · exact .inl ⟨_, rfl, .inr (.inl running)⟩
  · exact .inr posted

/-- Nobody needs a completion that nobody waits for. -/
theorem pass (h : s.Attended (c :: cs)) (hc : ∀ {slot}, s.slot? c.request.node = some slot →
    slot.ticket = c.request.ticket → slot.state ≠ .loading) : s.Attended cs := by
  intro id slot hl hw
  refine (h id slot hl hw).imp_right fun ⟨c', hc', he⟩ ↦ ?_
  rcases List.mem_cons.mp hc' with rfl | hc'
  · exact absurd hw (hc (he ▸ hl) (he ▸ rfl))
  · exact ⟨c', hc', he⟩

theorem applyCompletions (h : s.Attended cs) (hc : s.Coherent [] none) :
    (Scene.applyCompletions cs s).2.Attended [] := by
  induction cs generalizing s with
  | nil => exact h
  | cons c cs ih =>
    rw [applyCompletions_cons]
    cases ha : s.awaits c with
    | false =>
      simp only [Bool.false_eq_true, if_false]
      exact ih (h.pass (not_loading_of_not_awaits ha)) hc
    | true =>
      simp only [if_true]
      have applied := Touches.applied hc ha (Licence.covers_aside s)
      have passed := (h.instructed (.of_aside applied.strokes) id).pass (hc.over_applied ha).done
      exact ih passed (hc.applied ha)

theorem drainLoads (h : s.Attended []) (hc : s.Coherent [] none) :
    s.drainLoads.2.Attended [] := by
  unfold Scene.drainLoads
  cases hp : s.loader with
  | none => exact h
  | some p =>
    have drained : { s with loader := some p.drain.2 }.Coherent [] none :=
      hc.congr rfl rfl rfl rfl fun _ hp ↦ hp
    exact (h.drain hp).applyCompletions drained

theorem run (h : s.Attended []) (hc : s.Coherent [] none) (op : Operation)
    (idles : ∀ id state, op ≠ .setLoadState id state) : (op.run s).Attended [] := by
  by_cases tends : op.Tends
  · cases tends with
    | tick hooks requested =>
      refine after_snd_induction h fun tally s' ht ↦ ?_
      obtain ⟨time, t, ha, after⟩ := Strokes.tick (l := .aside) hc trivial ht
      have clock := Strokes.advanceClock (l := .aside) ha
      have drained := (h.instructed (.of_aside clock) id).drainLoads (hc.advanceClock ha)
      exact drained.instructed (.of_aside after) id
    | setProvider provider =>
      rcases Touches.setProvider (l := .aside) hc provider with touches |
        ⟨p, t, -, reset, -, -, he⟩
      · exact h.instructed (.of_aside touches.strokes) id
      · rw [Operation.run, he]
        have idle : Attended [] { t with loader := some p } :=
          of_idle fun {id slot} hl ↦ not_loading_of_interrupted hc reset hl
        exact idle.instructed (.of_aside (Touches.autoLoads ..).strokes) id
    | poolTake =>
      cases hp : s.loader with
      | none => simpa only [Operation.run, hp] using h
      | some p => simpa only [Operation.run, hp] using h.tend hp (fun _ ho ↦ ho.take) s.cache
    | poolAdvance i =>
      cases hp : s.loader with
      | none => simpa only [Operation.run, hp] using h
      | some p =>
        simpa only [Operation.run, hp] using
          h.tend hp (fun _ ho ↦ ho.advance i s.held s.cache) (p.advance i s.held s.cache).2
  · refine h.instructed (.run hc tends) fun idled ↦ ?_
    obtain ⟨id, state, he⟩ := idled
    exact idles id state he

end Attended

end tending

/-- What holds of a scene if no state was set by hand. A node that waits is owed an answer, and what
was to do when a tick begins was answered when its completions were fetched. -/
structure Served (s : Scene) : Prop where
  waiting : ∀ {id slot}, s.slot? id = some slot → slot.state = .loading →
    ∃ p, s.loader = some p ∧ p.Owes ⟨id, slot.ticket⟩
  settled : s.pendingLoads = 0 → ∀ {hooks requested tally s'},
    s.tick hooks requested = .ok (tally, s') →
      ∃ time t, s.advanceClock requested = .ok (time, t) ∧
        ∀ {id slot}, s.slot? id = some slot → slot.state = .loading →
          t.drainLoads.2.Over ⟨id, slot.ticket⟩

theorem made_of_slot (hl : s.slot? id = some slot) : s.Made ⟨id, slot.ticket⟩ := by
  refine ⟨not_fresh_of_slot hl, fun hl' ↦ ?_⟩
  cases hl.symm.trans hl'
  exact Nat.le_refl _

/-- A pool that has nothing to do has posted what it owes. -/
theorem Staffed.posted {p : Pool} {r : Request} (h : s.Staffed) (hp : s.loader = some p)
    (idle : s.pendingLoads = 0) (ho : p.Owes r) : ∃ c ∈ p.completions, c.request = r := by
  obtain ⟨provider, workers, w, reached, rfl, none⟩ := h p hp
  have empty := reached.sound.accounted.idle none
  rw [pendingLoads, hp, Option.map_some, Option.getD_some] at idle
  have queue : w.pool.queue = [] := List.length_eq_zero_iff.mp (by omega)
  have running : w.pool.running = [] := List.length_eq_zero_iff.mp (by omega)
  rcases ho with ⟨job, hj, -⟩ | ⟨run, hr, -⟩ | posted
  · cases queue ▸ hj
  · cases running ▸ hr
  · exact posted

theorem Attended.serves (h : s.Attended []) (staffed : s.Staffed) (hc : s.Coherent [] none) :
    s.Served where
  waiting hl hw := (h _ _ hl hw).resolve_right (by simp)
  settled idle {hooks requested tally s'} ht := by
    unfold Scene.tick at ht
    obtain ⟨⟨time, t⟩, ha, -⟩ := bind_eq_ok.mp ht
    refine ⟨time, t, ha, fun {id slot} hl hw ↦ ?_⟩
    obtain ⟨p, hp, owed⟩ := (h id slot hl hw).resolve_right (by simp)
    have posted := staffed.posted hp idle owed
    have same : t.nodes = s.nodes ∧ t.loader = s.loader := by
      rcases advanceClock_cases ha with ⟨text, rfl⟩ | rfl <;> exact ⟨rfl, rfl⟩
    have made : t.Made ⟨id, slot.ticket⟩ := made_of_slot ((slot?_congr same.1 id).trans hl)
    have drained : { t with loader := some p.drain.2 }.Coherent [] none :=
      (hc.advanceClock ha).congr rfl rfl rfl rfl fun _ hp ↦ hp
    rw [Scene.drainLoads, same.2, hp]
    exact Made.over_applyCompletions ⟨made.met, made.old⟩ drained posted

namespace Story

theorem staffed (h : Story os s) : s.Staffed := by
  induction h with
  | new built h =>
    obtain ⟨-, -, h⟩ := bind_eq_ok.mp h
    cases h
    intro p hp
    cases hp
  | next h op ih => exact ih.run h.coherent op

theorem attended (h : Story os s) (idles : ∀ o ∈ os, ∀ id state, o.1 ≠ .setLoadState id state) :
    s.Attended [] := by
  induction h with
  | new built h =>
    obtain ⟨-, -, h⟩ := bind_eq_ok.mp h
    cases h
    refine .of_idle fun hl ↦ ?_
    rw [slot?_start] at hl
    cases hl
  | @next os s h op ih =>
    refine (ih fun o ho ↦ idles o (List.mem_append_left _ ho)).run h.coherent op ?_
    exact idles (op, s) (List.mem_append_right _ (List.mem_singleton_self _))

/-- No load is lost: not on its way through a pool, in whatever order the workers and those who
submit, flag, terminate and fetch take their steps, and not between a scene and its pool. -/
theorem served : (∀ {provider workers w}, Traffic.Reached provider workers w → w.Accounted) ∧
    ∀ {os s}, Story os s → s.Staffed ∧
      ((∀ o ∈ os, ∀ id state, o.1 ≠ .setLoadState id state) → s.Served) :=
  ⟨fun h ↦ h.sound.accounted,
    fun h ↦ ⟨h.staffed, fun idles ↦ (h.attended idles).serves h.staffed h.coherent⟩⟩

end Story

/-- A frame asks for its content, and the loader works until it has nothing to do. -/
def awaiting : List Operation :=
  [.createNode .main "Inline", .setValue (.issued 0) 0 (.ofStrings ["a"]),
    .setProvider (.ofEntries [("a", .empty)]), .finishSetup (.issued 0), .poolTake,
    .poolAdvance 0, .poolAdvance 0, .poolAdvance 0, .poolAdvance 0, .poolAdvance 0]

theorem served_awaiting : ∃ os s slot t, ∃ w : Traffic, Story os s ∧
    s.slot? (.issued 0) = some slot ∧ slot.state = .loading ∧ s.loader = some w.pool ∧
    w.Accounted ∧ w.pool.inFlight = 0 ∧ w.pool.Owes ⟨.issued 0, slot.ticket⟩ ∧
    s.advanceClock 0 = .ok (0, t) ∧ t.drainLoads.2.Over ⟨.issued 0, slot.ticket⟩ := by
  have built : ∀ t ∈ [frame], t.Built := by simpa using built_frame
  have made : Scene.new ⟨[frame]⟩ {} = .ok (start ⟨[frame]⟩ {}) := rfl
  have story := (Story.new built made).trail awaiting
  have unset : ∀ o ∈ [] ++ (start ⟨[frame]⟩ {}).trail awaiting, ∀ id state,
      o.1 ≠ .setLoadState id state := by
    intro o ho
    have mem := fst_mem_of_mem_trail ho
    simp only [awaiting, List.mem_cons, List.not_mem_nil, or_false] at mem
    rcases mem with he | he | he | he | he | he | he | he | he | he <;> rw [he] <;> nofun
  have idle : (awaiting.foldl Operation.run (start ⟨[frame]⟩ {})).pendingLoads = 0 := by cbv
  have waits : ((awaiting.foldl Operation.run (start ⟨[frame]⟩ {})).slot? (.issued 0)).map
      LoadSlot.state = some .loading := by cbv
  have time : (awaiting.foldl Operation.run (start ⟨[frame]⟩ {})).time = none := by cbv
  generalize awaiting.foldl Operation.run (start ⟨[frame]⟩ {}) = s at *
  obtain ⟨accounted, scenes⟩ := Story.served
  obtain ⟨staffed, served⟩ := scenes story
  obtain ⟨slot, hl, hw⟩ := Option.map_eq_some_iff.mp waits
  obtain ⟨p, hp, owed⟩ := (served unset).waiting hl hw
  obtain ⟨provider, workers, w, reached, rfl, -⟩ := staffed p hp
  have clock : s.advanceClock 0 = .ok (0, { s with time := some 0 }) := by
    rw [advanceClock, time]
    rfl
  have ticked : ∃ tally s', s.tick [] 0 = .ok (tally, s') := by
    rw [tick, clock]
    exact ⟨_, _, rfl⟩
  obtain ⟨tally, s', ht⟩ := ticked
  obtain ⟨time, t, ha, settled⟩ := (served unset).settled idle ht
  cases clock.symm.trans ha
  rw [pendingLoads, hp] at idle
  exact ⟨_, s, slot, _, w, story, hl, hw, hp, accounted reached, idle, owed, clock, settled hl hw⟩

end Scene

end SceneGraph
