import SceneGraph.Proofs.Proceeding
import SceneGraph.Proofs.Touch

/-!
Loads, ticks and what else takes many steps, done in touches.
-/

namespace SceneGraph

namespace Scene

variable {l : Licence} {s s' t : Scene} {guest : Option SpaceId} {id : NodeId} {n : Node}
  {sp : SpaceId} {x : Space} {r : Route} {b : Bool}

namespace Touches

section tables

theorem createNode {typeName : String} (h : s.createNode sp typeName = .ok (id, s')) :
    Touches l s s' := by
  obtain ⟨x, type, hx, ht, -, rfl⟩ := createNode_eq_ok.mp h
  exact .single (.addNode hx (List.mem_of_find?_eq_some ht))

theorem openSpace {kind : SpaceKind} {owner : Option NodeId} {q : SpaceId}
    (h : s.openSpace kind sp owner = .ok (q, s')) : Touches l s s' := by
  obtain ⟨x, hx, -, rfl⟩ := openSpace_eq_ok.mp h
  exact reroute rfl (.addSpace hx)

theorem removeNodes {ids : List NodeId} (h : ids.foldlM Scene.removeNode s = .ok s') :
    Touches l s s' := by
  induction ids generalizing s with
  | nil =>
    cases h
    exact .refl
  | cons id ids ih =>
    obtain ⟨t, ht, h⟩ := bind_eq_ok.mp h
    exact (removeNode ht).trans (ih h)

theorem collect {ids : List NodeId} (h : s.collect sp = .ok (ids, s')) : Touches l s s' := by
  unfold Scene.collect at h
  obtain ⟨x, -, h⟩ := bind_eq_ok.mp h
  obtain ⟨t, ht, h⟩ := bind_eq_ok.mp h
  cases h
  exact removeNodes ht

theorem addRoot (h : s.addRoot sp id = .ok (b, s')) : Touches l s s' := by
  obtain ⟨-, x, -, -, ⟨-, -, rfl⟩ | ⟨-, -, rfl⟩⟩ := addRoot_eq_ok.mp h
  · exact .refl
  · exact relist fun _ ↦ rfl

theorem removeRoot (h : s.removeRoot sp id = .ok (b, s')) : Touches l s s' := by
  obtain ⟨x, -, h⟩ := bind_eq_ok.mp h
  cases h
  exact relist fun _ ↦ rfl

theorem define {name : String} (h : s.define sp name id = .ok s') : Touches l s s' := by
  obtain ⟨x, -, -, rfl⟩ := define_eq_ok.mp h
  exact relist fun _ ↦ rfl

theorem addRouteIn (hl : l.links sp) (h : s.addRouteIn sp r = .ok (b, s')) : Touches l s s' := by
  unfold Scene.addRouteIn at h
  obtain ⟨x, -, h⟩ := bind_eq_ok.mp h
  obtain ⟨⟨⟩, -, h⟩ := bind_eq_ok.mp h
  split at h
  · cases h
    exact .refl
  · cases h
    exact reroute rfl (.modifySpace (.inl hl))

theorem addRoute (hl : ∀ sp, l.links sp) (h : s.addRoute r = .ok (b, s')) : Touches l s s' := by
  obtain ⟨n, -, h⟩ := bind_eq_ok.mp h
  exact addRouteIn (hl n.space) h

theorem addStatement (hl : l.links sp) {statement : Statement}
    (h : s.addStatement sp statement = .ok (b, s')) : Touches l s s' := by
  obtain ⟨r, -, h⟩ := bind_eq_ok.mp h
  exact addRouteIn hl h

theorem addStatementOrWarn (hl : l.links sp) (text : String) (s : Scene) (r : Statement × Nat) :
    Touches l s (addStatementOrWarn text sp s r) := by
  rcases addStatementOrWarn_cases text sp s r with ⟨new, he⟩ | ⟨cause, he⟩
  · exact addStatement hl he
  · rw [he]
    exact warn (by decide)

theorem removeRoute (s : Scene) (r : Route) : Touches l s (s.removeRoute r).2 := by
  unfold Scene.removeRoute
  split
  · exact .refl
  split
  · exact modifySpace fun _ ↦ List.filter_sublist
  · exact .refl

theorem terminateLoads (s : Scene) : Touches l s s.terminateLoads.2 := by
  unfold Scene.terminateLoads
  split
  · exact .refl
  · next p hp => exact .single (.terminate hp)

end tables

section reading

variable {s₀ : Scene} {x₀ : Space} {env : Surroundings} {d d' : Draft}

theorem step (h : Drafting s₀ guest env.space x₀ d) (hs : Draft.Step env d d') :
    Touches l d.scene d'.scene := by
  cases hs with
  | create hc =>
    obtain ⟨t, ht, rfl⟩ := Draft.create_eq_ok.mp hc
    exact createNode ht
  | define _ hc =>
    obtain ⟨t, ht, rfl⟩ := Draft.define_eq_ok.mp hc
    exact define ht
  | set hid hc =>
    obtain ⟨t, ht, rfl⟩ := Draft.set_eq_ok.mp hc
    exact setValue h.coherent ht
  | addRoute => exact .refl

/-- While a text is read, all nodes made for it are new. -/
theorem steps (h₀ : s₀.Coherent [] guest) (hx : s₀.space? env.space = some x₀)
    (hs : Draft.Steps env ⟨s₀, [], []⟩ d) :
    Touches l s₀ d.scene ∧ ∀ id ∈ d.created, s₀.Fresh id := by
  induction hs with
  | refl => exact ⟨.refl, nofun⟩
  | @tail d d' hs hs' ih =>
    obtain ⟨before, fresh⟩ := ih
    have drafting := (Drafting.refl h₀ hx).steps h₀ hx hs
    refine ⟨before.trans (step drafting hs'), fun k hk ↦ ?_⟩
    cases hs' with
    | create hc =>
      obtain ⟨t, ht, rfl⟩ := Draft.create_eq_ok.mp hc
      obtain ⟨-, -, -, -, rfl, -⟩ := createNode_eq_ok.mp ht
      rcases List.mem_append.mp hk with hk | hk
      · exact fresh k hk
      · intro j hj
        cases (List.mem_singleton.mp hk).symm.trans hj
        exact before.strokes.issued_le
    | define _ hc =>
      obtain ⟨t, -, rfl⟩ := Draft.define_eq_ok.mp hc
      exact fresh k hk
    | set _ hc =>
      obtain ⟨t, -, rfl⟩ := Draft.set_eq_ok.mp hc
      exact fresh k hk
    | addRoute => exact fresh k hk

theorem rollBack (d : Draft) : Touches l d.scene d.rollBack := by
  unfold Draft.rollBack
  refine List.foldlRecOn _ _ (motive := fun s ↦ Touches l d.scene s) .refl fun s hs id _ ↦ ?_
  cases hr : s.removeNode id with
  | error => exact hs
  | ok t => exact hs.trans (removeNode hr)

theorem commit (h : d.scene.Coherent [] guest) (hl : ∀ id ∈ d.created, l.opens id)
    (hsp : l.links sp) (text : String) (roots : List NodeId) :
    Touches l d.scene (Scene.commit sp text roots d).2 := by
  have rooted := inTurn_induction (f := fun id s ↦ s.keep ((s.addRoot sp id).map Prod.snd))
    (P := fun s ↦ s.Coherent [] guest ∧ Touches l d.scene s) roots
    (fun id _ s ⟨hs, hp⟩ ↦ by
      refine keep_induction (P := fun s ↦ s.Coherent [] guest ∧ Touches l d.scene s)
        ⟨hs, hp⟩ fun s' ha ↦ ?_
      cases hr : s.addRoot sp id with
      | error => cases hr ▸ ha
      | ok a =>
        cases hr ▸ ha
        exact ⟨hs.addRoot hr, hp.trans (addRoot hr)⟩) ⟨h, .refl⟩
  unfold Scene.commit
  split
  · next he =>
    rw [he] at rooted
    exact rooted.2
  next t he =>
  rw [he] at rooted
  have routed : (d.routes.foldl (Scene.addStatementOrWarn text sp) t).Coherent [] guest ∧
      Touches l d.scene (d.routes.foldl (Scene.addStatementOrWarn text sp) t) := by
    refine List.foldlRecOn d.routes (Scene.addStatementOrWarn text sp)
      (motive := fun s ↦ s.Coherent [] guest ∧ Touches l d.scene s) rooted ?_
    intro s ⟨hs, hp⟩ r _
    exact ⟨hs.addStatementOrWarn text r, hp.trans (addStatementOrWarn hsp text s r)⟩
  have finished := inTurn_induction (f := fun id s ↦ s.keep (s.finishSetup id))
    (P := fun s ↦ s.Coherent [] guest ∧ Touches l d.scene s) d.created
    (fun id hid s ⟨hs, hp⟩ ↦ by
      refine keep_induction (P := fun s ↦ s.Coherent [] guest ∧ Touches l d.scene s)
        ⟨hs, hp⟩ fun s' hf ↦ ⟨(Edited.finishSetup hs hf).coherent, ?_⟩
      rcases finishSetup (l := l) hs hf with rfl | ⟨n, hn, hi, opened⟩
      · exact hp
      · exact (hp.tail (.endSetup (hl id hid) hn hi)).trans opened) routed
  exact finished.2

theorem load (h : s.Coherent [] guest) (hl : ∀ id, s.Fresh id → l.opens id) (hsp : l.links sp)
    (text : String) : Touches l s (s.load sp text).2 := by
  cases hs : s.hasSpace sp with
  | false =>
    rw [load_of_unknown hs]
  | true =>
    obtain ⟨x, hx⟩ := hasSpace_iff.mp hs
    unfold Scene.load
    simp only [hs, Bool.not_true, Bool.false_eq_true, if_false]
    split
    · exact report (by decide)
    next tokens _ =>
    have start : Draft.Steps ⟨sp, text.utf8ByteSize⟩ ⟨s, [], []⟩ ⟨s, [], []⟩ := .refl
    have reads := Reader.document_reads start tokens
    split
    · next fault d he =>
      rw [he] at reads
      have read := (steps (l := l) h hx reads).1
      exact (read.trans (rollBack d)).trans (report (by decide))
    · next roots d he =>
      rw [he] at reads
      obtain ⟨read, fresh⟩ := steps (l := l) h hx reads.1
      have drafting := (Drafting.refl h hx).steps h hx reads.1
      have committed :=
        commit drafting.coherent (fun id hid ↦ hl id (fresh id hid)) hsp text roots
      split
      all_goals
        next hc =>
        rw [hc] at committed
        exact read.trans committed

end reading

section delivering

variable {c : Completion} {slot : LoadSlot}

/-- A waiting node takes its content in. -/
theorem complete {field : Nat} (hn : s.node? id = some n) (hu : n.type.url? = some field)
    (hs : (n.load.getD {}).state = .loading) (content : Content) {space : Option SpaceId}
    (hk : space.isSome → n.type.content = .scene) :
    Touches l s (s.complete id content space).2 := by
  rw [complete_eq hn hu hs]
  exact .head (.fill content space hn hu hs hk) (loadEvent ..)

theorem applyContent {content : Content} (h : s.Coherent [] none) (ha : s.awaits c)
    (hl : l.Covers s) : Touches l s (s.applyContent c.request.node content).2 := by
  obtain ⟨slot, hs, -, hw⟩ := slot?_of_awaits ha
  obtain ⟨n, field, hn, hl', hu, -⟩ := exists_node_of_loading h hs hw
  have waits : (n.load.getD {}).state = .loading := by rwa [hl']
  unfold Scene.applyContent
  simp only [hn]
  split
  · exact complete hn hu waits _ nofun
  next kind =>
  split
  · exact (report (by decide)).trans (setLoadState nofun)
  next text _ =>
  obtain ⟨opened, hc, -, x, -, -, -, -, hn'⟩ := h.readContent hn text
  have fresh : ∀ id, (s.addSpace .inline n.space (some c.request.node)).Fresh id → l.opens id :=
    fun id hid ↦ hl.opens id hid
  have read : Touches l s
      ((s.addSpace .inline n.space (some c.request.node)).load s.nextSpace text).2 :=
    (openSpace opened).trans (load hc fresh (hl.links s.nextSpace (Nat.le_refl _)) text)
  rw [opened]
  dsimp only
  split
  · next he =>
    rw [he] at read hn'
    exact read.trans (complete hn' hu waits _ fun _ ↦ kind)
  · next t he =>
    rw [he] at read
    split
    · exact read
    · next removed => exact (read.trans (removeSpace removed)).trans (setLoadState nofun)

theorem applied (h : s.Coherent [] none) (ha : s.awaits c)
    (hl : l.Covers s) : Touches l s (s.applied c) := by
  have apply : Touches l s (s.applyCompletion c).2 := by
    unfold applyCompletion
    split
    · exact applyContent h ha hl
    · refine (warn ?_).trans (setLoadState nofun)
      simp [String.toList_append]
    · exact reset
  unfold Scene.applied
  split
  · next he =>
    rwa [he] at apply
  · next he =>
    rw [he] at apply
    exact apply.trans (report (by decide))

theorem applyCompletions (h : s.Coherent [] none) (hl : l.Covers s)
    (cs : List Completion) : Touches l s (Scene.applyCompletions cs s).2 := by
  induction cs generalizing s with
  | nil => exact .refl
  | cons c cs ih =>
    rw [applyCompletions_cons]
    cases ha : s.awaits c with
    | false =>
      simp only [Bool.false_eq_true, if_false]
      exact ih h hl
    | true =>
      simp only [if_true]
      have first := applied h ha hl
      exact first.trans (ih (h.applied ha) (hl.of_strokes first.strokes))

end delivering

section ticking

variable {hooks : List HookProgram} {requested : Double} {tally : Tally}

theorem tickEach (h : s.Coherent [] guest) (ids : List NodeId) :
    Touches l s (ids.foldl Scene.tickSensor s) :=
  (List.foldlRecOn ids Scene.tickSensor
    (motive := fun t ↦ t.Coherent [] guest ∧ Touches l s t) ⟨h, .refl⟩
    fun _ ⟨ht, hp⟩ _ _ ↦ ⟨(Edited.tickSensor ht).coherent, hp.trans (tickSensor ht)⟩).2

theorem tickSensors (h : s.Coherent [] guest) : Touches l s s.tickSensors := tickEach h s.sensors

theorem fire (h : s.Coherent [] guest) (r : Route) : Touches l s (s.fire r).2 := by
  unfold Scene.fire
  split
  · next he =>
    obtain ⟨v, -, he⟩ := bind_eq_ok.mp he
    exact setValue h he
  · exact report (by simp [String.toList_append])

theorem cascade (h : s.Coherent [] guest) (hl : l.dequeues) (limit : Nat)
    (waiting fired : List Route) (t : Tally) :
    Touches l s (Scene.cascade limit waiting fired t s).2 := by
  induction waiting, fired, t, s using Scene.cascade.induct limit with
  | case1 fired t s r waiting hr ih =>
    rw [Scene.cascade, if_pos hr]
    exact ih h
  | case2 fired t s r waiting hr hm =>
    rw [Scene.cascade, if_neg hr, if_pos hm]
    refine .head (.dequeue hl (List.nil_suffix)) (warn ?_)
    simp [String.toList_append, toString]
  | case3 fired t s r waiting hr hm delivered s' hf ih =>
    rw [Scene.cascade, if_neg hr, if_neg hm]
    have coherent := (Edited.fire h r).coherent
    have sent : Touches l s (s.fire r).2 := fire h r
    rw [hf] at coherent sent ⊢
    exact sent.trans (ih coherent)
  | case4 fired t s hp =>
    rw [cascade_settled hp]
  | case5 fired t s id field pending hp ih =>
    rw [cascade_take hp]
    exact .head (.dequeue hl (hp ▸ List.suffix_cons ..)) (ih (h.take hp))

theorem act (h : s.Coherent [] guest) (w : HookWrite) : Touches l s (hookHost.act s w).1 := by
  unfold hookHost
  dsimp only
  split
  · next he =>
    obtain ⟨i, -, he⟩ := bind_eq_ok.mp he
    exact setValue h he
  · exact .refl

theorem note (s : Scene) (text : String) : Touches l s (hookHost.note s text) :=
  log fun e he ↦ by
    cases List.mem_singleton.mp he
    exact .note text

theorem runHook (h : s.Coherent [] guest) (p : HookProgram) : Touches l s (s.runHook p) := by
  have ran : (s.runHook p).Coherent [] guest ∧ Touches l s (s.runHook p) :=
    Program.run_induction (P := fun t : Scene ↦ t.Coherent [] guest ∧ Touches l s t)
      (fun t w ⟨ht, hp⟩ ↦ ⟨(Proceeds.act ht w).1, hp.trans (act ht w)⟩)
      (fun t text ⟨ht, hp⟩ ↦ ⟨ht.log _, hp.trans (note t text)⟩) p ⟨h, .refl⟩
  exact ran.2

theorem runHooks (h : s.Coherent [] guest) (hooks : List HookProgram) :
    Touches l s (hooks.foldl Scene.runHook s) := by
  induction hooks generalizing s with
  | nil => exact .refl
  | cons p ps ih => exact (runHook h p).trans (ih (h.runHook p))

theorem drainLoads (h : s.Coherent [] none) (hl : l.Covers s) :
    Touches l { s with loader := s.loader.map fun p ↦ p.drain.2 } s.drainLoads.2 := by
  unfold Scene.drainLoads
  cases hp : s.loader with
  | none =>
    have same : { s with loader := none } = s := by rw [← hp]
    exact same ▸ .refl
  | some p =>
    have drained : { s with loader := some p.drain.2 }.Coherent [] none :=
      h.congr rfl rfl rfl rfl fun _ hp ↦ hp
    exact applyCompletions drained ⟨hl.opens, hl.links⟩ _

/-- A tick sets the clock and drains the loader. What it does from then on are touches, until it
says that it is over. -/
theorem tick (h : s.Coherent [] none) (hd : l.dequeues)
    (ht : s.tick hooks requested = .ok (tally, s')) : ∃ time t u,
      s.advanceClock requested = .ok (time, t) ∧ Touches l t.drainLoads.2 u ∧
        s' = u.emit (.tickFinished time tally.fired) := by
  unfold Scene.tick at ht
  obtain ⟨⟨time, t⟩, ha, ht⟩ := bind_eq_ok.mp ht
  have drained := (h.advanceClock ha).drainLoads
  have ticked : Touches l t.drainLoads.2 t.drainLoads.2.tickSensors := tickSensors drained
  have first (tally) := ticked.trans (cascade drained.tickSensors hd
    t.drainLoads.2.settings.cascadeSteps [] [] tally)
  dsimp only at ht
  split at ht
  · cases ht
    exact ⟨time, t, _, ha, first _, rfl⟩
  · cases ht
    have settled (tally) := drained.tickSensors.cascade
      t.drainLoads.2.settings.cascadeSteps [] [] tally
    have hooked (tally) := (first tally).trans (runHooks (settled tally) hooks)
    exact ⟨time, t, _, ha, (hooked _).trans (cascade ((settled _).runHooks hooks) hd ..), rfl⟩

end ticking

/-- A new provider gets a pool of its own; the loads that were not finished are given up before, and
start again after. -/
theorem setProvider (h : s.Coherent [] guest) (provider : Provider) :
    Touches l s (s.setProvider provider).2 ∨
      ∃ p t, Pool.new provider s.settings.loaderThreads = .ok p ∧
        inTurn (fun id s ↦ s.setLoadState id .notLoaded) s.interrupted s = (.ok (), t) ∧
        t.Coherent [] guest ∧ Touches l s t ∧
        s.setProvider provider =
          (.ok (), s.interrupted.foldl Scene.autoLoad { t with loader := some p }) := by
  have given := inTurn_induction (f := fun id s ↦ s.setLoadState id .notLoaded)
    (P := fun t ↦ t.Coherent [] guest ∧ Touches l s t) s.interrupted
    (fun id _ t ⟨ht, hp⟩ ↦ ⟨(Edited.setLoadState ht _).coherent, hp.trans reset⟩) ⟨h, .refl⟩
  unfold Scene.setProvider
  split
  · exact .inl .refl
  next p hp =>
  dsimp only
  split
  · next he =>
    rw [he] at given
    exact .inl given.2
  · next t he =>
    rw [he] at given
    exact .inr ⟨p, t, hp, he, given.1, given.2, rfl⟩

end Touches

namespace Strokes

variable {hooks : List HookProgram} {requested : Double} {tally : Tally}

theorem advanceClock {time : Double} (h : s.advanceClock requested = .ok (time, s')) :
    Strokes l s s' := by
  rcases advanceClock_cases h with ⟨text, rfl⟩ | rfl
  · exact log rfl
  · exact aside rfl rfl rfl rfl ⟨[], (List.append_nil _).symm, rfl⟩

theorem tick (h : s.Coherent [] none) (hd : l.dequeues)
    (ht : s.tick hooks requested = .ok (tally, s')) : ∃ time t,
      s.advanceClock requested = .ok (time, t) ∧ Strokes l t.drainLoads.2 s' := by
  obtain ⟨time, t, u, ha, touches, rfl⟩ := Touches.tick (l := l) h hd ht
  exact ⟨time, t, ha, touches.strokes.trans (log rfl)⟩

end Strokes

end Scene

end SceneGraph
