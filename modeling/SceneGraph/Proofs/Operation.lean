import SceneGraph.Proofs.Touching

/-!
Operations as data, and the stories that they make up.
-/

namespace SceneGraph

/-- An operation on a scene, or something that its loader does beside it. -/
inductive Operation where
  | createSpace (kind : SpaceKind) (parent : SpaceId)
  | removeSpace (sp : SpaceId)
  | createNode (sp : SpaceId) (typeName : String)
  | finishSetup (id : NodeId)
  | removeNode (id : NodeId)
  | collect (sp : SpaceId)
  | setValue (id : NodeId) (index : Nat) (v : Value)
  | set (id : NodeId) (target : Target) (v : Value)
  | setInts (id : NodeId) (index : Nat) (data : List Int32) (count : Nat)
  | setFloats (id : NodeId) (index : Nat) (data : List Single) (count : Nat)
  | setStrings (id : NodeId) (index : Nat) (data : List String) (count : Nat)
  | checkChanged (id : NodeId) (index : Nat)
  | addRoot (sp : SpaceId) (id : NodeId)
  | removeRoot (sp : SpaceId) (id : NodeId)
  | define (sp : SpaceId) (name : String) (id : NodeId)
  | addRoute (r : Route)
  | addRouteIn (sp : SpaceId) (r : Route)
  | addStatement (sp : SpaceId) (statement : Statement)
  | removeRoute (r : Route)
  | load (sp : SpaceId) (text : String)
  | setLoadState (id : NodeId) (state : LoadState)
  | requestLoad (id : NodeId)
  | cancelLoad (id : NodeId)
  | terminateLoads
  | setProvider (provider : Provider)
  | tick (hooks : List HookProgram) (requested : Double)
  | takeJournal
  | poolTake
  | poolAdvance (i : Nat)
  | useCache (cache : Cache)

namespace Operation

/-- What an operation leaves of a scene, be it done or refused. -/
def run (s : Scene) : Operation → Scene
  | createSpace kind parent => s.after ((s.createSpace kind parent).map Prod.snd)
  | removeSpace sp => s.after (s.removeSpace sp)
  | createNode sp typeName => s.after ((s.createNode sp typeName).map Prod.snd)
  | finishSetup id => s.after (s.finishSetup id)
  | removeNode id => s.after (s.removeNode id)
  | collect sp => s.after ((s.collect sp).map Prod.snd)
  | setValue id index v => s.after (s.setValue id index v)
  | set id target v => s.after (s.set id target v)
  | setInts id index data count => s.after (s.setInts id index data count)
  | setFloats id index data count => s.after (s.setFloats id index data count)
  | setStrings id index data count => s.after (s.setStrings id index data count)
  | checkChanged id index => s.after ((s.checkChanged id index).map Prod.snd)
  | addRoot sp id => s.after ((s.addRoot sp id).map Prod.snd)
  | removeRoot sp id => s.after ((s.removeRoot sp id).map Prod.snd)
  | define sp name id => s.after (s.define sp name id)
  | addRoute r => s.after ((s.addRoute r).map Prod.snd)
  | addRouteIn sp r => s.after ((s.addRouteIn sp r).map Prod.snd)
  | addStatement sp statement => s.after ((s.addStatement sp statement).map Prod.snd)
  | removeRoute r => (s.removeRoute r).2
  | load sp text => (s.load sp text).2
  | setLoadState id state => (s.setLoadState id state).2
  | requestLoad id => (s.requestLoad id).2
  | cancelLoad id => (s.cancelLoad id).2
  | terminateLoads => s.terminateLoads.2
  | setProvider provider => (s.setProvider provider).2
  | tick hooks requested => s.after ((s.tick hooks requested).map Prod.snd)
  | takeJournal => s.takeJournal.2
  | poolTake =>
    match s.loader with
    | none => s
    | some p => { s with loader := some p.take }
  | poolAdvance i =>
    match s.loader with
    | none => s
    | some p => { s with
        loader := some (p.advance i s.held s.cache).1
        cache := (p.advance i s.held s.cache).2 }
  | useCache cache => { s with cache }

/-- The operations that replace the loader, drain it or go on with its work. -/
inductive Tends : Operation → Prop
  | tick (hooks requested) : Tends (tick hooks requested)
  | setProvider (provider) : Tends (setProvider provider)
  | poolTake : Tends poolTake
  | poolAdvance (i) : Tends (poolAdvance i)

/-- The operations that add routes to the spaces there are. -/
inductive Links : Operation → Prop
  | addRoute (r) : Links (addRoute r)
  | addRouteIn (sp r) : Links (addRouteIn sp r)
  | addStatement (sp statement) : Links (addStatement sp statement)
  | load (sp text) : Links (load sp text)

/-- Setup ends for new nodes and by request, only ticks take changes off the queue, and only a state
that is set by hand leaves a node waiting in vain. -/
def licence (s : Scene) (op : Operation) : Scene.Licence where
  opens id := s.Fresh id ∨ op = .finishSetup id
  dequeues := ∃ hooks requested, op = .tick hooks requested
  tends := op.Tends
  idles := ∃ id state, op = .setLoadState id state
  links sp := s.spaces.issued ≤ sp.number ∨ op.Links

end Operation

namespace Scene

/-- Operations led from a new scene to this one. Each stands with the scene that it was done in. -/
inductive Story : List (Operation × Scene) → Scene → Prop
  | new {catalog settings s} (built : ∀ t ∈ catalog.types, t.Built)
      (h : Scene.new catalog settings = .ok s) : Story [] s
  | next {os s} (h : Story os s) (op : Operation) : Story (os ++ [(op, s)]) (op.run s)

variable {s s' t : Scene} {os : List (Operation × Scene)}

theorem step_after {a : Except Error Scene} (ha : ∀ s', a = .ok s' → Step s s') :
    s.after a = s ∨ Step s (s.after a) :=
  after_induction (P := fun t ↦ t = s ∨ Step s t) (.inl rfl) fun s' he ↦ .inr (ha s' he)

theorem step_after_snd {α : Type} {a : Except Error (α × Scene)}
    (ha : ∀ b s', a = .ok (b, s') → Step s s') :
    s.after (a.map Prod.snd) = s ∨ Step s (s.after (a.map Prod.snd)) :=
  after_snd_induction (P := fun t ↦ t = s ∨ Step s t) (.inl rfl) fun b s' he ↦ .inr (ha b s' he)

/-- An operation is a step, unless it was refused. -/
theorem step_run (op : Operation) (s : Scene) :
    op.run s = s ∨ Step s (op.run s) := by
  cases op with
  | createSpace kind parent => exact step_after_snd fun _ _ h ↦ .createSpace h
  | removeSpace sp => exact step_after fun _ h ↦ .removeSpace h
  | createNode sp typeName => exact step_after_snd fun _ _ h ↦ .createNode h
  | finishSetup id => exact step_after fun _ h ↦ .finishSetup h
  | removeNode id => exact step_after fun _ h ↦ .removeNode h
  | collect sp => exact step_after_snd fun _ _ h ↦ .collect h
  | setValue id index v => exact step_after fun _ h ↦ .setValue h
  | set id target v => exact step_after fun _ h ↦ .set h
  | setInts id index data count => exact step_after fun _ h ↦ .setInts h
  | setFloats id index data count => exact step_after fun _ h ↦ .setFloats h
  | setStrings id index data count => exact step_after fun _ h ↦ .setStrings h
  | checkChanged id index => exact step_after_snd fun _ _ h ↦ .checkChanged h
  | addRoot sp id => exact step_after_snd fun _ _ h ↦ .addRoot h
  | removeRoot sp id => exact step_after_snd fun _ _ h ↦ .removeRoot h
  | define sp name id => exact step_after fun _ h ↦ .define h
  | addRoute r => exact step_after_snd fun _ _ h ↦ .addRoute h
  | addRouteIn sp r => exact step_after_snd fun _ _ h ↦ .addRouteIn h
  | addStatement sp statement => exact step_after_snd fun _ _ h ↦ .addStatement h
  | removeRoute r => exact .inr (.removeRoute s r)
  | load sp text => exact .inr (.load s sp text)
  | setLoadState id state => exact .inr (.setLoadState s id state)
  | requestLoad id => exact .inr (.requestLoad s id)
  | cancelLoad id => exact .inr (.cancelLoad s id)
  | terminateLoads => exact .inr (.terminateLoads s)
  | setProvider provider => exact .inr (.setProvider s provider)
  | tick hooks requested => exact step_after_snd fun _ _ h ↦ .tick h
  | takeJournal => exact .inr (.takeJournal s)
  | poolTake =>
    cases hp : s.loader with
    | none => exact .inl (by simp only [Operation.run, hp])
    | some p => exact .inr (by simpa only [Operation.run, hp] using .poolTake hp)
  | poolAdvance i =>
    cases hp : s.loader with
    | none => exact .inl (by simp only [Operation.run, hp])
    | some p => exact .inr (by simpa only [Operation.run, hp] using .poolAdvance hp i)
  | useCache cache => exact .inr (.useCache s cache)

theorem Operation.run_checkChanged (s : Scene) (id : NodeId) (index : Nat) :
    (Operation.checkChanged id index).run s =
      s.modifyNode id fun n ↦ { n with changed := n.changed.set index false } := by
  cases hn : s.node? id with
  | none =>
    rw [Operation.run, checkChanged, node, hn, modifyNode_of_none _ _ _ hn]
    rfl
  | some n =>
    rw [Operation.run, checkChanged, node, hn]
    rfl

theorem Coherent.run (h : s.Coherent [] none) (op : Operation) : (op.run s).Coherent [] none := by
  rcases step_run op s with he | hs
  · rwa [he]
  · exact h.step hs

theorem Story.coherent (h : Story os s) : s.Coherent [] none := by
  induction h with
  | new built h => exact (Reachable.new built h).coherent
  | next _ op ih => exact ih.run op

/-- Every step is an operation that was done. -/
theorem Step.exists_run (h : Step s s') : ∃ op : Operation, op.run s = s' := by
  cases h with
  | createSpace h => exact ⟨.createSpace _ _, by rw [Operation.run, h]; rfl⟩
  | removeSpace h => exact ⟨.removeSpace _, by rw [Operation.run, h]; rfl⟩
  | createNode h => exact ⟨.createNode _ _, by rw [Operation.run, h]; rfl⟩
  | finishSetup h => exact ⟨.finishSetup _, by rw [Operation.run, h]; rfl⟩
  | removeNode h => exact ⟨.removeNode _, by rw [Operation.run, h]; rfl⟩
  | collect h => exact ⟨.collect _, by rw [Operation.run, h]; rfl⟩
  | setValue h => exact ⟨.setValue _ _ _, by rw [Operation.run, h]; rfl⟩
  | set h => exact ⟨.set _ _ _, by rw [Operation.run, h]; rfl⟩
  | setInts h => exact ⟨.setInts _ _ _ _, by rw [Operation.run, h]; rfl⟩
  | setFloats h => exact ⟨.setFloats _ _ _ _, by rw [Operation.run, h]; rfl⟩
  | setStrings h => exact ⟨.setStrings _ _ _ _, by rw [Operation.run, h]; rfl⟩
  | checkChanged h => exact ⟨.checkChanged _ _, by rw [Operation.run, h]; rfl⟩
  | addRoot h => exact ⟨.addRoot _ _, by rw [Operation.run, h]; rfl⟩
  | removeRoot h => exact ⟨.removeRoot _ _, by rw [Operation.run, h]; rfl⟩
  | define h => exact ⟨.define _ _ _, by rw [Operation.run, h]; rfl⟩
  | addRoute h => exact ⟨.addRoute _, by rw [Operation.run, h]; rfl⟩
  | addRouteIn h => exact ⟨.addRouteIn _ _, by rw [Operation.run, h]; rfl⟩
  | addStatement h => exact ⟨.addStatement _ _, by rw [Operation.run, h]; rfl⟩
  | removeRoute r => exact ⟨.removeRoute r, rfl⟩
  | load sp text => exact ⟨.load sp text, rfl⟩
  | setLoadState id state => exact ⟨.setLoadState id state, rfl⟩
  | requestLoad id => exact ⟨.requestLoad id, rfl⟩
  | cancelLoad id => exact ⟨.cancelLoad id, rfl⟩
  | terminateLoads => exact ⟨.terminateLoads, rfl⟩
  | setProvider provider => exact ⟨.setProvider provider, rfl⟩
  | tick h => exact ⟨.tick _ _, by rw [Operation.run, h]; rfl⟩
  | takeJournal => exact ⟨.takeJournal, rfl⟩
  | poolTake h => exact ⟨.poolTake, by simp only [Operation.run, h]⟩
  | poolAdvance h i => exact ⟨.poolAdvance i, by simp only [Operation.run, h]⟩
  | useCache cache => exact ⟨.useCache cache, rfl⟩

theorem Reachable.exists_story (h : s.Reachable) : ∃ os, Story os s := by
  induction h with
  | new built h => exact ⟨[], .new built h⟩
  | step _ hs ih =>
    obtain ⟨os, h⟩ := ih
    obtain ⟨op, rfl⟩ := hs.exists_run
    exact ⟨_, h.next op⟩

theorem Story.reachable (h : Story os s) : s.Reachable := by
  induction h with
  | new built h => exact .new built h
  | next _ op ih =>
    rcases step_run op _ with he | hs
    · rwa [he]
    · exact ih.step hs

/-- The operations, each with the scene that it is done in. -/
def trail (s : Scene) : List Operation → List (Operation × Scene)
  | [] => []
  | op :: ops => (op, s) :: trail (op.run s) ops

theorem fst_mem_of_mem_trail {o : Operation × Scene} {ops : List Operation}
    (h : o ∈ s.trail ops) : o.1 ∈ ops := by
  induction ops generalizing s with
  | nil => cases h
  | cons op ops ih =>
    rcases List.mem_cons.mp h with rfl | h
    · exact List.mem_cons_self
    · exact List.mem_cons_of_mem _ (ih h)

theorem Story.trail (h : Story os s) (ops : List Operation) :
    Story (os ++ s.trail ops) (ops.foldl Operation.run s) := by
  induction ops generalizing os s with
  | nil => rwa [Scene.trail, List.append_nil]
  | cons op ops ih =>
    rw [Scene.trail, List.append_cons]
    exact ih (h.next op)

section touches

variable {l : Licence}

theorem Touches.of_after {a : Except Error Scene} (ha : ∀ s', a = .ok s' → Touches l s s') :
    Touches l s (s.after a) :=
  after_induction (P := fun t ↦ Touches l s t) .refl ha

theorem Touches.of_after_snd {α : Type} {a : Except Error (α × Scene)}
    (ha : ∀ b s', a = .ok (b, s') → Touches l s s') : Touches l s (s.after (a.map Prod.snd)) :=
  after_snd_induction (P := fun t ↦ Touches l s t) .refl ha

/-- An operation is done in touches, unless it clears a flag, takes the journal or is a tick. -/
theorem Coherent.touches (h : s.Coherent [] none) (op : Operation)
    (hc : ∀ id index, op ≠ .checkChanged id index) (hj : op ≠ .takeJournal)
    (ht : ∀ hooks requested, op ≠ .tick hooks requested) :
    Touches (op.licence s) s (op.run s) := by
  cases op with
  | createSpace kind parent => exact .of_after_snd fun _ _ hs ↦ .openSpace hs
  | removeSpace sp => exact .of_after fun _ hs ↦ .removeSpace hs
  | createNode sp typeName => exact .of_after_snd fun _ _ hs ↦ .createNode hs
  | finishSetup id =>
    refine .of_after fun s' hs ↦ ?_
    rcases Touches.finishSetup h hs with rfl | ⟨n, hn, hi, opened⟩
    · exact .refl
    · exact .head (.endSetup (.inr rfl) hn hi) opened
  | removeNode id => exact .of_after fun _ hs ↦ .removeNode hs
  | collect sp => exact .of_after_snd fun _ _ hs ↦ .collect hs
  | setValue id index v => exact .of_after fun _ hs ↦ .setValue h hs
  | set | setInts | setFloats | setStrings =>
    refine .of_after fun _ hs ↦ ?_
    obtain ⟨a, -, hs⟩ := bind_eq_ok.mp hs
    exact .setValue h hs
  | checkChanged id index => exact absurd rfl (hc id index)
  | addRoot sp id => exact .of_after_snd fun _ _ hs ↦ .addRoot hs
  | removeRoot sp id => exact .of_after_snd fun _ _ hs ↦ .removeRoot hs
  | define sp name id => exact .of_after fun _ hs ↦ .define hs
  | addRoute r => exact .of_after_snd fun _ _ hs ↦ .addRoute (fun _ ↦ Or.inr (.addRoute r)) hs
  | addRouteIn sp r => exact .of_after_snd fun _ _ hs ↦ .addRouteIn (Or.inr (.addRouteIn sp r)) hs
  | addStatement sp statement =>
    exact .of_after_snd fun _ _ hs ↦ .addStatement (Or.inr (.addStatement sp statement)) hs
  | removeRoute r => exact .removeRoute s r
  | load sp text => exact .load h (fun _ hid ↦ Or.inl hid) (Or.inr (.load sp text)) text
  | setLoadState id state => exact .setLoadState fun _ ↦ ⟨id, state, rfl⟩
  | requestLoad id => exact .requestLoad
  | cancelLoad id => exact .reset
  | terminateLoads => exact .terminateLoads s
  | setProvider provider =>
    rcases Touches.setProvider h provider with touches | ⟨p, t, hp, -, -, before, he⟩
    · exact touches
    · change Touches _ s (s.setProvider provider).2
      rw [he]
      exact (before.tail (.renew (Operation.Tends.setProvider provider) hp)).trans
        (Touches.autoLoads _ _)
  | tick hooks requested => exact absurd rfl (ht hooks requested)
  | takeJournal => exact absurd rfl hj
  | poolTake =>
    cases hp : s.loader with
    | none => simpa only [Operation.run, hp] using .refl
    | some p =>
      have take := Touch.take (l := Operation.poolTake.licence s) Operation.Tends.poolTake hp
      simpa only [Operation.run, hp] using .single take
  | poolAdvance i =>
    cases hp : s.loader with
    | none => simpa only [Operation.run, hp] using .refl
    | some p =>
      have advance :=
        Touch.advance (l := (Operation.poolAdvance i).licence s) (Operation.Tends.poolAdvance i) hp i
      simpa only [Operation.run, hp] using .single advance
  | useCache cache => exact .single (.useCache s cache)

/-- Once its clock is set, a tick applies what was loaded in touches. -/
theorem Coherent.touches_drainLoads {requested time : Double} (h : s.Coherent [] none)
    (ha : s.advanceClock requested = .ok (time, t)) (hooks : List HookProgram) :
    Touches ((Operation.tick hooks requested).licence s) t t.drainLoads.2 := by
  let l := (Operation.tick hooks requested).licence s
  have tends : l.tends := Operation.Tends.tick hooks requested
  have covers : l.Covers s := ⟨fun _ hid ↦ Or.inl hid, fun _ hsp ↦ Or.inl hsp⟩
  have clock : Strokes l s t := .advanceClock ha
  have fetched : Touches l t { t with loader := t.loader.map fun p ↦ p.drain.2 } := by
    cases hp : t.loader with
    | none =>
      have same : { t with loader := none } = t := by rw [← hp]
      exact same ▸ .refl
    | some p => exact .single (.drain tends hp)
  exact fetched.trans (Touches.drainLoads (h.advanceClock ha) (covers.of_strokes clock))

/-- What a tick does between its clock and its end are touches. -/
theorem Coherent.touches_tick {hooks : List HookProgram} {requested : Double} {tally : Tally}
    (h : s.Coherent [] none) (ht : s.tick hooks requested = .ok (tally, s')) : ∃ time t u,
      s.advanceClock requested = .ok (time, t) ∧
      Touches ((Operation.tick hooks requested).licence s) t u ∧
      s' = u.emit (.tickFinished time tally.fired) := by
  have hd : ((Operation.tick hooks requested).licence s).dequeues := ⟨hooks, requested, rfl⟩
  obtain ⟨time, t, u, ha, after, he⟩ := Touches.tick h hd ht
  exact ⟨time, t, u, ha, (h.touches_drainLoads ha hooks).trans after, he⟩

/-- An operation is done in strokes, unless it clears a flag or takes the journal. -/
theorem Coherent.strokes (h : s.Coherent [] none) (op : Operation)
    (hc : ∀ id index, op ≠ .checkChanged id index) (hj : op ≠ .takeJournal) :
    Strokes (op.licence s) s (op.run s) := by
  by_cases ht : ∃ hooks requested, op = .tick hooks requested
  · obtain ⟨hooks, requested, rfl⟩ := ht
    refine after_snd_induction (P := fun t ↦ Strokes _ s t) .refl fun tally s' ht ↦ ?_
    obtain ⟨time, t, u, ha, touches, rfl⟩ := h.touches_tick ht
    exact ((Strokes.advanceClock ha).trans touches.strokes).trans (Strokes.log rfl)
  · exact (h.touches op hc hj fun hooks requested he ↦ ht ⟨hooks, requested, he⟩).strokes

theorem Coherent.run_cases (h : s.Coherent [] none) (op : Operation) :
    (∃ id index, op = .checkChanged id index) ∨ op = .takeJournal ∨
      Strokes (op.licence s) s (op.run s) := by
  by_cases hc : ∃ id index, op = .checkChanged id index
  · exact .inl hc
  by_cases hj : op = .takeJournal
  · exact .inr (.inl hj)
  · exact .inr (.inr (h.strokes op (fun id index he ↦ hc ⟨id, index, he⟩) hj))

end touches

end Scene

end SceneGraph
