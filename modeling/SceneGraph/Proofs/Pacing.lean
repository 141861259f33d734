import SceneGraph.Proofs.Cascade
import SceneGraph.Proofs.Mirroring

/-!
Loads and ticks of scenes that are alike: the same nodes get the same content, the same routes fire,
and the same is counted.
-/

namespace SceneGraph

/-- The hooks ask for writes of the node and field, with values that are alike. -/
structure HookWrite.Alike (w w' : HookWrite) : Prop where
  node : w'.node = w.node
  target : w'.target = w.target
  value : w.value.Alike w'.value

/-- The hooks do alike what they do, as long as the scenes that they look at are alike. -/
abbrev HookProgram.Alike (p q : HookProgram) : Prop := Program.Alike Scene.Alike HookWrite.Alike p q

namespace Scene

variable {s t : Scene} {id : NodeId}

namespace Alike

section delivery

theorem complete (h : s.Alike t) (id : NodeId) (content : Content) (space : Option SpaceId) :
    Parallel (s.complete id content space) (t.complete id content space) :=
  (h.modifySlot id _).setLoadState id .complete

theorem applyContent (h : s.Alike t) (id : NodeId) (content : Content) :
    Parallel (s.applyContent id content) (t.applyContent id content) := by
  unfold Scene.applyContent
  rcases h.node_cases id with ⟨hn, hm⟩ | ⟨n, m, hn, hm, alike⟩ <;> rw [hn, hm]
  · exact ⟨rfl, h⟩
  cases alike
  dsimp only
  split
  · exact h.complete id content none
  split
  · exact (h.log _).setLoadState id .failed
  rename_i text _
  rcases (h.openSpace .inline n.space (some id)).cases with
    ⟨e, _, hx, hy, rfl⟩ | ⟨a, b, hx, hy, both⟩
  · rw [hx, hy]
    exact ⟨rfl, h⟩
  obtain ⟨sp, s₁, t₁, rfl, rfl, opened⟩ := both.cases
  rw [hx, hy]
  dsimp only
  obtain ⟨r, s₂, t₂, hs, ht, read⟩ := (opened.load sp text).cases
  rw [hs, ht]
  cases r with
  | ok _ => exact read.complete id content (some sp)
  | error _ =>
    dsimp only
    rcases (read.removeSpace sp).cases with ⟨e, _, hx, hy, rfl⟩ | ⟨s₃, t₃, hx, hy, removed⟩ <;>
      rw [hx, hy]
    · exact ⟨rfl, read⟩
    · exact removed.setLoadState id .failed

theorem awaits (h : s.Alike t) (c : Completion) : t.awaits c = s.awaits c := by
  unfold Scene.awaits
  rw [h.bind_agree c.request.node Node.load fun _ _ ↦ rfl]

theorem applyCompletion (h : s.Alike t) (c : Completion) :
    Parallel (s.applyCompletion c) (t.applyCompletion c) := by
  unfold Scene.applyCompletion
  split
  · exact h.applyContent ..
  · exact (h.log _).setLoadState _ .failed
  · exact h.setLoadState _ .notLoaded

theorem applyCompletions (h : s.Alike t) (cs : List Completion) :
    Parallel (applyCompletions cs s) (applyCompletions cs t) := by
  induction cs generalizing s t with
  | nil => exact ⟨rfl, h⟩
  | cons c cs ih =>
    unfold Scene.applyCompletions
    rw [h.awaits]
    split
    · obtain ⟨r, s₁, t₁, hs, ht, applied⟩ := (h.applyCompletion c).cases
      rw [hs, ht]
      cases r with
      | ok _ => exact ⟨congrArg (· + 1) (ih applied).result, (ih applied).scene⟩
      | error e =>
        have rest := ih (applied.log [.report ⟨.error, "Could not apply a load result.", some e⟩])
        exact ⟨congrArg (· + 1) rest.result, rest.scene⟩
    · exact ih h

theorem drainLoads (h : s.Alike t) : Parallel s.drainLoads t.drainLoads := by
  unfold Scene.drainLoads
  rw [h.loader]
  cases hp : s.loader with
  | none => exact ⟨rfl, h⟩
  | some p => exact (h.withLoader fun _ ↦ some p.drain.2).applyCompletions p.drain.1

end delivery

section ticking

theorem time (h : s.Alike t) : t.time = s.time := h.agree Scene.time fun _ ↦ rfl

theorem advanceClock (h : s.Alike t) (requested : Double) :
    Both Eq Parallel (s.advanceClock requested) (t.advanceClock requested) := by
  have moved : Parallel (requested, { s with time := some requested })
      (requested, { t with time := some requested }) := ⟨rfl,
      h.aside (fun s ↦ { s with time := some requested }) (fun _ ↦ rfl) ⟨rfl, rfl⟩⟩
  have rejects := congrArg Settings.rejectRegression h.settings
  unfold Scene.advanceClock
  rw [h.time, rejects]
  cases s.time with
  | none =>
    dsimp only
    split
    · exact rfl
    · exact moved
  | some previous =>
    dsimp only
    split
    · exact rfl
    split
    · split
      · exact rfl
      · exact ⟨rfl, h.log _⟩
    · exact moved

theorem isEnabled {n m : Node} (alike : n.Alike m) : isEnabled m = isEnabled n := by
  unfold Scene.isEnabled
  rw [alike.type]
  cases n.type.enabled? with
  | none => rfl
  | some i => exact congrArg (·.getD true) (alike.bind i Value.asBool?_trim)

theorem tickSensor (h : s.Alike t) (id : NodeId) : (s.tickSensor id).Alike (t.tickSensor id) := by
  unfold Scene.tickSensor
  rcases h.node_cases id with ⟨hn, hm⟩ | ⟨n, m, hn, hm, alike⟩ <;> rw [hn, hm]
  · exact h
  dsimp only
  rw [alike.inSetup, isEnabled alike]
  split
  · exact h
  · exact h.perform id fun b blind ↦ blind.tick

theorem tickSensors (h : s.Alike t) : s.tickSensors.Alike t.tickSensors := by
  unfold Scene.tickSensors
  rw [h.agree Scene.sensors fun _ ↦ rfl]
  exact foldl (fun id h ↦ h.tickSensor id) _ h

theorem value (h : s.Alike t) (id : NodeId) (index : Nat) :
    Both Eq Value.Alike (s.value id index) (t.value id index) := by
  refine (h.node id).bind fun n m alike ↦ ?_
  unfold Node.value
  rw [alike.type]
  rcases AllAlike.option_cases (alike.values.getElem? index) with
    ⟨hv, hw⟩ | ⟨v, w, hv, hw, same⟩ <;> rw [hv, hw]
  · exact rfl
  · exact same

theorem send (h : s.Alike t) (r : Route) : Both Eq Alike (s.send r) (t.send r) :=
  (h.value r.source r.sourceField).bind fun _ _ same ↦ h.setValue r.dest r.destField same

theorem fire (h : s.Alike t) (r : Route) : Parallel (s.fire r) (t.fire r) := by
  unfold Scene.fire
  rcases (h.send r).cases with ⟨e, _, hx, hy, rfl⟩ | ⟨s', t', hx, hy, sent⟩ <;> rw [hx, hy]
  · exact ⟨rfl, h.log _⟩
  · exact ⟨rfl, sent⟩

theorem routesFor (h : s.Alike t) (id : NodeId) (field : Nat) :
    t.routesFor id field = s.routesFor id field := by
  have home := h.bind_agree id (fun n ↦ s.space? n.space) fun _ _ ↦ rfl
  unfold Scene.routesFor
  simp only [h.space?, home]

theorem pending (h : s.Alike t) : t.pending = s.pending := h.agree Scene.pending fun _ ↦ rfl

theorem cascade (h : s.Alike t) (limit : Nat) (waiting fired : List Route) (tally : Tally) :
    Parallel (cascade limit waiting fired tally s) (cascade limit waiting fired tally t) := by
  induction waiting, fired, tally, s using cascade.induct limit generalizing t with
  | case1 fired tally s r waiting hr ih =>
    rw [Scene.cascade, Scene.cascade, if_pos hr, if_pos hr]
    exact ih h
  | case2 fired tally s r waiting hr hl =>
    rw [Scene.cascade, Scene.cascade, if_neg hr, if_neg hr, if_pos hl, if_pos hl]
    exact ⟨rfl, (h.withPending fun _ ↦ []).log _⟩
  | case3 fired tally s r waiting hr hl delivered s' he ih =>
    rw [Scene.cascade, Scene.cascade, if_neg hr, if_neg hr, if_neg hl, if_neg hl]
    obtain ⟨b, s₁, t₁, hs, ht, alike⟩ := (h.fire r).cases
    cases hs.symm.trans he
    rw [hs, ht]
    exact ih alike
  | case4 fired tally s hp =>
    rw [cascade_settled hp, cascade_settled (h.pending.trans hp)]
    exact ⟨rfl, h⟩
  | case5 fired tally s id field pending hp ih =>
    rw [cascade_take hp, cascade_take (h.pending.trans hp), h.routesFor]
    exact ih (h.withPending fun _ ↦ pending)

theorem runHook (h : s.Alike t) {p q : HookProgram} (hp : p.Alike q) :
    (s.runHook p).Alike (t.runHook q) := by
  refine Program.Alike.run (S := Alike) (fun h ↦ h) ?_ (fun text h ↦ h.log _) hp h
  intro s t w w' h hw
  unfold hookHost
  dsimp only
  rw [hw.node, hw.target]
  rcases (h.set w.node w.target hw.value).cases with
    ⟨e, _, hx, hy, rfl⟩ | ⟨s', t', hx, hy, alike⟩ <;> rw [hx, hy]
  · exact ⟨rfl, h⟩
  · exact ⟨rfl, alike⟩

theorem runHooks {ps qs : List HookProgram} (hp : List.Forall₂ HookProgram.Alike ps qs)
    (h : s.Alike t) : (ps.foldl Scene.runHook s).Alike (qs.foldl Scene.runHook t) := by
  induction hp generalizing s t with
  | nil => exact h
  | cons hp _ ih => exact ih (h.runHook hp)

/-- A tick counts the same in both scenes. -/
theorem tick (h : s.Alike t) {ps qs : List HookProgram}
    (hp : List.Forall₂ HookProgram.Alike ps qs) (requested : Double) :
    Both Eq Parallel (s.tick ps requested) (t.tick qs requested) := by
  refine (h.advanceClock requested).bind ?_
  rintro ⟨time, s₁⟩ ⟨_, t₁⟩ ⟨rfl, clocked⟩
  obtain ⟨loads, s₂, t₂, hs, ht, drained⟩ := clocked.drainLoads.cases
  dsimp only
  rw [hs, ht]
  dsimp only
  rw [drained.settings]
  obtain ⟨tally, s₃, t₃, hs, ht, settled⟩ :=
    (drained.tickSensors.cascade s₂.settings.cascadeSteps [] [] { time, loads }).cases
  rw [hs, ht]
  dsimp only
  cases hp with
  | nil => exact ⟨rfl, settled.log _⟩
  | cons hp rest =>
    obtain ⟨tally', s₄, t₄, hs, ht, ended⟩ :=
      ((settled.runHooks (.cons hp rest)).cascade s₂.settings.cascadeSteps [] [] tally).cases
    simp only [List.isEmpty_cons, Bool.false_eq_true, if_false]
    rw [hs, ht]
    exact ⟨rfl, ended.log _⟩

end ticking

end Alike

end Scene

end SceneGraph
