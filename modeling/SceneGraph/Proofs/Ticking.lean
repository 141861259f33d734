import SceneGraph.Proofs.Cascade
import SceneGraph.Proofs.Delivery

namespace SceneGraph

structure Outset where
  limit : Nat
  tally : Tally
  scene : Scene

namespace Outset

def run (o : Outset) : Tally × Scene := Scene.cascade o.limit [] [] o.tally o.scene

def course (o : Outset) : Course := Scene.course o.limit [] [] o.tally o.scene

end Outset

namespace Scene

variable {s s' : Scene} {guest : Option SpaceId} {id : NodeId} {r : Route} {sp : SpaceId}
  {x : Space} {t : Tally} {limit : Nat} {hooks : List HookProgram} {requested : Double}

theorem advanceClock_cases {time : Double} (h : s.advanceClock requested = .ok (time, s')) :
    (∃ text, s' = s.warn text none) ∨ s' = { s with time := some requested } := by
  unfold advanceClock at h
  by_cases hf : Binary.isFinite requested
  · simp only [hf, Bool.not_true, Bool.false_eq_true, if_false] at h
    cases ht : s.time with
    | none =>
      rw [ht] at h
      cases h
      exact .inr rfl
    | some previous =>
      simp only [ht] at h
      by_cases hp : requested < previous
      · by_cases hr : s.settings.rejectRegression
        · simp [hp, hr, throw, throwThe, MonadExceptOf.throw, bind, Except.bind] at h
        · simp only [hp, hr, if_true, Bool.false_eq_true, if_false] at h
          cases h
          exact .inl ⟨_, rfl⟩
      · simp only [hp, if_false] at h
        cases h
        exact .inr rfl
  · simp [hf, throw, throwThe, MonadExceptOf.throw, bind, Except.bind] at h

theorem Coherent.advanceClock (h : s.Coherent [] guest) {time : Double}
    (ha : s.advanceClock requested = .ok (time, s')) : s'.Coherent [] guest := by
  rcases advanceClock_cases ha with ⟨text, rfl⟩ | rfl
  · exact h.log _
  · exact h.congr rfl rfl rfl rfl fun _ hp ↦ hp

theorem Coherent.tickSensors (h : s.Coherent [] guest) : s.tickSensors.Coherent [] guest :=
  List.foldlRecOn s.sensors tickSensor (motive := fun s ↦ s.Coherent [] guest) h
    fun _ hs _ _ ↦ (Edited.tickSensor hs).coherent

theorem Coherent.set (h : s.Coherent [] guest) {target : Target} {v : Value}
    (hs : s.set id target v = .ok s') : s'.Coherent [] guest := by
  obtain ⟨i, -, hs⟩ := bind_eq_ok.mp hs
  exact (Edited.setValue h hs).coherent

theorem Coherent.runHook (h : s.Coherent [] guest) (p : HookProgram) :
    (s.runHook p).Coherent [] guest := by
  refine Program.run_induction (P := fun s : Scene ↦ s.Coherent [] guest) (fun s w hs ↦ ?_)
    (fun s text hs ↦ hs.log _) p h
  unfold hookHost
  dsimp only
  split
  · next he => exact hs.set he
  · exact hs

theorem Coherent.runHooks (h : s.Coherent [] guest) (hooks : List HookProgram) :
    (hooks.foldl Scene.runHook s).Coherent [] guest :=
  List.foldlRecOn hooks Scene.runHook (motive := fun s ↦ s.Coherent [] guest) h
    fun _ hs p _ ↦ hs.runHook p

theorem Coherent.cascade (h : s.Coherent [] guest) (limit : Nat) (waiting fired : List Route)
    (t : Tally) : (Scene.cascade limit waiting fired t s).2.Coherent [] guest := by
  induction waiting, fired, t, s using Scene.cascade.induct limit with
  | case1 fired t s r waiting hr ih =>
    rw [Scene.cascade, if_pos hr]
    exact ih h
  | case2 fired t s r waiting hr hl =>
    rw [Scene.cascade, if_neg hr, if_pos hl]
    exact h.congr rfl rfl rfl rfl fun _ hp ↦ absurd hp List.not_mem_nil
  | case3 fired t s r waiting hr hl delivered s' hf ih =>
    rw [Scene.cascade, if_neg hr, if_neg hl]
    have edited := Edited.fire h r
    rw [hf] at edited ⊢
    exact ih edited.coherent
  | case4 fired t s hp =>
    rwa [cascade_settled hp]
  | case5 fired t s id field pending hp ih =>
    rw [cascade_take hp]
    exact ih (h.take hp)

/-- Where the cascades of a tick begin: with the changes there are once the sensors ran, and again
with those of the hooks if there are hooks. -/
def outsets (s : Scene) (hooks : List HookProgram) (requested : Double) : List Outset :=
  match s.advanceClock requested with
  | .error _ => []
  | .ok (time, s) =>
    let (loads, s) := s.drainLoads
    let limit := s.settings.cascadeSteps
    let first : Outset := ⟨limit, { time, loads }, s.tickSensors⟩
    if hooks.isEmpty then [first]
    else [first, ⟨limit, first.run.1, hooks.foldl runHook first.run.2⟩]

theorem tick_eq_ok (h : s.tick hooks requested = .ok (t, s')) : ∃ o,
    (s.outsets hooks requested).getLast? = some o ∧ o.run.1 = t ∧
      ∃ time, s' = o.run.2.emit (.tickFinished time t.fired) := by
  unfold tick at h
  unfold outsets
  obtain ⟨⟨time, s₁⟩, ha, h⟩ := bind_eq_ok.mp h
  rw [ha]
  dsimp only at h ⊢
  cases hh : hooks.isEmpty with
  | true =>
    rw [hh, if_pos rfl] at h
    cases h
    exact ⟨_, rfl, rfl, time, rfl⟩
  | false =>
    rw [hh, if_neg Bool.false_ne_true] at h
    cases h
    exact ⟨_, rfl, rfl, time, rfl⟩

/-- After a tick no change is queued. -/
theorem pending_tick (h : s.tick hooks requested = .ok (t, s')) : s'.pending = [] := by
  obtain ⟨o, -, -, time, rfl⟩ := tick_eq_ok h
  exact pending_cascade_eq_nil ..

theorem truncated_cascade {waiting fired : List Route} (ht : t.truncated = true) :
    (cascade limit waiting fired t s).1.truncated = true := by
  induction waiting, fired, t, s using cascade.induct limit with
  | case1 fired t s r waiting hr ih =>
    rw [cascade, if_pos hr]
    exact ih ht
  | case2 fired t s r waiting hr hl =>
    rw [cascade, if_neg hr, if_pos hl]
    rfl
  | case3 fired t s r waiting hr hl delivered s' hf ih =>
    rw [cascade, if_neg hr, if_neg hl, hf]
    exact ih ht
  | case4 fired t s hp => rwa [cascade_settled hp]
  | case5 fired t s id field pending hp ih =>
    rw [cascade_take hp]
    exact ih ht

theorem truncated_run {o : Outset} (h : o.run.1.truncated = false) :
    o.tally.truncated = false := by
  rw [← Bool.not_eq_true]
  intro ht
  exact absurd (h.symm.trans (truncated_cascade ht)) Bool.false_ne_true

theorem truncated_outsets (h : s.tick hooks requested = .ok (t, s')) (ht : t.truncated = false) :
    ∀ o ∈ s.outsets hooks requested, o.run.1.truncated = false := by
  obtain ⟨o, hl, rfl, -⟩ := tick_eq_ok h
  unfold outsets at hl ⊢
  split at hl
  · nofun
  dsimp only at hl ⊢
  split at hl
  · next hh =>
    rw [if_pos hh]
    cases hl
    simpa using ht
  · next hh =>
    rw [if_neg hh]
    cases hl
    intro o ho
    rcases List.mem_cons.mp ho with rfl | ho
    · exact truncated_run ht
    · cases List.mem_singleton.mp ho
      exact ht

theorem Coherent.outsets (h : s.Coherent [] none) :
    ∀ o ∈ s.outsets hooks requested, o.scene.Coherent [] none := by
  unfold Scene.outsets
  split
  · nofun
  next ha =>
  have first := ((h.advanceClock ha).drainLoads).tickSensors
  dsimp only
  split
  · simpa using first
  · refine List.forall_mem_cons.mpr ⟨first, fun o ho ↦ ?_⟩
    cases List.mem_singleton.mp ho
    exact (first.cascade ..).runHooks hooks

theorem Coherent.tick (h : s.Coherent [] none) (ht : s.tick hooks requested = .ok (t, s')) :
    s'.Coherent [] none := by
  obtain ⟨o, hl, -, time, rfl⟩ := tick_eq_ok ht
  exact ((h.outsets o (List.mem_of_getLast? hl)).cascade _ _ _ _).log _

end Scene

end SceneGraph
