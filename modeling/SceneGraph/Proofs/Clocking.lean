import SceneGraph.Proofs.Bounding
import SceneGraph.Proofs.Order
import SceneGraph.Scene.Session

/-!
When a tick is refused, and what frames one that is not: the time at which it runs, the warning that
it came too early, the hooks, and the event that it is over. Over the ticks of a story the clock
never goes back.
-/

namespace SceneGraph

/-- Times of ticks in their order, and the time that the clock has after them. -/
structure Paced (times : List Double) (now : Option Double) : Prop where
  last : now = times.getLast?
  finite : ∀ time ∈ times, time.isFinite
  ascending : times.Pairwise (· ≤ ·)

theorem Paced.tick {times : List Double} {now : Option Double} {time : Double}
    (h : Paced times now) (finite : time.isFinite)
    (later : ∀ previous, now = some previous → previous ≤ time) :
    Paced (times ++ [time]) (some time) where
  last := List.getLast?_concat.symm
  finite := List.forall_mem_append.mpr ⟨h.finite, List.forall_mem_singleton.mpr finite⟩
  ascending := by
    refine List.pairwise_append.mpr ⟨h.ascending, List.pairwise_singleton .., fun a ha b hb ↦ ?_⟩
    cases List.mem_singleton.mp hb
    obtain ⟨before, previous, rfl⟩ :=
      (List.eq_nil_or_concat' times).resolve_left (List.ne_nil_of_mem ha)
    have below : previous ≤ time := later previous (h.last.trans List.getLast?_concat)
    rcases List.mem_append.mp ha with ha | ha
    · have ascending := (List.pairwise_append.mp h.ascending).2.2 a ha previous
      exact Binary.le_trans (ascending (List.mem_singleton_self previous)) below
    · exact List.mem_singleton.mp ha ▸ below

namespace Scene

variable {s s' t : Scene} {hooks : List HookProgram} {requested time : Double} {tally : Tally}
  {e : Error} {warnings : Journal} {os : List (Operation × Scene)}

/-- Why a tick is refused: its time is not finite, or earlier than that of the tick before where the
settings forbid it. -/
inductive Refused (s : Scene) (requested : Double) : Error → Prop
  | infinite (h : requested.isFinite = false) :
      Refused s requested (.other s!"tick time {requested} is not finite")
  | early {previous} (finite : requested.isFinite) (ht : s.time = some previous)
      (h : requested < previous) (strict : s.settings.rejectRegression = true) :
      Refused s requested (.earlier previous requested)

/-- The time at which a tick runs, and what is said if that is not the time that was requested. -/
inductive RunsAt (s : Scene) (requested : Double) : Double → Journal → Prop
  | onward (finite : requested.isFinite)
      (h : ∀ previous, s.time = some previous → ¬requested < previous) :
      RunsAt s requested requested []
  | clamped {previous} (finite : requested.isFinite) (ht : s.time = some previous)
      (h : requested < previous) (lenient : s.settings.rejectRegression = false) :
      RunsAt s requested previous [clampWarning requested previous]

theorem Refused.unique {e' : Error} (h : s.Refused requested e) (h' : s.Refused requested e') :
    e = e' := by
  cases h with
  | infinite h =>
    cases h' with
    | infinite => rfl
    | early finite => cases h.symm.trans finite
  | early finite ht =>
    cases h' with
    | infinite h => cases h.symm.trans finite
    | early _ ht' =>
      cases ht.symm.trans ht'
      rfl

theorem Refused.not_runsAt (h : s.Refused requested e) : ¬s.RunsAt requested time warnings := by
  rintro (⟨finite, onward⟩ | ⟨finite, ht, -, lenient⟩)
  · cases h with
    | infinite h => cases h.symm.trans finite
    | early _ ht h => exact onward _ ht h
  · cases h with
    | infinite h => cases h.symm.trans finite
    | early _ _ _ strict => cases strict.symm.trans lenient

/-- The clock is set, or nothing is done. -/
theorem advanceClock_spec (s : Scene) (requested : Double) :
    (∃ e, s.Refused requested e ∧ s.advanceClock requested = .error e) ∨
      ∃ time warnings, s.RunsAt requested time warnings ∧ s.advanceClock requested =
        .ok (time, { s with time := some time, journal := s.journal ++ warnings }) := by
  unfold advanceClock
  cases finite : requested.isFinite with
  | false => exact .inl ⟨_, .infinite finite, rfl⟩
  | true =>
    cases ht : s.time with
    | none =>
      refine .inr ⟨requested, [], .onward finite (by rw [ht]; nofun), ?_⟩
      rw [List.append_nil]
      rfl
    | some previous =>
      by_cases h : requested < previous
      · cases strict : s.settings.rejectRegression with
        | true =>
          refine .inl ⟨_, .early finite ht h strict, ?_⟩
          simp [h, throw, throwThe, MonadExceptOf.throw, bind, Except.bind]
        | false =>
          refine .inr ⟨previous, _, .clamped finite ht h strict, ?_⟩
          simp [h, ← ht, pure, Except.pure, warn, report, log, clampWarning]
      · refine .inr ⟨requested, [], .onward finite fun p hp ↦ ?_, ?_⟩
        · cases ht.symm.trans hp
          exact h
        · simp [h, pure, Except.pure]

theorem RunsAt.le (h : s.RunsAt requested time warnings)
    (finite : ∀ previous, s.time = some previous → previous.isFinite) :
    time.isFinite ∧ ∀ previous, s.time = some previous → previous ≤ time := by
  cases h with
  | onward now h =>
    exact ⟨now, fun p hp ↦ Binary.le_of_not_lt now (finite p hp) (h p hp)⟩
  | clamped _ ht =>
    refine ⟨finite _ ht, fun p hp ↦ ?_⟩
    cases ht.symm.trans hp
    exact Binary.le_refl (finite _ ht)

theorem time_cascade (limit : Nat) (waiting fired : List Route) (t : Tally) (s : Scene) :
    (cascade limit waiting fired t s).1.time = t.time := by
  induction waiting, fired, t, s using cascade.induct limit with
  | case1 fired t s r waiting hr ih =>
    rw [cascade, if_pos hr]
    exact ih
  | case2 fired t s r waiting hr hl =>
    rw [cascade, if_neg hr, if_pos hl]
    rfl
  | case3 fired t s r waiting hr hl delivered s' hf ih =>
    rw [cascade, if_neg hr, if_neg hl, hf]
    exact ih
  | case4 fired t s hp => rw [cascade_settled hp]
  | case5 fired t s id field pending hp ih =>
    rw [cascade_take hp]
    exact ih

theorem Outset.time_run (o : Outset) : o.run.1.time = o.tally.time := time_cascade ..

theorem tick_eq_error (hooks : List HookProgram) :
    s.tick hooks requested = .error e ↔ s.Refused requested e := by
  rcases advanceClock_spec s requested with ⟨e', refused, ha⟩ | ⟨time, warnings, runs, ha⟩
  · have failed : s.tick hooks requested = .error e' := by
      rw [Scene.tick, ha]
      rfl
    rw [failed]
    constructor
    · rintro ⟨⟩
      exact refused
    · intro h
      rw [h.unique refused]
  · rw [tick_eq hooks ha]
    constructor
    · rintro ⟨⟩
    · exact fun refused ↦ absurd runs refused.not_runsAt

/-- A tick runs its hooks between two cascades. Without hooks the second has nothing to do. -/
theorem tick_eq_hooked (hooks : List HookProgram)
    (ha : s.advanceClock requested = .ok (time, t)) : s.tick hooks requested =
    .ok (((t.opening time).hooked hooks).run.1,
      ((t.opening time).hooked hooks).run.2.emit
        (.tickFinished time ((t.opening time).hooked hooks).run.1.fired)) := by
  rw [tick_eq hooks ha]
  cases hooks with
  | nil =>
    have settled : ((t.opening time).hooked []).run = (t.opening time).run :=
      cascade_settled (pending_cascade_eq_nil ..)
    rw [settled]
    rfl
  | cons => rfl

/-- A tick that is not refused runs at its time. Its hooks run in turn, once the changes there are
are worked off; then it says that it is over. -/
structure Ticked (s : Scene) (hooks : List HookProgram) (requested : Double) (tally : Tally)
    (s' : Scene) : Prop where
  clock : s'.time = some tally.time
  course : ∃ first ∈ (s.outsets hooks requested).head?, first.run.2.pending = [] ∧
    first.run.2.time = some tally.time ∧
    ∃ u, cascade first.limit [] [] first.run.1 (hooks.foldl runHook first.run.2) = (tally, u) ∧
      s' = u.emit (.tickFinished tally.time tally.fired)
  journal : ∃ warnings js, s.RunsAt requested tally.time warnings ∧
    s'.journal = s.journal ++ warnings ++ js ++ [.event (.tickFinished tally.time tally.fired)] ∧
    ∀ e ∈ js, ¬Framing e

/-- Up to its end a tick frames nothing. -/
theorem Coherent.lasts_hooked (h : s.Coherent [] none) (time : Double)
    (hooks : List HookProgram) : Lasts s (s.opening time).run.2 ∧
      Lasts s ((s.opening time).hooked hooks).run.2 := by
  have ready := h.drainLoads.tickSensors
  have ticked : Touches .still s.drainLoads.2 (s.opening time).scene :=
    .tickSensors h.drainLoads
  have first : Touches .still (s.opening time).scene (s.opening time).run.2 :=
    .cascade ready trivial ..
  have settled := (h.lasts_drainLoads.trans ticked.lasts).trans first.lasts
  have hooked : Touches .still (s.opening time).run.2 ((s.opening time).hooked hooks).scene :=
    .runHooks (ready.cascade ..) hooks
  have second : Touches .still ((s.opening time).hooked hooks).scene
      ((s.opening time).hooked hooks).run.2 :=
    .cascade ((ready.cascade ..).runHooks hooks) trivial ..
  exact ⟨settled, (settled.trans hooked.lasts).trans second.lasts⟩

theorem Coherent.ticked (h : s.Coherent [] none) (hooks : List HookProgram)
    (runs : s.RunsAt requested time warnings) :
    ∃ tally s', s.tick hooks requested = .ok (tally, s') ∧ Ticked s hooks requested tally s' := by
  rcases advanceClock_spec s requested with ⟨e, refused, -⟩ | ⟨time, warnings, runs, ha⟩
  · exact absurd runs refused.not_runsAt
  obtain ⟨settled, hooked⟩ := (h.advanceClock ha).lasts_hooked time hooks
  generalize ht : ({ s with time := some time, journal := s.journal ++ warnings } : Scene) = t
    at ha settled hooked
  have tick := tick_eq_hooked hooks ha
  have same : ((t.opening time).hooked hooks).run.1.time = time :=
    (Outset.time_run _).trans (Outset.time_run (t.opening time))
  generalize hr : ((t.opening time).hooked hooks).run = r at tick same hooked
  obtain ⟨tally, u⟩ := r
  have clock : t.time = some tally.time := by rw [← ht, same]
  have journal : t.journal = s.journal ++ warnings := by rw [← ht]
  obtain ⟨js, hj, quiet⟩ := hooked.journal
  refine ⟨tally, _, tick, hooked.time.trans clock, ⟨t.opening time, ?_, pending_cascade_eq_nil ..,
    settled.time.trans clock, u, hr, ?_⟩, warnings, js, same ▸ runs, ?_, quiet⟩
  · rw [outsets_eq ha]
    split <;> rfl
  · rw [same]
  · change u.journal ++ _ = _
    rw [hj, journal, same]

theorem Coherent.ticked_of_ok (h : s.Coherent [] none)
    (ht : s.tick hooks requested = .ok (tally, s')) : Ticked s hooks requested tally s' := by
  rcases advanceClock_spec s requested with ⟨e, refused, -⟩ | ⟨time, warnings, runs, -⟩
  · cases ((tick_eq_error hooks).mpr refused).symm.trans ht
  · obtain ⟨tally', t, tick, ticked⟩ := h.ticked hooks runs
    cases tick.symm.trans ht
    exact ticked

/-- The time of the operation if it is a tick that is not refused. -/
def tickTime? (s : Scene) : Operation → Option Double
  | .tick hooks requested => (s.tick hooks requested).toOption.map fun a ↦ a.1.time
  | _ => none

def tickTimes (os : List (Operation × Scene)) : List Double :=
  os.filterMap fun o ↦ o.2.tickTime? o.1

theorem Coherent.time_run (h : s.Coherent [] none) {op : Operation}
    (ht : ∀ hooks requested, op ≠ .tick hooks requested) : (op.run s).time = s.time := by
  by_cases hc : ∃ id index, op = .checkChanged id index
  · obtain ⟨id, index, rfl⟩ := hc
    rw [Operation.run_checkChanged]
    exact (Lasts.modifyNode ..).time
  by_cases hj : op = .takeJournal
  · rw [hj]
    rfl
  · exact (h.touches op (fun id index he ↦ hc ⟨id, index, he⟩) hj ht).lasts.time

theorem tickTimes_concat (os : List (Operation × Scene)) (op : Operation) (s : Scene) :
    tickTimes (os ++ [(op, s)]) = tickTimes os ++ (s.tickTime? op).toList := by
  rw [tickTimes, List.filterMap_append]
  cases ht : s.tickTime? op <;> simp [tickTimes, ht]

theorem Coherent.paced_run {times : List Double} (h : s.Coherent [] none)
    (paced : Paced times s.time) (op : Operation) :
    Paced (times ++ (s.tickTime? op).toList) (op.run s).time := by
  by_cases ht : ∃ hooks requested, op = .tick hooks requested
  · obtain ⟨hooks, requested, rfl⟩ := ht
    cases tick : s.tick hooks requested with
    | error e =>
      have refused : s.tickTime? (.tick hooks requested) = none := by
        rw [tickTime?, tick]
        rfl
      rw [refused, Operation.run, tick]
      exact (List.append_nil _).symm ▸ paced
    | ok a =>
      obtain ⟨tally, s'⟩ := a
      have timed : s.tickTime? (.tick hooks requested) = some tally.time := by
        rw [tickTime?, tick]
        rfl
      have ticked := h.ticked_of_ok tick
      have clock : ((Operation.tick hooks requested).run s).time = some tally.time := by
        rw [Operation.run, tick]
        exact ticked.clock
      obtain ⟨warnings, js, runs, -⟩ := ticked.journal
      have finite previous (hp : s.time = some previous) : previous.isFinite :=
        paced.finite previous (List.mem_of_getLast? (paced.last.symm.trans hp))
      obtain ⟨finite, later⟩ := runs.le finite
      rw [timed, clock]
      exact paced.tick finite later
  · have still : s.tickTime? op = none := by
      cases op with
      | tick hooks requested => exact absurd ⟨hooks, requested, rfl⟩ ht
      | _ => rfl
    rw [still, h.time_run fun hooks requested he ↦ ht ⟨hooks, requested, he⟩]
    exact (List.append_nil _).symm ▸ paced

theorem Story.paced (h : Story os s) : Paced (tickTimes os) s.time := by
  induction h with
  | new _ h =>
    obtain ⟨⟨⟩, -, h⟩ := bind_eq_ok.mp h
    cases h
    exact ⟨rfl, List.forall_mem_nil _, .nil⟩
  | @next os s h op ih =>
    rw [tickTimes_concat]
    exact h.coherent.paced_run ih op

end Scene

namespace Session

/-- What the hooks do in the next tick. -/
def programs (σ : Session) : List HookProgram := σ.hooks.map fun h ↦ h.program h.calls

theorem tick_eq (σ : Session) (requested : Double) : σ.tick requested =
    (σ.scene.tick σ.programs requested).map fun a ↦
      (a.1, ⟨a.2, σ.hooks.map fun h ↦ { h with calls := h.calls + 1 }⟩) := by
  unfold Session.tick programs
  cases σ.scene.tick (σ.hooks.map fun h ↦ h.program h.calls) requested <;> rfl

/-- A tick is refused for its time alone, and then nothing is done. Otherwise it runs, at its time,
and calls each hook once. Over the ticks of a story the clock is finite and never goes back. -/
theorem clocked {os : List (Operation × Scene)} {σ : Session} (h : Scene.Story os σ.scene)
    (requested : Double) :
    (∀ e, σ.tick requested = .error e ↔ σ.scene.Refused requested e) ∧
    (∀ e, σ.tick requested = .error e →
      (Operation.tick σ.programs requested).run σ.scene = σ.scene) ∧
    ((∀ e, ¬σ.scene.Refused requested e) → ∃ tally σ', σ.tick requested = .ok (tally, σ') ∧
      σ'.hooks = (σ.hooks.map fun h ↦ { h with calls := h.calls + 1 }) ∧
      Scene.Ticked σ.scene σ.programs requested tally σ'.scene) ∧
    Paced (Scene.tickTimes os) σ.scene.time := by
  have failed e : σ.tick requested = .error e ↔ σ.scene.Refused requested e := by
    rw [tick_eq, ← Scene.tick_eq_error σ.programs]
    cases σ.scene.tick σ.programs requested <;> simp [Except.map]
  refine ⟨failed, fun e he ↦ ?_, fun hr ↦ ?_, h.paced⟩
  · have refused := (failed e).mp he
    rw [Operation.run, (Scene.tick_eq_error σ.programs).mpr refused]
    rfl
  · rcases Scene.advanceClock_spec σ.scene requested with ⟨e, refused, -⟩ | ⟨_, _, runs, -⟩
    · exact absurd refused (hr e)
    · obtain ⟨tally, s', tick, ticked⟩ := h.coherent.ticked σ.programs runs
      refine ⟨tally, ⟨s', σ.hooks.map fun h ↦ { h with calls := h.calls + 1 }⟩, ?_, rfl, ticked⟩
      rw [tick_eq, tick]
      rfl

/-- A tick took place at one, and there is a hook. -/
def late : Session where
  scene := [.tick [] 1].foldl Operation.run (Scene.start .empty { rejectRegression := false })
  hooks := [{ program := fun _ ↦ .note "late" .done }]

theorem clocked_late : ∃ tally σ', late.tick 0 = .ok (tally, σ') ∧ tally.time = 1 ∧
    σ'.scene.time = some 1 ∧ σ'.hooks.map Hook.calls = [1] ∧
    (∃ js, σ'.scene.journal = late.scene.journal ++ [Scene.clampWarning 0 1] ++ js ++
      [.event (.tickFinished 1 tally.fired)] ∧ ∀ e ∈ js, ¬Scene.Framing e) ∧
    ∃ e, late.tick (.infinity false) = .error e := by
  have time : late.scene.time = some 1 := by cbv
  have lenient : late.scene.settings.rejectRegression = false := by cbv
  have made : Scene.new .empty { rejectRegression := false } =
    .ok (Scene.start .empty { rejectRegression := false }) := rfl
  have story := (Scene.Story.new (List.forall_mem_nil _) made).trail [.tick [] 1]
  have timed (requested : Double) := @clocked _ late story requested
  obtain ⟨failed, -, -, -⟩ := timed (.infinity false)
  obtain ⟨-, -, passed, paced⟩ := timed 0
  have early : (0 : Double) < 1 := by decide +kernel
  have allowed : ∀ e, ¬late.scene.Refused 0 e := by
    rintro e (h | ⟨-, -, -, strict⟩)
    · exact absurd h (by decide +kernel)
    · cases lenient.symm.trans strict
  obtain ⟨tally, σ', tick, hooks, ticked⟩ := passed allowed
  obtain ⟨warnings, js, runs, journal, quiet⟩ := ticked.journal
  have clock := ticked.clock
  generalize hr : tally.time = now at runs journal clock
  cases runs with
  | onward _ h => exact absurd early (h 1 time)
  | clamped _ ht =>
    cases time.symm.trans ht
    exact ⟨tally, σ', tick, hr, clock, by rw [hooks]; rfl, ⟨js, journal, quiet⟩, _,
      (failed _).mpr (.infinite (by decide +kernel))⟩

end Session

end SceneGraph
