import SceneGraph.Proofs.Firing

namespace SceneGraph

namespace Course

/-- The firings that did not deliver, each with the scene it was made in. -/
def failures (c : Course) : List (Route × Scene) := c.filterMap fun m ↦
  m.1.fired?.bind fun r ↦ if (m.2.fire r).1 then none else some (r, m.2)

theorem mem_failures {c : Course} {r : Route} {s : Scene} :
    (r, s) ∈ c.failures ↔ (.fire r, s) ∈ c ∧ (s.fire r).1 = false := by
  unfold failures
  rw [List.mem_filterMap]
  constructor
  · rintro ⟨⟨m, t⟩, hm, h⟩
    cases m with
    | take | skip => cases h
    | fire q =>
      change (if (t.fire q).1 then none else some (q, t)) = some (r, s) at h
      split at h
      · cases h
      · next hf =>
        cases h
        exact ⟨hm, Bool.eq_false_iff.mpr hf⟩
  · rintro ⟨hm, hf⟩
    exact ⟨_, hm, by simp [Move.fired?, hf]⟩

end Course

namespace Scene

variable {s s' : Scene} {guest : Option SpaceId} {limit : Nat} {waiting fired : List Route}
  {t : Tally} {r : Route} {hooks : List HookProgram} {requested : Double}

theorem course_fire (hr : r ∉ fired) (hl : t.fired < limit) :
    course limit (r :: waiting) fired t s =
      (.fire r, s) :: course limit waiting (r :: fired) (t.count (s.fire r).1) (s.fire r).2 := by
  rw [course, if_neg hr, if_neg (Nat.not_le.mpr hl)]

/-- A cascade counts the firings that did not deliver, also one that is cut short. -/
theorem errors_cascade (limit : Nat) (waiting fired : List Route) (t : Tally) (s : Scene) :
    (cascade limit waiting fired t s).1.errors =
      t.errors + (course limit waiting fired t s).failures.length := by
  induction waiting, fired, t, s using course.induct limit with
  | case1 fired t s r waiting hr ih =>
    rw [cascade, if_pos hr, course, if_pos hr]
    exact ih
  | case2 fired t s r waiting hr hl =>
    rw [cascade, if_neg hr, if_pos hl, course, if_neg hr, if_pos hl]
    rfl
  | case3 fired t s r waiting hr hl ih =>
    rw [cascade, if_neg hr, if_neg hl, course_fire hr (Nat.not_le.mp hl)]
    refine ih.trans ?_
    rw [Course.failures, Course.failures, List.filterMap_cons]
    cases hf : (s.fire r).1 with
    | true => simp [Move.fired?, Tally.count, hf]
    | false => simp [Move.fired?, Tally.count, hf, Nat.add_assoc, Nat.add_comm 1]
  | case4 fired t s hp =>
    rw [cascade_settled hp, course_settled hp]
    rfl
  | case5 fired t s id field pending hp ih =>
    rw [cascade_take hp, course_take hp]
    exact ih

/-- Whatever fires is a route of a live space at that moment. -/
theorem course_delivers (h : s.Coherent [] guest) (hw : s.Holds waiting) :
    ∀ m ∈ course limit waiting fired t s, ∀ r, m.1 = .fire r → m.2.Delivers r := by
  induction waiting, fired, t, s using course.induct limit with
  | case1 fired t s r waiting hr ih =>
    obtain ⟨sp, x, hx, hm⟩ := hw
    rw [course, if_pos hr]
    exact List.forall_mem_cons.mpr
      ⟨(fun _ he ↦ by cases he), ih h ⟨sp, x, hx, fun q hq ↦ hm q (List.mem_cons_of_mem _ hq)⟩⟩
  | case2 fired t s r waiting hr hl =>
    rw [course, if_neg hr, if_pos hl]
    exact List.forall_mem_nil _
  | case3 fired t s r waiting hr hl ih =>
    rw [course_fire hr (Nat.not_le.mp hl)]
    refine List.forall_mem_cons.mpr ⟨fun q he ↦ ?_, ih (Edited.fire h r).coherent (hw.fire h)⟩
    cases he
    obtain ⟨sp, x, hx, hm⟩ := hw
    exact Holds.delivers h
      ⟨sp, x, hx, fun q hq ↦ List.mem_singleton.mp hq ▸ hm r List.mem_cons_self⟩
  | case4 fired t s hp =>
    rw [course_settled hp]
    exact List.forall_mem_nil _
  | case5 fired t s id field pending hp ih =>
    rw [course_take hp]
    exact List.forall_mem_cons.mpr ⟨(fun _ he ↦ by cases he),
      ih (h.take hp) (h.holds_routesFor id field)⟩

/-- The firings of a tick that did not deliver. -/
def failures (s : Scene) (hooks : List HookProgram) (requested : Double) : List (Route × Scene) :=
  (s.outsets hooks requested).flatMap fun o ↦ o.course.failures

theorem errors_run (o : Outset) : o.run.1.errors = o.tally.errors + o.course.failures.length :=
  errors_cascade ..

theorem errors_tick (ht : s.tick hooks requested = .ok (t, s')) :
    t.errors = (s.failures hooks requested).length := by
  obtain ⟨o, hl, rfl, -⟩ := tick_eq_ok ht
  unfold failures
  unfold outsets at hl ⊢
  split at hl
  · cases hl
  dsimp only at hl ⊢
  split at hl
  · next hh =>
    rw [if_pos hh]
    rw [List.getLast?_singleton] at hl
    cases hl
    rw [errors_run, List.flatMap_singleton, Nat.zero_add]
  · next hh =>
    rw [if_neg hh]
    rw [List.getLast?_cons_cons, List.getLast?_singleton] at hl
    cases hl
    rw [errors_run, List.flatMap_cons, List.flatMap_singleton, List.length_append]
    exact congrArg (· + _) ((errors_run _).trans (Nat.zero_add _))

/-- The destination's own rules turned the value down. -/
def Refuses (s : Scene) (r : Route) : Prop :=
  ∃ n d v reason, s.node? r.dest = some n ∧ n.type.table.get? r.destField = some d ∧
    s.value r.source r.sourceField = .ok v ∧
    n.type.behavior.validate s.nodes.issued r.destField d v = .error reason ∧
    s.send r = .error (.value n.type.name d.name (.refused reason))

theorem Delivers.refuses (h : s.Delivers r) (hf : (s.fire r).1 = false) : s.Refuses r := by
  obtain ⟨v, hv, ⟨s', -, he⟩ | ⟨n, d, reason, hn, hd, hval, he⟩⟩ := h
  · rw [he] at hf
    cases hf
  · refine ⟨n, d, v, reason, hn, hd, hv, hval, ?_⟩
    unfold Scene.fire at he
    split at he
    · cases he
    · next e hs =>
      have hj := congrArg (fun a ↦ a.2.journal) he
      simp only [report, log, List.append_cancel_left_eq, List.cons.injEq, Entry.report.injEq,
        Report.mk.injEq, Option.some.injEq, true_and, and_true] at hj
      rw [hs, hj]

/-- A route that its space holds can be delivered at any time: both ends are nodes of the space,
and at most the rules of the destination turn a value down. A tick counts as errors the deliveries
that were turned down so, and nothing else. -/
theorem tick_refusals (h : s.Reachable) (ht : s.tick hooks requested = .ok (t, s')) :
    (∀ sp x r, s.space? sp = some x → r ∈ x.routes →
      (∃ n m, s.node? r.source = some n ∧ s.node? r.dest = some m ∧ n.space = sp ∧ m.space = sp) ∧
        s.Fits r ∧ (s.Refuses r ∨ ∃ s', s.send r = .ok s')) ∧
      t.errors = (s.failures hooks requested).length ∧
      ∀ r σ, (r, σ) ∈ s.failures hooks requested → σ.Refuses r := by
  have hc := h.coherent
  refine ⟨fun sp x r hx hr ↦ ⟨?_, (hc.wired hx).fits r hr, ?_⟩, errors_tick ht, fun r σ hm ↦ ?_⟩
  · obtain ⟨hs, hd⟩ := (hc.wired hx).ends r hr
    obtain ⟨n, hn, hns⟩ := hc.housed.lodged hx hs
    obtain ⟨m, hm, hms⟩ := hc.housed.lodged hx hd
    exact ⟨n, m, hn, hm, hns, hms⟩
  · have hd : s.Delivers r :=
      Holds.delivers hc ⟨sp, x, hx, fun q hq ↦ List.mem_singleton.mp hq ▸ hr⟩
    cases hf : (s.fire r).1 with
    | false => exact .inl (hd.refuses hf)
    | true =>
      unfold Scene.fire at hf
      split at hf
      · next s' he => exact .inr ⟨s', he⟩
      · cases hf
  · obtain ⟨o, ho, hm⟩ := List.mem_flatMap.mp hm
    obtain ⟨hm, hf⟩ := Course.mem_failures.mp hm
    have hs := hc.outsets o ho
    exact (course_delivers hs hs.holds_nil _ hm r rfl).refuses hf

/-- A cell with a second field that never takes the value true. -/
def valve : NodeType :=
  ⟨"Cell", ⟨[⟨.exposed, .single .bool, "value", .bool false⟩,
    ⟨.exposed, .single .bool, "vent", .bool false⟩]⟩, [], .bytes,
    { validate := fun
      | _, 1, _, .bool true => .error "the vent stays shut"
      | _, _, _, _ => .ok () }⟩

theorem built_valve : valve.Built :=
  ⟨(((Blueprint.of "Cell" []).exposed "value" (.single .bool) (.bool false)).exposed "vent"
    (.single .bool) (.bool false)).withBehavior valve.behavior, rfl⟩

def vent : Route := ⟨.issued 0, 0, .issued 0, 1⟩

/-- A valve with a route from its value to its vent. -/
def piped : Scene :=
  let s := (start ⟨[valve]⟩ {}).addCell.startCell 0
  s.after ((s.addRoute vent).map Prod.snd)

theorem reachable_piped : piped.Reachable := by
  have built : ∀ t ∈ [valve], t.Built := by simpa using built_valve
  have made : Scene.new ⟨[valve]⟩ {} = .ok (start ⟨[valve]⟩ {}) := rfl
  have started : ((start ⟨[valve]⟩ {}).addCell.startCell 0).Reachable :=
    (Reachable.new built made).addCell.after fun _ hs ↦ .finishSetup hs
  exact started.after_snd fun _ _ hs ↦ .addRoute hs

def pressed : Scene := piped.after (piped.setValue (.issued 0) 0 (.bool true))

theorem exists_mem_failures_pressed : ∃ σ, (vent, σ) ∈ pressed.failures [] 0 := by
  let σ : Scene := { pressed with time := some 0 }
  have fired : (.fire vent, { σ with pending := [] }) ∈
      σ.course pressed.settings.cascadeSteps [] [] { time := 0 } := by
    have queued : σ.pending = [(.issued 0, 0)] := rfl
    have waiting : σ.routesFor (.issued 0) 0 = [vent] := rfl
    rw [course_take queued, waiting, course_fire List.not_mem_nil (by decide)]
    exact List.mem_cons_of_mem _ List.mem_cons_self
  have failed := Course.mem_failures.mpr ⟨fired, rfl⟩
  exact ⟨_, List.mem_flatMap.mpr ⟨⟨_, _, σ⟩, List.mem_singleton_self _, failed⟩⟩

theorem tick_refusals_pressed : ∃ t s' σ, pressed.Reachable ∧ pressed.tick [] 0 = .ok (t, s') ∧
    0 < t.errors ∧ (vent, σ) ∈ pressed.failures [] 0 ∧ σ.Refuses vent := by
  have reachable : pressed.Reachable := reachable_piped.after fun _ hs ↦ .setValue hs
  have ticked : ∃ t s', pressed.tick [] 0 = .ok (t, s') := ⟨_, _, rfl⟩
  obtain ⟨t, s', ht⟩ := ticked
  obtain ⟨σ, hm⟩ := exists_mem_failures_pressed
  obtain ⟨-, counted, refuses⟩ := tick_refusals reachable ht
  exact ⟨t, s', σ, reachable, ht, counted ▸ List.length_pos_of_mem hm, hm, refuses _ _ hm⟩

end Scene

end SceneGraph
