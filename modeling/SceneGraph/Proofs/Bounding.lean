import Mathlib
import SceneGraph.Proofs.Lasting
import SceneGraph.Proofs.Plain
import SceneGraph.Proofs.Refusing
import SceneGraph.Proofs.Replacing
import SceneGraph.Proofs.Routing

/-!
Cascades as runs of single moves: how long they can be and where they end.
-/

namespace SceneGraph

namespace Scene

variable {s s' : Scene} {guest : Option SpaceId} {r : Route} {l : Licence}

/-- The routes of all spaces, in the order of the spaces. -/
def routes (s : Scene) : List Route := (List.range s.spaces.issued).flatMap fun i ↦ s.routesOf ⟨i⟩

theorem mem_routes : r ∈ s.routes ↔ s.Carries r := by
  simp only [routes, List.mem_flatMap, List.mem_range, mem_routesOf]
  constructor
  · rintro ⟨i, -, x, hx, hr⟩
    exact ⟨⟨i⟩, x, hx, hr⟩
  · rintro ⟨sp, x, hx, hr⟩
    exact ⟨sp.number, number_lt_of_space? hx, x, hx, hr⟩

theorem routes_congr (h : s'.spaces = s.spaces) : s'.routes = s.routes := by
  simp only [routes, h, routesOf_congr h]

/-- Leave for the work of a cascade, which makes no routes. -/
def Licence.still : Licence where
  opens _ := False
  dequeues := True
  tends := False
  idles := False
  links _ := False

theorem Strokes.carries (h : Strokes l s s') (hl : ∀ sp, ¬l.links sp) (hr : s'.Carries r) :
    s.Carries r := by
  obtain ⟨sp, x, hx, hr⟩ := hr
  have kept := (h.rerouted.routes sp (hl sp)).subset (mem_routesOf.mpr ⟨x, hx, hr⟩)
  obtain ⟨y, hy, hr⟩ := mem_routesOf.mp kept
  exact ⟨sp, y, hy, hr⟩

theorem Holds.tail {waiting : List Route} (h : s.Holds (r :: waiting)) : s.Holds waiting := by
  obtain ⟨sp, x, hx, hm⟩ := h
  exact ⟨sp, x, hx, fun q hq ↦ hm q (List.mem_cons_of_mem _ hq)⟩

theorem Holds.carries {waiting : List Route} (h : s.Holds waiting) (hr : r ∈ waiting) :
    s.Carries r := by
  obtain ⟨sp, x, hx, hm⟩ := h
  exact ⟨sp, x, hx, hm r hr⟩

end Scene

/-- Where a cascade stands: the routes that wait to fire and those that fired, the tally of the tick
and the scene. -/
structure Stand where
  waiting : List Route
  fired : List Route
  tally : Tally
  scene : Scene

namespace Stand

/-- One move of a cascade. -/
inductive Advances (limit : Nat) : Move → Stand → Stand → Prop
  | take {fired t s id field pending} (hp : s.pending = (id, field) :: pending) :
      Advances limit (.take id field) ⟨[], fired, t, s⟩
        ⟨s.routesFor id field, fired, t, { s with pending }⟩
  | skip {r waiting fired t s} (hr : r ∈ fired) :
      Advances limit (.skip r) ⟨r :: waiting, fired, t, s⟩
        ⟨waiting, fired, { t with loops := t.loops + 1 }, s⟩
  | fire {r waiting fired t s} (hr : r ∉ fired) (hl : t.fired < limit) :
      Advances limit (.fire r) ⟨r :: waiting, fired, t, s⟩
        ⟨waiting, r :: fired, t.count (s.fire r).1, (s.fire r).2⟩

/-- The moves lead from one stand to another. -/
inductive Leads (limit : Nat) : Stand → Course → Stand → Prop
  | refl (a) : Leads limit a [] a
  | move {m a b c z} (h : Advances limit m a b) (h' : Leads limit b c z) :
      Leads limit a ((m, a.scene) :: c) z

variable {limit : Nat} {m : Move} {a b z : Stand} {c : Course} {guest : Option SpaceId}

section finite

/-- How far a cascade may still go: by firings, then by changes to take, then by routes to pass. -/
def rest (limit : Nat) (a : Stand) : Nat ×ₗ Nat ×ₗ Nat :=
  toLex (limit - a.tally.fired, toLex (a.scene.pending.length, a.waiting.length))

theorem Advances.rest_lt (h : Advances limit m a b) : b.rest limit < a.rest limit := by
  cases h with
  | take hp =>
    refine Prod.Lex.toLex_lt_toLex.mpr (.inr ⟨rfl, Prod.Lex.toLex_lt_toLex.mpr (.inl ?_)⟩)
    rw [hp]
    exact Nat.lt_succ_self _
  | skip hr =>
    refine Prod.Lex.toLex_lt_toLex.mpr (.inr ⟨rfl, ?_⟩)
    exact Prod.Lex.toLex_lt_toLex.mpr (.inr ⟨rfl, Nat.lt_succ_self _⟩)
  | fire hr hl =>
    refine Prod.Lex.toLex_lt_toLex.mpr (.inl ?_)
    exact Nat.sub_lt_sub_left hl (Nat.lt_succ_self _)

/-- No cascade goes on forever. -/
theorem not_forever (limit : Nat) (f : Nat → Stand) :
    ∃ n, ∀ m, ¬Advances limit m (f n) (f (n + 1)) := by
  obtain ⟨n, hn⟩ := WellFounded.not_rel_apply_succ (r := (· < ·)) fun n ↦ (f n).rest limit
  exact ⟨n, fun m h ↦ hn h.rest_lt⟩

end finite

section ending

def course (limit : Nat) (a : Stand) : Course :=
  Scene.course limit a.waiting a.fired a.tally a.scene

def run (limit : Nat) (a : Stand) : Tally × Scene :=
  Scene.cascade limit a.waiting a.fired a.tally a.scene

/-- A route is met that has not fired, when no more may fire. -/
def Cut (limit : Nat) (z : Stand) : Prop :=
  ∃ r waiting, z.waiting = r :: waiting ∧ r ∉ z.fired ∧ limit ≤ z.tally.fired

/-- The course of a cascade leads to a stand where it stops: nothing waits and nothing is queued, or
it is cut short. -/
structure Ends (limit : Nat) (a z : Stand) : Prop where
  leads : Leads limit a (a.course limit) z
  result : z.waiting = [] ∧ z.scene.pending = [] ∧ a.run limit = (z.tally, z.scene) ∨
    z.Cut limit ∧ a.run limit = z.scene.truncate z.tally

theorem exists_ends (limit : Nat) (a : Stand) : ∃ z, Ends limit a z := by
  obtain ⟨waiting, fired, t, s⟩ := a
  induction waiting, fired, t, s using Scene.course.induct limit with
  | case1 fired t s r waiting hr ih =>
    obtain ⟨z, leads, result⟩ := ih
    refine ⟨z, ?_, ?_⟩
    · rw [course, Scene.course, if_pos hr]
      exact .move (.skip hr) leads
    · rw [run, Scene.cascade, if_pos hr]
      exact result
  | case2 fired t s r waiting hr hl =>
    refine ⟨⟨r :: waiting, fired, t, s⟩, ?_, .inr ⟨⟨r, waiting, rfl, hr, hl⟩, ?_⟩⟩
    · rw [course, Scene.course, if_neg hr, if_pos hl]
      exact .refl _
    · rw [run, Scene.cascade, if_neg hr, if_pos hl]
  | case3 fired t s r waiting hr hl ih =>
    obtain ⟨z, leads, result⟩ := ih
    have below := Nat.not_le.mp hl
    refine ⟨z, ?_, ?_⟩
    · rw [course, Scene.course_fire hr below]
      exact .move (.fire hr below) leads
    · rw [run, Scene.cascade, if_neg hr, if_neg hl]
      exact result
  | case4 fired t s hp =>
    refine ⟨⟨[], fired, t, s⟩, ?_, .inl ⟨rfl, hp, Scene.cascade_settled hp⟩⟩
    rw [course, Scene.course_settled hp]
    exact .refl _
  | case5 fired t s id field pending hp ih =>
    obtain ⟨z, leads, result⟩ := ih
    refine ⟨z, ?_, ?_⟩
    · rw [course, Scene.course_take hp]
      exact .move (.take hp) leads
    · rw [run, Scene.cascade_take hp]
      exact result

end ending

namespace Leads

/-- The routes that fired are recorded, the last one first. -/
theorem fired_eq (h : Leads limit a c z) : z.fired = c.fired.reverse ++ a.fired := by
  induction h with
  | refl => rfl
  | move hm _ ih =>
    rw [ih]
    cases hm with
    | take => rw [Course.fired_take]
    | skip => rw [Course.fired_skip]
    | fire => simp

theorem tally_fired (h : Leads limit a c z) : z.tally.fired = a.tally.fired + c.fired.length := by
  induction h with
  | refl => rfl
  | move hm _ ih =>
    rw [ih]
    cases hm with
    | take => rw [Course.fired_take]
    | skip => rw [Course.fired_skip]
    | fire =>
      rw [Course.fired_fire, List.length_cons]
      exact Nat.succ_add_eq_add_succ ..

theorem tally_fired_le (h : Leads limit a c z) (ha : a.tally.fired ≤ limit) :
    z.tally.fired ≤ limit := by
  induction h with
  | refl => exact ha
  | move hm _ ih =>
    cases hm with
    | take | skip => exact ih ha
    | fire hr hl => exact ih hl

theorem nodup_fired (h : Leads limit a c z) (ha : a.fired.Nodup) : z.fired.Nodup := by
  induction h with
  | refl => exact ha
  | move hm _ ih =>
    cases hm with
    | take | skip => exact ih ha
    | fire hr => exact ih (List.nodup_cons.mpr ⟨hr, ha⟩)

theorem truncated_eq (h : Leads limit a c z) : z.tally.truncated = a.tally.truncated := by
  induction h with
  | refl => rfl
  | move hm _ ih =>
    rw [ih]
    cases hm <;> rfl

theorem loads_eq (h : Leads limit a c z) : z.tally.loads = a.tally.loads := by
  induction h with
  | refl => rfl
  | move hm _ ih =>
    rw [ih]
    cases hm <;> rfl

end Leads

namespace Ends

variable (h : Ends limit a z)

include h

theorem fired_eq : (a.run limit).1.fired = a.tally.fired + (a.course limit).fired.length := by
  rw [← h.leads.tally_fired]
  rcases h.result with ⟨-, -, he⟩ | ⟨-, he⟩ <;> rw [he]
  rfl

theorem fired_le (ha : a.tally.fired ≤ limit) : (a.run limit).1.fired ≤ limit := by
  rw [h.fired_eq, ← h.leads.tally_fired]
  exact h.leads.tally_fired_le ha

theorem loads_eq : (a.run limit).1.loads = a.tally.loads := by
  rw [← h.leads.loads_eq]
  rcases h.result with ⟨-, -, he⟩ | ⟨-, he⟩ <;> rw [he]
  rfl

theorem truncated_iff : (a.run limit).1.truncated = true ↔
    a.tally.truncated = true ∨ z.Cut limit := by
  rw [← h.leads.truncated_eq]
  rcases h.result with ⟨hw, -, he⟩ | ⟨hc, he⟩
  · rw [he]
    refine ⟨.inl, fun ht ↦ ht.resolve_right ?_⟩
    rintro ⟨r, waiting, hr, -⟩
    cases hw.symm.trans hr
  · rw [he]
    exact ⟨fun _ ↦ .inr hc, fun _ ↦ rfl⟩

end Ends

/-- All routes that fire were there when the cascade began. -/
theorem Leads.carries (h : Leads limit a c z) (ha : a.scene.Coherent [] guest)
    (hw : a.scene.Holds a.waiting) : ∀ r ∈ c.fired, a.scene.Carries r := by
  induction h with
  | refl => exact List.forall_mem_nil _
  | move hm _ ih =>
    cases hm with
    | take hp => exact ih (ha.take hp) (ha.holds_routesFor _ _)
    | skip hr => exact ih ha hw.tail
    | @fire r =>
      have later := ih (Scene.Edited.fire ha r).coherent (hw.fire ha)
      have fired : Scene.Strokes .still _ _ := (Scene.Touches.fire ha r).strokes
      refine List.forall_mem_cons.mpr ⟨hw.carries List.mem_cons_self, fun q hq ↦ ?_⟩
      exact fired.carries (fun _ ↦ id) (later q hq)

end Stand

namespace Outset

def stand (o : Outset) : Stand := ⟨[], [], o.tally, o.scene⟩

/-- The cascade of the hooks that run after another. -/
def hooked (o : Outset) (hooks : List HookProgram) : Outset :=
  ⟨o.limit, o.run.1, hooks.foldl Scene.runHook o.run.2⟩

theorem fired_of_ends {o : Outset} {z : Stand} (h : Stand.Ends o.limit o.stand z) :
    z.fired = o.course.fired.reverse :=
  h.leads.fired_eq.trans (List.append_nil _)

theorem nodup_fired (o : Outset) : o.course.fired.Nodup := by
  obtain ⟨z, h⟩ := Stand.exists_ends o.limit o.stand
  rw [← List.nodup_reverse, ← fired_of_ends h]
  exact h.leads.nodup_fired List.nodup_nil

theorem fired_run (o : Outset) : o.run.1.fired = o.tally.fired + o.course.fired.length := by
  obtain ⟨z, h⟩ := Stand.exists_ends o.limit o.stand
  exact h.fired_eq

theorem fired_run_le {o : Outset} (h : o.tally.fired ≤ o.limit) : o.run.1.fired ≤ o.limit := by
  obtain ⟨z, hz⟩ := Stand.exists_ends o.limit o.stand
  exact hz.fired_le h

theorem loads_run (o : Outset) : o.run.1.loads = o.tally.loads := by
  obtain ⟨z, h⟩ := Stand.exists_ends o.limit o.stand
  exact h.loads_eq

/-- The cascade meets a route that has not fired when the limit of firings is reached. -/
def Overrun (o : Outset) : Prop :=
  ∃ z r waiting, Stand.Ends o.limit o.stand z ∧ z.waiting = r :: waiting ∧
    r ∉ o.course.fired ∧ z.tally.fired = o.limit

theorem truncated_run_iff {o : Outset} (h : o.tally.fired ≤ o.limit) :
    o.run.1.truncated = true ↔ o.tally.truncated = true ∨ o.Overrun := by
  have cut {z : Stand} (hz : Stand.Ends o.limit o.stand z) : z.Cut o.limit ↔
      ∃ r waiting, z.waiting = r :: waiting ∧ r ∉ o.course.fired ∧ z.tally.fired = o.limit := by
    have below := hz.leads.tally_fired_le h
    refine exists_congr fun r ↦ exists_congr fun waiting ↦ and_congr_right fun _ ↦ ?_
    rw [fired_of_ends hz, List.mem_reverse]
    exact and_congr_right fun _ ↦
      ⟨fun hl ↦ Nat.le_antisymm below hl, fun he ↦ Nat.le_of_eq he.symm⟩
  obtain ⟨z, hz⟩ := Stand.exists_ends o.limit o.stand
  constructor
  · intro ht
    refine ((hz.truncated_iff).mp ht).imp_right fun hc ↦ ?_
    obtain ⟨r, waiting, hc⟩ := (cut hz).mp hc
    exact ⟨z, r, waiting, hz, hc⟩
  · rintro (ht | ⟨z', r, waiting, hz', hc⟩)
    · exact hz.truncated_iff.mpr (.inl ht)
    · exact hz'.truncated_iff.mpr (.inr ((cut hz').mpr ⟨r, waiting, hc⟩))

end Outset

namespace Scene

variable {s s' m : Scene} {hooks : List HookProgram} {requested time : Double} {t : Tally}
  {o : Outset} {r : Route}

/-- Where the first cascade of a tick begins, once the clock is set. -/
def opening (s : Scene) (time : Double) : Outset :=
  ⟨s.drainLoads.2.settings.cascadeSteps, { time, loads := s.drainLoads.1 },
    s.drainLoads.2.tickSensors⟩

theorem outsets_eq (ha : s.advanceClock requested = .ok (time, m)) :
    s.outsets hooks requested =
      if hooks.isEmpty then [m.opening time]
      else [m.opening time, (m.opening time).hooked hooks] := by
  unfold outsets
  rw [ha]
  rfl

theorem tick_eq (hooks : List HookProgram) (ha : s.advanceClock requested = .ok (time, m)) :
    s.tick hooks requested =
      let o := if hooks.isEmpty then m.opening time else (m.opening time).hooked hooks
      .ok (o.run.1, o.run.2.emit (.tickFinished time o.run.1.fired)) := by
  unfold tick
  rw [ha]
  cases hooks.isEmpty <;> rfl

theorem settings_advanceClock (ha : s.advanceClock requested = .ok (time, m)) :
    m.settings = s.settings := by
  rcases advanceClock_cases ha with ⟨text, rfl⟩ | rfl <;> rfl

theorem spaces_advanceClock (ha : s.advanceClock requested = .ok (time, m)) :
    m.spaces = s.spaces := by
  rcases advanceClock_cases ha with ⟨text, rfl⟩ | rfl <;> rfl

theorem limit_of_mem_outsets (h : s.Coherent [] none) (ho : o ∈ s.outsets hooks requested) :
    o.limit = s.settings.cascadeSteps := by
  cases ha : s.advanceClock requested with
  | error e =>
    unfold outsets at ho
    rw [ha] at ho
    cases ho
  | ok a =>
    obtain ⟨time, m⟩ := a
    have limit : (m.opening time).limit = s.settings.cascadeSteps :=
      congrArg Settings.cascadeSteps
        ((h.advanceClock ha).lasts_drainLoads.settings.trans (settings_advanceClock ha))
    rw [outsets_eq ha] at ho
    split at ho
    · rw [List.mem_singleton.mp ho, limit]
    · rcases List.mem_pair.mp ho with rfl | rfl <;> exact limit

/-- From the finished loads on a tick makes no routes. -/
theorem carries_of_outset (h : s.Coherent [] none) (ha : s.advanceClock requested = .ok (time, m))
    (ho : o ∈ s.outsets hooks requested) (hr : o.scene.Carries r) :
    m.drainLoads.2.Carries r := by
  have drained := (h.advanceClock ha).drainLoads
  have ticked : Strokes .still m.drainLoads.2 (m.opening time).scene :=
    (Touches.tickSensors drained).strokes
  rw [outsets_eq ha] at ho
  split at ho
  · cases List.mem_singleton.mp ho
    exact ticked.carries (fun _ ↦ id) hr
  · rcases List.mem_pair.mp ho with rfl | rfl
    · exact ticked.carries (fun _ ↦ id) hr
    · have first : Strokes .still (m.opening time).scene (m.opening time).run.2 :=
        (Touches.cascade drained.tickSensors trivial ..).strokes
      have hooked : Strokes .still (m.opening time).run.2 ((m.opening time).hooked hooks).scene :=
        (Touches.runHooks (drained.tickSensors.cascade ..) hooks).strokes
      have all : Strokes .still m.drainLoads.2 ((m.opening time).hooked hooks).scene :=
        (ticked.trans first).trans hooked
      exact all.carries (fun _ ↦ id) hr

/-- A cascade of a tick fires at most the routes that there are once the loads are applied. -/
theorem length_fired_le (h : s.Coherent [] none) (ha : s.advanceClock requested = .ok (time, m))
    (ho : o ∈ s.outsets hooks requested) :
    o.course.fired.length ≤ m.drainLoads.2.routes.length := by
  obtain ⟨z, hz⟩ := Stand.exists_ends o.limit o.stand
  have coherent := h.outsets o ho
  have carried : o.course.fired ⊆ m.drainLoads.2.routes := fun r hr ↦
    mem_routes.mpr (carries_of_outset h ha ho (hz.leads.carries coherent coherent.holds_nil r hr))
  exact (List.subperm_of_subset o.nodup_fired carried).length_le

theorem spaces_drainLoads (h : s.drainLoads.1 = 0) : s.drainLoads.2.spaces = s.spaces := by
  have late (cs : List Completion) (t : Scene) (ht : (applyCompletions cs t).1 = 0) :
      (applyCompletions cs t).2 = t := by
    induction cs with
    | nil => rfl
    | cons c cs ih =>
      rw [applyCompletions_cons] at ht ⊢
      split at ht
      · cases ht
      · next hc =>
        rw [if_neg hc]
        exact ih ht
  unfold drainLoads at h ⊢
  split at h
  · rfl
  · rw [late _ _ h]

/-- What a tick counts over its cascades. -/
structure Tallied (s : Scene) (hooks : List HookProgram) (requested : Double) (loads : Nat)
    (t : Tally) : Prop where
  fired : t.fired = ((s.outsets hooks requested).map fun o ↦ o.course.fired.length).sum
  within : t.fired ≤ s.settings.cascadeSteps
  loads : t.loads = loads
  truncated : t.truncated = true ↔ ∃ o ∈ s.outsets hooks requested, o.Overrun

theorem counted_tick (h : s.Coherent [] none) (ha : s.advanceClock requested = .ok (time, m))
    (ht : s.tick hooks requested = .ok (t, s')) :
    Tallied s hooks requested m.drainLoads.1 t := by
  have opened : m.opening time ∈ s.outsets hooks requested := by
    rw [outsets_eq ha]
    split <;> exact List.mem_cons_self
  have limit := limit_of_mem_outsets h opened
  have start : (m.opening time).tally.fired ≤ (m.opening time).limit := Nat.zero_le _
  have fired : (m.opening time).run.1.fired = (m.opening time).course.fired.length :=
    (Outset.fired_run _).trans (Nat.zero_add _)
  have within := Outset.fired_run_le start
  have cut : (m.opening time).run.1.truncated = true ↔ (m.opening time).Overrun := by
    rw [Outset.truncated_run_iff start]
    exact or_iff_right Bool.false_ne_true
  have loads := Outset.loads_run (m.opening time)
  have run := (tick_eq hooks ha).symm.trans ht
  cases hh : hooks.isEmpty with
  | true =>
    have alone : s.outsets hooks requested = [m.opening time] := by rw [outsets_eq ha, if_pos hh]
    simp only [hh, if_true] at run
    cases run
    constructor
    · rw [alone, fired, List.map_singleton, List.sum_singleton]
    · exact limit ▸ within
    · exact loads
    · rw [alone, cut]
      simp
  | false =>
    have both : s.outsets hooks requested = [m.opening time, (m.opening time).hooked hooks] := by
      rw [outsets_eq ha, if_neg (by simp [hh])]
    have hooked : ((m.opening time).hooked hooks).tally.fired ≤
        ((m.opening time).hooked hooks).limit := within
    simp only [hh, Bool.false_eq_true, if_false] at run
    cases run
    constructor
    · rw [both, Outset.fired_run, List.map_cons, List.map_singleton, List.sum_cons,
        List.sum_singleton, ← fired]
      rfl
    · exact limit ▸ Outset.fired_run_le hooked
    · exact (Outset.loads_run _).trans loads
    · rw [both, Outset.truncated_run_iff hooked]
      simp only [List.mem_pair, exists_eq_or_imp, exists_eq_left]
      exact or_congr_left cut

/-- Both cascades of a tick come to an end, whatever moves are made, and no route fires twice in one
of them. What is counted as fired is what the cascades fire. It is bounded by the settings and by
twice the routes that there are once the loads are applied. The tick is cut short just if a cascade
meets a route that has not fired in it after all the firings that the settings allow, and in any
case nothing stays queued. -/
theorem tick_bounded (h : s.Reachable) (ha : s.advanceClock requested = .ok (time, m)) :
    ∃ t s', s.tick hooks requested = .ok (t, s') ∧
      (∀ o ∈ s.outsets hooks requested,
        (∀ f : Nat → Stand, f 0 = o.stand →
          ∃ n, ∀ move, ¬Stand.Advances o.limit move (f n) (f (n + 1))) ∧
        (∃ z, Stand.Ends o.limit o.stand z) ∧ o.course.fired.Nodup) ∧
      t.fired = ((s.outsets hooks requested).map fun o ↦ o.course.fired.length).sum ∧
      t.fired ≤ s.settings.cascadeSteps ∧ t.fired ≤ 2 * m.drainLoads.2.routes.length ∧
      (t.loads = 0 → t.fired ≤ 2 * s.routes.length) ∧
      (t.truncated = true ↔ ∃ o ∈ s.outsets hooks requested, ∃ z r waiting,
        Stand.Ends o.limit o.stand z ∧ z.waiting = r :: waiting ∧ r ∉ o.course.fired ∧
          z.tally.fired = s.settings.cascadeSteps) ∧
      s'.pending = [] := by
  have ticked := tick_eq hooks ha
  have counted := counted_tick h.coherent ha ticked
  have twice : (((s.outsets hooks requested).map fun o ↦ o.course.fired.length)).sum ≤
      2 * m.drainLoads.2.routes.length := by
    refine (List.sum_le_card_nsmul _ m.drainLoads.2.routes.length fun k hk ↦ ?_).trans ?_
    · obtain ⟨o, ho, rfl⟩ := List.mem_map.mp hk
      exact length_fired_le h.coherent ha ho
    · rw [List.length_map, smul_eq_mul]
      exact Nat.mul_le_mul_right _ (length_outsets_le s hooks requested)
  rw [← counted.fired] at twice
  refine ⟨_, _, ticked, fun o _ ↦ ⟨fun f _ ↦ Stand.not_forever o.limit f,
    Stand.exists_ends .., o.nodup_fired⟩, counted.fired, counted.within, twice, fun hl ↦ ?_, ?_,
    pending_tick ticked⟩
  · have same : m.drainLoads.2.routes = s.routes := routes_congr
      ((spaces_drainLoads (counted.loads.symm.trans hl)).trans (spaces_advanceClock ha))
    exact same ▸ twice
  · rw [counted.truncated]
    refine exists_congr fun o ↦ and_congr_right fun ho ↦ ?_
    rw [Outset.Overrun, limit_of_mem_outsets h.coherent ho]

/-- The story of what is done in a new scene. -/
theorem story_start {catalog : Catalog} {settings : Settings}
    (built : ∀ t ∈ catalog.types, t.Built) (valid : settings.validate = .ok ())
    (ops : List Operation) : Story ((start catalog settings).trail ops)
      (ops.foldl Operation.run (start catalog settings)) := by
  have made : Scene.new catalog settings = .ok (start catalog settings) := by
    rw [Scene.new, valid]
    rfl
  exact (Story.new built made).trail ops

/-- Three cells, each with a route to the next, where a tick may fire once. -/
def brief : Scene :=
  [.createNode .main "Cell", .createNode .main "Cell", .createNode .main "Cell",
    .finishSetup (.issued 0), .finishSetup (.issued 1), .finishSetup (.issued 2),
    .addRoute ⟨.issued 0, 0, .issued 1, 0⟩, .addRoute ⟨.issued 1, 0, .issued 2, 0⟩,
    .setValue (.issued 0) 0 (.bool true)].foldl Operation.run (start ⟨[cell]⟩ { cascadeSteps := 1 })

theorem reachable_brief : brief.Reachable := by
  have built : ∀ t ∈ [cell], t.Built := by simpa using built_cell
  exact (story_start built rfl _).reachable

/-- The second route is met after the firing that is allowed. -/
theorem tick_bounded_brief : ∃ t s', brief.Reachable ∧ brief.tick [] 0 = .ok (t, s') ∧
    t.fired = 1 ∧ s'.pending = [] ∧ ∃ o ∈ brief.outsets [] 0, ∃ z r waiting,
      Stand.Ends o.limit o.stand z ∧ z.waiting = r :: waiting ∧ r ∉ o.course.fired ∧
        z.tally.fired = 1 := by
  have run : (brief.tick [] 0).toOption.map (fun a ↦ (a.1.fired, a.1.truncated)) =
      some (1, true) := by cbv
  have clock : ∃ a, brief.advanceClock 0 = .ok a := ⟨_, rfl⟩
  obtain ⟨⟨time, m⟩, ha⟩ := clock
  obtain ⟨t, s', ht, -, -, -, -, -, cut, empty⟩ := @tick_bounded _ _ [] _ _ reachable_brief ha
  rw [ht] at run
  obtain ⟨fired, truncated⟩ := Prod.mk.inj (Option.some.inj run)
  exact ⟨t, s', reachable_brief, ht, fired, empty, cut.mp truncated⟩

/-- A node type that sets a field as its setup ends. -/
def spark : NodeType :=
  ⟨"Spark", ⟨[⟨.exposed, .single .bool, "x", .bool false⟩,
    ⟨.exposed, .single .bool, "y", .bool false⟩, ⟨.exposed, .single .bool, "z", .bool false⟩]⟩, [],
    .bytes, { setupFinished := .publish "x" (.bool true) .done }⟩

theorem built_spark : spark.Built :=
  ⟨(((Blueprint.of "Spark" []).exposed "x" (.single .bool) (.bool false)).exposed "y"
    (.single .bool) (.bool false)).exposed "z" (.single .bool) (.bool false)
      |>.withBehavior spark.behavior, rfl⟩

/-- A node type whose content is a scene and can be switched off. -/
def panel : NodeType :=
  ⟨"Panel", ⟨Capability.loadable.fields ++ [⟨.exposed, .single .bool, "load", .bool true⟩]⟩,
    [.loadable], .scene, .passive⟩

theorem built_panel : panel.Built :=
  ⟨(Blueprint.of "Panel" []).withContent .scene
    |>.exposed "load" (.single .bool) (.bool true), rfl⟩

def sparks : Provider :=
  .ofEntries [("a", ("DEF A Spark\x7b\x7dDEF B Spark\x7b\x7d" ++
    "ROUTE A.x TO B.x ROUTE A.x TO B.y ROUTE A.x TO B.z").toUTF8)]

/-- The content of a panel has come. A change is queued that switches the panel off by way of two
routes. -/
def fed : Scene :=
  List.foldl Operation.run (start ⟨[cell, spark, panel]⟩ {})
    ([.setProvider sparks, .createNode .main "Cell", .createNode .main "Cell",
      .createNode .main "Panel", .setValue (.issued 2) 0 (.ofStrings ["a"]),
      .finishSetup (.issued 0), .finishSetup (.issued 1), .finishSetup (.issued 2),
      .addRoute ⟨.issued 0, 0, .issued 1, 0⟩, .addRoute ⟨.issued 1, 0, .issued 2, 1⟩] ++ takeOne ++
      [.setValue (.issued 0) 0 (.bool false)])

theorem reachable_fed : fed.Reachable := by
  have built : ∀ t ∈ [cell, spark, panel], t.Built := by
    simpa using ⟨built_cell, built_spark, built_panel⟩
  exact (story_start built rfl _).reachable

set_option maxRecDepth 4000 in
/-- The routes of a load that a tick applies may fire in that tick and be gone at its end. -/
theorem fired_fed : ¬∀ (s s' : Scene) (hooks : List HookProgram) (requested : Double) (t : Tally),
    s.Reachable → s.tick hooks requested = .ok (t, s') →
      t.fired ≤ 2 * s.routes.length ∨ t.fired ≤ 2 * s'.routes.length := by
  intro bounded
  have run : (fed.tick [] 0).toOption.map
      (fun a ↦ (a.1.fired, fed.routes.length, a.2.routes.length)) = some (5, 2, 2) := by cbv
  obtain ⟨⟨t, s'⟩, ht, he⟩ := Option.map_eq_some_iff.mp run
  simp only [Prod.mk.injEq] at he
  obtain ⟨fired, before, after⟩ := he
  have := bounded fed s' [] 0 t reachable_fed (eq_ok_of_toOption ht)
  omega

end Scene

end SceneGraph
