import SceneGraph.Proofs.Clocking
import SceneGraph.Proofs.Overhearing
import SceneGraph.Proofs.Timekeeping

/-!
The announcements of time sensors.

A sensor announces its activity only when that changes, and nobody else writes it. So those who
listen hear first that the sensor is active, and then the opposite of what they heard before.
-/

namespace SceneGraph

/-- TRUE comes first, and each value is the opposite of the one before. -/
def Alternating (vs : List (Option Value)) : Prop :=
  ∀ i (v : Option Value), vs[i]? = some v → v = some (.bool (i % 2 = 0))

/-- What was aired of a field alternates, and the field holds the last of it, or FALSE. -/
structure Alternates (vs : List (Option Value)) (held : Option Value) : Prop where
  aired : Alternating vs
  held : held = some (.bool (vs.length % 2 = 1))

namespace Alternates

variable {vs : List (Option Value)} {b : Bool}

theorem nil : Alternates [] (some (.bool false)) := ⟨nofun, rfl⟩

theorem flip (h : Alternates vs (some (.bool b))) :
    Alternates (vs ++ [some (.bool !b)]) (some (.bool !b)) := by
  obtain ⟨aired, held⟩ := h
  cases held
  have turn : (!decide (vs.length % 2 = 1)) = decide (vs.length % 2 = 0) := by
    rcases Nat.mod_two_eq_zero_or_one vs.length with h | h <;> rw [h] <;> rfl
  have next : decide ((vs.length + 1) % 2 = 1) = decide (vs.length % 2 = 0) :=
    decide_eq_decide.mpr (by omega)
  refine ⟨fun i v hv ↦ ?_, ?_⟩
  · rw [List.getElem?_append] at hv
    split at hv
    · exact aired i v hv
    next last =>
    obtain ⟨inside, rfl⟩ := List.getElem?_eq_some_iff.mp hv
    have same : i = vs.length := by
      rw [List.length_singleton] at inside
      omega
    subst same
    simp [turn]
  · rw [List.length_append, List.length_singleton, next, turn]

end Alternates

namespace Scene

open Standard.TimeSensor

variable {s s' t u : Scene} {id : NodeId} {n m : Node} {js : List Port} {was : Bool}
  {us vs : List (Option Value)} {os : List (Operation × Scene)}

section sensing

/-- Every script leaves a sensor active or not, and announces that if it is news. -/
theorem Met.acts {script : Behavior → Script} (h : s.Met) (hn : s.node? id = some n)
    (sensor : n.IsTimeSensor) (isActive : n.values[2]? = some (.bool was)) (cued : Cued n script) :
    ∃ active, Acts was active (s.viewOf id n)
      ((script n.type.behavior).perform (s.viewOf id n)) := by
  cases cued with
  | tick => exact ⟨_, (h.acts_tick hn sensor isActive).1⟩
  | fieldChanged index =>
    obtain ⟨on, enabled⟩ := sensor.exists_bool (h.sound hn) (i := 1) rfl rfl
    exact ⟨_, sensor.fieldChanged s id enabled isActive index⟩
  | setupFinished =>
    rw [sensor.behavior]
    exact ⟨was, isActive, iff_of_false List.not_mem_nil fun h ↦ h rfl, fun _ _ _ ↦ rfl⟩

/-- No pass makes a sensor active that is being set up. -/
theorem Met.inactive (h : s.Met) (hn : s.node? id = some n) (sensor : n.IsTimeSensor)
    (hi : n.inSetup = true) : n.values[2]? = some (.bool false) := by
  refine (h.forall_nodes (P := fun _ n ↦ n.IsTimeSensor → n.inSetup = true →
    n.values[2]? = some (.bool false)) (fun type _ _ _ sp place sensor _ ↦ ?_)
    (fun {t id n m} sound h ha sensor hi ↦ ?_) hn).2 sensor hi
  · exact Dormant.new type sp place sensor (.inl rfl)
  cases ha with
  | same | flagged | load => exact h sensor hi
  | stored ha =>
    have sensor : n.IsTimeSensor := sensor
    exact (List.getElem?_set_ne (sensor.index_ne ha)).trans (h sensor hi)
  | performed cued =>
    have before : n.IsTimeSensor := sensor
    cases cued with
    | tick out => cases out.symm.trans hi
    | fieldChanged index =>
      obtain ⟨on, enabled⟩ := before.exists_bool sound (i := 1) rfl rfl
      exact (before.fieldChanged t id enabled (h before hi) index).value
    | setupFinished =>
      have inactive := h before hi
      dsimp only
      rw [before.behavior]
      exact inactive
  | edited hc =>
    rw [Node.IsTimeSensor.type_eq (n := n) sensor] at hc
    cases hc
  | opened => cases hi

theorem aired_of_not_mem {k : Port} (h : k ∉ js) (vs : List (Option Value)) (v : Option Value) :
    vs ++ List.replicate (js.count k) v = vs := by
  rw [List.count_eq_zero_of_not_mem h, List.replicate_zero, List.append_nil]

namespace Beat

/-- A node never becomes one of another type. -/
theorem type (h : Beat js s s') (hn : s.node? id = some n) (hm : s'.node? id = some m) :
    m.type = n.type := by
  -- nobody writes a field that is not there
  have apart {d : Declaration} (hd : n.type.table.get? n.type.table.size = some d) : False :=
    Nat.lt_irrefl _ (FieldTable.lt_size_of_get? hd)
  cases h.overheard (id, n.type.table.size) with
  | silence unheard => exact unheard.type hn hm
  | @script n' script hn' =>
    cases hn.symm.trans hn'
    obtain ⟨flags, -, performed⟩ := Remade.perform hn script
    cases performed.self.symm.trans hm
    rfl
  | input hn' hd =>
    cases hn.symm.trans hn'
    exact (apart hd).elim

/-- The activity of a sensor is not heard of, or it changes. -/
theorem flips (h : Beat js s s') (hs : s.Met) (hn : s.node? id = some n) (sensor : n.IsTimeSensor)
    (isActive : n.values[2]? = some (.bool was)) : Unheard (id, 2) js s s' ∨
      js.count (id, 2) = 1 ∧ ∃ m, s'.node? id = some m ∧ m.values[2]? = some (.bool !was) := by
  have later : s'.Met := hs.passes (.single h.pass)
  cases h.overheard (id, 2) with
  | silence unheard => exact .inl unheard
  | input hn' hd access =>
    cases hn.symm.trans hn'
    rw [sensor.table] at hd
    cases hd
    exact absurd rfl access
  | @script n' script hn' cued hj =>
    cases hn.symm.trans hn'
    obtain ⟨active, acts⟩ := hs.acts hn sensor isActive cued
    obtain ⟨flags, -, performed⟩ := Remade.perform hn script
    have listed : (id, 2) ∈ js ↔ n.inSetup = false ∧ active ≠ was := by
      rw [hj, ← acts.news]
      cases n.inSetup <;> simp
    by_cases news : n.inSetup = false ∧ active ≠ was
    · refine .inr ⟨?_, _, performed.self, ?_⟩
      · have nodup := (Script.perform_faithful (script n.type.behavior) (v := s.viewOf id n)
          (hs.sound hn).values).nodup
        refine List.count_eq_one_of_mem ?_ (listed.mpr news)
        rw [hj, news.1]
        exact nodup.map (Prod.mk_right_injective id)
      · rw [acts.value, Bool.eq_not.mpr news.2]
    · refine .inl (.of_remade (mt listed.mp news) performed hn rfl fun _ ↦ ?_)
      -- neither before nor after it is a sensor active that is being set up
      have same : active = was := by
        by_contra changed
        have hi : n.inSetup = true := by simpa [changed] using news
        cases isActive.symm.trans (hs.inactive hn sensor hi)
        cases acts.value.symm.trans (later.inactive performed.self sensor hi)
        exact changed rfl
      rw [acts.value, same, isActive]

theorem alternates (h : Beat js s s') (hs : s.Met) (hn : s.node? id = some n)
    (sensor : n.IsTimeSensor) (before : Alternates vs n.values[2]?) :
    Alternating (vs ++ List.replicate (js.count (id, 2)) (s'.held? (id, 2))) ∧
      ∀ {m}, s'.node? id = some m →
        Alternates (vs ++ List.replicate (js.count (id, 2)) (s'.held? (id, 2))) m.values[2]? := by
  rcases h.flips hs hn sensor before.held with unheard | ⟨once, m, hm, flipped⟩
  · rw [aired_of_not_mem unheard.unsaid]
    exact ⟨before.aired, fun hm ↦ (unheard.value hn hm).symm ▸ before⟩
  · have held : s'.held? (id, 2) = m.values[2]? := by
      rw [held?, hm]
      rfl
    have after := (before.held ▸ before).flip
    rw [once, held, flipped]
    refine ⟨after.aired, fun hm' ↦ ?_⟩
    cases hm.symm.trans hm'
    exact flipped ▸ after

end Beat

end sensing

section airing

variable {catalog : Catalog} {settings : Settings}

/-- A sensor begins with nothing said. -/
theorem Airs.begun (built : ∀ t ∈ catalog.types, t.Built)
    (h : Airs (id, 2) (start catalog settings) vs s) (hn : s.node? id = some n)
    (sensor : n.IsTimeSensor) : Alternates vs n.values[2]? := by
  have met : (start catalog settings).Met := ⟨catalog, settings, built, .refl⟩
  refine (h.induction (w := []) (P := fun vs s ↦ (s.Fresh id → vs = []) ∧
    ∀ {n}, s.node? id = some n → n.IsTimeSensor → Alternates vs n.values[2]?) met
    ⟨fun _ ↦ rfl, fun hn ↦ by cases (node?_start ..).symm.trans hn⟩ ?_).2 hn sensor
  rintro vs js t u ht hb ⟨fresh, alternates⟩
  refine ⟨fun fresh' ↦ ?_, fun {m} hm sensor ↦ ?_⟩
  · have before := fresh'.of_issued hb.issued
    rw [aired_of_not_mem (hb.unsaid (k := (id, 2)) before.node?), fresh before]
  cases hn : t.node? id with
  | none =>
    rw [aired_of_not_mem (hb.unsaid (k := (id, 2)) hn), fresh (hb.fresh hn hm)]
    rcases hb.pass.altered hm with ⟨n, hn', -⟩ | ⟨-, type, -, sp, place, rfl⟩
    · cases hn.symm.trans hn'
    · rw [Dormant.new type sp place sensor (.inl rfl)]
      exact .nil
  | some n =>
    have sensor : n.IsTimeSensor := by rwa [Node.IsTimeSensor, ← hb.type hn hm]
    exact (hb.alternates ht hn sensor (alternates hn sensor)).2 hm

/-- What was said of a sensor goes on, and is not taken up again when it is removed. -/
theorem Airs.onward (hs : s.Met) (h : Airs (id, 2) s vs s') (hn : s.node? id = some n)
    (sensor : n.IsTimeSensor) (begun : Alternates us n.values[2]?) : Alternating (us ++ vs) := by
  refine (h.induction (P := fun vs s ↦ ¬s.Fresh id ∧ Alternating vs ∧
    ∀ {n}, s.node? id = some n → n.IsTimeSensor ∧ Alternates vs n.values[2]?) hs
    ⟨fun fresh ↦ ?_, begun.aired, fun hm ↦ ?_⟩ ?_).2.1
  · cases hn.symm.trans fresh.node?
  · cases hn.symm.trans hm
    exact ⟨sensor, begun⟩
  rintro vs js t u ht hb ⟨known, aired, alternates⟩
  refine ⟨fun fresh ↦ known (fresh.of_issued hb.issued), ?_⟩
  cases hn : t.node? id with
  | none =>
    rw [aired_of_not_mem (hb.unsaid (k := (id, 2)) hn)]
    exact ⟨aired, fun hm ↦ absurd (hb.fresh hn hm) known⟩
  | some n =>
    obtain ⟨sensor, before⟩ := alternates hn
    obtain ⟨aired, after⟩ := hb.alternates ht hn sensor before
    refine ⟨aired, fun {m} hm ↦ ⟨?_, after hm⟩⟩
    rwa [Node.IsTimeSensor, hb.type hn hm]

end airing

/-- In this scene a tick gives the sensor its turn, after those that come before it. -/
inductive Polls (s : Scene) (requested now : Double) (id : NodeId) : Scene → Prop
  | next {u earlier later} (ha : s.advanceClock requested = .ok (now, u))
      (hs : u.drainLoads.2.sensors = earlier ++ id :: later) :
      Polls s requested now id (earlier.foldl tickSensor u.drainLoads.2)

theorem Polls.passes {requested now : Double} (h : Polls s requested now id t)
    (hs : s.Coherent [] none) : Passes s t ∧ t.time = some now := by
  obtain @⟨u, earlier, later, ha, -⟩ := h
  rcases advanceClock_spec s requested with ⟨e, -, he⟩ | ⟨time, warnings, -, he⟩
  · cases ha.symm.trans he
  cases ha.symm.trans he
  have clock : Passes s { s with time := some now, journal := s.journal ++ warnings } :=
    .head (.clock s (some now)) (.single (.journal _ _))
  have polled : Touches _ _ (earlier.foldl tickSensor _) :=
    (hs.touches_drainLoads ha []).trans (Touches.tickEach (hs.advanceClock ha).drainLoads earlier)
  exact ⟨clock.trans polled.passes, polled.lasts.time⟩

/-- Right after its turn in a tick a sensor that is switched on is active just if its time has come
and it was not stopped and did not run out. A sensor that is switched off is not active. Its activity
flips whenever it is announced, so what is aired of it is TRUE first and then always the opposite of
the value before. -/
theorem Story.sensed (h : Story os s) :
    (∀ requested now id t n, Polls s requested now id t → t.node? id = some n →
      n.IsTimeSensor → n.inSetup = false → n.valueOf? "enabled" = some (.bool true) →
      ∃ m was active, Timed t id n now (t.tickSensor id) m was active) ∧
    (∀ t id n, Strides s t → t.node? id = some n → n.IsTimeSensor →
      n.valueOf? "enabled" = some (.bool false) →
      n.valueOf? "isActive" = some (.bool false)) ∧
    ∃ catalog settings, (∀ t ∈ catalog.types, t.Built) ∧
      (∀ k : Port, ∃ vs, Airs k (start catalog settings) vs s ∧
        vs.length = (os.flatMap sent).count k) ∧
      ∀ (id : NodeId) index us t n, Airs (id, index) (start catalog settings) us t →
        t.node? id = some n → n.IsTimeSensor → n.type.table.indexOf? "isActive" = some index →
        (∀ js u, Beat js t u → (id, index) ∈ js → js.count (id, index) = 1 ∧ ∃ b,
          t.held? (id, index) = some (.bool b) ∧ u.held? (id, index) = some (.bool !b)) ∧
        ∀ vs, Airs (id, index) t vs s → Alternating (us ++ vs) := by
  refine ⟨fun requested now id t n polls hn sensor out on ↦ ?_,
    fun t id n strides hn sensor off ↦ ?_, ?_⟩
  · obtain ⟨passes, time⟩ := polls.passes h.coherent
    rw [sensor.valueOf?_eq indexOf?_enabled] at on
    exact (h.met.passes passes).timed hn sensor out (sensor.isEnabled_eq on) time
  · rw [sensor.valueOf?_eq indexOf?_enabled] at off
    rw [sensor.valueOf?_eq indexOf?_isActive]
    exact restful_dormant.forall_nodes h.reachable strides hn sensor (.inr off)
  obtain ⟨catalog, settings, built, airs⟩ := h.exists_airs
  refine ⟨catalog, settings, built, airs, fun id index us t n before hn sensor hi ↦ ?_⟩
  cases (sensor.table ▸ hi).symm.trans indexOf?_isActive
  have met : t.Met := ⟨catalog, settings, built, before.passes⟩
  have begun := before.begun built hn sensor
  refine ⟨fun js u hb said ↦ ?_, fun vs after ↦ after.onward met hn sensor begun⟩
  rcases hb.flips met hn sensor begun.held with unheard | ⟨once, m, hm, flipped⟩
  · exact absurd said unheard.unsaid
  · exact ⟨once, _, by rw [held?, hn]; exact begun.held, by rw [held?, hm]; exact flipped⟩

/-- A tick in which no route is taken. -/
def pulse (s : Scene) (requested : Double) : Scene :=
  match s.outsets [] requested with
  | o :: _ => ({ o.scene with pending := [] } : Scene).emit (.tickFinished o.tally.time 0)
  | [] => s

theorem run_tick_unrouted {requested : Double}
    (h : ∀ o ∈ s.outsets [] requested, ∀ p ∈ o.scene.pending, o.scene.routesFor p.1 p.2 = []) :
    (Operation.tick [] requested).run s = s.pulse requested := by
  rw [Operation.run, Scene.tick, pulse]
  unfold outsets at h ⊢
  cases ha : s.advanceClock requested with
  | error => rfl
  | ok a =>
    obtain ⟨time, u⟩ := a
    rw [ha] at h
    have unrouted : ∀ p ∈ u.drainLoads.2.tickSensors.pending,
        u.drainLoads.2.tickSensors.routesFor p.1 p.2 = [] := h _ List.mem_cons_self
    simp only [bind, Except.bind, List.isEmpty_nil, if_true, cascade_unrouted unrouted]
    rfl

def pairing : List Operation :=
  [.createNode .main "TimeSensor", .createNode .main "TimeSensor", .finishSetup (.issued 0),
    .finishSetup (.issued 1)]

/-- There are two sensors. -/
def paired : Scene := pairing.foldl Operation.run (start ⟨[clock]⟩ {})

/-- The second of them is switched. -/
def switching (on : Bool) : Operation := .setValue (.issued 1) 1 (.bool on)

/-- Both sensors began, and the second was switched off and on again. -/
def blinked : Scene := [switching false, switching true].foldl Operation.run (paired.pulse 0)

/-- The second sensor began again, and was switched off again. -/
def quenched : Scene := [switching false].foldl Operation.run (blinked.pulse 0)

theorem run_tick_paired : (Operation.tick [] 0).run paired = paired.pulse 0 :=
  run_tick_unrouted (by decide +kernel)

theorem run_tick_blinked : (Operation.tick [] 0).run blinked = blinked.pulse 0 :=
  run_tick_unrouted (by decide +kernel)

theorem story_paired : Story ((start ⟨[clock]⟩ {}).trail pairing) paired := by
  have built : ∀ t ∈ [clock], t.Built := fun t ht ↦
    Standard.built_of_mem (standard_meshing t (by simp_all))
  have made : Scene.new ⟨[clock]⟩ {} = .ok (start ⟨[clock]⟩ {}) := rfl
  exact (Story.new built made).trail pairing

theorem story_blinked : Story (((start ⟨[clock]⟩ {}).trail pairing ++ [(.tick [] 0, paired)]) ++
    (paired.pulse 0).trail [switching false, switching true]) blinked := by
  have begun := story_paired.next (.tick [] 0)
  rw [run_tick_paired] at begun
  exact begun.trail [switching false, switching true]

/-- The second sensor is heard of four times. -/
theorem story_quenched :
    ∃ os, Story os quenched ∧ (os.flatMap sent).count (NodeId.issued 1, 2) = 4 := by
  have again := story_blinked.next (.tick [] 0)
  rw [run_tick_blinked] at again
  refine ⟨_, again.trail [switching false], ?_⟩
  have heard : (sent (.tick [] 0, paired)).count (NodeId.issued 1, 2) = 1 ∧
      (sent (.tick [] 0, blinked)).count (NodeId.issued 1, 2) = 1 := by
    rw [sent, sent, run_tick_paired, run_tick_blinked]
    decide +kernel
  simp only [List.flatMap_append, List.flatMap_singleton, List.count_append, heard]
  decide +kernel

theorem isTimeSensor_quenched (h : Passes quenched t) (hn : t.node? id = some n) :
    n.IsTimeSensor := by
  obtain ⟨os, story, -⟩ := story_quenched
  have first := story_paired.coherent.passes (.tick [] 0)
  have second := story_blinked.coherent.passes (.tick [] 0)
  rw [run_tick_paired] at first
  rw [run_tick_blinked] at second
  have begun : (paired.pulse 0).Coherent [] none :=
    run_tick_paired ▸ story_paired.coherent.run (.tick [] 0)
  have again : (blinked.pulse 0).Coherent [] none :=
    run_tick_blinked ▸ story_blinked.coherent.run (.tick [] 0)
  have onward : Passes paired quenched :=
    (first.trans (begun.passes_foldl [switching false, switching true])).trans
      (second.trans (again.passes_foldl [switching false]))
  have kept : t.catalog = ⟨[clock]⟩ := h.catalog.trans (onward.catalog.trans (by cbv))
  have known := (story.met.passes h).type_mem hn
  rw [kept, List.mem_singleton] at known
  rw [Node.IsTimeSensor, known]
  rfl

/-- The second sensor is off in the end, and in the next tick it is the turn of the first. -/
theorem sensed_quenched : ∃ os, Story os quenched ∧
    (∃ t n m was active, Polls quenched 4 4 (.issued 0) t ∧ t.node? (.issued 0) = some n ∧
      Timed t (.issued 0) n 4 (t.tickSensor (.issued 0)) m was active) ∧
    (∃ n, quenched.node? (.issued 1) = some n ∧ n.valueOf? "enabled" = some (.bool false) ∧
      n.valueOf? "isActive" = some (.bool false)) ∧
    ∃ catalog settings vs, Airs (.issued 1, 2) (start catalog settings) vs quenched ∧
      vs.length = 4 ∧ Alternating vs := by
  obtain ⟨os, story, heard⟩ := story_quenched
  obtain ⟨timed, off, catalog, settings, -, airs, alternating⟩ := Story.sensed story
  have poll : (quenched.advanceClock 4).toOption.map (fun a ↦ (a.1, a.2.drainLoads.2.sensors)) =
      some (4, [.issued 0, .issued 1]) := by decide +kernel
  have there : (quenched.advanceClock 4).toOption.bind (fun a ↦
      (a.2.drainLoads.2.node? (.issued 0)).map fun n ↦ (n.inSetup, n.valueOf? "enabled")) =
        some (false, some (.bool true)) := by decide +kernel
  have dark : (quenched.node? (.issued 1)).map (·.valueOf? "enabled") =
      some (some (.bool false)) := by decide +kernel
  obtain ⟨n, hn, switch⟩ := Option.map_eq_some_iff.mp dark
  have sensor : n.IsTimeSensor := isTimeSensor_quenched .refl hn
  refine ⟨os, story, ?_, ⟨n, hn, switch, off _ _ n .refl hn sensor switch⟩, ?_⟩
  · cases ha : quenched.advanceClock 4 with
    | error =>
      rw [ha] at poll
      cases poll
    | ok a =>
      obtain ⟨now, u⟩ := a
      rw [ha] at poll there
      obtain ⟨rfl, listed⟩ := Prod.mk.inj (Option.some.inj poll)
      obtain ⟨n, hn, ready⟩ := Option.map_eq_some_iff.mp there
      obtain ⟨out, on⟩ := Prod.mk.inj ready
      have polls : Polls quenched 4 _ (.issued 0) ([].foldl tickSensor u.drainLoads.2) :=
        .next ha listed
      have sensor := isTimeSensor_quenched (polls.passes story.coherent).1 hn
      obtain ⟨m, was, active, ticked⟩ := timed 4 _ _ _ n polls hn sensor out on
      exact ⟨_, n, m, was, active, polls, hn, ticked⟩
  · obtain ⟨vs, aired, length⟩ := airs (.issued 1, 2)
    obtain ⟨-, turns⟩ := alternating _ 2 vs _ n aired hn sensor (sensor.table ▸ indexOf?_isActive)
    exact ⟨catalog, settings, vs, aired, length.trans heard, by simpa using turns [] .refl⟩

end Scene

end SceneGraph
