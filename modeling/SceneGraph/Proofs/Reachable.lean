import SceneGraph.Proofs.Ticking

namespace SceneGraph

namespace Scene

/-- One operation on a scene, or one step of a loader beside it. An operation that fails without
effects is no step. -/
inductive Step : Scene → Scene → Prop
  | createSpace {s s' kind parent sp} (h : s.createSpace kind parent = .ok (sp, s')) : Step s s'
  | removeSpace {s s' sp} (h : s.removeSpace sp = .ok s') : Step s s'
  | createNode {s s' sp typeName id} (h : s.createNode sp typeName = .ok (id, s')) : Step s s'
  | finishSetup {s s' id} (h : s.finishSetup id = .ok s') : Step s s'
  | removeNode {s s' id} (h : s.removeNode id = .ok s') : Step s s'
  | collect {s s' sp ids} (h : s.collect sp = .ok (ids, s')) : Step s s'
  | setValue {s s' id index v} (h : s.setValue id index v = .ok s') : Step s s'
  | set {s s' id target v} (h : s.set id target v = .ok s') : Step s s'
  | setInts {s s' id index data count} (h : s.setInts id index data count = .ok s') : Step s s'
  | setFloats {s s' id index data count} (h : s.setFloats id index data count = .ok s') : Step s s'
  | setStrings {s s' id index data count} (h : s.setStrings id index data count = .ok s') :
      Step s s'
  | checkChanged {s s' id index b} (h : s.checkChanged id index = .ok (b, s')) : Step s s'
  | addRoot {s s' sp id b} (h : s.addRoot sp id = .ok (b, s')) : Step s s'
  | removeRoot {s s' sp id b} (h : s.removeRoot sp id = .ok (b, s')) : Step s s'
  | define {s s' sp name id} (h : s.define sp name id = .ok s') : Step s s'
  | addRoute {s s' r b} (h : s.addRoute r = .ok (b, s')) : Step s s'
  | addRouteIn {s s' sp r b} (h : s.addRouteIn sp r = .ok (b, s')) : Step s s'
  | addStatement {s s' sp statement b} (h : s.addStatement sp statement = .ok (b, s')) : Step s s'
  | removeRoute (s r) : Step s (s.removeRoute r).2
  | load (s sp text) : Step s (s.load sp text).2
  | setLoadState (s id state) : Step s (s.setLoadState id state).2
  | requestLoad (s id) : Step s (s.requestLoad id).2
  | cancelLoad (s id) : Step s (s.cancelLoad id).2
  | terminateLoads (s) : Step s s.terminateLoads.2
  | setProvider (s provider) : Step s (s.setProvider provider).2
  | tick {s s' hooks requested t} (h : s.tick hooks requested = .ok (t, s')) : Step s s'
  | takeJournal (s) : Step s s.takeJournal.2
  | poolTake {s p} (h : s.loader = some p) : Step s { s with loader := some p.take }
  | poolAdvance {s p} (h : s.loader = some p) (i : Nat) : Step s { s with
      loader := some (p.advance i s.held s.cache).1
      cache := (p.advance i s.held s.cache).2 }
  | useCache (s cache) : Step s { s with cache }

/-- A scene that operations led to from a new one. Types come out of blueprints. -/
inductive Reachable : Scene → Prop
  | new {catalog settings s} (built : ∀ t ∈ catalog.types, t.Built)
      (h : Scene.new catalog settings = .ok s) : Reachable s
  | step {s s'} : Reachable s → Step s s' → Reachable s'

variable {s s' : Scene}

theorem node?_start (catalog : Catalog) (settings : Settings) (id : NodeId) :
    (start catalog settings).node? id = none := by
  cases id <;> rfl

theorem space?_start {catalog : Catalog} {settings : Settings} {q : SpaceId} {x : Space}
    (hx : (start catalog settings).space? q = some x) :
    q = .main ∧ x = { kind := .scene, parent := none, owner := none } := by
  have hq : (start catalog settings).space? q = if q.number = 0 then
      some { kind := .scene, parent := none, owner := none } else none := by
    unfold start space?
    rw [Arena.get?_insert]
    rfl
  rw [hq] at hx
  split at hx
  · next hn =>
    cases q
    cases hn
    exact ⟨rfl, (Option.some.inj hx).symm⟩
  · cases hx

theorem coherent_start {catalog : Catalog} (built : ∀ t ∈ catalog.types, t.Built)
    (settings : Settings) : (start catalog settings).Coherent [] none where
  housed := {
    listed := fun {id _} hn ↦ by
      rw [node?_start] at hn
      cases hn
    lodged := fun hx hid ↦ by
      obtain ⟨-, rfl⟩ := space?_start hx
      cases hid
    evicted := nofun
    nodup := fun hx ↦ by
      obtain ⟨-, rfl⟩ := space?_start hx
      exact List.nodup_nil }
  rooted := {
    main := ⟨_, rfl, rfl, rfl⟩
    below := fun hx hm ↦ absurd (space?_start hx).1 hm
    child := fun hx hc ↦ by
      obtain ⟨-, rfl⟩ := space?_start hx
      cases hc
    nodup := fun hx ↦ by
      obtain ⟨-, rfl⟩ := space?_start hx
      exact List.nodup_nil }
  claimed := {
    owned := fun hx ho ↦ by
      obtain ⟨-, rfl⟩ := space?_start hx
      cases ho
    content := fun {id _ _} hn ↦ by
      rw [node?_start] at hn
      cases hn }
  tracked := {
    nodup := List.nodup_nil
    sensor := fun {id} ↦ ⟨nofun, fun ⟨n, hn, _⟩ ↦ by
      rw [node?_start] at hn
      cases hn⟩
    queued := nofun }
  wired := fun hx ↦ by
    obtain ⟨-, rfl⟩ := space?_start hx
    exact ⟨by simp, by simp, by simp, by simp, by simp, by simp, by simp, by simp⟩
  sound := fun {id _} hn ↦ by
    rw [node?_start] at hn
    cases hn
  catalog := built

theorem Coherent.step (h : s.Coherent [] none) (hs : Step s s') : s'.Coherent [] none := by
  cases hs with
  | createSpace hs => exact h.createSpace hs
  | removeSpace hs => exact h.removeSpace hs
  | createNode hs => exact h.createNode hs
  | finishSetup hs => exact (Edited.finishSetup h hs).coherent
  | removeNode hs => exact h.removeNode hs
  | collect hs => exact h.collect hs
  | setValue hs => exact (Edited.setValue h hs).coherent
  | set hs => exact h.set hs
  | setInts hs | setFloats hs | setStrings hs =>
    obtain ⟨a, -, hs⟩ := bind_eq_ok.mp hs
    exact (Edited.setValue h hs).coherent
  | checkChanged hs => exact h.checkChanged hs
  | addRoot hs => exact h.addRoot hs
  | removeRoot hs => exact h.removeRoot hs
  | define hs => exact h.define hs
  | addRoute hs => exact h.addRoute hs
  | addRouteIn hs => exact h.addRouteIn hs
  | addStatement hs => exact h.addStatement hs
  | removeRoute => exact h.removeRoute _
  | load => exact h.load ..
  | setLoadState => exact (Edited.setLoadState h _).coherent
  | requestLoad => exact (Edited.requestLoad h).coherent
  | cancelLoad => exact (Edited.setLoadState h _).coherent
  | terminateLoads =>
    unfold terminateLoads
    split
    · exact h
    · exact h.congr rfl rfl rfl rfl fun _ hp ↦ hp
  | setProvider => exact h.setProvider _
  | tick hs => exact h.tick hs
  | takeJournal => exact h.congr rfl rfl rfl rfl fun _ hp ↦ hp
  | poolTake => exact h.congr rfl rfl rfl rfl fun _ hp ↦ hp
  | poolAdvance => exact h.congr rfl rfl rfl rfl fun _ hp ↦ hp
  | useCache => exact h.congr rfl rfl rfl rfl fun _ hp ↦ hp

theorem Reachable.coherent (h : s.Reachable) : s.Coherent [] none := by
  induction h with
  | new built h =>
    obtain ⟨⟨⟩, -, h⟩ := bind_eq_ok.mp h
    cases h
    exact coherent_start built _
  | step _ hs ih => exact ih.step hs

/-- What the work of a worker keeps, the work of the loader keeps. -/
theorem work_induction {P : Scene → Prop} (h : P s)
    (take : ∀ s p, s.loader = some p → P s → P { s with loader := some p.take })
    (advance : ∀ s p, s.loader = some p → P s → P { s with
      loader := some (p.advance 0 s.held s.cache).1
      cache := (p.advance 0 s.held s.cache).2 }) (fetches : Bool) : P (s.work fetches) := by
  unfold Scene.work
  generalize (s.loader.map Pool.effort).getD 0 = effort
  induction effort with
  | zero => exact h
  | succ effort ih =>
    change P ((Nat.repeat (workStep fetches) effort s).workStep fetches)
    generalize Nat.repeat (workStep fetches) effort s = s at ih
    unfold Scene.workStep
    split
    · exact ih
    next p hp =>
    have same : { s with loader := some p, cache := s.cache } = s := by rw [← hp]
    cases hr : p.running with
    | nil =>
      simp only [Pool.stepFirst, hr]
      exact take s p hp ih
    | cons r rest =>
      simp only [Pool.stepFirst, hr]
      cases r.awaitsFetch && !fetches with
      | true => exact same ▸ ih
      | false => exact advance s p hp ih

theorem Reachable.work (h : s.Reachable) (fetches : Bool) : (s.work fetches).Reachable :=
  work_induction h (fun _ _ hp h ↦ h.step (.poolTake hp))
    (fun _ _ hp h ↦ h.step (.poolAdvance hp 0)) fetches

/-- The scene that an operation leads to; one that fails leaves it. -/
def after (s : Scene) (a : Except Error Scene) : Scene := a.toOption.getD s

theorem after_induction {P : Scene → Prop} {a : Except Error Scene} (h : P s)
    (ha : ∀ s', a = .ok s' → P s') : P (s.after a) := by
  cases a with
  | error => exact h
  | ok s' => exact ha s' rfl

theorem after_snd_induction {P : Scene → Prop} {α : Type} {a : Except Error (α × Scene)} (h : P s)
    (ha : ∀ b s', a = .ok (b, s') → P s') : P (s.after (a.map Prod.snd)) := by
  cases a with
  | error => exact h
  | ok r => exact ha r.1 r.2 rfl

theorem Reachable.after {a : Except Error Scene} (h : s.Reachable)
    (ha : ∀ s', a = .ok s' → Step s s') : (s.after a).Reachable :=
  after_induction h fun s' he ↦ h.step (ha s' he)

theorem Reachable.after_snd {α : Type} {a : Except Error (α × Scene)} (h : s.Reachable)
    (ha : ∀ b s', a = .ok (b, s') → Step s s') : (s.after (a.map Prod.snd)).Reachable :=
  after_snd_induction h fun b s' he ↦ h.step (ha b s' he)

theorem eq_ok_of_toOption {ε α : Type} {x : Except ε α} {a : α} (h : x.toOption = some a) :
    x = .ok a := by
  cases x with
  | error => cases h
  | ok => exact congrArg Except.ok (Option.some.inj h)

def IsBelow (s : Scene) (sp p : SpaceId) : Prop := ∃ x, s.space? sp = some x ∧ x.parent = some p

theorem Coherent.isBelow_main {guest : Option SpaceId} (h : s.Coherent [] guest) {sp : SpaceId}
    (hs : s.hasSpace sp) : Relation.ReflTransGen s.IsBelow sp .main := by
  obtain ⟨x, hx⟩ := hasSpace_iff.mp hs
  -- parents are older
  induction hn : sp.number using Nat.strongRecOn generalizing sp x with
  | _ n ih =>
    subst hn
    by_cases hm : sp = .main
    · rw [hm]
    · obtain ⟨p, hp, hlt, hd⟩ := h.rooted.below hx hm
      obtain ⟨y, hy, -⟩ := hd.resolve_left List.not_mem_nil
      exact .head ⟨x, hx, hp⟩ (ih p.number hlt (hasSpace_iff.mpr ⟨y, hy⟩) y hy rfl)

/-- Whatever was done to a scene, its tables agree. Nodes and spaces list each other; the spaces
form a tree below the main one; a space with an owner is the content of its owner; sensors are
listed once each, and what is queued are changes of fields of live nodes. -/
theorem Reachable.consistent (h : s.Reachable) :
    ((∀ id n, s.node? id = some n → ∃ x, s.space? n.space = some x ∧ id ∈ x.nodes) ∧
      ∀ sp x id, s.space? sp = some x → id ∈ x.nodes → ∃ n, s.node? id = some n ∧ n.space = sp) ∧
    ((∃ x, s.space? .main = some x ∧ x.parent = none) ∧
      (∀ sp x, s.space? sp = some x → sp ≠ .main →
        ∃ p y, x.parent = some p ∧ s.space? p = some y ∧ y.children.count sp = 1) ∧
      (∀ sp x c, s.space? sp = some x → c ∈ x.children →
        ∃ y, s.space? c = some y ∧ y.parent = some sp) ∧
      ∀ sp, s.hasSpace sp → Relation.ReflTransGen s.IsBelow sp .main) ∧
    (∀ sp x o, s.space? sp = some x → x.owner = some o →
      ∃ n, s.node? o = some n ∧ x.parent = some n.space ∧ n.contentSpace? = some sp) ∧
    ((∀ id n, s.node? id = some n → n.type.has .sensor → s.sensors.count id = 1) ∧
      (∀ id ∈ s.sensors, ∃ n, s.node? id = some n ∧ n.type.has .sensor) ∧
      ∀ id i, (id, i) ∈ s.pending → ∃ n, s.node? id = some n ∧ i < n.type.table.size) := by
  have hc := h.coherent
  refine ⟨⟨fun id n hn ↦ hc.home hn, fun sp x id hx hid ↦ hc.housed.lodged hx hid⟩,
    ⟨?_, ?_, fun sp x c hx hm ↦ hc.rooted.child hx hm, fun sp hs ↦ hc.isBelow_main hs⟩, ?_,
    ?_, fun id hid ↦ hc.tracked.sensor.mp hid, fun id i hp ↦ hc.tracked.queued hp⟩
  · obtain ⟨x, hx, hp, -⟩ := hc.rooted.main
    exact ⟨x, hx, hp⟩
  · intro sp x hx hm
    obtain ⟨p, hp, -, hd⟩ := hc.rooted.below hx hm
    obtain ⟨y, hy, hm⟩ := hd.resolve_left List.not_mem_nil
    exact ⟨p, y, hp, hy, List.count_eq_one_of_mem (hc.rooted.nodup hy) hm⟩
  · intro sp x o hx ho
    rcases hc.claimed.owned hx ho with hd | hg | hn
    · cases hd
    · cases hg
    · exact hn
  · intro id n hn ht
    exact List.count_eq_one_of_mem hc.tracked.nodup (hc.tracked.sensor.mpr ⟨n, hn, ht⟩)

def switch : NodeType :=
  ⟨"Switch", ⟨Capability.sensor.fields⟩, [.sensor], .bytes, .passive⟩

/-- A sensor in a space below the main one. -/
def switched : Scene := ((start ⟨[switch]⟩ {}).addSpace .scene .main none).addNode ⟨1⟩ switch

theorem reachable_switched : switched.Reachable := by
  have new : Scene.new ⟨[switch]⟩ {} = .ok (start ⟨[switch]⟩ {}) := rfl
  have built : ∀ t ∈ [switch], t.Built := by
    intro t ht
    cases List.mem_singleton.mp ht
    exact ⟨Blueprint.of "Switch" [.sensor], rfl⟩
  have opened : (start ⟨[switch]⟩ {}).createSpace .scene .main =
      .ok (⟨1⟩, (start ⟨[switch]⟩ {}).addSpace .scene .main none) :=
    openSpace_eq_ok.mpr ⟨_, rfl, rfl, rfl⟩
  have made : ((start ⟨[switch]⟩ {}).addSpace .scene .main none).createNode ⟨1⟩ "Switch" =
      .ok (.issued 0, switched) :=
    createNode_eq_ok.mpr ⟨_, _, rfl, rfl, rfl, rfl⟩
  exact ((Reachable.new built new).step (.createSpace opened)).step (.createNode made)

theorem consistent_switched : switched.hasNode (.issued 0) ∧
    switched.sensors.count (.issued 0) = 1 ∧
    (∃ x, switched.space? ⟨1⟩ = some x ∧ .issued 0 ∈ x.nodes) ∧
    ∃ p y, switched.space? p = some y ∧ y.children.count ⟨1⟩ = 1 := by
  obtain ⟨⟨listed, -⟩, ⟨-, below, -⟩, -, once, -⟩ := reachable_switched.consistent
  refine ⟨rfl, once _ _ rfl rfl, listed (.issued 0) _ rfl, ?_⟩
  obtain ⟨p, y, -, hy, hc⟩ := below ⟨1⟩ _ rfl nofun
  exact ⟨p, y, hy, hc⟩

end Scene

end SceneGraph
