import SceneGraph.Proofs.Firing

namespace SceneGraph

/-- The field at `k.2` of the node `k.1`. -/
abbrev Port := NodeId × Nat

namespace Route

def origin (r : Route) : Port := (r.source, r.sourceField)

def target (r : Route) : Port := (r.dest, r.destField)

end Route

/-- A node out of setup whose changes nothing reacts to. -/
structure Node.Plain (n : Node) : Prop where
  passive : n.type.behavior = .passive
  childless : ¬n.type.has .children
  unloadable : ¬n.type.has .loadable
  ready : n.inSetup = false

theorem Node.Plain.congr {n m : Node} (h : n.Plain) (ht : m.type = n.type)
    (hs : m.inSetup = n.inSetup) : m.Plain :=
  ⟨ht ▸ h.passive, ht ▸ h.childless, ht ▸ h.unloadable, hs.trans h.ready⟩

theorem Arena.modify_eq_self {α : Type} {a : Arena α} {k : Nat} {f : α → α}
    (h : ∀ v, a.get? k = some v → f v = v) : a.modify k f = a := by
  refine congrArg Arena.mk (List.ext_getElem? fun i ↦ ?_)
  rw [List.getElem?_modify]
  by_cases hi : k = i
  · subst hi
    rw [get?] at h
    cases hs : a.slots[k]? with
    | none => rfl
    | some o =>
      cases o with
      | none => simp
      | some v => simp [h v (by rw [hs]; rfl)]
  · simp [hi]

namespace Scene

variable {s s' : Scene} {guest : Option SpaceId} {id : NodeId} {n : Node} {k : Port} {v : Value}
  {r : Route}

/-- Every node only stores its values. -/
def Plain (s : Scene) : Prop := ∀ id n, s.node? id = some n → n.Plain

def Carries (s : Scene) (r : Route) : Prop := ∃ sp x, s.space? sp = some x ∧ r ∈ x.routes

/-- No two routes lead to one field. -/
def SingleFed (s : Scene) : Prop :=
  ∀ q r, s.Carries q → s.Carries r → q.target = r.target → q = r

def held? (s : Scene) (k : Port) : Option Value := (s.node? k.1).bind fun n ↦ n.values[k.2]?

theorem value_eq_ok : s.value k.1 k.2 = .ok v ↔ s.held? k = some v := by
  unfold value node held? Node.value
  cases s.node? k.1 with
  | none => simp [bind, Except.bind]
  | some n => cases h : n.values[k.2]? <;> simp [bind, Except.bind, h]

theorem held?_congr (h : ∀ id, s'.node? id = s.node? id) : s'.held? = s.held? := by
  funext k
  rw [held?, held?, h]

theorem Plain.congr (h : s.Plain) (hn : ∀ id, s'.node? id = s.node? id) : s'.Plain :=
  fun id n hm ↦ h id n (hn id ▸ hm)

theorem carries_congr (h : ∀ sp, s'.space? sp = s.space? sp) : s'.Carries r ↔ s.Carries r := by
  simp only [Carries, h]

theorem Carries.holds (h : s.Carries r) : s.Holds [r] := by
  obtain ⟨sp, x, hx, hr⟩ := h
  exact ⟨sp, x, hx, by simpa using hr⟩

theorem perform_eq_self {script : Behavior → Script} (hn : s.node? id = some n) (hp : n.Plain)
    (hs : script .passive = .done) : s.perform id script = s := by
  have same : s.modifyNode id (fun m ↦ { m with values := n.values }) = s := by
    cases id with
    | void => rfl
    | issued i =>
      refine congrArg (fun a ↦ ({ s with nodes := a } : Scene)) (Arena.modify_eq_self ?_)
      intro m hm
      cases hn.symm.trans hm
      rfl
  have ha : (script n.type.behavior).perform (s.viewOf id n) = { view := s.viewOf id n } := by
    rw [hp.passive, hs]
    rfl
  unfold perform
  rw [hn]
  dsimp only
  rw [ha, hp.ready]
  dsimp only
  rw [show (s.viewOf id n).values = n.values from rfl, same]
  simp [log]

/-- A change is stored at `k`, announced and queued, and that is all. -/
structure Stored (k : Port) (v : Value) (s s' : Scene) : Prop where
  coherent : s'.Coherent [] none
  plain : s'.Plain
  space : ∀ sp, s'.space? sp = s.space? sp
  held : ∀ q, s'.held? q = if q = k then some v else s.held? q
  queue : s'.pending = s.pending ++ [k]
  journal : s'.journal = s.journal ++ [.event (.fieldChanged k.1 k.2)]

theorem Plain.setValue (h : s.Coherent [] none) (hp : s.Plain)
    (hs : s.setValue k.1 k.2 v = .ok s') : Stored k v s s' := by
  have edited := Edited.setValue h hs
  unfold Scene.setValue at hs
  obtain ⟨n, hn, hs⟩ := bind_eq_ok.mp hs
  obtain ⟨⟨⟩, ha, hs⟩ := bind_eq_ok.mp hs
  rw [node_eq_ok] at hn
  obtain ⟨d, hd, -⟩ := Node.admits_eq_ok.mp ha
  have hk := FieldTable.lt_size_of_get? hd
  rw [← (h.sound hn).values.length] at hk
  have plain := hp _ n hn
  let m : Node := { n.store k.2 v with changed := n.changed.set k.2 true }
  let marked := (s.modifyNode k.1 fun n ↦ n.store k.2 v).markChanged k.1 k.2
  have self : marked.node? k.1 = some m :=
    node?_modifyNode_self _ _ _ (node?_modifyNode_self _ _ _ hn)
  have other {id} (hi : id ≠ k.1) : marked.node? id = s.node? id :=
    (node?_modifyNode_of_ne _ _ _ hi).trans (node?_modifyNode_of_ne _ _ _ hi)
  have still : m.Plain := plain.congr rfl rfl
  have applied : marked.applyCapabilities k.1 n.type k.2 = marked := by
    have hc : n.type.children? = none := if_neg plain.childless
    have hu : n.type.url? = none := if_neg plain.unloadable
    simp [applyCapabilities, applyLoadable, hc, hu]
  have he : s' = marked := by
    rw [plain.ready] at hs
    cases hs
    rw [show (s.modifyNode k.1 fun n ↦ n.store k.2 v).markChanged k.1 k.2 = marked from rfl,
      applied]
    exact perform_eq_self self still rfl
  subst he
  refine ⟨edited.coherent, fun id m' hm' ↦ ?_, fun sp ↦ ?_, fun q ↦ ?_, ?_, ?_⟩
  · by_cases hi : id = k.1
    · subst hi
      cases self.symm.trans hm'
      exact still
    · exact hp id m' (other hi ▸ hm')
  · exact (space?_modifyNode _ _ _ sp).trans (space?_modifyNode _ _ _ sp)
  · rw [held?, held?]
    by_cases hi : q.1 = k.1
    · rw [hi, self, hn, Option.bind_some, Option.bind_some]
      by_cases hj : q.2 = k.2
      · rw [if_pos (Prod.ext hi hj), hj]
        exact List.getElem?_set_self hk
      · rw [if_neg fun hq ↦ hj (congrArg Prod.snd hq)]
        exact List.getElem?_set_ne (Ne.symm hj)
    · rw [other hi, if_neg fun hq ↦ hi (congrArg Prod.fst hq)]
  · exact congrArg (· ++ [k]) ((pending_modifyNode _ _ _).trans (pending_modifyNode _ _ _))
  · exact congrArg (· ++ _) ((journal_modifyNode _ _ _).trans (journal_modifyNode _ _ _))

theorem Plain.fire (h : s.Coherent [] none) (hp : s.Plain) (hr : s.Carries r) :
    ∃ v, s.held? r.origin = some v ∧ Stored r.target v s (s.fire r).2 := by
  obtain ⟨v, hv, ⟨s', hs, hf⟩ | ⟨n, d, reason, hn, -, he, -⟩⟩ := hr.holds.delivers h
  · refine ⟨v, value_eq_ok.mp hv, ?_⟩
    rw [hf]
    exact hp.setValue h hs
  · rw [(hp _ n hn).passive] at he
    cases he

theorem mem_routesFor_iff (h : s.Coherent [] guest) :
    r ∈ s.routesFor k.1 k.2 ↔ s.Carries r ∧ r.origin = k := by
  rw [mem_routesFor h]
  constructor
  · rintro ⟨n, x, -, hx, hr, hs, hf⟩
    exact ⟨⟨n.space, x, hx, hr⟩, Prod.ext hs hf⟩
  · rintro ⟨⟨sp, x, hx, hr⟩, rfl⟩
    obtain ⟨n, hn, rfl⟩ := h.housed.lodged hx ((h.wired hx).ends r hr).1
    exact ⟨n, x, hn, hx, hr, rfl, rfl⟩

def setAll : List (Port × Value) → Scene → Except Error Scene
  | [], s => .ok s
  | (k, v) :: ws, s => do setAll ws (← s.setValue k.1 k.2 v)

/-- The writes are announced and queued in their order. -/
theorem Plain.setAll {ws : List (Port × Value)} (h : s.Coherent [] none) (hp : s.Plain)
    (hs : setAll ws s = .ok s') : s'.Coherent [] none ∧ s'.Plain ∧
      (∀ sp, s'.space? sp = s.space? sp) ∧ s'.pending = s.pending ++ ws.map Prod.fst ∧
      ∃ js, s'.journal = s.journal ++ js ∧ Journal.changes js = ws.map Prod.fst := by
  induction ws generalizing s with
  | nil =>
    cases hs
    exact ⟨h, hp, fun _ ↦ rfl, by simp, [], by simp⟩
  | cons w ws ih =>
    obtain ⟨k, v⟩ := w
    obtain ⟨m, hm, hs⟩ := bind_eq_ok.mp hs
    have stored := hp.setValue h hm
    obtain ⟨hc, hp', hx, hq, js, hj, he⟩ := ih stored.coherent stored.plain hs
    refine ⟨hc, hp', fun sp ↦ (hx sp).trans (stored.space sp), ?_,
      .event (.fieldChanged k.1 k.2) :: js, ?_, ?_⟩
    · rw [hq, stored.queue, List.append_assoc]
      rfl
    · rw [hj, stored.journal, List.append_assoc]
      rfl
    · exact congrArg (k :: ·) he

theorem Plain.tickSensors (hp : s.Plain) : s.tickSensors = s := by
  have tick (id : NodeId) : s.tickSensor id = s := by
    unfold tickSensor
    split
    · rfl
    · next n hn =>
      split
      · rfl
      · exact perform_eq_self hn (hp id n hn) rfl
  refine List.foldlRecOn s.sensors tickSensor (motive := fun s' ↦ s' = s) rfl fun s' hs id _ ↦ ?_
  rw [hs, tick]

theorem Plain.applyCompletions (h : s.Coherent [] none) (hp : s.Plain) (cs : List Completion) :
    applyCompletions cs s = (0, s) := by
  induction cs with
  | nil => rfl
  | cons c cs ih =>
    have late : s.awaits c = false := by
      unfold awaits
      cases hn : s.node? c.request.node with
      | none => rfl
      | some n =>
        have hl := (h.sound hn).slot
        rw [Bool.eq_false_iff.mpr (hp _ n hn).unloadable, Option.isSome_eq_false_iff,
          Option.isNone_iff_eq_none] at hl
        rw [Option.bind_some, hl]
        rfl
    rw [Scene.applyCompletions, late]
    exact ih

theorem Plain.drainLoads (h : s.Coherent [] none) (hp : s.Plain) :
    s.drainLoads = (0, { s with loader := s.drainLoads.2.loader }) := by
  unfold Scene.drainLoads
  split
  · rfl
  · next p _ =>
    have hc : { s with loader := some p.drain.2 }.Coherent [] none :=
      h.congr rfl rfl rfl rfl fun _ hq ↦ hq
    rw [Plain.applyCompletions hc hp]

end Scene

end SceneGraph
