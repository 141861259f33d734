import Mathlib
import SceneGraph.Proofs.Reachable

namespace SceneGraph

theorem Declaration.shapeFault?_congr {a b : Declaration} (h : a.type = b.type) (v : Value) :
    a.shapeFault? v = b.shapeFault? v := by
  unfold shapeFault?
  rw [h]

/-- What may be written at all and has the shape is refused by the behavior alone. -/
theorem Node.admits_eq_validate {n : Node} {index : Nat} {d : Declaration} {v : Value}
    (issued : Nat) (hd : n.type.table.get? index = some d) (hw : d.access.isWritable)
    (hv : d.shapeFault? v = none) : n.admits issued index v =
      match n.type.behavior.validate issued index d v with
      | .ok () => .ok ()
      | .error reason => .error (.value n.type.name d.name (.refused reason)) := by
  have ho : d.access ≠ .eventOut := by
    intro h
    rw [h] at hw
    cases hw
  have hf : d.access ≠ .field := by
    intro h
    rw [h] at hw
    cases hw
  have hs := @Declaration.checkShape_eq_ok d n.type.name v
  unfold Node.admits NodeType.declaration
  rw [FieldTable.declaration_eq_ok.mpr hd]
  simp only [bind, Except.bind, pure, Except.pure, if_neg ho, hf, false_and, if_false, hs.mpr hv]
  split <;> simp_all [throw, throwThe, MonadExceptOf.throw]

namespace Scene

variable {s s' : Scene} {guest : Option SpaceId} {r : Route}

/-- The value that the source of a route holds goes to the destination, which takes it or refuses
it by its own rules. -/
def Delivers (s : Scene) (r : Route) : Prop :=
  ∃ v, s.value r.source r.sourceField = .ok v ∧
    ((∃ s', s.setValue r.dest r.destField v = .ok s' ∧ s.fire r = (true, s')) ∨
      ∃ n d reason, s.node? r.dest = some n ∧ n.type.table.get? r.destField = some d ∧
        n.type.behavior.validate s.nodes.issued r.destField d v = .error reason ∧
        s.fire r = (false, s.report .error ("Route " ++ r.text ++ " could not deliver.")
          (some (.value n.type.name d.name (.refused reason)))))

theorem Holds.delivers (h : s.Coherent [] guest) (hr : s.Holds [r]) : s.Delivers r := by
  obtain ⟨sp, x, hx, hm⟩ := hr
  obtain ⟨n, m, a, b, hn, hm, ha, hb, -, hw, ht⟩ :=
    (h.wired hx).fits r (hm r List.mem_cons_self)
  obtain ⟨v, hv⟩ := (h.sound hn).values.exists_value (FieldTable.lt_size_of_get? ha)
  have value : s.value r.source r.sourceField = .ok v := by
    unfold Scene.value node Node.value
    rw [hn]
    simp [bind, Except.bind, hv]
  have shape : b.shapeFault? v = none := by
    rw [← Declaration.shapeFault?_congr ht]
    exact (h.sound hn).values.shape ha hv
  have admits := m.admits_eq_validate s.nodes.issued hb hw shape
  refine ⟨v, value, ?_⟩
  have send : s.send r = s.setValue r.dest r.destField v := by
    rw [send, value]
    rfl
  rw [Scene.fire, send]
  cases hval : m.type.behavior.validate s.nodes.issued r.destField b v with
  | ok u =>
    rw [hval] at admits
    cases hs : s.setValue r.dest r.destField v with
    | ok s' => exact .inl ⟨s', rfl, rfl⟩
    | error e =>
      unfold setValue at hs
      rw [node_eq_ok.mpr hm] at hs
      simp only [bind, Except.bind, admits, pure, Except.pure] at hs
      split at hs <;> cases hs
  | error reason =>
    rw [hval] at admits
    refine .inr ⟨m, b, reason, hm, hb, hval, ?_⟩
    have hs : s.setValue r.dest r.destField v =
        .error (.value m.type.name b.name (.refused reason)) := by
      unfold setValue
      rw [node_eq_ok.mpr hm]
      simp only [bind, Except.bind, admits]
    rw [hs]

end Scene

namespace Outset

/-- A cascade does what is queued, and no more. The course is what happens. A route fires once, if a
change taken from the queue is that of its source; at every moment, what was queued or announced has
been taken in its turn or is still queued, unless its node is gone; and in the end nothing is. -/
structure Exact (o : Outset) : Prop where
  replay : o.run = o.course.replay (o.tally, o.scene)
  recorded : ∀ {before after m s}, o.course = before ++ (m, s) :: after →
    (Course.replay before (o.tally, o.scene)).2 = s
  once : o.course.fired.Nodup
  fires : ∀ r, r ∈ o.course.fired ↔ ∃ id field s n x, (.take id field, s) ∈ o.course ∧
    s.node? id = some n ∧ s.space? n.space = some x ∧ r ∈ x.routes ∧
    r.source = id ∧ r.sourceField = field
  delivers : ∀ {r s}, (.fire r, s) ∈ o.course → s.Delivers r
  present : ∀ {id field s}, (.take id field, s) ∈ o.course → s.hasNode id
  accounts : ∀ {before after}, o.course = before ++ after →
    o.scene.Accounts before (Course.replay before (o.tally, o.scene)).2
  settled : o.run.2.pending = []

theorem exact {o : Outset} (h : o.scene.Coherent [] none) (ht : o.run.1.truncated = false) :
    o.Exact := by
  obtain ⟨-, sane⟩ := Scene.course_sane h h.holds_nil ht
  refine ⟨Scene.cascade_eq_replay ht, fun hc ↦ Scene.course_recorded ht _ hc,
    (Scene.nodup_fired ht).1, fun r ↦ ?_, fun hm ↦ ?_, fun hm ↦ ?_,
    fun hc ↦ (Scene.course_accounts h h.holds_nil ht _ _ hc).2, Scene.pending_cascade ht⟩
  · have hf := Scene.mem_fired_iff r ht
    simp only [List.not_mem_nil, or_false, false_or] at hf
    apply hf.trans
    constructor
    · rintro ⟨id, field, s, hm, hr⟩
      obtain ⟨n, x, hr⟩ := (Scene.mem_routesFor (sane _ hm).1).mp hr
      exact ⟨id, field, s, n, x, hm, hr⟩
    · rintro ⟨id, field, s, n, x, hm, hr⟩
      exact ⟨id, field, s, hm, (Scene.mem_routesFor (sane _ hm).1).mpr ⟨n, x, hr⟩⟩
  · obtain ⟨hs, hr⟩ := sane _ hm
    exact hr.delivers hs
  · obtain ⟨hs, rest, hp⟩ := sane _ hm
    obtain ⟨n, hn, -⟩ := hs.tracked.queued (hp ▸ List.mem_cons_self)
    exact Scene.hasNode_iff.mpr ⟨n, hn⟩

end Outset

namespace Scene

variable {s s' : Scene} {hooks : List HookProgram} {requested : Double} {t : Tally}

theorem length_outsets_le (s : Scene) (hooks : List HookProgram) (requested : Double) :
    (s.outsets hooks requested).length ≤ 2 := by
  unfold outsets
  split
  · simp
  · dsimp only
    split <;> simp

/-- A tick that is not cut short has at most two cascades, the last of which makes its result, and
each does exactly what is queued. -/
theorem tick_exact (h : s.Reachable) (ht : s.tick hooks requested = .ok (t, s'))
    (hc : t.truncated = false) :
    (s.outsets hooks requested).length ≤ 2 ∧
      (∃ o time, (s.outsets hooks requested).getLast? = some o ∧ o.run.1 = t ∧
        s' = o.run.2.emit (.tickFinished time t.fired)) ∧
      ∀ o ∈ s.outsets hooks requested, o.Exact := by
  refine ⟨length_outsets_le .., ?_, fun o ho ↦ ?_⟩
  · obtain ⟨o, hl, he, time, hs⟩ := tick_eq_ok ht
    exact ⟨o, time, hl, he, hs⟩
  · exact Outset.exact (h.coherent.outsets o ho) (truncated_outsets ht hc o ho)

def cell : NodeType :=
  ⟨"Cell", ⟨[⟨.exposed, .single .bool, "value", .bool false⟩]⟩, [], .bytes, .passive⟩

theorem built_cell : cell.Built :=
  ⟨(Blueprint.of "Cell" []).exposed "value" (.single .bool) (.bool false), rfl⟩

def addCell (s : Scene) : Scene := s.after ((s.createNode .main "Cell").map Prod.snd)

theorem Reachable.addCell (h : s.Reachable) : s.addCell.Reachable :=
  h.after_snd fun _ _ hs ↦ .createNode hs

def linkCells (s : Scene) (i j : Nat) : Scene :=
  s.after ((s.addRoute ⟨.issued i, 0, .issued j, 0⟩).map Prod.snd)

theorem Reachable.linkCells (h : s.Reachable) (i j : Nat) : (s.linkCells i j).Reachable :=
  h.after_snd fun _ _ hs ↦ .addRoute hs

def startCell (s : Scene) (i : Nat) : Scene := s.after (s.finishSetup (.issued i))

/-- Three cells, each with a route to the next. -/
def chain : Scene :=
  let s := (start ⟨[cell]⟩ {}).addCell.addCell.addCell
  (((s.startCell 0).startCell 1).startCell 2).linkCells 0 1 |>.linkCells 1 2

theorem reachable_chain : chain.Reachable := by
  have built : ∀ t ∈ [cell], t.Built := by simpa using built_cell
  have made : Scene.new ⟨[cell]⟩ {} = .ok (start ⟨[cell]⟩ {}) := rfl
  have start {s : Scene} (h : s.Reachable) (i : Nat) : (s.startCell i).Reachable :=
    h.after fun _ hs ↦ .finishSetup hs
  have cells := (Reachable.new built made).addCell.addCell.addCell
  exact ((start (start (start cells 0) 1) 2).linkCells 0 1).linkCells 1 2

def lit : Scene := chain.after (chain.setValue (.issued 0) 0 (.bool true))

def setBack : HookProgram := .act ⟨.issued 0, .index 0, .bool false⟩ fun _ ↦ .done

theorem tick_exact_lit : ∃ t s', lit.Reachable ∧ lit.tick [setBack] 0 = .ok (t, s') ∧
    t.truncated = false ∧ t.fired = 4 ∧ (lit.outsets [setBack] 0).length = 2 ∧
    ∀ o ∈ lit.outsets [setBack] 0, o.Exact := by
  have reachable : lit.Reachable := reachable_chain.after fun _ hs ↦ .setValue hs
  have run : (lit.tick [setBack] 0).toOption.map (fun a ↦ (a.1.truncated, a.1.fired)) =
      some (false, 4) := by cbv
  have two : (lit.outsets [setBack] 0).length = 2 := by cbv
  obtain ⟨⟨t, s'⟩, ht, he⟩ := Option.map_eq_some_iff.mp run
  obtain ⟨hc, hf⟩ := Prod.mk.inj he
  have ht := eq_ok_of_toOption ht
  exact ⟨t, s', reachable, ht, hc, hf, two, (tick_exact reachable ht hc).2.2⟩

end Scene

end SceneGraph
