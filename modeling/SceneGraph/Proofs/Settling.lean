import SceneGraph.Proofs.Plain

namespace SceneGraph

/-- What the fields hold once routes fired, the last one first in the list. -/
def flow (held : Port → Option Value) : List Route → Port → Option Value
  | [], k => held k
  | r :: rs, k => if k = r.target then flow held rs r.origin else flow held rs k

section flow

variable {held : Port → Option Value} {k : Port} {later earlier : List Route}

theorem flow_append (h : ∀ q ∈ later, q.target ≠ k) :
    flow held (later ++ earlier) k = flow held earlier k := by
  induction later with
  | nil => rfl
  | cons q later ih =>
    rw [List.forall_mem_cons] at h
    rw [List.cons_append, flow, if_neg (Ne.symm h.1), ih h.2]

/-- What a field delivers to itself changes nothing. -/
theorem flow_of_loops (h : ∀ q ∈ earlier, q.target = k → q.origin = k) :
    flow held earlier k = held k := by
  induction earlier with
  | nil => rfl
  | cons q earlier ih =>
    rw [List.forall_mem_cons] at h
    rw [flow]
    split
    · next hk => rw [h.1 hk.symm, ih h.2]
    · exact ih h.2

end flow

namespace Scene

variable {s s' s₀ : Scene} {id : NodeId} {n : Node} {k : Port} {r : Route} {done : List Port}
  {waiting fired : List Route}

/-- A field is queued, or a route leads to it from a field that changes. -/
inductive Changes (s : Scene) : Port → Prop
  | queued {k : Port} (h : k ∈ s.pending) : s.Changes k
  | along {r : Route} (hr : s.Carries r) (h : s.Changes r.origin) : s.Changes r.target

def queuedBefore (s : Scene) (k : Port) : List Port := s.pending.takeWhile (· ≠ k)

/-- Which routes have fired when it is the turn of a route: if its source is not queued, one that
leads to its source; those that leave a field queued before its source; and if its source is queued,
but for what the source sends to itself no others. -/
structure Timely (s : Scene) (earlier : List Route) (r : Route) : Prop where
  fed : r.origin ∉ s.pending → ∃ q ∈ earlier, q.target = r.origin
  before : ∀ q, s.Carries q → q.origin ∈ s.queuedBefore r.origin → q ∈ earlier
  after : r.origin ∈ s.pending → ∀ q ∈ earlier,
    q.origin ∈ s.queuedBefore r.origin ∨ q.origin = r.origin

/-- What holds all through a cascade among plain nodes from `s₀`, once the changes `done` were taken
and the routes `fired` fired, the last one first. -/
structure Underway (s₀ : Scene) (done : List Port) (waiting fired : List Route) (s : Scene) :
    Prop where
  coherent : s.Coherent [] none
  plain : s.Plain
  carries : ∀ r, s.Carries r ↔ s₀.Carries r
  held : ∀ k, s.held? k = flow s₀.held? fired k
  queue : done ++ s.pending = s₀.pending ++ (fired.map Route.target).reverse
  journal : ∃ js, s.journal = s₀.journal ++ js ∧
    Journal.changes js = (fired.map Route.target).reverse
  sent : ∀ r ∈ fired, s₀.Carries r ∧ r.origin ∈ done
  met : ∀ r, s₀.Carries r → r.origin ∈ done → r ∈ fired ∨ r ∈ waiting
  fresh : ∀ r ∈ waiting, s₀.Carries r ∧ (r ∉ fired → ∃ d, done = d ++ [r.origin] ∧ r.origin ∉ d)
  once : fired.Nodup
  timely : ∀ r earlier, r :: earlier <:+ fired → s₀.Timely earlier r

namespace Underway

theorem start (h : s.Coherent [] none) (hp : s₀.Plain) (hn : ∀ id, s.node? id = s₀.node? id)
    (hx : ∀ sp, s.space? sp = s₀.space? sp) (hq : s.pending = s₀.pending)
    (hj : ∃ js, s.journal = s₀.journal ++ js ∧ Journal.changes js = []) :
    Underway s₀ [] [] [] s where
  coherent := h
  plain := hp.congr hn
  carries _ := carries_congr hx
  held k := congrFun (held?_congr hn) k
  queue := by simp [hq]
  journal := hj
  sent := nofun
  met := nofun
  fresh := nofun
  once := List.nodup_nil
  timely _ _ hs := by simp at hs

theorem take {pending : List Port} (h : Underway s₀ done [] fired s)
    (hp : s.pending = k :: pending) :
    Underway s₀ (done ++ [k]) (s.routesFor k.1 k.2) fired { s with pending } where
  coherent := h.coherent.take hp
  plain := h.plain
  carries := h.carries
  held := h.held
  queue := by rw [← h.queue, hp, List.append_assoc, List.singleton_append]
  journal := h.journal
  sent r hr := ⟨(h.sent r hr).1, List.mem_append_left _ (h.sent r hr).2⟩
  met r hr ho := by
    rcases List.mem_append.mp ho with ho | ho
    · exact .inl ((h.met r hr ho).resolve_right List.not_mem_nil)
    · exact .inr ((mem_routesFor_iff h.coherent).mpr
        ⟨(h.carries r).mpr hr, List.mem_singleton.mp ho⟩)
  fresh r hr := by
    obtain ⟨hc, rfl⟩ := (mem_routesFor_iff h.coherent).mp hr
    rw [h.carries] at hc
    exact ⟨hc, fun hf ↦ ⟨done, rfl, fun ho ↦
      hf ((h.met r hc ho).resolve_right List.not_mem_nil)⟩⟩
  once := h.once
  timely := h.timely

theorem skip (h : Underway s₀ done (r :: waiting) fired s) (hr : r ∈ fired) :
    Underway s₀ done waiting fired s where
  coherent := h.coherent
  plain := h.plain
  carries := h.carries
  held := h.held
  queue := h.queue
  journal := h.journal
  sent := h.sent
  met q hq ho := by
    rcases h.met q hq ho with hf | hw
    · exact .inl hf
    · rcases List.mem_cons.mp hw with rfl | hw
      · exact .inl hr
      · exact .inr hw
  fresh q hq := h.fresh q (List.mem_cons_of_mem _ hq)
  once := h.once
  timely := h.timely

/-- The changes taken before a field's first turn are those queued before it, and if it was queued
there are no others. -/
theorem queuedBefore_turn {d : List Port} (h : Underway s₀ (d ++ [k]) waiting fired s)
    (hk : k ∉ d) : (∀ q ∈ s₀.queuedBefore k, q ∈ d) ∧ (k ∈ s₀.pending → s₀.queuedBefore k = d) := by
  have ht : (s₀.pending ++ (fired.map Route.target).reverse).takeWhile (· ≠ k) = d := by
    have hd : ∀ q ∈ d, decide (q ≠ k) = true :=
      fun q hq ↦ decide_eq_true fun he ↦ hk (he ▸ hq)
    rw [← h.queue, List.append_assoc, List.takeWhile_append_of_pos hd]
    simp
  rw [List.takeWhile_append] at ht
  unfold queuedBefore
  split at ht
  · next hl =>
    have he : s₀.pending.takeWhile (· ≠ k) = s₀.pending :=
      (List.takeWhile_prefix _).eq_of_length hl
    refine ⟨fun q hq ↦ ht ▸ List.mem_append_left _ (he ▸ hq), fun hp ↦ ?_⟩
    have hne := List.takeWhile_eq_self_iff.mp he k hp
    simp at hne
  · exact ⟨fun q hq ↦ ht ▸ hq, fun _ ↦ ht⟩

theorem turn (h : Underway s₀ done (r :: waiting) fired s) (hr : r ∉ fired) :
    s₀.Timely fired r := by
  obtain ⟨hc, hd⟩ := h.fresh r List.mem_cons_self
  obtain ⟨d, rfl, ho⟩ := hd hr
  obtain ⟨sub, eq⟩ := h.queuedBefore_turn ho
  constructor
  · intro hp
    have hm : r.origin ∈ s₀.pending ++ (fired.map Route.target).reverse := by
      rw [← h.queue]
      simp
    rw [List.mem_append, List.mem_reverse, List.mem_map] at hm
    exact hm.resolve_left hp
  · intro q hq hb
    have hqd := sub _ hb
    rcases h.met q hq (List.mem_append_left _ hqd) with hf | hw
    · exact hf
    · -- a route that waits and has not fired leaves the field whose turn it is
      by_contra hf
      obtain ⟨d', he, -⟩ := (h.fresh q hw).2 hf
      rw [List.append_inj_right' he rfl |> List.singleton_inj.mp] at ho
      exact ho hqd
  · intro hp q hq
    rw [eq hp]
    simpa using (h.sent q hq).2

theorem fire (h : Underway s₀ done (r :: waiting) fired s) (hr : r ∉ fired) :
    Underway s₀ done waiting (r :: fired) (s.fire r).2 := by
  obtain ⟨hc, hd⟩ := h.fresh r List.mem_cons_self
  obtain ⟨v, hv, stored⟩ := h.plain.fire h.coherent ((h.carries r).mpr hc)
  exact {
    coherent := stored.coherent
    plain := stored.plain
    carries := fun q ↦ (carries_congr stored.space).trans (h.carries q)
    held := fun k ↦ by
      rw [stored.held, flow, ← h.held, ← h.held, hv]
    queue := by
      rw [stored.queue, ← List.append_assoc, h.queue]
      simp
    journal := by
      obtain ⟨js, hj, he⟩ := h.journal
      refine ⟨js ++ [.event (.fieldChanged r.dest r.destField)], ?_, ?_⟩
      · rw [stored.journal, hj, List.append_assoc]
        rfl
      · rw [Journal.changes_append, he, List.map_cons, List.reverse_cons]
        rfl
    sent := List.forall_mem_cons.mpr ⟨⟨hc, by
      obtain ⟨d, rfl, -⟩ := hd hr
      simp⟩, h.sent⟩
    met := fun q hq ho ↦ by
      rcases h.met q hq ho with hf | hw
      · exact .inl (List.mem_cons_of_mem _ hf)
      · rcases List.mem_cons.mp hw with rfl | hw
        · exact .inl List.mem_cons_self
        · exact .inr hw
    fresh := fun q hq ↦
      ⟨(h.fresh q (List.mem_cons_of_mem _ hq)).1, fun hf ↦
        (h.fresh q (List.mem_cons_of_mem _ hq)).2 fun hm ↦ hf (List.mem_cons_of_mem _ hm)⟩
    once := List.nodup_cons.mpr ⟨hr, h.once⟩
    timely := fun q earlier hs ↦ by
      rcases List.suffix_cons_iff.mp hs with he | hs
      · cases he
        exact h.turn hr
      · exact h.timely q earlier hs }

end Underway

/-- A field that was queued is overtaken if a route changes it after its turn. -/
def Overtaken (s : Scene) (k : Port) : Prop :=
  k ∈ s.pending ∧ ∃ q, s.Carries q ∧ q.target = k ∧ s.Changes q.origin ∧
    q.origin ∉ s.queuedBefore k

namespace Underway

theorem cascade {limit : Nat} {t : Tally} (h : Underway s₀ done waiting fired s)
    (ht : (Scene.cascade limit waiting fired t s).1.truncated = false) :
    ∃ ks rs, Underway s₀ ks [] rs (Scene.cascade limit waiting fired t s).2 := by
  refine cascade_induction (motive := fun waiting fired _ s _ a ↦ ∀ done,
    Underway s₀ done waiting fired s → ∃ ks rs, Underway s₀ ks [] rs a.2)
    ?_ ?_ ?_ ?_ ht done h
  · exact fun fired _ _ _ done h ↦ ⟨done, fired, h⟩
  · exact fun _ _ _ _ _ _ _ _ hp ih _ h ↦ ih _ (h.take hp)
  · exact fun _ _ _ _ _ _ _ hr ih _ h ↦ ih _ (h.skip hr)
  · exact fun _ _ _ _ _ _ _ hr ih _ h ↦ ih _ (h.fire hr)

section settled

variable (h : Underway s₀ done [] fired s) (hp : s.pending = [])

include h hp

theorem mem_done : k ∈ done ↔ k ∈ s₀.pending ∨ ∃ r ∈ fired, r.target = k := by
  have hq := h.queue
  rw [hp, List.append_nil] at hq
  rw [hq, List.mem_append, List.mem_reverse, List.mem_map]

theorem mem_done_iff_changes : k ∈ done ↔ s₀.Changes k := by
  constructor
  · -- by the order of the firings, the last one first
    have sources : ∀ l, l <:+ fired → ∀ r ∈ l, s₀.Changes r.origin := by
      intro l
      induction l with
      | nil => nofun
      | cons r l ih =>
        intro hl
        have earlier := ih ((List.suffix_cons r l).trans hl)
        refine List.forall_mem_cons.mpr ⟨?_, earlier⟩
        by_cases ho : r.origin ∈ s₀.pending
        · exact .queued ho
        · obtain ⟨q, hq, he⟩ := (h.timely r l hl).fed ho
          have hc := (h.sent q (hl.mem (List.mem_cons_of_mem _ hq))).1
          exact he ▸ .along hc (earlier q hq)
    intro hk
    rcases (h.mem_done hp).mp hk with hk | ⟨r, hr, rfl⟩
    · exact .queued hk
    · exact .along (h.sent r hr).1 (sources fired List.suffix_rfl r hr)
  · intro hc
    induction hc with
    | queued hk => exact (h.mem_done hp).mpr (.inl hk)
    | along hr _ ih =>
      have hf := (h.met _ hr ih).resolve_right List.not_mem_nil
      exact (h.mem_done hp).mpr (.inr ⟨_, hf, rfl⟩)

theorem mem_fired_iff : r ∈ fired ↔ s₀.Carries r ∧ s₀.Changes r.origin := by
  rw [← h.mem_done_iff_changes hp]
  exact ⟨h.sent r, fun ⟨hr, ho⟩ ↦ (h.met r hr ho).resolve_right List.not_mem_nil⟩

/-- A route ends with one value at both ends, but that an overtaken source sent what it held at
first. -/
theorem held_target (single : s₀.SingleFed) (hr : s₀.Carries r) (ho : s₀.Changes r.origin) :
    (s₀.Overtaken r.origin → s.held? r.target = s₀.held? r.origin) ∧
      (¬s₀.Overtaken r.origin → s.held? r.target = s.held? r.origin) := by
  have hf : r ∈ fired := (h.mem_fired_iff hp).mpr ⟨hr, ho⟩
  obtain ⟨later, earlier, rfl⟩ := List.append_of_mem hf
  have turn := h.timely r earlier (List.suffix_append later _)
  have once := List.nodup_append.mp h.once
  have unique {q} (hq : q ∈ later ++ r :: earlier) (he : q.target = r.target) : q = r :=
    single q r (h.sent q hq).1 hr he
  have sent : s.held? r.target = flow s₀.held? earlier r.origin := by
    rw [h.held, flow_append, flow, if_pos rfl]
    intro q hq he
    exact once.2.2 q hq r List.mem_cons_self (unique (List.mem_append_left _ hq) he)
  constructor
  · rintro ⟨hk, p, hpc, hpt, -, hb⟩
    rw [sent]
    refine flow_of_loops fun q hq hqt ↦ ?_
    have hqc := (h.sent q (List.mem_append_right _ (List.mem_cons_of_mem _ hq))).1
    have : q = p := single q p hqc hpc (hqt.trans hpt.symm)
    subst this
    exact (turn.after hk q hq).resolve_left hb
  · intro hn
    have last : ∀ q ∈ later ++ [r], q.target ≠ r.origin := by
      intro q hq hqt
      have hqf : q ∈ later ++ r :: earlier := by
        rcases List.mem_append.mp hq with hq | hq
        · exact List.mem_append_left _ hq
        · exact List.mem_append_right _ (by simp_all)
      have hqe : q ∉ earlier := by
        intro hqe
        rcases List.mem_append.mp hq with hq | hq
        · exact once.2.2 q hq q (List.mem_cons_of_mem _ hqe) rfl
        · rw [List.mem_singleton.mp hq] at hqe
          exact (List.nodup_cons.mp once.2.1).1 hqe
      obtain ⟨hqc, hqo⟩ := (h.mem_fired_iff hp).mp hqf
      by_cases hk : r.origin ∈ s₀.pending
      · refine hn ⟨hk, q, hqc, hqt, hqo, fun hb ↦ hqe (turn.before q hqc hb)⟩
      · obtain ⟨p, hpe, hpt⟩ := turn.fed hk
        have hpc := (h.sent p (List.mem_append_right _ (List.mem_cons_of_mem _ hpe))).1
        exact hqe (single q p hqc hpc (hqt.trans hpt.symm) ▸ hpe)
    rw [sent, h.held, ← List.singleton_append, ← List.append_assoc, flow_append last]

end settled

end Underway

variable {s₁ s₂ : Scene} {ws : List (Port × Value)} {requested : Double} {t : Tally}

theorem Underway.outset (h : s.Coherent [] none) (hp : s.Plain) {o : Outset}
    (ho : o ∈ s.outsets [] requested) : Underway s [] [] [] o.scene := by
  have coherent := h.outsets o ho
  unfold Scene.outsets at ho
  cases ha : s.advanceClock requested with
  | error =>
    rw [ha] at ho
    cases ho
  | ok a =>
    obtain ⟨time, m⟩ := a
    rw [ha] at ho
    have hm : (∀ id, m.node? id = s.node? id) ∧ (∀ sp, m.space? sp = s.space? sp) ∧
        m.pending = s.pending ∧ ∃ js, m.journal = s.journal ++ js ∧ Journal.changes js = [] := by
      rcases advanceClock_cases ha with ⟨text, rfl⟩ | rfl
      · exact ⟨fun _ ↦ rfl, fun _ ↦ rfl, rfl, _, rfl, rfl⟩
      · exact ⟨fun _ ↦ rfl, fun _ ↦ rfl, rfl, [], by simp⟩
    obtain ⟨hn, hx, hq, hj⟩ := hm
    have scene : o.scene = { m with loader := m.drainLoads.2.loader } := by
      have drained := Plain.drainLoads (h.advanceClock ha) (hp.congr hn)
      have ticked : { m with loader := m.drainLoads.2.loader }.tickSensors = _ :=
        Plain.tickSensors (hp.congr hn)
      rw [← ticked, List.mem_singleton.mp ho]
      exact congrArg (fun a ↦ a.2.tickSensors) drained
    rw [scene] at coherent ⊢
    exact .start coherent hp hn hx hq hj

/-- Among plain nodes with at most one route into a field, a tick takes the writes in their order.
A route from a changed field ends with one value at both ends, but that an overtaken source sent
what it held when the tick began. -/
theorem tick_settles (h : s.Reachable) (hp : s.Plain) (single : s.SingleFed)
    (hw : setAll ws s = .ok s₁) (ht : s₁.tick [] requested = .ok (t, s₂))
    (hc : t.truncated = false) :
    s₁.pending = s.pending ++ ws.map Prod.fst ∧
      (∃ js, s₂.journal = s.journal ++ js ∧
        ∀ k, s₁.Changes k ↔ k ∈ s.pending ∨ k ∈ Journal.changes js) ∧
      ∀ r, s.Carries r → s₁.Changes r.origin → ∃ v, s₂.value r.dest r.destField = .ok v ∧
        (s₁.Overtaken r.origin → s₁.value r.source r.sourceField = .ok v) ∧
        (¬s₁.Overtaken r.origin → s₂.value r.source r.sourceField = .ok v) := by
  obtain ⟨hs₁, hp₁, hx, hq, js, hj, hjs⟩ := hp.setAll h.coherent hw
  obtain ⟨o, hl, rfl, time, rfl⟩ := tick_eq_ok ht
  obtain ⟨ks, rs, done⟩ := (Underway.outset hs₁ hp₁ (List.mem_of_getLast? hl)).cascade hc
  have empty : o.run.2.pending = [] := pending_cascade hc
  change Underway s₁ ks [] rs o.run.2 at done
  have single₁ : s₁.SingleFed := fun q r hq hr he ↦
    single q r ((carries_congr hx).mp hq) ((carries_congr hx).mp hr) he
  refine ⟨hq, ?_, fun r hr ho ↦ ?_⟩
  · obtain ⟨js', hj', hjs'⟩ := done.journal
    refine ⟨js ++ js' ++ [.event (.tickFinished time o.run.1.fired)], ?_, fun k ↦ ?_⟩
    · simp [emit, log, hj', hj]
    · rw [← done.mem_done_iff_changes empty, done.mem_done empty, hq, Journal.changes_append,
        Journal.changes_append, hjs, hjs']
      simp [Journal.changes, Entry.change?, or_assoc]
  · have hr₁ := (carries_congr hx).mpr hr
    obtain ⟨late, level⟩ := done.held_target empty single₁ hr₁ ho
    have final (k : Port) : (o.run.2.emit (.tickFinished time o.run.1.fired)).held? k =
      o.run.2.held? k := rfl
    by_cases hv : s₁.Overtaken r.origin
    · obtain ⟨v, hv', -⟩ := hp₁.fire hs₁ hr₁
      exact ⟨v, value_eq_ok.mpr ((final _).trans ((late hv).trans hv')),
        fun _ ↦ value_eq_ok.mpr hv', fun hn ↦ absurd hv hn⟩
    · obtain ⟨v, hv', -⟩ := done.plain.fire done.coherent ((done.carries r).mpr hr₁)
      exact ⟨v, value_eq_ok.mpr ((final _).trans ((level hv).trans hv')),
        fun hn ↦ absurd hn hv, fun _ ↦ value_eq_ok.mpr hv'⟩

/-- No field feeds itself along routes. -/
def Acyclic (s : Scene) : Prop :=
  ∀ k, ¬Relation.TransGen (fun j k ↦ ∃ r, s.Carries r ∧ r.origin = j ∧ r.target = k) k k

theorem node?_chain (hn : chain.node? id = some n) :
    n.type = cell ∧ n.inSetup = false := by
  obtain ⟨k, rfl, hk⟩ := issued_of_node? hn
  match k, hk with
  | 0, _ | 1, _ | 2, _ =>
    cases hn
    exact ⟨rfl, rfl⟩

theorem plain_chain : chain.Plain := by
  intro id n hn
  obtain ⟨ht, hs⟩ := node?_chain hn
  refine ⟨?_, ?_, ?_, hs⟩ <;> rw [ht] <;> simp [cell, NodeType.has]

theorem carries_chain : chain.Carries r ↔
    r = ⟨.issued 0, 0, .issued 1, 0⟩ ∨ r = ⟨.issued 1, 0, .issued 2, 0⟩ := by
  constructor
  · rintro ⟨⟨sp⟩, x, hx, hr⟩
    have hsp : sp < 1 := number_lt_of_space? hx
    cases Nat.lt_one_iff.mp hsp
    cases hx
    exact List.mem_pair.mp hr
  · intro hr
    exact ⟨.main, _, rfl, List.mem_pair.mpr hr⟩

theorem singleFed_chain : chain.SingleFed := by
  intro q r hq hr he
  rcases carries_chain.mp hq with rfl | rfl <;> rcases carries_chain.mp hr with rfl | rfl <;>
    simp_all [Route.target]

theorem acyclic_chain : chain.Acyclic := by
  intro k hk
  have up : ∀ {j l : Port}, Relation.TransGen
      (fun j k ↦ ∃ r, chain.Carries r ∧ r.origin = j ∧ r.target = k) j l →
      ∃ a b, j.1 = .issued a ∧ l.1 = .issued b ∧ a < b := by
    intro j l h
    have one {j l : Port} (h : ∃ r, chain.Carries r ∧ r.origin = j ∧ r.target = l) :
        ∃ a b, j.1 = .issued a ∧ l.1 = .issued b ∧ a < b := by
      obtain ⟨r, hr, rfl, rfl⟩ := h
      rcases carries_chain.mp hr with rfl | rfl
      · exact ⟨0, 1, rfl, rfl, by decide⟩
      · exact ⟨1, 2, rfl, rfl, by decide⟩
    induction h with
    | single h => exact one h
    | tail _ h ih =>
      obtain ⟨a, b, ha, hb, hab⟩ := ih
      obtain ⟨b', c, hb', hc, hbc⟩ := one h
      cases hb.symm.trans hb'
      exact ⟨a, c, ha, hc, hab.trans hbc⟩
  obtain ⟨a, b, ha, hb, hab⟩ := up hk
  cases ha.symm.trans hb
  exact absurd hab (lt_irrefl _)

/-- The second cell is set before the first. -/
def crossed : List (Port × Value) := [((.issued 1, 0), .bool true), ((.issued 0, 0), .bool false)]

theorem tick_crossed : ∃ s₁ t s₂, setAll crossed chain = .ok s₁ ∧
    s₁.tick [] 0 = .ok (t, s₂) ∧ t.truncated = false ∧
    s₁.pending = [(.issued 1, 0), (.issued 0, 0)] ∧
    s₂.value (.issued 1) 0 = .ok (.bool false) ∧ s₂.value (.issued 2) 0 = .ok (.bool true) := by
  have run : (setAll crossed chain).toOption.bind (fun s₁ ↦ (s₁.tick [] 0).toOption.map fun a ↦
      (s₁.pending, a.1.truncated, (a.2.value (.issued 1) 0).toOption,
        (a.2.value (.issued 2) 0).toOption)) =
      some ([(.issued 1, 0), (.issued 0, 0)], false, some (.bool false), some (.bool true)) := by
    cbv
  obtain ⟨s₁, hw, run⟩ := Option.bind_eq_some_iff.mp run
  obtain ⟨⟨t, s₂⟩, ht, run⟩ := Option.map_eq_some_iff.mp run
  simp only [Prod.mk.injEq] at run
  obtain ⟨hq, hc, hb, hd⟩ := run
  exact ⟨s₁, t, s₂, eq_ok_of_toOption hw, eq_ok_of_toOption ht, hc, hq, eq_ok_of_toOption hb,
    eq_ok_of_toOption hd⟩

/-- The last cell keeps what the second one held, the second one takes what the first one holds. -/
theorem tick_settles_crossed : ∃ s₁ t s₂, chain.Reachable ∧ chain.Plain ∧ chain.SingleFed ∧
    setAll crossed chain = .ok s₁ ∧ s₁.tick [] 0 = .ok (t, s₂) ∧ t.truncated = false ∧
    (∃ v, s₂.value (.issued 1) 0 = .ok v ∧ s₂.value (.issued 0) 0 = .ok v) ∧
    ∃ v, s₂.value (.issued 2) 0 = .ok v ∧ s₁.value (.issued 1) 0 = .ok v := by
  obtain ⟨s₁, t, s₂, hw, ht, hc, queue, -⟩ := tick_crossed
  obtain ⟨-, -, hr⟩ := tick_settles reachable_chain plain_chain singleFed_chain hw ht hc
  obtain ⟨-, -, hx, -⟩ := plain_chain.setAll reachable_chain.coherent hw
  have first : s₁.Changes (.issued 0, 0) := .queued (by simp [queue])
  have second : s₁.Changes (.issued 1, 0) := .queued (by simp [queue])
  refine ⟨s₁, t, s₂, reachable_chain, plain_chain, singleFed_chain, hw, ht, hc, ?_, ?_⟩
  · obtain ⟨v, hv, -, level⟩ := hr _ (carries_chain.mpr (.inl rfl)) first
    refine ⟨v, hv, level ?_⟩
    rintro ⟨-, q, hqc, hqt, -⟩
    rcases carries_chain.mp ((carries_congr hx).mp hqc) with rfl | rfl <;> cases hqt
  · obtain ⟨v, hv, late, -⟩ := hr _ (carries_chain.mpr (.inr rfl)) second
    refine ⟨v, hv, late ⟨by simp [queue, Route.origin], _,
      (carries_congr hx).mpr (carries_chain.mpr (.inl rfl)), rfl, first, ?_⟩⟩
    rw [queuedBefore, queue]
    simp [Route.origin]

/-- The writes may leave a route with different values at its ends. -/
theorem tick_not_level : ¬∀ (s s₁ s₂ : Scene) (ws : List (Port × Value)) (t : Tally),
    s.Reachable → s.Plain → s.Acyclic → s.SingleFed → s.sensors = [] → s.loader = none →
      setAll ws s = .ok s₁ → s₁.tick [] 0 = .ok (t, s₂) → t.truncated = false →
        ∀ r, s.Carries r → s₁.Changes r.origin →
          s₂.value r.dest r.destField = s₂.value r.source r.sourceField := by
  intro level
  obtain ⟨s₁, t, s₂, hw, ht, hc, queue, hb, hd⟩ := tick_crossed
  have same := level chain s₁ s₂ crossed t reachable_chain plain_chain acyclic_chain
    singleFed_chain rfl rfl hw ht hc ⟨.issued 1, 0, .issued 2, 0⟩ (carries_chain.mpr (.inr rfl))
    (.queued (by simp [queue, Route.origin]))
  rw [hb, hd] at same
  cases same

end Scene

end SceneGraph
