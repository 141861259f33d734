import SceneGraph.Proofs.Wiring
import SceneGraph.Scene.Tick

namespace SceneGraph

/-- What a cascade does next: it takes a queued change, passes a route that has fired, or fires
one. -/
inductive Move where
  | take (id : NodeId) (field : Nat)
  | skip (r : Route)
  | fire (r : Route)

namespace Move

def taken? : Move → Option (NodeId × Nat)
  | take id field => some (id, field)
  | skip _ | fire _ => none

def fired? : Move → Option Route
  | fire r => some r
  | take .. | skip _ => none

/-- What a move makes of a scene and the tally of its tick. -/
def play : Move → Tally × Scene → Tally × Scene
  | take .., (t, s) => (t, { s with pending := s.pending.tail })
  | skip _, (t, s) => ({ t with loops := t.loops + 1 }, s)
  | fire r, (t, s) => (t.count (s.fire r).1, (s.fire r).2)

end Move

/-- The moves of a cascade, each with the scene that it is made in. -/
abbrev Course := List (Move × Scene)

namespace Course

def taken (c : Course) : List (NodeId × Nat) := c.filterMap fun m ↦ m.1.taken?

def fired (c : Course) : List Route := c.filterMap fun m ↦ m.1.fired?

def replay (c : Course) (a : Tally × Scene) : Tally × Scene := c.foldl (fun a m ↦ m.1.play a) a

variable {s : Scene} {r : Route} {id : NodeId} {field : Nat}

@[simp] theorem fired_take (c : Course) :
    fired ((.take id field, s) :: c) = c.fired := rfl

@[simp] theorem fired_skip (c : Course) : fired ((.skip r, s) :: c) = c.fired := rfl

@[simp] theorem fired_fire (c : Course) :
    fired ((.fire r, s) :: c) = r :: c.fired := rfl

@[simp] theorem taken_take (c : Course) :
    taken ((.take id field, s) :: c) = (id, field) :: c.taken := rfl

@[simp] theorem taken_fire (c : Course) : taken ((.fire r, s) :: c) = c.taken := rfl

def SetsOff (c : Course) (r : Route) : Prop :=
  ∃ id field σ, (.take id field, σ) ∈ c ∧ r ∈ σ.routesFor id field

theorem setsOff_take {c : Course} {r : Route} :
    SetsOff ((.take id field, s) :: c) r ↔ r ∈ s.routesFor id field ∨ c.SetsOff r := by
  constructor
  · rintro ⟨i, f, σ, hm, hr⟩
    rcases List.mem_cons.mp hm with he | hm
    · cases he
      exact .inl hr
    · exact .inr ⟨i, f, σ, hm, hr⟩
  · rintro (hr | ⟨i, f, σ, hm, hr⟩)
    · exact ⟨id, field, s, List.mem_cons_self, hr⟩
    · exact ⟨i, f, σ, List.mem_cons_of_mem _ hm, hr⟩

theorem setsOff_skip {c : Course} {q r : Route} :
    SetsOff ((.skip q, s) :: c) r ↔ c.SetsOff r := by
  simp [SetsOff]

theorem setsOff_fire {c : Course} {q r : Route} :
    SetsOff ((.fire q, s) :: c) r ↔ c.SetsOff r := by
  simp [SetsOff]

end Course

namespace Scene

/-- The course of a cascade, up to the limit of firings. -/
def course (limit : Nat) (waiting fired : List Route) (t : Tally) (s : Scene) : Course :=
  match waiting with
  | r :: waiting =>
    if r ∈ fired then
      (.skip r, s) :: course limit waiting fired { t with loops := t.loops + 1 } s
    else if limit ≤ t.fired then []
    else
      (.fire r, s) :: course limit waiting (r :: fired) (t.count (s.fire r).1) (s.fire r).2
  | [] =>
    match _h : s.pending with
    | [] => []
    | (id, field) :: pending =>
      (.take id field, s) :: course limit (s.routesFor id field) fired t { s with pending }
termination_by (limit - t.fired, s.pending.length, waiting.length)
decreasing_by
  · exact Prod.Lex.right _ (Prod.Lex.right _ (Nat.lt_succ_self _))
  · exact Prod.Lex.left _ _ (by simp only [Tally.count]; omega)
  · exact Prod.Lex.right _ (Prod.Lex.left _ _ (by simp only [_h, List.length_cons]; omega))

variable {s s' : Scene} {guest : Option SpaceId} {limit : Nat} {waiting fired : List Route}
  {t : Tally} {r : Route} {id : NodeId} {field : Nat}

theorem cascade_settled (hp : s.pending = []) : cascade limit [] fired t s = (t, s) := by
  rw [cascade]
  split
  · rfl
  · next he => cases hp.symm.trans he

theorem course_settled (hp : s.pending = []) : course limit [] fired t s = [] := by
  rw [course]
  split
  · rfl
  · next he => cases hp.symm.trans he

theorem cascade_take {pending : List (NodeId × Nat)} (hp : s.pending = (id, field) :: pending) :
    cascade limit [] fired t s =
      cascade limit (s.routesFor id field) fired t { s with pending } := by
  rw [cascade]
  split
  · next he => cases hp.symm.trans he
  · next he =>
    cases hp.symm.trans he
    rfl

theorem course_take {pending : List (NodeId × Nat)} (hp : s.pending = (id, field) :: pending) :
    course limit [] fired t s =
      (.take id field, s) :: course limit (s.routesFor id field) fired t { s with pending } := by
  rw [course]
  split
  · next he => cases hp.symm.trans he
  · next he =>
    cases hp.symm.trans he
    rfl

/-- What leads to no route is taken off the queue, and that is all. -/
theorem cascade_unrouted (h : ∀ p ∈ s.pending, s.routesFor p.1 p.2 = []) :
    cascade limit [] fired t s = (t, { s with pending := [] }) := by
  generalize hp : s.pending = pending at h
  induction pending generalizing s with
  | nil => rw [cascade_settled hp, ← hp]
  | cons p pending ih =>
    obtain ⟨first, rest⟩ := List.forall_mem_cons.mp h
    rw [cascade_take hp, first, ih (s := { s with pending }) rfl rest]

/-- What one move leaves to be shown, a cascade that was not cut short keeps. -/
theorem cascade_induction
    {motive : List Route → List Route → Tally → Scene → Course → Tally × Scene → Prop}
    (stop : ∀ fired t s, s.pending = [] → motive [] fired t s [] (t, s))
    (take : ∀ fired t s id field pending c a, s.pending = (id, field) :: pending →
      motive (s.routesFor id field) fired t { s with pending } c a →
      motive [] fired t s ((.take id field, s) :: c) a)
    (skip : ∀ r waiting fired t s c a, r ∈ fired →
      motive waiting fired { t with loops := t.loops + 1 } s c a →
      motive (r :: waiting) fired t s ((.skip r, s) :: c) a)
    (fire : ∀ r waiting fired t s c a, r ∉ fired →
      motive waiting (r :: fired) (t.count (s.fire r).1) (s.fire r).2 c a →
      motive (r :: waiting) fired t s ((.fire r, s) :: c) a)
    (h : (cascade limit waiting fired t s).1.truncated = false) :
    motive waiting fired t s (course limit waiting fired t s)
      (cascade limit waiting fired t s) := by
  induction waiting, fired, t, s using course.induct limit with
  | case1 fired t s r waiting hr ih =>
    rw [cascade, if_pos hr] at h ⊢
    rw [course, if_pos hr]
    exact skip _ _ _ _ _ _ _ hr (ih h)
  | case2 fired t s r waiting hr hl =>
    rw [cascade, if_neg hr, if_pos hl] at h
    cases h
  | case3 fired t s r waiting hr hl ih =>
    rw [cascade, if_neg hr, if_neg hl] at h ⊢
    rw [course, if_neg hr, if_neg hl]
    exact fire _ _ _ _ _ _ _ hr (ih h)
  | case4 fired t s hp =>
    rw [cascade_settled hp, course_settled hp]
    exact stop _ _ _ hp
  | case5 fired t s id field pending hp ih =>
    rw [cascade_take hp] at h ⊢
    rw [course_take hp]
    exact take _ _ _ _ _ _ _ _ hp (ih h)

section course

def Holds (s : Scene) (rs : List Route) : Prop :=
  ∃ sp x, s.space? sp = some x ∧ ∀ r ∈ rs, r ∈ x.routes

theorem Coherent.holds_nil (h : s.Coherent [] guest) : s.Holds [] := by
  obtain ⟨x, hx, -⟩ := h.rooted.main
  exact ⟨.main, x, hx, nofun⟩

theorem Edited.fire (h : s.Coherent [] guest) (r : Route) :
    Edited guest r.dest s (s.fire r).2 := by
  unfold Scene.fire
  split
  · next he =>
    obtain ⟨v, -, he⟩ := bind_eq_ok.mp he
    exact Edited.setValue h he
  · exact Edited.report h ..

/-- What was queued for a node that is there is its change. -/
theorem mem_routesFor (h : s.Coherent [] guest) : r ∈ s.routesFor id field ↔
    ∃ n x, s.node? id = some n ∧ s.space? n.space = some x ∧ r ∈ x.routes ∧
      r.source = id ∧ r.sourceField = field := by
  unfold routesFor
  split
  · next he =>
    refine ⟨nofun, fun ⟨n, x, hn, hx, _⟩ ↦ ?_⟩
    rw [hn, Option.bind_some, hx] at he
    cases he
  · next x he =>
    obtain ⟨n, hn, hx⟩ := Option.bind_eq_some_iff.mp he
    rw [Space.routesFrom, (h.wired hx).departures]
    simp only [List.mem_filter, Route.leaves, Bool.and_eq_true, decide_eq_true_eq]
    constructor
    · rintro ⟨hr, hs, hf⟩
      exact ⟨n, x, hn, hx, hr, hs, hf⟩
    · rintro ⟨m, y, hm, hy, hr, hs, hf⟩
      cases hn.symm.trans hm
      cases hx.symm.trans hy
      exact ⟨hr, hs, hf⟩

theorem Coherent.holds_routesFor (h : s.Coherent [] guest) (id : NodeId) (field : Nat) :
    s.Holds (s.routesFor id field) := by
  cases hr : s.routesFor id field with
  | nil => exact h.holds_nil
  | cons r rs =>
    obtain ⟨n, x, hn, hx, -⟩ := (mem_routesFor h).mp (hr ▸ List.mem_cons_self)
    refine ⟨n.space, x, hx, fun q hq ↦ ?_⟩
    obtain ⟨m, y, hm, hy, hq, -⟩ := (mem_routesFor h).mp (hr ▸ hq)
    cases hn.symm.trans hm
    cases hx.symm.trans hy
    exact hq

/-- A firing leaves the routes that wait in their space. -/
theorem Holds.fire (h : s.Coherent [] guest) (hr : s.Holds (r :: waiting)) :
    (s.fire r).2.Holds waiting := by
  obtain ⟨sp, x, hx, hm⟩ := hr
  obtain ⟨-, hd⟩ := (h.wired hx).ends r (hm r List.mem_cons_self)
  obtain ⟨n, hn, hs⟩ := h.housed.lodged hx hd
  obtain ⟨cs, hy⟩ := (Edited.fire h r).sparedSpace hn hx (hs ▸ Nat.le_refl _)
  exact ⟨sp, _, hy, fun q hq ↦ hm q (List.mem_cons_of_mem _ hq)⟩

theorem Coherent.take {pending : List (NodeId × Nat)} (h : s.Coherent [] guest)
    (hp : s.pending = (id, field) :: pending) : { s with pending }.Coherent [] guest :=
  h.congr rfl rfl rfl rfl fun _ hq ↦ hp ▸ List.mem_cons_of_mem _ hq

def Move.Sane (guest : Option SpaceId) (m : Move × Scene) : Prop :=
  m.2.Coherent [] guest ∧
    match m.1 with
    | .take id field => ∃ rest, m.2.pending = (id, field) :: rest
    | .skip _ => True
    | .fire r => m.2.Holds [r]

theorem course_sane (h : s.Coherent [] guest) (hw : s.Holds waiting)
    (ht : (cascade limit waiting fired t s).1.truncated = false) :
    (cascade limit waiting fired t s).2.Coherent [] guest ∧
      ∀ m ∈ course limit waiting fired t s, Move.Sane guest m := by
  refine cascade_induction (motive := fun waiting _ _ s c a ↦ s.Coherent [] guest →
    s.Holds waiting → a.2.Coherent [] guest ∧ ∀ m ∈ c, Move.Sane guest m) ?_ ?_ ?_ ?_ ht h hw
  · exact fun _ _ _ _ h _ ↦ ⟨h, nofun⟩
  · intro fired t s id field pending c a hp ih h _
    obtain ⟨ha, hc⟩ := ih (h.take hp) (h.holds_routesFor id field)
    exact ⟨ha, List.forall_mem_cons.mpr ⟨⟨h, pending, hp⟩, hc⟩⟩
  · intro r waiting fired t s c a _ ih h ⟨sp, x, hx, hm⟩
    obtain ⟨ha, hc⟩ := ih h ⟨sp, x, hx, fun q hq ↦ hm q (List.mem_cons_of_mem _ hq)⟩
    exact ⟨ha, List.forall_mem_cons.mpr ⟨⟨h, trivial⟩, hc⟩⟩
  · intro r waiting fired t s c a _ ih h hw
    obtain ⟨ha, hc⟩ := ih (Edited.fire h r).coherent (hw.fire h)
    obtain ⟨sp, x, hx, hm⟩ := hw
    exact ⟨ha, List.forall_mem_cons.mpr
      ⟨⟨h, sp, x, hx, fun q hq ↦ hm q (List.mem_cons.mpr (.inl (List.mem_singleton.mp hq)))⟩, hc⟩⟩

theorem cascade_eq_replay (ht : (cascade limit waiting fired t s).1.truncated = false) :
    cascade limit waiting fired t s = (course limit waiting fired t s).replay (t, s) := by
  refine cascade_induction (motive := fun _ _ t s c a ↦ a = c.replay (t, s)) ?_ ?_ ?_ ?_ ht
  · exact fun _ _ _ _ ↦ rfl
  · intro fired t s id field pending c a hp ih
    rw [ih, Course.replay, Course.replay, List.foldl_cons, Move.play, hp, List.tail_cons]
  · exact fun _ _ _ _ _ _ _ _ ih ↦ ih
  · exact fun _ _ _ _ _ _ _ _ ih ↦ ih

/-- A move is recorded with the scene that the moves before it led to. -/
theorem course_recorded (ht : (cascade limit waiting fired t s).1.truncated = false)
    {after : Course} {m : Move} {σ : Scene} : ∀ before,
    course limit waiting fired t s = before ++ (m, σ) :: after →
      (Course.replay before (t, s)).2 = σ := by
  refine cascade_induction (motive := fun _ _ t s c _ ↦ ∀ before,
    c = before ++ (m, σ) :: after → (Course.replay before (t, s)).2 = σ) ?_ ?_ ?_ ?_ ht
  · intro fired t s hp before hc
    simp at hc
  · intro fired t s id field pending c a hp ih before hc
    cases before with
    | nil => exact (Prod.mk.inj (List.cons.inj hc).1).2
    | cons b before =>
      obtain ⟨rfl, hc'⟩ := List.cons.inj hc
      rw [Course.replay, List.foldl_cons, Move.play, hp, List.tail_cons]
      exact ih before hc'
  all_goals
    intro r waiting fired t s c a _ ih before hc
    cases before with
    | nil => exact (Prod.mk.inj (List.cons.inj hc).1).2
    | cons b before =>
      obtain ⟨rfl, hc'⟩ := List.cons.inj hc
      exact ih before hc'

theorem nodup_fired (ht : (cascade limit waiting fired t s).1.truncated = false) :
    (course limit waiting fired t s).fired.Nodup ∧
      ∀ r ∈ (course limit waiting fired t s).fired, r ∉ fired := by
  refine cascade_induction (motive := fun _ fired _ _ c _ ↦
    c.fired.Nodup ∧ ∀ r ∈ c.fired, r ∉ fired) ?_ ?_ ?_ ?_ ht
  · exact fun _ _ _ _ ↦ ⟨List.nodup_nil, nofun⟩
  · exact fun _ _ _ _ _ _ _ _ _ ih ↦ ih
  · exact fun _ _ _ _ _ _ _ _ ih ↦ ih
  · intro r waiting fired t s c a hr ⟨hn, hd⟩
    rw [Course.fired_fire]
    refine ⟨List.nodup_cons.mpr ⟨fun hm ↦ hd r hm List.mem_cons_self, hn⟩, ?_⟩
    exact List.forall_mem_cons.mpr ⟨hr, fun q hq hf ↦ hd q hq (List.mem_cons_of_mem _ hf)⟩

/-- The routes that fire are those that wait and those that a change taken sets off. -/
theorem mem_fired_iff (r : Route)
    (ht : (cascade limit waiting fired t s).1.truncated = false) :
    r ∈ (course limit waiting fired t s).fired ∨ r ∈ fired ↔
      r ∈ fired ∨ r ∈ waiting ∨ (course limit waiting fired t s).SetsOff r := by
  refine cascade_induction (motive := fun waiting fired _ _ c _ ↦
    (r ∈ c.fired ∨ r ∈ fired ↔ r ∈ fired ∨ r ∈ waiting ∨ c.SetsOff r)) ?_ ?_ ?_ ?_ ht
  · simp [Course.fired, Course.SetsOff]
  · intro fired t s id field pending c a hp ih
    rw [Course.fired_take, Course.setsOff_take, ih]
    simp
  · intro q waiting fired t s c a hq ih
    rw [Course.fired_skip, Course.setsOff_skip, ih, List.mem_cons]
    constructor
    · exact Or.imp_right (Or.imp_left .inr)
    · rintro (hr | (rfl | hr) | hr)
      · exact .inl hr
      · exact .inl hq
      · exact .inr (.inl hr)
      · exact .inr (.inr hr)
  · intro q waiting fired t s c a hq ih
    rw [Course.fired_fire, Course.setsOff_fire]
    simp only [List.mem_cons] at ih ⊢
    grind

theorem pending_cascade (ht : (cascade limit waiting fired t s).1.truncated = false) :
    (cascade limit waiting fired t s).2.pending = [] :=
  cascade_induction (motive := fun _ _ _ _ _ a ↦ a.2.pending = []) (fun _ _ _ hp ↦ hp)
    (fun _ _ _ _ _ _ _ _ _ ih ↦ ih) (fun _ _ _ _ _ _ _ _ ih ↦ ih)
    (fun _ _ _ _ _ _ _ _ ih ↦ ih) ht

/-- A cascade that is cut short leaves no change queued either. -/
theorem pending_cascade_eq_nil (limit : Nat) (waiting fired : List Route) (t : Tally) (s : Scene) :
    (cascade limit waiting fired t s).2.pending = [] := by
  induction waiting, fired, t, s using cascade.induct limit with
  | case1 fired t s r waiting hr ih =>
    rw [cascade, if_pos hr]
    exact ih
  | case2 fired t s r waiting hr hl =>
    rw [cascade, if_neg hr, if_pos hl]
    rfl
  | case3 fired t s r waiting hr hl delivered s' hf ih =>
    rw [cascade, if_neg hr, if_neg hl, hf]
    exact ih
  | case4 fired t s hp => rw [cascade_settled hp, hp]
  | case5 fired t s id field pending hp ih =>
    rw [cascade_take hp]
    exact ih

/-- After the moves from `s` to `s'`, what was queued or announced has been taken in its turn or is
still queued, unless its node is gone. -/
def Accounts (s : Scene) (c : Course) (s' : Scene) : Prop :=
  ∃ js, s'.journal = s.journal ++ js ∧
    (c.taken ++ s'.pending).Sublist (s.pending ++ Journal.changes js) ∧
    ((s.pending ++ Journal.changes js).filter fun p ↦ s'.hasNode p.1) =
      (c.taken ++ s'.pending).filter fun p ↦ s'.hasNode p.1

theorem Accounts.refl (s : Scene) : s.Accounts [] s := ⟨[], by simp [Course.taken]⟩

theorem Accounts.take {pending : List (NodeId × Nat)} {c : Course}
    (hp : s.pending = (id, field) :: pending) (h : Accounts { s with pending } c s') :
    s.Accounts ((.take id field, s) :: c) s' := by
  obtain ⟨js, hj, hs, hf⟩ := h
  refine ⟨js, hj, ?_, ?_⟩
  · rw [hp]
    exact hs.cons_cons _
  · rw [hp, Course.taken_take, List.cons_append, List.cons_append, List.filter_cons,
      List.filter_cons, hf]

theorem Accounts.fire {c : Course} (he : Edited guest r.dest s (s.fire r).2)
    (hn : ∀ id, s'.hasNode id → (s.fire r).2.hasNode id) (h : Accounts (s.fire r).2 c s') :
    s.Accounts ((.fire r, s) :: c) s' := by
  obtain ⟨js, hj, hs, hf⟩ := h
  obtain ⟨ks, hk, hp⟩ := he.queue
  refine ⟨ks ++ js, by rw [hj, hk, List.append_assoc], ?_, ?_⟩
  · rw [Course.taken_fire, Journal.changes_append, ← List.append_assoc]
    refine hs.trans (List.Sublist.append ?_ (List.Sublist.refl _))
    rw [hp]
    exact List.filter_sublist
  · -- who is there in the end was there after the firing
    have hl : ∀ p : NodeId × Nat,
        (s'.hasNode p.1 && (s.fire r).2.hasNode p.1) = s'.hasNode p.1 := by
      intro p
      cases hl : s'.hasNode p.1 with
      | false => rfl
      | true => simp [hn _ hl]
    rw [Course.taken_fire, ← hf, hp, Journal.changes_append, ← List.append_assoc]
    simp only [List.filter_append, List.filter_filter, hl]

/-- At every moment of a cascade the queue is accounted for. -/
theorem course_accounts (h : s.Coherent [] guest) (hw : s.Holds waiting)
    (ht : (cascade limit waiting fired t s).1.truncated = false) : ∀ before after,
    course limit waiting fired t s = before ++ after →
      (∀ id, (Course.replay before (t, s)).2.hasNode id → s.hasNode id) ∧
        s.Accounts before (Course.replay before (t, s)).2 := by
  refine cascade_induction (motive := fun waiting _ t s c _ ↦ s.Coherent [] guest →
    s.Holds waiting → ∀ before after, c = before ++ after →
      (∀ id, (Course.replay before (t, s)).2.hasNode id → s.hasNode id) ∧
        s.Accounts before (Course.replay before (t, s)).2) ?_ ?_ ?_ ?_ ht h hw
  · intro fired t s hp _ _ before after hc
    cases (List.append_eq_nil_iff.mp hc.symm).1
    exact ⟨fun _ hn ↦ hn, .refl s⟩
  · intro fired t s id field pending c a hp ih h _ before after hc
    cases before with
    | nil => exact ⟨fun _ hn ↦ hn, .refl s⟩
    | cons m before =>
      obtain ⟨rfl, hc'⟩ := List.cons.inj hc
      obtain ⟨hn, ha⟩ := ih (h.take hp) (h.holds_routesFor id field) before after hc'
      rw [Course.replay, List.foldl_cons, Move.play, hp, List.tail_cons]
      exact ⟨hn, ha.take hp⟩
  · intro q waiting fired t s c a _ ih h ⟨sp, x, hx, hm⟩ before after hc
    cases before with
    | nil => exact ⟨fun _ hn ↦ hn, .refl s⟩
    | cons m before =>
      obtain ⟨rfl, hc'⟩ := List.cons.inj hc
      exact ih h ⟨sp, x, hx, fun q hq ↦ hm q (List.mem_cons_of_mem _ hq)⟩ before after hc'
  · intro q waiting fired t s c a _ ih h hw before after hc
    cases before with
    | nil => exact ⟨fun _ hn ↦ hn, .refl s⟩
    | cons m before =>
      obtain ⟨rfl, hc'⟩ := List.cons.inj hc
      have edited := Edited.fire h q
      obtain ⟨hn, ha⟩ := ih edited.coherent (hw.fire h) before after hc'
      exact ⟨fun id hid ↦ edited.hasNode (hn id hid), ha.fire edited hn⟩

end course

end Scene

end SceneGraph
