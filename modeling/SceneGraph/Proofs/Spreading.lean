import Mathlib
import SceneGraph.Proofs.Bounding
import SceneGraph.Proofs.Settling
import SceneGraph.Proofs.Voicing

/-!
How one change spreads along the routes between plain nodes: a search from its field, in which a
field that is reached again sends nothing again.
-/

namespace SceneGraph

section lists

variable {α κ : Type} [DecidableEq κ]

/-- The entries with their keys in a set, counted by their keys. -/
theorem sum_length_filter (key : α → κ) (keys : Finset κ) (l : List α) :
    ∑ k ∈ keys, (l.filter fun a ↦ key a = k).length = (l.filter fun a ↦ key a ∈ keys).length := by
  induction l with
  | nil => simp
  | cons a l ih =>
    have first : ∑ k ∈ keys, ((if key a = k then [a] else []) : List α).length =
        ((if key a ∈ keys then [a] else []) : List α).length := by
      simp only [apply_ite List.length, List.length_singleton, List.length_nil]
      exact Finset.sum_ite_eq keys (key a) fun _ ↦ 1
    have split (p : α → Bool) : (a :: l).filter p = (if p a then [a] else []) ++ l.filter p := by
      rw [List.filter_cons]
      split <;> simp
    simp only [split, List.length_append, Finset.sum_add_distrib, decide_eq_true_eq, first, ih]

/-- What is visited more than once, weighed. -/
theorem sum_visits (weight : κ → Nat) (visits : List κ) :
    (visits.map weight).sum = ∑ k ∈ visits.toFinset, weight k +
      ∑ k ∈ visits.toFinset, ((visits.filter fun j ↦ j = k).length - 1) * weight k := by
  rw [Finset.sum_list_map_count, ← Finset.sum_add_distrib]
  refine Finset.sum_congr rfl fun k hk ↦ ?_
  have count : visits.count k = (visits.filter fun j ↦ j = k).length := by
    rw [List.count_eq_countP, List.countP_eq_length_filter]
    rfl
  have visited : 0 < visits.count k := List.count_pos_iff.mpr (List.mem_toFinset.mp hk)
  rw [count] at visited ⊢
  rw [smul_eq_mul, Nat.add_comm, ← Nat.succ_mul, Nat.succ_eq_add_one, Nat.sub_add_cancel visited]

end lists

namespace Scene

variable {s s' s₀ m : Scene} {guest : Option SpaceId} {k k₀ : Port} {r : Route} {done : List Port}
  {limit : Nat} {move : Move} {a b z : Stand} {c : Course}

/-- Routes lead from the first field to the second. -/
def Reaches (s : Scene) : Port → Port → Prop :=
  Relation.ReflTransGen fun j k ↦ ∃ r, s.Carries r ∧ r.origin = j ∧ r.target = k

theorem changes_iff_reaches (hq : s.pending = [k₀]) : s.Changes k ↔ s.Reaches k₀ k := by
  constructor
  · intro hk
    induction hk with
    | queued hk =>
      rw [hq, List.mem_singleton] at hk
      exact hk ▸ .refl
    | along hr _ ih => exact ih.tail ⟨_, hr, rfl, rfl⟩
  · intro hk
    induction hk with
    | refl => exact .queued (hq ▸ List.mem_singleton_self _)
    | tail _ hr ih =>
      obtain ⟨r, hr, rfl, rfl⟩ := hr
      exact .along hr ih

section routes

/-- The routes that leave a field. -/
def leaving (s : Scene) (k : Port) : List Route := s.routes.filter fun r ↦ r.origin = k

theorem Coherent.nodup_routes (h : s.Coherent [] guest) : s.routes.Nodup := by
  refine List.nodup_flatMap.mpr ⟨fun i _ ↦ h.nodup_routesOf ⟨i⟩, ?_⟩
  refine List.nodup_range.pairwise_of_forall_ne fun i _ j _ hij r hi hj ↦ hij ?_
  exact congrArg SpaceId.number (h.space_eq_of_mem_routesOf hi hj)

theorem Coherent.nodup_routesFor (h : s.Coherent [] guest) (id : NodeId) (field : Nat) :
    (s.routesFor id field).Nodup := by
  unfold routesFor
  split
  · exact List.nodup_nil
  · next x hx =>
    obtain ⟨n, -, hx⟩ := Option.bind_eq_some_iff.mp hx
    rw [Space.routesFrom, (h.wired hx).departures]
    exact (h.wired hx).routes_nodup.filter _

/-- A change that is taken has the routes wait that left its field when the cascade began. -/
theorem length_routesFor (h₀ : s₀.Coherent [] guest) (h : s.Coherent [] guest)
    (hc : ∀ r, s.Carries r ↔ s₀.Carries r) :
    (s.routesFor k.1 k.2).length = (s₀.leaving k).length := by
  have same : (s.routesFor k.1 k.2).Perm (s₀.leaving k) :=
    (List.perm_ext_iff_of_nodup (h.nodup_routesFor ..) (h₀.nodup_routes.filter _)).mpr fun r ↦ by
      rw [mem_routesFor_iff h, hc, List.mem_filter, mem_routes, decide_eq_true_eq]
  exact same.length_eq

end routes

/-- A delivery to a plain node arrives. -/
theorem Plain.delivered (h : s.Coherent [] none) (hp : s.Plain) (hr : s.Carries r) :
    (s.fire r).1 = true := by
  obtain ⟨v, -, ⟨s', -, hf⟩ | ⟨n, d, reason, hn, -, he, -⟩⟩ := hr.holds.delivers h
  · rw [hf]
  · rw [(hp _ n hn).passive] at he
    cases he

/-- How a cascade among plain nodes from `s₀` stands, once the changes `done` were taken. The routes
from their fields fired, were passed or wait. -/
structure Spreads (s₀ : Scene) (done : List Port) (a : Stand) : Prop where
  underway : Underway s₀ done a.waiting a.fired a.scene
  space : ∀ sp, a.scene.space? sp = s₀.space? sp
  errors : a.tally.errors = 0
  spent : a.tally.fired + a.tally.loops + a.waiting.length =
    (done.map fun k ↦ (s₀.leaving k).length).sum

theorem Spreads.advances (h₀ : s₀.Coherent [] none) (h : Spreads s₀ done a)
    (hm : a.Advances limit move b) : ∃ done', Spreads s₀ done' b := by
  obtain ⟨underway, space, errors, spent⟩ := h
  cases hm with
  | @take fired t s id field pending hp =>
    refine ⟨done ++ [(id, field)], underway.take hp, space, errors, ?_⟩
    have waiting : (s.routesFor id field).length = (s₀.leaving (id, field)).length :=
      length_routesFor (k := (id, field)) h₀ underway.coherent underway.carries
    rw [List.map_append, List.sum_append, ← spent, List.map_singleton, List.sum_singleton,
      ← waiting, List.length_nil, Nat.add_zero]
  | skip hr =>
    refine ⟨done, underway.skip hr, space, errors, ?_⟩
    rw [← spent, List.length_cons]
    dsimp only
    omega
  | @fire r waiting fired t s hr hl =>
    have carried := (underway.carries r).mpr (underway.fresh r List.mem_cons_self).1
    have delivered := underway.plain.delivered underway.coherent carried
    obtain ⟨v, -, stored⟩ := underway.plain.fire underway.coherent carried
    refine ⟨done, underway.fire hr, fun sp ↦ (stored.space sp).trans (space sp), ?_, ?_⟩
    · rw [delivered]
      exact errors
    · rw [← spent, List.length_cons]
      dsimp only [Tally.count]
      omega

theorem Spreads.leads (h₀ : s₀.Coherent [] none) (h : Spreads s₀ done a)
    (hl : Stand.Leads limit a c z) : ∃ done', Spreads s₀ done' z := by
  induction hl generalizing done with
  | refl => exact ⟨done, h⟩
  | move hm _ ih =>
    obtain ⟨done', h'⟩ := h.advances h₀ hm
    exact ih h'

section flow

variable {held : Port → Option Value} {rs : List Route}

/-- What fires after a route into its source passes on what the first field holds. -/
theorem flow_of_fed (fed : ∀ r earlier, r :: earlier <:+ rs →
    r.origin = k₀ ∨ ∃ q ∈ earlier, q.target = r.origin) :
    flow held rs k = if k = k₀ ∨ ∃ q ∈ rs, q.target = k then held k₀ else held k := by
  induction rs generalizing k with
  | nil =>
    rw [flow]
    split
    · next hk =>
      rcases hk with rfl | ⟨q, hq, -⟩
      · rfl
      · cases hq
    · rfl
  | cons r rs ih =>
    have ih {k : Port} := ih (k := k) fun q earlier hs ↦
      fed q earlier (hs.trans (List.suffix_cons r rs))
    rw [flow]
    by_cases hk : k = r.target
    · have origin := fed r rs List.suffix_rfl
      rw [if_pos hk, ih, if_pos (origin.imp_left id),
        if_pos (.inr ⟨r, List.mem_cons_self, hk.symm⟩)]
    · rw [if_neg hk, ih]
      simp [Ne.symm hk]

end flow

/-- The change of the field `k₀` has spread to the fields `reached`. -/
structure Spread (s : Scene) (k₀ : Port) (reached : Finset Port) (t : Tally) (s' : Scene) :
    Prop where
  mem_reached : ∀ k, k ∈ reached ↔ s.Reaches k₀ k
  held : ∀ k, s'.held? k = if k ∈ reached then s.held? k₀ else s.held? k
  flagged : ∀ id i, s'.flagged id i ↔
    s.flagged id i ∨ ∃ r, s.Carries r ∧ r.origin ∈ reached ∧ r.target = (id, i)
  fired : t.fired = (s.routes.filter fun r ↦ r.origin ∈ reached).length
  errors : t.errors = 0
  truncated : t.truncated = false
  /-- A field sends once, and each visit after the first meets all its routes again. -/
  loops : t.loops = ∑ k ∈ reached,
    ((s.routes.filter fun r ↦ r.origin ∈ reached ∧ r.target = k).length +
      (if k = k₀ then 1 else 0) - 1) * (s.leaving k).length

theorem Spread.congr {t : Tally} {reached : Finset Port} (h : Spread s k₀ reached t s')
    (nodes : s.nodes = s₀.nodes) (spaces : s.spaces = s₀.spaces) : Spread s₀ k₀ reached t s' := by
  have node (id : NodeId) : s.node? id = s₀.node? id := node?_congr nodes id
  have held : s.held? = s₀.held? := held?_congr node
  have carries (r : Route) : s.Carries r ↔ s₀.Carries r :=
    carries_congr fun sp ↦ space?_congr spaces sp
  have routes : s.routes = s₀.routes := routes_congr spaces
  obtain ⟨reaches, held', flagged, fired, errors, truncated, loops⟩ := h
  refine ⟨fun k ↦ ?_, fun k ↦ ?_, fun id i ↦ ?_, ?_, errors, truncated, ?_⟩
  · rw [reaches, Reaches, Reaches]
    simp only [carries]
  · rw [held', held]
  · rw [flagged, Scene.flagged, Scene.flagged, node]
    simp only [carries]
  · rw [fired, routes]
  · rw [loops]
    simp only [leaving, routes]

theorem Spread.emit {t : Tally} {reached : Finset Port} (h : Spread s k₀ reached t s')
    (e : Event) : Spread s k₀ reached t (s'.emit e) :=
  ⟨h.mem_reached, h.held, h.flagged, h.fired, h.errors, h.truncated, h.loops⟩

/-- A cascade cannot be cut short if every route may fire once. -/
theorem Spreads.not_cut (h : Spreads s₀ done z) (hf : z.tally.fired = z.fired.length)
    (hl : s₀.routes.length ≤ limit) : ¬z.Cut limit := by
  rintro ⟨r, waiting, hw, hr, hc⟩
  have fresh := (h.underway.fresh r (hw ▸ List.mem_cons_self)).1
  have distinct : (r :: z.fired).Nodup := List.nodup_cons.mpr ⟨hr, h.underway.once⟩
  have carried : r :: z.fired ⊆ s₀.routes := List.cons_subset.mpr
    ⟨mem_routes.mpr fresh, fun q hq ↦ mem_routes.mpr (h.underway.sent q hq).1⟩
  have bound := (List.subperm_of_subset distinct carried).length_le
  rw [List.length_cons, ← hf] at bound
  omega

/-- The nodes of a scene are those that its spaces list. -/
theorem node?_eq_none_iff_of_space? (h : s.Coherent [] guest) (h' : s'.Coherent [] guest)
    (hx : ∀ sp, s'.space? sp = s.space? sp) (id : NodeId) :
    s'.node? id = none ↔ s.node? id = none := by
  have kept {s s' : Scene} (h : s.Coherent [] guest) (h' : s'.Coherent [] guest)
      (hx : ∀ sp, s'.space? sp = s.space? sp) (hn : s'.node? id = none) : s.node? id = none := by
    rw [Option.eq_none_iff_forall_ne_some]
    intro n he
    obtain ⟨x, hs, hid⟩ := h.home he
    obtain ⟨n', hn', -⟩ := h'.housed.lodged ((hx n.space).trans hs) hid
    cases hn.symm.trans hn'
  exact ⟨kept h h' hx, kept h' h fun sp ↦ (hx sp).symm⟩

namespace Spreads

section settled

variable (h : Spreads s₀ done z) (empty : z.scene.pending = []) (waiting : z.waiting = [])
  (hq : s₀.pending = [k₀])

include h empty

section fired

include waiting

theorem mem_fired_iff (r : Route) : r ∈ z.fired ↔ s₀.Carries r ∧ r.origin ∈ done.toFinset := by
  have underway := h.underway
  rw [waiting] at underway
  rw [underway.mem_fired_iff empty, List.mem_toFinset, underway.mem_done_iff_changes empty]

theorem length_fired (h₀ : s₀.Coherent [] none) (p : Route → Prop) [DecidablePred p] :
    (z.fired.filter p).length =
      (s₀.routes.filter fun r ↦ r.origin ∈ done.toFinset ∧ p r).length := by
  refine List.Perm.length_eq ((List.perm_ext_iff_of_nodup (h.underway.once.filter _)
    (h₀.nodup_routes.filter _)).mpr fun r ↦ ?_)
  simp only [List.mem_filter, h.mem_fired_iff empty waiting, mem_routes, decide_eq_true_eq,
    and_assoc]

theorem flagged (h₀ : s₀.Coherent [] none) (strokes : Strokes .still s₀ z.scene) (id : NodeId)
    (i : Nat) : z.scene.flagged id i ↔
      s₀.flagged id i ∨ ∃ r, s₀.Carries r ∧ r.origin ∈ done.toFinset ∧ r.target = (id, i) := by
  obtain ⟨js, voiced, -⟩ := strokes.voiced
  have heard : js = (z.fired.map Route.target).reverse := by
    obtain ⟨es, he, rfl⟩ := voiced.journal
    obtain ⟨es', he', hes⟩ := h.underway.journal
    rw [List.append_cancel_left (he.symm.trans he'), hes]
  have into : (id, i) ∈ js ↔
      ∃ r, s₀.Carries r ∧ r.origin ∈ done.toFinset ∧ r.target = (id, i) := by
    simp only [heard, List.mem_reverse, List.mem_map, h.mem_fired_iff empty waiting, and_assoc]
  cases hn : z.scene.node? id with
  | none =>
    have gone := (node?_eq_none_iff_of_space? h₀ h.underway.coherent h.space id).mp hn
    rw [flagged_of_none hn, flagged_of_none gone]
    simp only [Bool.false_eq_true, false_or, false_iff]
    rintro ⟨r, ⟨sp, x, hx, hr⟩, -, ht⟩
    obtain ⟨n, hd, -⟩ := h₀.housed.lodged hx ((h₀.wired hx).ends r hr).2
    have dest : r.dest = id := congrArg Prod.fst ht
    rw [dest, gone] at hd
    cases hd
  | some n => rw [flagged_of_node? hn, voiced.flags hn, into]

end fired

include hq

theorem done_eq : done = k₀ :: (z.fired.map Route.target).reverse := by
  have queue := h.underway.queue
  rwa [empty, List.append_nil, hq] at queue

theorem length_visits (k : Port) : (done.filter fun j ↦ j = k).length =
    (z.fired.filter fun r ↦ r.target = k).length + if k = k₀ then 1 else 0 := by
  rw [h.done_eq empty hq, List.filter_cons, List.filter_reverse, List.filter_map]
  by_cases hk : k₀ = k
  · simp [hk, Function.comp_def]
  · simp [hk, Ne.symm hk, Function.comp_def]

/-- A field that a route leads to has what the first field held when the cascade began. -/
theorem held (k : Port) :
    z.scene.held? k = if k ∈ done.toFinset then s₀.held? k₀ else s₀.held? k := by
  have fed : ∀ r earlier, r :: earlier <:+ z.fired →
      r.origin = k₀ ∨ ∃ q ∈ earlier, q.target = r.origin := by
    refine fun r earlier hs ↦ or_iff_not_imp_left.mpr fun ho ↦
      (h.underway.timely r earlier hs).fed ?_
    rwa [hq, List.mem_singleton]
  rw [h.underway.held, flow_of_fed fed]
  simp [h.done_eq empty hq]

include waiting

theorem mem_done_iff (k : Port) : k ∈ done.toFinset ↔ s₀.Reaches k₀ k := by
  have underway := h.underway
  rw [waiting] at underway
  rw [List.mem_toFinset, underway.mem_done_iff_changes empty, changes_iff_reaches hq]

/-- The tally of the cascade, read off the routes. -/
theorem counts (h₀ : s₀.Coherent [] none) (hf : z.tally.fired = z.fired.length) :
    z.tally.fired = (s₀.routes.filter fun r ↦ r.origin ∈ done.toFinset).length ∧
      z.tally.loops = ∑ k ∈ done.toFinset,
        ((s₀.routes.filter fun r ↦ r.origin ∈ done.toFinset ∧ r.target = k).length +
          (if k = k₀ then 1 else 0) - 1) * (s₀.leaving k).length := by
  have fired : z.tally.fired =
      (s₀.routes.filter fun r ↦ r.origin ∈ done.toFinset).length := by
    have every := h.length_fired empty waiting h₀ fun _ ↦ True
    simpa [hf] using every
  have visits (k : Port) : (done.filter fun j ↦ j = k).length =
      (s₀.routes.filter fun r ↦ r.origin ∈ done.toFinset ∧ r.target = k).length +
        if k = k₀ then 1 else 0 := by
    rw [← h.length_fired empty waiting h₀ fun r ↦ r.target = k, h.length_visits empty hq]
  have once : ∑ k ∈ done.toFinset, (s₀.leaving k).length = z.tally.fired := by
    rw [fired]
    exact sum_length_filter Route.origin done.toFinset s₀.routes
  have weighed := sum_visits (fun k ↦ (s₀.leaving k).length) done
  rw [← h.spent, waiting, once] at weighed
  simp only [visits] at weighed
  exact ⟨fired, Nat.add_left_cancel weighed⟩

end settled

end Spreads

theorem Plain.cascade_spreads (h : s.Coherent [] none) (hp : s.Plain) (hq : s.pending = [k₀])
    (hl : s.routes.length ≤ limit) {t : Tally} (fired : t.fired = 0) (errors : t.errors = 0)
    (loops : t.loops = 0) (truncated : t.truncated = false) : ∃ reached,
      Spread s k₀ reached (cascade limit [] [] t s).1 (cascade limit [] [] t s).2 := by
  let a : Stand := ⟨[], [], t, s⟩
  obtain ⟨z, leads, result⟩ := Stand.exists_ends limit a
  have start : Spreads s [] a := by
    have begun : Underway s [] [] [] s :=
      .start h hp (fun _ ↦ rfl) (fun _ ↦ rfl) rfl ⟨[], (List.append_nil _).symm, rfl⟩
    refine ⟨begun, fun _ ↦ rfl, errors, ?_⟩
    rw [fired, loops]
    rfl
  obtain ⟨done, spreads⟩ := start.leads h leads
  have counted : z.tally.fired = z.fired.length := by
    rw [leads.tally_fired, leads.fired_eq, List.length_append, List.length_reverse, fired]
    exact Nat.zero_add _
  obtain ⟨waiting, empty, run⟩ := result.resolve_right fun cut ↦ spreads.not_cut counted hl cut.1
  have strokes : Strokes .still s (a.run limit).2 :=
    (Touches.cascade h trivial limit [] [] t).strokes
  change ∃ reached, Spread s k₀ reached (a.run limit).1 (a.run limit).2
  rw [run] at strokes ⊢
  obtain ⟨all, again⟩ := spreads.counts empty waiting hq h counted
  exact ⟨done.toFinset, {
    mem_reached := spreads.mem_done_iff empty waiting hq
    held := spreads.held empty hq
    flagged := spreads.flagged empty waiting h strokes
    fired := all
    errors := spreads.errors
    truncated := leads.truncated_eq.trans truncated
    loops := again }⟩

/-- Among plain nodes a tick begins with the scene as it was. -/
theorem Plain.opening {requested time : Double} (h : s.Coherent [] none) (hp : s.Plain)
    (ha : s.advanceClock requested = .ok (time, m)) :
    (m.opening time).scene.nodes = s.nodes ∧ (m.opening time).scene.spaces = s.spaces ∧
      (m.opening time).scene.pending = s.pending := by
  have clocked : m.nodes = s.nodes ∧ m.spaces = s.spaces ∧ m.pending = s.pending := by
    rcases advanceClock_cases ha with ⟨text, rfl⟩ | rfl <;> exact ⟨rfl, rfl, rfl⟩
  have plain : m.Plain := hp.congr fun id ↦ node?_congr clocked.1 id
  have drained := plain.drainLoads (h.advanceClock ha)
  have still : ({ m with loader := m.drainLoads.2.loader } : Scene).tickSensors = _ :=
    Plain.tickSensors plain
  have scene : (m.opening time).scene = { m with loader := m.drainLoads.2.loader } := by
    rw [← still]
    exact congrArg (fun a ↦ a.2.tickSensors) drained
  rw [scene]
  exact clocked

/-- One queued change spreads in a tick to the fields that routes lead to from its field, and to no
others, if each route may fire once. -/
theorem tick_spreads {requested time : Double} (h : s.Reachable) (hp : s.Plain)
    (hq : s.pending = [k₀]) (hl : s.routes.length ≤ s.settings.cascadeSteps)
    (ha : s.advanceClock requested = .ok (time, m)) : ∃ t s' reached,
      s.tick [] requested = .ok (t, s') ∧ Spread s k₀ reached t s' := by
  obtain ⟨nodes, spaces, pending⟩ := hp.opening h.coherent ha
  have opened : m.opening time ∈ s.outsets [] requested := by
    rw [outsets_eq ha]
    exact List.mem_singleton_self _
  have limit := limit_of_mem_outsets h.coherent opened
  have coherent := h.coherent.outsets _ opened
  have plain : (m.opening time).scene.Plain := hp.congr fun id ↦ node?_congr nodes id
  have routes : (m.opening time).scene.routes.length ≤ (m.opening time).limit := by
    rwa [routes_congr spaces, limit]
  obtain ⟨reached, spread⟩ := plain.cascade_spreads coherent (pending.trans hq) routes
    (t := (m.opening time).tally) rfl rfl rfl rfl
  exact ⟨_, _, reached, tick_eq _ ha, (spread.congr nodes spaces).emit _⟩

/-- Three cells with routes in a ring and one across. The first cell changes. -/
def ring : Scene :=
  let s := (chain.linkCells 2 0).linkCells 0 2
  s.after (s.setValue (.issued 0) 0 (.bool true))

theorem reachable_ring : ring.Reachable :=
  ((reachable_chain.linkCells 2 0).linkCells 0 2).after fun _ hs ↦ .setValue hs

theorem plain_ring : ring.Plain := by
  intro id n hn
  obtain ⟨k, rfl, hk⟩ := issued_of_node? hn
  have made : n.type = cell ∧ n.inSetup = false := by
    match k, hk with
    | 0, _ | 1, _ | 2, _ =>
      cases hn
      exact ⟨rfl, rfl⟩
  refine ⟨?_, ?_, ?_, made.2⟩ <;> rw [made.1] <;> simp [cell, NodeType.has]

/-- The change comes back to the first cell, and it comes to the last cell twice. -/
theorem tick_spreads_ring : ∃ t s' reached, ring.Reachable ∧ ring.Plain ∧
    ring.pending = [(.issued 0, 0)] ∧ ring.tick [] 0 = .ok (t, s') ∧
    Spread ring (.issued 0, 0) reached t s' ∧ t.fired = 4 ∧ t.loops = 3 := by
  have queue : ring.pending = [(.issued 0, 0)] := by cbv
  have routes : ring.routes.length ≤ ring.settings.cascadeSteps := by
    have four : ring.routes.length = 4 := by cbv
    have steps : ring.settings.cascadeSteps = 100000 := by cbv
    omega
  have clock : ∃ a, ring.advanceClock 0 = .ok a := ⟨_, rfl⟩
  have run : (ring.tick [] 0).toOption.map (fun a ↦ (a.1.fired, a.1.loops)) = some (4, 3) := by
    cbv
  obtain ⟨⟨time, m⟩, ha⟩ := clock
  obtain ⟨t, s', reached, ht, spread⟩ := tick_spreads reachable_ring plain_ring queue routes ha
  rw [ht] at run
  obtain ⟨fired, loops⟩ := Prod.mk.inj (Option.some.inj run)
  exact ⟨t, s', reached, reachable_ring, plain_ring, queue, ht, spread, fired, loops⟩

end Scene

end SceneGraph
