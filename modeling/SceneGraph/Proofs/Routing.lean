import Mathlib.Data.List.Dedup
import SceneGraph.Proofs.Firing
import SceneGraph.Proofs.Operation

/-!
The routes of a space through a story: where they stand, and in which order.
-/

namespace SceneGraph

section lists

variable {α : Type} [DecidableEq α] {before after added : List α}

theorem filter_mem_of_sublist (h : after.Sublist before) (hb : before.Nodup) :
    before.filter (· ∈ after) = after := by
  have kept : (after.filter (· ∈ after)).Sublist (before.filter (· ∈ after)) := h.filter _
  rw [List.filter_eq_self.mpr fun a ha ↦ decide_eq_true ha] at kept
  have same : after.Perm (before.filter (· ∈ after)) :=
    (List.perm_ext_iff_of_nodup (hb.sublist h) (hb.filter _)).mpr fun a ↦ by
      simpa using fun ha ↦ h.subset ha
  exact (kept.eq_of_length same.length_eq).symm

/-- What only loses entries, or only gains some at its end, keeps its order. -/
theorem kept_append_new (h : after.Sublist before ∨ before <+: after) (hb : before.Nodup)
    (ha : after.Nodup) :
    after = before.filter (· ∈ after) ++ after.filter (· ∉ before) := by
  rcases h with h | ⟨added, rfl⟩
  · have none_new : after.filter (· ∉ before) = [] :=
      List.filter_eq_nil_iff.mpr fun a ha ↦ by simpa using h.subset ha
    rw [filter_mem_of_sublist h hb, none_new, List.append_nil]
  · have apart := List.disjoint_of_nodup_append ha
    rw [List.filter_append, List.filter_eq_self.mpr (by simp +contextual),
      List.filter_eq_nil_iff.mpr (by simp), List.nil_append,
      List.filter_eq_self.mpr fun a ha ↦ by simpa using fun hb ↦ apart hb ha]

theorem filter_dedup_append (p : α → Bool) (before : List α) (ha : added.Nodup) :
    (before ++ added).dedup.filter p =
      before.dedup.filter (fun a ↦ p a && decide (a ∉ added)) ++ added.filter p := by
  induction before with
  | nil => simp [ha.dedup]
  | cons a before ih =>
    by_cases hm : a ∈ before
    · rw [List.cons_append, List.dedup_cons_of_mem (List.mem_append_left _ hm), ih,
        List.dedup_cons_of_mem hm]
    · rw [List.dedup_cons_of_notMem hm]
      by_cases hn : a ∈ added
      · rw [List.cons_append, List.dedup_cons_of_mem (List.mem_append_right _ hn), ih]
        simp [hn]
      · rw [List.cons_append, List.dedup_cons_of_notMem (by simp [hm, hn]), List.filter_cons, ih,
          List.filter_cons]
        cases p a <;> simp [hn]

end lists

namespace Scene

variable {s s' : Scene} {guest : Option SpaceId} {id : NodeId} {sp q : SpaceId} {x : Space}
  {r : Route} {os : List (Operation × Scene)}

section load

theorem spaces_perform (s : Scene) (id : NodeId) (script : Behavior → Script) :
    (s.perform id script).spaces = s.spaces := by
  unfold perform
  split
  · rfl
  dsimp only
  split
  · exact spaces_modifyNode ..
  · exact (spaces_markAll ..).trans (spaces_modifyNode ..)

/-- Only on the way back to the beginning is a space destroyed. -/
theorem spaces_setLoadState {state : LoadState} (hs : state ≠ .notLoaded) :
    (s.setLoadState id state).2.spaces = s.spaces := by
  unfold setLoadState
  split
  · rfl
  split
  · rfl
  dsimp only
  split
  · rfl
  simp [discard, emit, Scene.log, modifySlot]

theorem spaces_requestLoad (s : Scene) (id : NodeId) : (s.requestLoad id).2.spaces = s.spaces := by
  have loading : (s.setLoadState id .loading).2.spaces = s.spaces :=
    spaces_setLoadState (by decide)
  unfold requestLoad
  split
  · rfl
  split
  · next he => rwa [he] at loading
  next t he =>
  rw [he] at loading
  have failed (t' : Scene) (he : t'.spaces = t.spaces) :
      (t'.setLoadState id .failed).2.spaces = s.spaces :=
    (spaces_setLoadState (by decide)).trans (he.trans loading)
  split
  · exact failed _ rfl
  split
  · exact failed _ rfl
  · exact (spaces_modifyNode ..).trans loading

theorem spaces_autoLoad (s : Scene) (id : NodeId) : (s.autoLoad id).spaces = s.spaces := by
  have requested := spaces_requestLoad s id
  unfold autoLoad
  split
  · unfold orWarn
    split
    all_goals
      next he =>
      rw [he] at requested
      exact requested
  · rfl

theorem spaces_finishSetup (h : s.finishSetup id = .ok s') : s'.spaces = s.spaces := by
  unfold finishSetup at h
  obtain ⟨n, -, h⟩ := bind_eq_ok.mp h
  split at h
  · cases h
    rfl
  · cases h
    have performed := (spaces_perform (s.modifyNode id fun n ↦ { n with inSetup := false }) id
      Behavior.setupFinished).trans (spaces_modifyNode ..)
    split
    · exact (spaces_autoLoad ..).trans performed
    · exact performed

/-- In every space the routes go on as they began. -/
def Extends (s s' : Scene) : Prop := ∀ sp, s.routesOf sp <+: s'.routesOf sp

namespace Extends

theorem of_routesOf (h : ∀ sp, s'.routesOf sp = s.routesOf sp) : Extends s s' :=
  fun sp ↦ h sp ▸ List.prefix_rfl

protected theorem trans {t : Scene} (h : Extends s t) (h' : Extends t s') : Extends s s' :=
  fun sp ↦ (h sp).trans (h' sp)

theorem modifySpace {f : Space → Space} (h : ∀ x, x.routes <+: (f x).routes) :
    Extends s (s.modifySpace sp f) := by
  intro q
  unfold routesOf
  rw [space?_modifySpace]
  split
  · cases s.space? q with
    | none => exact List.prefix_rfl
    | some x => exact h x
  · exact List.prefix_rfl

theorem addRoot {b : Bool} (h : s.addRoot sp id = .ok (b, s')) : Extends s s' := by
  obtain ⟨-, x, -, -, ⟨-, -, rfl⟩ | ⟨-, -, rfl⟩⟩ := addRoot_eq_ok.mp h
  · exact .of_routesOf fun _ ↦ rfl
  · exact modifySpace fun _ ↦ List.prefix_rfl

theorem addRouteIn {b : Bool} (h : s.addRouteIn sp r = .ok (b, s')) : Extends s s' := by
  unfold Scene.addRouteIn at h
  obtain ⟨x, -, h⟩ := bind_eq_ok.mp h
  obtain ⟨⟨⟩, -, h⟩ := bind_eq_ok.mp h
  split at h
  · cases h
    exact .of_routesOf fun _ ↦ rfl
  · cases h
    exact modifySpace fun x ↦ List.prefix_append x.routes [r]

theorem addStatement {statement : Statement} {b : Bool}
    (h : s.addStatement sp statement = .ok (b, s')) : Extends s s' := by
  obtain ⟨r, -, h⟩ := bind_eq_ok.mp h
  exact addRouteIn h

theorem addStatementOrWarn (text : String) (sp : SpaceId) (s : Scene) (r : Statement × Nat) :
    Extends s (addStatementOrWarn text sp s r) := by
  rcases addStatementOrWarn_cases text sp s r with ⟨new, he⟩ | ⟨cause, he⟩
  · exact addStatement he
  · rw [he]
    exact .of_routesOf fun _ ↦ rfl

theorem commit (sp : SpaceId) (text : String) (roots : List NodeId) (d : Draft) :
    Extends d.scene (Scene.commit sp text roots d).2 := by
  have rooted := inTurn_induction (f := fun id s ↦ s.keep ((s.addRoot sp id).map Prod.snd))
    (P := fun s ↦ Extends d.scene s) roots (fun id _ s hs ↦
      keep_induction hs fun s' ha ↦ by
        cases hr : s.addRoot sp id with
        | error => cases hr ▸ ha
        | ok a =>
          cases hr ▸ ha
          exact hs.trans (addRoot hr)) (.of_routesOf fun _ ↦ rfl)
  unfold Scene.commit
  split
  · next he =>
    rw [he] at rooted
    exact rooted
  next t he =>
  rw [he] at rooted
  have routed : Extends d.scene (d.routes.foldl (Scene.addStatementOrWarn text sp) t) :=
    List.foldlRecOn d.routes _ (motive := fun s ↦ Extends d.scene s) rooted
      fun s hs r _ ↦ hs.trans (addStatementOrWarn text sp s r)
  exact inTurn_induction (f := fun id s ↦ s.keep (s.finishSetup id))
    (P := fun s ↦ Extends d.scene s) d.created (fun id _ s hs ↦
      keep_induction hs fun s' hf ↦
        hs.trans (.of_routesOf (routesOf_congr (spaces_finishSetup hf)))) routed

theorem drafted {s₀ : Scene} {x₀ : Space} {names : List (String × NodeId)}
    {created : List NodeId} (h : Drafted s₀ sp x₀ names created s) (hx : s₀.space? sp = some x₀) :
    Extends s₀ s := by
  refine .of_routesOf fun q ↦ ?_
  by_cases hq : q = sp
  · subst hq
    rw [routesOf_eq h.home, routesOf_eq hx]
  · rw [routesOf, h.other hq, routesOf]

/-- A text that is read adds routes after those there are, or none. -/
theorem load (h : s.Coherent [] guest) (sp : SpaceId) (text : String) :
    Extends s (s.load sp text).2 := by
  cases hs : s.hasSpace sp with
  | false =>
    rw [load_of_unknown hs]
    exact .of_routesOf fun _ ↦ rfl
  | true =>
    obtain ⟨x, hx⟩ := hasSpace_iff.mp hs
    unfold Scene.load
    simp only [hs, Bool.not_true, Bool.false_eq_true, if_false]
    split
    · exact .of_routesOf fun _ ↦ rfl
    next tokens _ =>
    have start : Draft.Steps ⟨sp, text.utf8ByteSize⟩ ⟨s, [], []⟩ ⟨s, [], []⟩ := .refl
    have reads := Reader.document_reads start tokens
    split
    · next fault d he =>
      rw [he] at reads
      obtain ⟨-, names, -, undone⟩ :=
        ((Drafting.refl h hx).steps h hx reads).rollBack h hx
      exact (drafted undone hx).trans (.of_routesOf fun _ ↦ rfl)
    · next roots d he =>
      rw [he] at reads
      obtain ⟨names, read, -⟩ := ((Drafting.refl h hx).steps h hx reads.1).drafted
      have committed := (drafted read hx).trans (commit sp text roots d)
      split
      all_goals
        next hc =>
        rw [hc] at committed
        exact committed

end Extends

end load

section order

theorem Coherent.nodup_routesOf (h : s.Coherent [] guest) (sp : SpaceId) :
    (s.routesOf sp).Nodup := by
  cases hx : s.space? sp with
  | none => simp [routesOf, hx]
  | some x =>
    rw [routesOf_eq hx]
    exact (h.wired hx).routes_nodup

theorem Extends.run {op : Operation} (h : s.Coherent [] none) (hl : op.Links) :
    Extends s (op.run s) := by
  have same : Extends s s := .of_routesOf fun _ ↦ rfl
  cases hl with
  | addRoute r =>
    refine after_snd_induction (P := Extends s) same fun b t ha ↦ ?_
    obtain ⟨n, -, ha⟩ := bind_eq_ok.mp ha
    exact .addRouteIn ha
  | addRouteIn sp r => exact after_snd_induction (P := Extends s) same fun _ _ ↦ .addRouteIn
  | addStatement sp statement =>
    exact after_snd_induction (P := Extends s) same fun _ _ ↦ .addStatement
  | load sp text => exact .load h sp text

/-- In a space an operation adds routes, or it takes some away. -/
theorem Coherent.extends_or_sublist (h : s.Coherent [] none) (op : Operation) (sp : SpaceId) :
    ((op.run s).routesOf sp).Sublist (s.routesOf sp) ∨
      s.routesOf sp <+: (op.run s).routesOf sp := by
  by_cases hl : op.Links
  · exact .inr (Extends.run h hl sp)
  rcases h.run_cases op with ⟨id, index, rfl⟩ | rfl | strokes
  · rw [Operation.run_checkChanged]
    exact .inr (Extends.of_routesOf (routesOf_congr (spaces_modifyNode ..)) sp)
  · exact .inr List.prefix_rfl
  cases hx : s.space? sp with
  | none =>
    have empty : s.routesOf sp = [] := by
      rw [routesOf, hx]
      rfl
    exact .inr (empty ▸ List.nil_prefix)
  | some x =>
    have old : ¬(op.licence s).links sp := by
      rintro (hn | hl')
      · exact Nat.not_le_of_lt (number_lt_of_space? hx) hn
      · exact hl hl'
    exact .inl (strokes.rerouted.routes sp old)

/-- The routes that an operation adds to a space. -/
def laid (sp : SpaceId) (o : Operation × Scene) : List Route :=
  ((o.1.run o.2).routesOf sp).filter (· ∉ o.2.routesOf sp)

/-- The routes of a space stand in the order in which they were added. -/
theorem Story.routesOf_eq (h : Story os s) (sp : SpaceId) :
    s.routesOf sp = (os.flatMap (laid sp)).dedup.filter (· ∈ s.routesOf sp) := by
  induction h with
  | new built h =>
    obtain ⟨-, -, h⟩ := bind_eq_ok.mp h
    cases h
    change (start _ _).routesOf sp = []
    rw [routesOf, space?, start, Arena.get?_insert]
    split <;> rfl
  | @next os s h op ih =>
    have nodup := h.coherent.nodup_routesOf sp
    have nodup' := (h.coherent.run op).nodup_routesOf sp
    generalize hr : (op.run s).routesOf sp = after at nodup' ⊢
    have kept := kept_append_new (hr ▸ h.coherent.extends_or_sublist op sp) nodup nodup'
    have added : laid sp (op, s) = after.filter (· ∉ s.routesOf sp) := by rw [laid, hr]
    have stays : ((os.flatMap (laid sp)).dedup.filter fun r ↦
        decide (r ∈ after) && decide (r ∉ after.filter (· ∉ s.routesOf sp))) =
          (s.routesOf sp).filter (· ∈ after) := by
      conv_rhs => rw [ih, List.filter_filter]
      refine List.filter_congr fun r _ ↦ ?_
      by_cases ha : r ∈ after <;> simp [ha]
    have news : (after.filter (· ∉ s.routesOf sp)).filter (· ∈ after) =
        after.filter (· ∉ s.routesOf sp) :=
      List.filter_eq_self.mpr fun r hr ↦ decide_eq_true (List.mem_of_mem_filter hr)
    rw [List.flatMap_append, List.flatMap_singleton, added,
      filter_dedup_append _ _ (nodup'.filter _), stays, news]
    exact kept

end order

section removal

theorem mem_routesOf : r ∈ s.routesOf sp ↔ ∃ x, s.space? sp = some x ∧ r ∈ x.routes := by
  unfold routesOf
  cases s.space? sp <;> simp

/-- A route is held by the space that its source is in. -/
theorem Coherent.exists_source (h : s.Coherent [] guest) (hr : r ∈ s.routesOf sp) :
    ∃ n, s.node? r.source = some n ∧ n.space = sp := by
  obtain ⟨x, hx, hr⟩ := mem_routesOf.mp hr
  exact h.housed.lodged hx ((h.wired hx).ends r hr).1

theorem Coherent.space_eq_of_mem_routesOf (h : s.Coherent [] guest) (hp : r ∈ s.routesOf sp)
    (hq : r ∈ s.routesOf q) : sp = q := by
  obtain ⟨n, hn, rfl⟩ := h.exists_source hp
  obtain ⟨m, hm, rfl⟩ := h.exists_source hq
  cases hn.symm.trans hm
  rfl

theorem Coherent.removeRoute_of_mem (h : s.Coherent [] guest) (hr : r ∈ s.routesOf sp) :
    s.removeRoute r = (true, s.modifySpace sp (·.removeRoute r)) := by
  obtain ⟨n, hn, rfl⟩ := h.exists_source hr
  obtain ⟨x, hx, hr⟩ := mem_routesOf.mp hr
  have held : x.hasRoute r = true := (h.wired hx).hasRoute_iff.mpr hr
  unfold Scene.removeRoute
  simp [hn, hx, held]

theorem Coherent.removeRoute_of_not_mem (h : s.Coherent [] guest)
    (hr : ∀ sp, r ∉ s.routesOf sp) : s.removeRoute r = (false, s) := by
  unfold Scene.removeRoute
  split
  · rfl
  next sp x he =>
  obtain ⟨n, -, he⟩ := Option.bind_eq_some_iff.mp he
  obtain ⟨y, hy, he⟩ := Option.map_eq_some_iff.mp he
  cases he
  rw [if_neg fun held ↦ hr _ (mem_routesOf.mpr ⟨x, hy, (h.wired hy).hasRoute_iff.mp held⟩)]

theorem Coherent.removeRoute_iff (h : s.Coherent [] guest) (r : Route) :
    (s.removeRoute r).1 = true ↔ ∃ sp, r ∈ s.routesOf sp := by
  by_cases hr : ∃ sp, r ∈ s.routesOf sp
  · obtain ⟨sp, hr⟩ := hr
    simp only [h.removeRoute_of_mem hr, true_iff]
    exact ⟨sp, hr⟩
  · simp [h.removeRoute_of_not_mem fun sp hm ↦ hr ⟨sp, hm⟩, hr]

theorem Coherent.routesOf_removeRoute (h : s.Coherent [] guest) (r : Route) (sp : SpaceId) :
    (s.removeRoute r).2.routesOf sp = (s.routesOf sp).filter (· ≠ r) := by
  have unheld (hr : r ∉ s.routesOf sp) : (s.routesOf sp).filter (· ≠ r) = s.routesOf sp :=
    List.filter_eq_self.mpr fun q hq ↦ decide_eq_true (ne_of_mem_of_not_mem hq hr)
  by_cases hr : ∃ q, r ∈ s.routesOf q
  · obtain ⟨q, hr⟩ := hr
    rw [h.removeRoute_of_mem hr]
    by_cases hq : sp = q
    · subst hq
      obtain ⟨x, hx, -⟩ := mem_routesOf.mp hr
      rw [routesOf_eq (space?_modifySpace_self _ _ _ hx), routesOf_eq hx]
      rfl
    · rw [unheld fun hm ↦ hq (h.space_eq_of_mem_routesOf hm hr), routesOf,
        space?_modifySpace_of_ne _ _ _ hq, routesOf]
  · rw [h.removeRoute_of_not_mem fun q hm ↦ hr ⟨q, hm⟩, unheld fun hm ↦ hr ⟨sp, hm⟩]

end removal

/-- In every space the roots and the named nodes are its own, and a route joins fields of its own
nodes that fit. The routes are found by the field they leave, in the order they were added; and no
two spaces hold the same one. -/
theorem Story.routed (h : Story os s) :
    (∀ sp x, s.space? sp = some x →
      (x.roots.Nodup ∧ ∀ id ∈ x.roots, id ∈ x.nodes) ∧
      (∀ name id, x.named? name = some id → id ∈ x.nodes) ∧
      (x.routes.Nodup ∧ ∀ r ∈ x.routes, r.source ∈ x.nodes ∧ r.dest ∈ x.nodes ∧ s.Fits r) ∧
      x.routes = (os.flatMap (laid sp)).dedup.filter (· ∈ x.routes) ∧
      (∀ id i, x.routesFrom id i = x.routes.filter fun r ↦ r.leaves id i) ∧
      ∀ r, x.hasRoute r ↔ r ∈ x.routes) ∧
    (∀ r sp q, r ∈ s.routesOf sp → r ∈ s.routesOf q → sp = q) ∧
    ∀ r, ((s.removeRoute r).1 = true ↔ ∃ sp, r ∈ s.routesOf sp) ∧
      ∀ sp, (s.removeRoute r).2.routesOf sp = (s.routesOf sp).filter (· ≠ r) := by
  have coherent := h.coherent
  refine ⟨fun sp x hx ↦ ?_, fun r sp q ↦ coherent.space_eq_of_mem_routesOf,
    fun r ↦ ⟨coherent.removeRoute_iff r, coherent.routesOf_removeRoute r⟩⟩
  have wired := coherent.wired hx
  refine ⟨⟨wired.roots_nodup, wired.roots⟩, fun name id hn ↦ ?_,
    ⟨wired.routes_nodup, fun r hr ↦ ?_⟩, ?_, wired.departures, fun r ↦ wired.hasRoute_iff⟩
  · obtain ⟨a, b, he, -⟩ := List.lookup_eq_some_iff.mp hn
    exact wired.names (name, id) (he ▸ by simp)
  · obtain ⟨hs, hd⟩ := wired.ends r hr
    exact ⟨hs, hd, wired.fits r hr⟩
  · rw [← Scene.routesOf_eq hx]
    exact h.routesOf_eq sp

def forth : Route := ⟨.issued 0, 0, .issued 1, 0⟩

def back : Route := ⟨.issued 1, 0, .issued 0, 0⟩

/-- Two cells are joined in both directions, and the first route is added anew. -/
def rejoining : List Operation :=
  [.createNode .main "Cell", .createNode .main "Cell", .addRoot .main (.issued 0),
    .define .main "A" (.issued 1), .addRoute forth, .addRoute back, .removeRoute forth,
    .addRoute forth]

theorem routed_rejoining : ∃ os s x, Story os s ∧ s.space? .main = some x ∧
    os.flatMap (laid .main) = [forth, back, forth] ∧ x.routes = [back, forth] ∧
    x.routesFrom (.issued 1) 0 = [back] ∧ x.hasRoute forth ∧ .issued 0 ∈ x.nodes ∧
    x.named? "A" = some (.issued 1) ∧ .issued 1 ∈ x.nodes ∧
    (s.removeRoute back).1 = true ∧ (s.removeRoute back).2.routesOf .main = [forth] := by
  have built : ∀ t ∈ [cell], t.Built := by simpa using built_cell
  have made : Scene.new ⟨[cell]⟩ {} = .ok (start ⟨[cell]⟩ {}) := rfl
  have story := (Story.new built made).trail rejoining
  have added : ([] ++ (start ⟨[cell]⟩ {}).trail rejoining).flatMap (laid .main) =
      [forth, back, forth] := by cbv
  have space : ((rejoining.foldl Operation.run (start ⟨[cell]⟩ {})).space? .main).map
      (fun x ↦ (x.roots, x.named? "A", x.routes)) =
        some ([.issued 0], some (.issued 1), [back, forth]) := by cbv
  obtain ⟨x, hx, he⟩ := Option.map_eq_some_iff.mp space
  obtain ⟨hr, he⟩ := Prod.mk.inj he
  obtain ⟨hn, hroutes⟩ := Prod.mk.inj he
  obtain ⟨spaces, -, removal⟩ := Story.routed story
  obtain ⟨⟨-, roots⟩, names, -, -, leaving, held⟩ := spaces .main x hx
  refine ⟨_, _, x, story, hx, added, hroutes, ?_, (held forth).mpr ?_, roots _ ?_, hn,
    names _ _ hn, (removal back).1.mpr ⟨.main, ?_⟩, ?_⟩
  · rw [leaving, hroutes]
    decide
  · simp [hroutes]
  · simp [hr]
  · simp [Scene.routesOf_eq hx, hroutes]
  · rw [(removal back).2, Scene.routesOf_eq hx, hroutes]
    decide

end Scene

end SceneGraph
