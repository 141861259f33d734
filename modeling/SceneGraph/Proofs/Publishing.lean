import Mathlib
import SceneGraph.Proofs.Deriving
import SceneGraph.Proofs.Replacing

/-!
What a text leaves in a scene that reads it.
-/

namespace SceneGraph

namespace Scene

variable {s s' : Scene} {sp : SpaceId} {x : Space} {id : NodeId} {n : Node} {ids : List NodeId}
  {text : String} {guest : Option SpaceId}

/-- What a text may refer to that is read into the space. -/
def language (s : Scene) (sp : SpaceId) : Language := ⟨s.catalog, s.nodes.issued, s.named? sp⟩

/-- Appends those of the items that are not there yet, once each. -/
def appendNew {α : Type} [DecidableEq α] (l items : List α) : List α :=
  items.foldl (fun l a ↦ if a ∈ l then l else l ++ [a]) l

def table? (s : Scene) (id : NodeId) : Option FieldTable :=
  (s.node? id).map fun n ↦ n.type.table

/-- The route that a statement stands for: it joins nodes that are named in the space, from a
readable field to a writable one of the same type. -/
def link? (s : Scene) (sp : SpaceId) (st : Statement) : Option Route := do
  let source ← s.named? sp st.fromNode
  let dest ← s.named? sp st.toNode
  let outputs ← s.table? source
  let inputs ← s.table? dest
  let i ← outputs.indexOf? st.fromField
  let j ← inputs.indexOf? st.toField
  let a ← outputs.get? i
  let b ← inputs.get? j
  if a.access.isReadable ∧ b.access.isWritable ∧ a.type = b.type then
    some ⟨source, i, dest, j⟩
  else none

/-- The setup of a node ends by the script of its type. -/
def settled (s : Scene) (id : NodeId) (type : NodeType) (values : List Value) (issued : Nat) :
    List Value :=
  let view : NodeView :=
    { id, owner := type.name, table := type.table, values, time := s.time.getD 0, issued }
  (type.behavior.setupFinished.perform view).view.values

/-- The scene `s'` is `s` with what a text has said to the space. -/
structure Published (s : Scene) (sp : SpaceId) (ids : List NodeId) (g : Gist) (s' : Scene) :
    Prop where
  issued : s'.nodes.issued = s.nodes.issued + g.types.length
  node : ∀ {id type}, g.type? (s.language sp) id = some type →
    ∃ n, s'.node? id = some n ∧ n.type = type ∧ n.space = sp ∧ n.inSetup = false ∧
      n.values = s.settled id type (g.values id type) s'.nodes.issued
  old : ∀ {id}, id ∉ g.nodes (s.language sp) → s'.node? id = s.node? id
  home : ∀ {x}, s.space? sp = some x → ∃ y, s'.space? sp = some y ∧
    y.kind = x.kind ∧ y.parent = x.parent ∧ y.owner = x.owner ∧ y.children = x.children ∧
    y.nodes = x.nodes ++ g.nodes (s.language sp) ∧ y.roots = appendNew x.roots ids ∧
    y.routes = appendNew x.routes (g.routes.filterMap fun r ↦ s'.link? sp r.1) ∧
    ∀ name, y.named? name = g.named? (s.language sp) name
  other : ∀ {q}, q ≠ sp → s'.space? q = s.space? q

section finishing

theorem autoLoad_eq (s : Scene) (id : NodeId) : s.autoLoad id = s ∨
    ∃ f p js, s.autoLoad id = { s.modifySlot id f with loader := p }.log js := by
  have cancelled (t : Scene) (r : Option Request) :
      t.cancel r = { t with loader := (t.cancel r).loader } := by
    cases r <;> rfl
  rcases autoLoad_cases id with ⟨-, he⟩ | ⟨n, p, js, -, -, -, ⟨-, he⟩ | ⟨-, he⟩⟩
  · exact .inl he
  · exact .inr ⟨_, _, js, he⟩
  · rw [cancelled] at he
    exact .inr ⟨_, _, js, he⟩

/-- What a setup that ends leaves alone. -/
structure Standing (s s' : Scene) : Prop where
  spaces : s'.spaces = s.spaces
  issued : s'.nodes.issued = s.nodes.issued
  time : s'.time = s.time

theorem Standing.trans {t : Scene} (h : Standing s t) (h' : Standing t s') : Standing s s' :=
  ⟨h'.spaces.trans h.spaces, h'.issued.trans h.issued, h'.time.trans h.time⟩

/-- The node `m` is `n` at the end of its setup. -/
structure Settled (s : Scene) (id : NodeId) (n m : Node) : Prop where
  type : m.type = n.type
  space : m.space = n.space
  inSetup : m.inSetup = false
  values : m.values = s.settled id n.type n.values s.nodes.issued

theorem Settled.of_standing {m : Node} (h : Standing s s') (later : s'.Settled id n m) :
    s.Settled id n m :=
  ⟨later.type, later.space, later.inSetup, later.values.trans (by
    rw [settled, settled, h.time, h.issued])⟩

/-- The scene `s'` is `s` after the setup of the node `n`. -/
structure Ends (s : Scene) (id : NodeId) (n : Node) (s' : Scene) : Prop where
  standing : Standing s s'
  other : ∀ k, k ≠ id → s'.node? k = s.node? k
  node : ∃ m, s'.node? id = some m ∧ s.Settled id n m

theorem time_markAll (s : Scene) (id : NodeId) (outputs : List Nat) :
    (s.markAll id outputs).time = s.time := by
  induction outputs generalizing s with
  | nil => rfl
  | cons i outputs ih => exact (ih _).trans (time_modifyNode ..)

theorem Ends.retouch {t : Scene} {f : Node → Node} (h : Ends s id n t)
    (hf : ∀ m, (f m).type = m.type ∧ (f m).space = m.space ∧ (f m).inSetup = m.inSetup ∧
      (f m).values = m.values)
    (lookup : ∀ k, s'.node? k = if k = id then (t.node? k).map f else t.node? k)
    (standing : Standing t s') : Ends s id n s' := by
  obtain ⟨m, hm, settled⟩ := h.node
  obtain ⟨type, space, inSetup, values⟩ := hf m
  refine ⟨h.standing.trans standing, fun k hk ↦ ?_, f m, ?_, ?_⟩
  · rw [lookup, if_neg hk, h.other k hk]
  · rw [lookup, if_pos rfl, hm]
    rfl
  · exact ⟨type.trans settled.type, space.trans settled.space, inSetup.trans settled.inSetup,
      values.trans settled.values⟩

theorem Ends.perform (hn : s.node? id = some n) : Ends s id n
    ((s.modifyNode id fun n ↦ { n with inSetup := false }).perform id Behavior.setupFinished) := by
  have opened := node?_modifyNode_self s id (fun n ↦ { n with inSetup := false }) hn
  have view : (s.modifyNode id fun n ↦ { n with inSetup := false }).viewOf id
      { n with inSetup := false } = s.viewOf id n := by simp [viewOf]
  unfold Scene.perform
  rw [opened]
  dsimp only
  rw [view, if_neg Bool.false_ne_true]
  generalize ha : n.type.behavior.setupFinished.perform (s.viewOf id n) = a
  have written : Ends s id n (((s.modifyNode id fun n ↦ { n with inSetup := false }).modifyNode id
      fun n ↦ { n with values := a.view.values }).log (a.notes.map .note)) := by
    refine ⟨⟨(spaces_modifyNode ..).trans (spaces_modifyNode ..),
      (issued_modifyNode ..).trans (issued_modifyNode ..),
      (time_modifyNode ..).trans (time_modifyNode ..)⟩, fun k hk ↦ ?_, _,
      node?_modifyNode_self _ id (fun n ↦ { n with values := a.view.values }) opened,
      rfl, rfl, rfl, ?_⟩
    · exact (node?_modifyNode_of_ne _ _ _ hk).trans (node?_modifyNode_of_ne _ _ _ hk)
    · exact congrArg (·.view.values) ha.symm
  exact written.retouch (f := (·.flagAll a.outputs)) (fun _ ↦ ⟨rfl, rfl, rfl, rfl⟩)
    (node?_markAll _ id a.outputs) ⟨spaces_markAll .., issued_markAll .., time_markAll ..⟩

theorem Ends.autoLoad (h : Ends s id n s') : Ends s id n (s'.autoLoad id) := by
  rcases autoLoad_eq s' id with he | ⟨f, p, js, he⟩
  · rwa [he]
  · rw [he]
    exact h.retouch (f := fun n ↦ { n with load := some (f (n.load.getD {})) })
      (fun _ ↦ ⟨rfl, rfl, rfl, rfl⟩) (node?_modifyNode s' id _)
      ⟨spaces_modifyNode .., issued_modifyNode .., time_modifyNode ..⟩

theorem exists_ends (hn : s.node? id = some n) (hi : n.inSetup) :
    ∃ s', s.finishSetup id = .ok s' ∧ Ends s id n s' := by
  have performed := Ends.perform hn
  generalize hs : (s.modifyNode id fun n ↦ { n with inSetup := false }).perform id
    Behavior.setupFinished = s' at performed
  refine ⟨if n.type.has .loadable then s'.autoLoad id else s',
    bind_eq_ok.mpr ⟨n, node_eq_ok.mpr hn, ?_⟩, ?_⟩
  · rw [hi, ← hs]
    rfl
  · split
    · exact performed.autoLoad
    · exact performed

/-- The scene `s'` is `s` after the setups of the nodes. -/
structure EndsAll (s : Scene) (ids : List NodeId) (s' : Scene) : Prop where
  standing : Standing s s'
  other : ∀ k ∉ ids, s'.node? k = s.node? k
  node : ∀ id ∈ ids, ∀ n, s.node? id = some n → ∃ m, s'.node? id = some m ∧ s.Settled id n m

theorem EndsAll.type (h : EndsAll s ids s')
    (hn : ∀ id ∈ ids, ∃ n, s.node? id = some n ∧ n.inSetup) (id : NodeId) :
    (s'.node? id).map Node.type = (s.node? id).map Node.type := by
  by_cases hid : id ∈ ids
  · obtain ⟨n, hn, -⟩ := hn id hid
    obtain ⟨m, hm, settled⟩ := h.node id hid n hn
    rw [hm, hn, Option.map_some, Option.map_some, settled.type]
  · rw [h.other id hid]

theorem exists_endings (hd : ids.Nodup)
    (hn : ∀ id ∈ ids, ∃ n, s.node? id = some n ∧ n.inSetup) :
    ∃ s', inTurn (fun id s ↦ s.keep (s.finishSetup id)) ids s = (.ok (), s') ∧
      EndsAll s ids s' := by
  -- no node occurs twice, so a node whose turn comes is still in the setup that it was in at first
  induction ids generalizing s with
  | nil => exact ⟨s, rfl, ⟨rfl, rfl, rfl⟩, fun _ _ ↦ rfl, by simp⟩
  | cons id ids ih =>
    obtain ⟨fresh, hd⟩ := List.nodup_cons.mp hd
    obtain ⟨n, hid, hi⟩ := hn id List.mem_cons_self
    obtain ⟨t, ht, ends⟩ := exists_ends hid hi
    obtain ⟨s', hs, rest⟩ := ih (s := t) hd fun k hk ↦ by
      rw [ends.other k (ne_of_mem_of_not_mem hk fresh)]
      exact hn k (List.mem_cons_of_mem _ hk)
    have first : s.keep (s.finishSetup id) = (.ok (), t) := by
      rw [ht]
      rfl
    refine ⟨s', by rw [inTurn, first]; exact hs, ends.standing.trans rest.standing, fun k hk ↦ ?_,
      fun k hk m hm ↦ ?_⟩
    · rw [rest.other k fun hm ↦ hk (List.mem_cons_of_mem _ hm),
        ends.other k fun he ↦ hk (he ▸ List.mem_cons_self)]
    · rcases List.mem_cons.mp hk with rfl | hk
      · cases hid.symm.trans hm
        rw [rest.other k fresh]
        exact ends.node
      · obtain ⟨m', hm', later⟩ := rest.node k hk m
          ((ends.other k (ne_of_mem_of_not_mem hk fresh)).trans hm)
        exact ⟨m', hm', later.of_standing ends.standing⟩

end finishing

section rewiring

variable {r : Route} {st : Statement}

/-- At most the space and the journal differ. -/
structure Beside (sp : SpaceId) (s s' : Scene) : Prop where
  nodes : s'.nodes = s.nodes
  time : s'.time = s.time
  other : ∀ {q}, q ≠ sp → s'.space? q = s.space? q

theorem Beside.refl (sp : SpaceId) (s : Scene) : Beside sp s s := ⟨rfl, rfl, fun _ ↦ rfl⟩

theorem Beside.trans {t : Scene} (h : Beside sp s t) (h' : Beside sp t s') : Beside sp s s' :=
  ⟨h'.nodes.trans h.nodes, h'.time.trans h.time, fun hq ↦ (h'.other hq).trans (h.other hq)⟩

theorem Beside.modifySpace (s : Scene) (sp : SpaceId) (f : Space → Space) :
    Beside sp s (s.modifySpace sp f) :=
  ⟨rfl, rfl, fun hq ↦ space?_modifySpace_of_ne _ _ _ hq⟩

theorem exists_rooted (h : s.Coherent [] guest) (hx : s.space? sp = some x)
    (hm : ∀ id ∈ ids, id ∈ x.nodes) :
    ∃ s', inTurn (fun id s ↦ s.keep ((s.addRoot sp id).map Prod.snd)) ids s = (.ok (), s') ∧
      s'.Coherent [] guest ∧ Beside sp s s' ∧
      s'.space? sp = some { x with roots := appendNew x.roots ids } := by
  induction ids generalizing s x with
  | nil => exact ⟨s, rfl, h, .refl .., hx⟩
  | cons id ids ih =>
    have hid := hm id List.mem_cons_self
    obtain ⟨new, t, ht⟩ := exists_addRoot hx hid h
    have first : s.keep ((s.addRoot sp id).map Prod.snd) = (.ok (), t) := by
      rw [ht]
      rfl
    obtain ⟨y, hy, beside, hn, hr⟩ : ∃ y, t.space? sp = some y ∧ Beside sp s t ∧
        y.nodes = x.nodes ∧ ∀ ids, { y with roots := appendNew y.roots ids } =
          ({ x with roots := appendNew x.roots (id :: ids) } : Space) := by
      obtain ⟨-, z, hz, -, ⟨hr, -, rfl⟩ | ⟨hr, -, rfl⟩⟩ := addRoot_eq_ok.mp ht
      · cases hx.symm.trans hz
        exact ⟨x, hx, .refl .., rfl, fun ids ↦ by simp [appendNew, hr]⟩
      · cases hx.symm.trans hz
        exact ⟨_, space?_modifySpace_self _ _ _ hx, .modifySpace .., rfl, fun ids ↦ by
          simp [appendNew, hr, Space.addRoot]⟩
    obtain ⟨s', hs, coherent, later, home⟩ := ih (h.addRoot ht) hy fun k hk ↦
      hn ▸ hm k (List.mem_cons_of_mem _ hk)
    exact ⟨s', by rw [inTurn, first]; exact hs, coherent, beside.trans later, home.trans
      (congrArg some (hr ids))⟩

theorem checkRoute_of_fits (hx : s.space? sp = some x) (hs : r.source ∈ x.nodes)
    (hd : r.dest ∈ x.nodes) (h : s.Fits r) : s.checkRoute sp r = .ok () := by
  obtain ⟨n, m, a, b, hn, hm, ha, hb, readable, writable, same⟩ := h
  refine bind_eq_ok.mpr ⟨n, node_eq_ok.mpr hn, bind_eq_ok.mpr ⟨m, node_eq_ok.mpr hm, ?_⟩⟩
  have member {id : NodeId} (hid : id ∈ x.nodes) : s.isMember sp id := by
    simp [isMember, members, hx, hid]
  simp only [member hs, member hd, ha, hb, readable, writable, same, Bool.not_true, Bool.or_self,
    Bool.false_eq_true, ne_eq, not_true, if_false]
  rfl

theorem fieldIndex_eq_ok {name : String} {i : Nat} : s.fieldIndex id name = .ok i ↔
    ∃ n, s.node? id = some n ∧ n.type.table.indexOf? name = some i := by
  unfold fieldIndex
  rw [bind_eq_ok]
  refine exists_congr fun n ↦ and_congr node_eq_ok ?_
  unfold Node.fieldIndex NodeType.lookup FieldTable.lookup
  cases n.type.table.indexOf? name <;> simp

theorem resolve_eq_ok : s.resolve sp st = .ok r ↔
    s.named? sp st.fromNode = some r.source ∧ s.named? sp st.toNode = some r.dest ∧
      s.fieldIndex r.source st.fromField = .ok r.sourceField ∧
        s.fieldIndex r.dest st.toField = .ok r.destField := by
  obtain ⟨source, i, dest, j⟩ := r
  unfold resolve
  cases s.named? sp st.fromNode with
  | none => simp [throw, throwThe, MonadExceptOf.throw]
  | some source' =>
    cases s.named? sp st.toNode with
    | none => simp [throw, throwThe, MonadExceptOf.throw]
    | some dest' =>
      have sought : s.routeByName source' st.fromField dest' st.toField = .ok ⟨source, i, dest, j⟩ ↔
          source' = source ∧ dest' = dest ∧ s.fieldIndex source st.fromField = .ok i ∧
            s.fieldIndex dest st.toField = .ok j := by
        constructor
        · intro h
          obtain ⟨i', hi, h⟩ := bind_eq_ok.mp h
          obtain ⟨j', hj, h⟩ := bind_eq_ok.mp h
          cases h
          exact ⟨rfl, rfl, hi, hj⟩
        · rintro ⟨rfl, rfl, hi, hj⟩
          exact bind_eq_ok.mpr ⟨i, hi, bind_eq_ok.mpr ⟨j, hj, rfl⟩⟩
      simp only [Option.some.injEq]
      rw [← sought]
      cases s.routeByName source' st.fromField dest' st.toField with
      | error e => simp [throw, throwThe, MonadExceptOf.throw]
      | ok r => rfl

theorem link?_eq_some : s.link? sp st = some r ↔ s.resolve sp st = .ok r ∧ s.Fits r := by
  obtain ⟨source, i, dest, j⟩ := r
  rw [resolve_eq_ok]
  simp only [fieldIndex_eq_ok]
  unfold link?
  simp only [Option.bind_eq_bind, Option.bind_eq_some_iff]
  constructor
  · rintro ⟨source', hs, dest', hd, _, outputs, _, inputs, i', hi, j', hj, a, ha, b, hb, he⟩
    obtain ⟨n, hn, rfl⟩ := Option.map_eq_some_iff.mp outputs
    obtain ⟨m, hm, rfl⟩ := Option.map_eq_some_iff.mp inputs
    split at he
    · next fits =>
      cases he
      exact ⟨⟨hs, hd, ⟨n, hn, hi⟩, ⟨m, hm, hj⟩⟩, n, m, a, b, hn, hm, ha, hb, fits⟩
    · cases he
  · rintro ⟨⟨hs, hd, ⟨n, hn, hi⟩, ⟨m, hm, hj⟩⟩, n', m', a, b, hn', hm', ha, hb, fits⟩
    cases hn.symm.trans hn'
    cases hm.symm.trans hm'
    have outputs : s.table? source = some n.type.table := Option.map_eq_some_iff.mpr ⟨n, hn, rfl⟩
    have inputs : s.table? dest = some m.type.table := Option.map_eq_some_iff.mpr ⟨m, hm, rfl⟩
    exact ⟨source, hs, dest, hd, _, outputs, _, inputs, i, hi, j, hj, a, ha, b, hb, if_pos fits⟩

theorem named?_mem (h : s.Coherent [] guest) (hx : s.space? sp = some x) {name : String}
    (hn : s.named? sp name = some id) : id ∈ x.nodes := by
  unfold named? at hn
  rw [hx] at hn
  obtain ⟨l₁, l₂, hl, -⟩ := List.lookup_eq_some_iff.mp hn
  exact (h.wired hx).names (name, id) (hl ▸ by simp)

theorem link?_congr (ht : ∀ id, s'.table? id = s.table? id)
    (hm : ∀ name, s'.named? sp name = s.named? sp name) : s'.link? sp = s.link? sp := by
  funext st
  unfold link?
  simp only [hm, ht]

theorem table?_congr (h : (s'.node? id).map Node.type = (s.node? id).map Node.type) :
    s'.table? id = s.table? id := by
  have tables := congrArg (Option.map NodeType.table) h
  rwa [Option.map_map, Option.map_map] at tables

theorem addStatement_of_link? (h : s.Coherent [] guest) (hx : s.space? sp = some x)
    (hl : s.link? sp st = some r) : s.addStatement sp st =
      .ok (if x.hasRoute r then (false, s) else (true, s.modifySpace sp (·.addRoute r))) := by
  obtain ⟨resolved, fits⟩ := link?_eq_some.mp hl
  obtain ⟨hs, hd, -⟩ := resolve_eq_ok.mp resolved
  have checked := checkRoute_of_fits hx (named?_mem h hx hs) (named?_mem h hx hd) fits
  refine bind_eq_ok.mpr ⟨r, resolved, bind_eq_ok.mpr ⟨x, space_eq_ok.mpr hx,
    bind_eq_ok.mpr ⟨(), checked, ?_⟩⟩⟩
  split <;> rfl

theorem addStatementOrWarn_space (text : String) (h : s.Coherent [] guest)
    (hx : s.space? sp = some x) (a : Statement × Nat) :
    Beside sp s (addStatementOrWarn text sp s a) ∧ ∃ departures,
      (addStatementOrWarn text sp s a).space? sp = some { x with
        routes := appendNew x.routes (s.link? sp a.1).toList, departures } := by
  cases hl : s.link? sp a.1 with
  | some r =>
    have held := (h.wired hx).hasRoute_iff (r := r)
    unfold addStatementOrWarn
    rw [addStatement_of_link? h hx hl]
    by_cases hr : r ∈ x.routes
    · rw [if_pos (held.mpr hr)]
      exact ⟨.refl .., x.departures, by simpa [appendNew, hr] using hx⟩
    · rw [if_neg (mt held.mp hr)]
      have appended : appendNew x.routes (some r).toList = x.routes ++ [r] := if_neg hr
      refine ⟨.modifySpace .., (x.addRoute r).departures, ?_⟩
      rw [appended]
      exact space?_modifySpace_self _ _ _ hx
  | none =>
    rcases addStatementOrWarn_cases text sp s a with ⟨new, he⟩ | ⟨cause, he⟩
    · obtain ⟨r, resolved, he⟩ := bind_eq_ok.mp he
      obtain ⟨y, hy, he⟩ := bind_eq_ok.mp he
      obtain ⟨⟨⟩, checked, -⟩ := bind_eq_ok.mp he
      cases hl.symm.trans (link?_eq_some.mpr ⟨resolved, (fits_of_checkRoute hx checked).2.2⟩)
    · rw [he]
      exact ⟨⟨rfl, rfl, fun _ ↦ rfl⟩, x.departures, hx⟩

theorem foldl_addStatementOrWarn (text : String) (h : s.Coherent [] guest)
    (hx : s.space? sp = some x) (rs : List (Statement × Nat)) :
    let s' := rs.foldl (addStatementOrWarn text sp) s
    s'.Coherent [] guest ∧ Beside sp s s' ∧ ∃ departures, s'.space? sp = some { x with
      routes := appendNew x.routes (rs.filterMap fun a ↦ s.link? sp a.1), departures } := by
  induction rs generalizing s x with
  | nil => exact ⟨h, .refl .., x.departures, hx⟩
  | cons a rs ih =>
    obtain ⟨beside, departures, home⟩ := addStatementOrWarn_space text h hx a
    obtain ⟨coherent, later, departures', home'⟩ := ih (h.addStatementOrWarn text a) home
    refine ⟨coherent, beside.trans later, departures', home'.trans ?_⟩
    have names (name : String) :
        (addStatementOrWarn text sp s a).named? sp name = s.named? sp name := by
      unfold named?
      rw [home, hx]
      rfl
    rw [link?_congr (fun id ↦ table?_congr (by rw [node?_congr beside.nodes])) names]
    cases hl : s.link? sp a.1 <;> simp [hl, appendNew]

end rewiring

section publishing

variable {g : Gist} {d : Draft} {tokens : List Spanned}

theorem Drafted.exists_inSetup {names : List (String × NodeId)} {created : List NodeId}
    (h : Drafted s sp x names created s') (hid : id ∈ created) :
    ∃ n, s'.node? id = some n ∧ n.inSetup := by
  obtain ⟨n, hn, blank⟩ := h.blank hid
  exact ⟨n, hn, blank.inSetup⟩

theorem Drafted.time_eq {names : List (String × NodeId)} {created : List NodeId}
    (h : Drafted s sp x names created s') : s'.time = s.time := by
  have aside := h.aside
  simp only [Scene.aside, Prod.mk.injEq] at aside
  exact aside.2.2.2.1

theorem Drafted.journal_eq {names : List (String × NodeId)} {created : List NodeId}
    (h : Drafted s sp x names created s') : s'.journal = s.journal := by
  have aside := h.aside
  simp only [Scene.aside, Prod.mk.injEq] at aside
  exact aside.2.2.2.2.1

/-- A draft is committed in three rounds, of which the first makes the roots, the second the routes,
and the third ends the setups. -/
structure Rounds (guest : Option SpaceId) (sp : SpaceId) (text : String) (ids : List NodeId)
    (d : Draft) (x : Space) (s₁ s₂ s₃ : Scene) : Prop where
  rooted : inTurn (fun id s ↦ s.keep ((s.addRoot sp id).map Prod.snd)) ids d.scene = (.ok (), s₁)
  routed : d.routes.foldl (addStatementOrWarn text sp) s₁ = s₂
  ended : inTurn (fun id s ↦ s.keep (s.finishSetup id)) d.created s₂ = (.ok (), s₃)
  coherent : s₁.Coherent [] guest
  later : s₂.Coherent [] guest
  besideRoots : Beside sp d.scene s₁
  besideRoutes : Beside sp s₁ s₂
  roots : s₁.space? sp = some { x with roots := appendNew x.roots ids }
  routes : ∃ departures, s₂.space? sp = some { x with
    roots := appendNew x.roots ids
    routes := appendNew x.routes (d.routes.filterMap fun a ↦ s₁.link? sp a.1)
    departures }
  setups : ∀ id ∈ d.created, ∃ n, s₂.node? id = some n ∧ n.inSetup
  endings : EndsAll s₂ d.created s₃

theorem exists_rounds {names : List (String × NodeId)} (text : String)
    (coherent : d.scene.Coherent [] guest) (drafted : Drafted s sp x names d.created d.scene)
    (hr : ∀ y, d.scene.space? sp = some y → ∀ id ∈ ids, id ∈ y.nodes) :
    ∃ s₁ s₂ s₃,
      Rounds guest sp text ids d { x with nodes := x.nodes ++ d.created, names } s₁ s₂ s₃ := by
  obtain ⟨s₁, h₁, coherent, beside₁, home₁⟩ := exists_rooted coherent drafted.home
    (hr _ drafted.home)
  obtain ⟨later, beside₂, departures, home₂⟩ :=
    foldl_addStatementOrWarn text coherent home₁ d.routes
  have setups : ∀ id ∈ d.created,
      ∃ n, (d.routes.foldl (addStatementOrWarn text sp) s₁).node? id = some n ∧ n.inSetup := by
    intro id hid
    rw [node?_congr (beside₁.trans beside₂).nodes]
    exact drafted.exists_inSetup hid
  obtain ⟨s₃, h₃, endings⟩ := exists_endings drafted.nodup setups
  exact ⟨s₁, _, s₃, h₁, rfl, h₃, coherent, later, beside₁, beside₂, home₁, ⟨departures, home₂⟩,
    setups, endings⟩

section rounds

variable {s₁ s₂ s₃ : Scene} (rounds : Rounds guest sp text ids d x s₁ s₂ s₃)
include rounds

theorem Rounds.commit : commit sp text ids d = (.ok (), s₃) := by
  unfold Scene.commit
  rw [rounds.rooted]
  dsimp only
  rw [rounds.routed, rounds.ended]

theorem Rounds.named? (name : String) : s₃.named? sp name = s₁.named? sp name := by
  obtain ⟨departures, home⟩ := rounds.routes
  unfold Scene.named?
  rw [space?_congr rounds.endings.standing.spaces, home, rounds.roots]
  rfl

/-- No type of a node changes, so which routes the statements stand for is settled before. -/
theorem Rounds.type (id : NodeId) : (s₃.node? id).map Node.type = (s₁.node? id).map Node.type := by
  rw [rounds.endings.type rounds.setups, node?_congr rounds.besideRoutes.nodes]

end rounds

/-- What is drawn is committed. -/
theorem commit_published {stop : Nat} (text : String)
    (drawn : Draws (s.language sp) ⟨sp, stop⟩ s g d)
    (hr : ∀ y, d.scene.space? sp = some y → ∀ id ∈ ids, id ∈ y.nodes) :
    ∃ s', commit sp text ids d = (.ok (), s') ∧ s.Published sp ids g s' := by
  obtain ⟨guest, x, -, hx, drafting⟩ := drawn.drafting
  obtain ⟨names, drafted, -⟩ := drafting.drafted
  obtain ⟨s₁, s₂, s₃, rounds⟩ := exists_rounds text drafting.coherent drafted hr
  have beside := rounds.besideRoots.trans rounds.besideRoutes
  have ended := rounds.endings
  obtain ⟨departures, home₂⟩ := rounds.routes
  refine ⟨s₃, rounds.commit, ?_⟩
  have issued : s₃.nodes.issued = d.scene.nodes.issued :=
    ended.standing.issued.trans (congrArg Arena.issued beside.nodes)
  have home : s₃.space? sp = some { x with
      nodes := x.nodes ++ d.created
      names
      roots := appendNew x.roots ids
      routes := appendNew x.routes (d.routes.filterMap fun a ↦ s₁.link? sp a.1)
      departures } := (space?_congr ended.standing.spaces _).trans home₂
  have named (name : String) : s₃.named? sp name = d.named? ⟨sp, stop⟩ name := by
    unfold Draft.named? Scene.named?
    rw [home, drafted.home]
    rfl
  have links : s₃.link? sp = s₁.link? sp :=
    link?_congr (fun id ↦ table?_congr (rounds.type id)) rounds.named?
  exact {
    issued := issued.trans drawn.issued
    node := by
      intro id type typed
      obtain ⟨n, hn, rfl, values, -⟩ := drawn.inSetup typed
      have hid : id ∈ d.created := drawn.created ▸ Gist.mem_nodes.mpr ⟨_, typed⟩
      obtain ⟨m, hm, blank⟩ := drafted.blank hid
      cases hn.symm.trans hm
      obtain ⟨m, hm, settled⟩ := ended.node id hid n ((node?_congr beside.nodes id).trans hn)
      refine ⟨m, hm, settled.type, settled.space.trans blank.space, settled.inSetup,
        settled.values.trans ?_⟩
      rw [values, issued, beside.nodes, Scene.settled, Scene.settled, beside.time, drafted.time_eq]
    old := by
      intro id hid
      have hid : id ∉ d.created := drawn.created ▸ hid
      rw [ended.other id hid, node?_congr beside.nodes, drafted.old hid]
    home := by
      intro x' hx'
      cases hx.symm.trans hx'
      refine ⟨_, home, rfl, rfl, rfl, rfl, congrArg _ drawn.created, rfl, ?_, fun name ↦ ?_⟩
      · rw [links, drawn.routes]
      · have bound := (named name).trans (drawn.named name)
        unfold Scene.named? at bound
        rwa [home] at bound
    other := fun hq ↦ by
      rw [space?_congr ended.standing.spaces, beside.other hq, drafted.other hq] }

theorem draws_start (h : s.Coherent [] guest) (hx : s.space? sp = some x) (stop : Nat) :
    Draws (s.language sp) ⟨sp, stop⟩ s {} ⟨s, [], []⟩ where
  drafting := ⟨guest, x, h, hx, .refl h hx⟩
  catalog := rfl
  issued := rfl
  created := rfl
  node {id type} typed := by
    cases id with
    | issued k => simp [Gist.type?] at typed
    | void => cases typed
  written := by simp
  named _ := rfl
  routes := rfl

theorem load_of_read (live : s.hasSpace sp) (ht : Lexer.tokenize text = .ok tokens)
    (hd : Reader.document ⟨sp, text.utf8ByteSize⟩ ⟨s, [], []⟩ tokens = .ok (ids, d))
    (hc : commit sp text ids d = (.ok (), s')) : s.load sp text = (.ok ids, s') := by
  unfold load
  simp only [live, Bool.not_true, Bool.false_eq_true, if_false, ht, hd, hc]

theorem load_of_derives (h : s.Coherent [] guest) (hx : s.space? sp = some x)
    (ht : Lexer.tokenize text = .ok tokens)
    (derived : Derives (s.language sp) {} (.document ids) tokens g) :
    ∃ s', s.load sp text = (.ok ids, s') ∧ s.Published sp ids g s' := by
  obtain ⟨d, taken, drawn⟩ :=
    Reader.takes_of_derives derived (draws_start h hx text.utf8ByteSize)
  have read : Reader.document ⟨sp, text.utf8ByteSize⟩ ⟨s, [], []⟩ tokens = .ok (ids, d) := taken
  have start : Draft.Steps ⟨sp, text.utf8ByteSize⟩ ⟨s, [], []⟩ ⟨s, [], []⟩ := .refl
  have known := Reader.document_reads start tokens
  rw [read] at known
  obtain ⟨s', hc, published⟩ := commit_published text drawn fun y hy id hid ↦ by
    obtain ⟨z, hz, hm⟩ := Drafting.mem_of_known h hx (known.2 id hid)
    cases hy.symm.trans hz
    exact hm
  exact ⟨s', load_of_read (hasSpace_iff.mpr ⟨x, hx⟩) ht read hc, published⟩

theorem derives_of_load (h : s.Coherent [] guest) (hx : s.space? sp = some x)
    (ht : Lexer.tokenize text = .ok tokens) (hl : s.load sp text = (.ok ids, s')) :
    ∃ g, Derives (s.language sp) {} (.document ids) tokens g := by
  have live : s.hasSpace sp := hasSpace_iff.mpr ⟨x, hx⟩
  unfold load at hl
  simp only [live, Bool.not_true, Bool.false_eq_true, if_false] at hl
  rw [ht] at hl
  dsimp only at hl
  split at hl
  · cases hl
  next roots d hd =>
  obtain ⟨g, derived, -⟩ := Reader.document_derives (draws_start h hx text.utf8ByteSize) hd
  split at hl
  · cases hl
    exact ⟨g, derived⟩
  · cases hl

/-- A text that tokenizes is read into a live space if and only if it derives from the grammar, and
then it is there as the derivation says. -/
theorem load_iff_derives (h : s.Reachable) (hx : s.space? sp = some x)
    (ht : Lexer.tokenize text = .ok tokens) :
    ((∃ ids, (s.load sp text).1 = .ok ids) ↔
      ∃ ids g, Derives (s.language sp) {} (.document ids) tokens g) ∧
    ∀ ids g, Derives (s.language sp) {} (.document ids) tokens g →
      (s.load sp text).1 = .ok ids ∧ s.Published sp ids g (s.load sp text).2 := by
  have reading (ids g) (derived : Derives (s.language sp) {} (.document ids) tokens g) :
      (s.load sp text).1 = .ok ids ∧ s.Published sp ids g (s.load sp text).2 := by
    obtain ⟨s', hl, published⟩ := load_of_derives h.coherent hx ht derived
    rw [hl]
    exact ⟨rfl, published⟩
  refine ⟨⟨?_, ?_⟩, reading⟩
  · rintro ⟨ids, hl⟩
    obtain ⟨g, derived⟩ := derives_of_load h.coherent hx ht (Prod.ext hl rfl)
    exact ⟨ids, g, derived⟩
  · rintro ⟨ids, g, derived⟩
    exact ⟨ids, (reading ids g derived).1⟩

end publishing

section metering

/-- A type whose field shows five at the end of the setup, whatever it was given. -/
def meter : NodeType :=
  ⟨"Meter", ⟨[⟨.exposed, .single .int32, "value", .int32 0⟩]⟩, [], .bytes,
    { setupFinished := .publish "value" (.int32 5) .done }⟩

theorem built_meter : meter.Built :=
  ⟨((Blueprint.of "Meter" []).exposed "value" (.single .int32) (.int32 0)).withBehavior
    meter.behavior, rfl⟩

def metering : String := "DEF M Meter \x7b value 2 value 3 \x7d ROUTE M.value TO M.value USE M"

def loop : Statement := ⟨"M", "value", "M", "value"⟩

/-- What the text `metering` says. -/
def metered : Gist where
  types := [meter]
  writes := [((.issued 0, 0), .int32 3), ((.issued 0, 0), .int32 2)]
  labels := [("M", .issued 0)]
  routes := [(loop, 32)]

theorem derives_metering : ∃ tokens, Lexer.tokenize metering = .ok tokens ∧
    Derives ((start ⟨[meter]⟩ {}).language .main) {} (.document [.issued 0, .issued 0]) tokens
      metered := by
  have tokens : Lexer.tokenize metering = .ok
      [⟨.keyword .define, 0, 3⟩, ⟨.ident "M", 4, 5⟩, ⟨.ident "Meter", 6, 11⟩,
        ⟨.mark .openBrace, 12, 13⟩, ⟨.ident "value", 14, 19⟩, ⟨.int 2, 20, 21⟩,
        ⟨.ident "value", 22, 27⟩, ⟨.int 3, 28, 29⟩, ⟨.mark .closeBrace, 30, 31⟩,
        ⟨.keyword .route, 32, 37⟩, ⟨.ident "M", 38, 39⟩, ⟨.mark .dot, 39, 40⟩,
        ⟨.ident "value", 40, 45⟩, ⟨.keyword .into, 46, 48⟩, ⟨.ident "M", 49, 50⟩,
        ⟨.mark .dot, 50, 51⟩, ⟨.ident "value", 51, 56⟩, ⟨.keyword .use, 57, 60⟩,
        ⟨.ident "M", 61, 62⟩] := by cbv
  refine ⟨_, tokens, ?_⟩
  let l := (start ⟨[meter]⟩ {}).language .main
  have types : l.types.get? "Meter" = some meter := by
    simp [l, language, start, Catalog.get?, meter]
  have named : meter.table.indexOf? "value" = some 0 := by
    simp [meter, FieldTable.indexOf?, Declaration.spellings]
  let given (v : Int32) : ((NodeId × Nat) × Value) := ((.issued 0, 0), .int32 v)
  let opened : Gist := (Gist.create {} meter).label (Gist.next l {}) (some "M")
  have number (g : Gist) (n : Int) (a z : Nat) (h : -0x80000000 ≤ n ∧ n < 0x80000000) :
      Derives l g (.value (.single .int32) (.int32 (.ofInt n))) [⟨.int n, a, z⟩] g :=
    .plain (.one rfl (if_pos h))
  have accepted (g : Gist) (v : Int32) : g.Accepts l meter 0 (.int32 v) :=
    ⟨⟨.exposed, .single .int32, "value", .int32 0⟩, rfl, by decide, rfl, rfl⟩
  have three : Derives l { opened with writes := [given 2] } (.body (.issued 0))
      [⟨.ident "value", 22, 27⟩, ⟨.int 3, 28, 29⟩]
      { opened with writes := [given 3, given 2] } :=
    .field rfl rfl named rfl (number _ 3 28 29 (by decide)) (accepted ..) .done
  have two : Derives l opened (.body (Gist.next l {}))
      [⟨.ident "value", 14, 19⟩, ⟨.int 2, 20, 21⟩, ⟨.ident "value", 22, 27⟩, ⟨.int 3, 28, 29⟩]
      { opened with writes := [given 3, given 2] } :=
    .field rfl rfl named rfl (number _ 2 20 21 (by decide)) (accepted ..) three
  have node : Derives l {} (.node (some "M") (Gist.next l {}))
      [⟨.ident "Meter", 6, 11⟩, ⟨.mark .openBrace, 12, 13⟩, ⟨.ident "value", 14, 19⟩,
        ⟨.int 2, 20, 21⟩, ⟨.ident "value", 22, 27⟩, ⟨.int 3, 28, 29⟩, ⟨.mark .closeBrace, 30, 31⟩]
      { opened with writes := [given 3, given 2] } := .node rfl types rfl two rfl
  have used : Derives l metered (.document [.issued 0])
      [⟨.keyword .use, 57, 60⟩, ⟨.ident "M", 61, 62⟩] metered :=
    .documentStatement (.use rfl rfl rfl) .finish
  have route : [⟨.keyword .route, 32, 37⟩, ⟨.ident "M", 38, 39⟩, ⟨.mark .dot, 39, 40⟩,
      ⟨.ident "value", 40, 45⟩, ⟨.keyword .into, 46, 48⟩, ⟨.ident "M", 49, 50⟩,
      ⟨.mark .dot, 50, 51⟩, ⟨.ident "value", 51, 56⟩].map Spanned.token = loop.tokens := rfl
  exact .documentStatement (.define rfl rfl node) (.documentRoute route used)

theorem reachable_metered : (start ⟨[meter]⟩ {}).Reachable := by
  have built : ∀ t ∈ [meter], t.Built := by simpa using built_meter
  have made : Scene.new ⟨[meter]⟩ {} = .ok (start ⟨[meter]⟩ {}) := rfl
  exact .new built made

theorem exists_metered (h : Published (start ⟨[meter]⟩ {}) .main ids metered s) :
    ∃ n, s.node? (.issued 0) = some n ∧ n.type = meter ∧ n.inSetup = false ∧
      n.values = [.int32 5] := by
  obtain ⟨n, hn, ht, -, hi, hv⟩ := h.node (show metered.type? _ (.issued 0) = some meter from rfl)
  exact ⟨n, hn, ht, hi, hv⟩

theorem link?_loop (named : s.named? .main "M" = some (.issued 0))
    (table : s.table? (.issued 0) = some meter.table) :
    s.link? .main loop = some ⟨.issued 0, 0, .issued 0, 0⟩ := by
  simp only [link?, loop, named, table, Option.bind_eq_bind, Option.bind_some]
  rfl

/-- The node has the value that its type gives to it in the end, and its name and its route are
there. -/
theorem load_iff_derives_metering : ∃ tokens y n, (start ⟨[meter]⟩ {}).Reachable ∧
    Lexer.tokenize metering = .ok tokens ∧
    Derives ((start ⟨[meter]⟩ {}).language .main) {} (.document [.issued 0, .issued 0]) tokens
      metered ∧
    ((start ⟨[meter]⟩ {}).load .main metering).1 = .ok [.issued 0, .issued 0] ∧
    ((start ⟨[meter]⟩ {}).load .main metering).2.space? .main = some y ∧
    y.roots = [.issued 0] ∧ y.routes = [⟨.issued 0, 0, .issued 0, 0⟩] ∧
    y.named? "M" = some (.issued 0) ∧
    ((start ⟨[meter]⟩ {}).load .main metering).2.node? (.issued 0) = some n ∧
    n.inSetup = false ∧ n.values = [.int32 5] := by
  have hx : (start ⟨[meter]⟩ {}).space? .main =
      some { kind := .scene, parent := none, owner := none } := rfl
  obtain ⟨tokens, ht, derived⟩ := derives_metering
  obtain ⟨-, reading⟩ := load_iff_derives reachable_metered hx ht
  obtain ⟨read, published⟩ := reading _ _ derived
  obtain ⟨n, hn, type, hi, hv⟩ := exists_metered published
  obtain ⟨y, hy, -, -, -, -, -, roots, routes, names⟩ := published.home hx
  have named : y.named? "M" = some (.issued 0) := names "M"
  refine ⟨tokens, y, n, reachable_metered, ht, derived, read, hy, roots, routes.trans ?_, named,
    hn, hi, hv⟩
  have linked := link?_loop (s := ((start ⟨[meter]⟩ {}).load .main metering).2)
    (by rw [Scene.named?, hy]; exact named) (by rw [table?, hn, Option.map_some, type])
  rw [metered, List.filterMap_cons, linked]
  rfl

/-- A field need not hold what the text gives to it: its type may set it when the setup ends. -/
theorem given_not_held : ¬∀ (s : Scene) (sp : SpaceId) (text : String) (tokens : List Spanned)
    (ids : List NodeId) (g : Gist) (id : NodeId) (index : Nat) (v : Value), s.Reachable →
    s.hasSpace sp → Lexer.tokenize text = .ok tokens →
    Derives (s.language sp) {} (.document ids) tokens g → g.given? id index = some v →
    (s.load sp text).2.value id index = .ok v := by
  intro held
  obtain ⟨tokens, ht, derived⟩ := derives_metering
  have given : metered.given? (.issued 0) 0 = some (.int32 3) := rfl
  have three := held _ _ _ _ _ _ _ _ _ reachable_metered rfl ht derived given
  obtain ⟨s', hl, published⟩ := load_of_derives reachable_metered.coherent
    (x := { kind := .scene, parent := none, owner := none }) rfl ht derived
  obtain ⟨n, hn, -, -, hv⟩ := exists_metered published
  have five : s'.value (.issued 0) 0 = .ok (.int32 5) :=
    bind_eq_ok.mpr ⟨n, node_eq_ok.mpr hn, by rw [Node.value, hv]; rfl⟩
  rw [hl, five] at three
  cases three

end metering

end Scene

end SceneGraph
