import Mathlib.Logic.Relation
import SceneGraph.Proofs.Turning

/-!
Operations on a scene as sequences of strokes.

A stroke is the least that is done at once to a node, to the queue or to the loader. What operations
keep and what they announce is shown of the strokes.
-/

namespace SceneGraph

def Node.flagAll (n : Node) (outputs : List Nat) : Node :=
  { n with changed := outputs.foldl (fun flags i ↦ flags.set i true) n.changed }

namespace Scene

/-- What may be done in the strokes of an operation. -/
structure Licence where
  /-- The nodes whose setup may end. -/
  opens : NodeId → Prop
  /-- Whether queued changes may be taken off. -/
  dequeues : Prop
  /-- Whether the loader may be replaced, or drained, or its workers may go on. -/
  tends : Prop
  /-- Whether a node may wait for a load that was not asked for. -/
  idles : Prop
  /-- The spaces that may get new routes. -/
  links : SpaceId → Prop

def routesOf (s : Scene) (sp : SpaceId) : List Route := ((s.space? sp).map Space.routes).getD []

/-- Where no route may come, those that stay keep their order. -/
structure Rerouted (l : Licence) (s s' : Scene) : Prop where
  issued : s.spaces.issued ≤ s'.spaces.issued
  routes : ∀ sp, ¬l.links sp → (s'.routesOf sp).Sublist (s.routesOf sp)

/-- Marks fields of a node as changed, in turn. -/
def markAll (s : Scene) (id : NodeId) (outputs : List Nat) : Scene :=
  outputs.foldl (fun s index ↦ s.markChanged id index) s

inductive Stroke (l : Licence) : Scene → Scene → Prop
  /-- Work beside the nodes, the queue and the loader that announces no change. -/
  | aside {s s'} (nodes : s'.nodes = s.nodes) (pending : s'.pending = s.pending)
      (loader : s'.loader = s.loader) (spaces : Rerouted l s s')
      (journal : ∃ js, s'.journal = s.journal ++ js ∧ Journal.changes js = []) : Stroke l s s'
  | flag {s p} (hp : s.loader = some p) (requests) :
      Stroke l s { s with loader := some (p.flag requests) }
  | terminate {s p} (hp : s.loader = some p) :
      Stroke l s { s with loader := some p.terminate.2 }
  | tend (h : l.tends) (s loader cache) : Stroke l s { s with loader, cache }
  /-- The slot of a node changes, but the node does not begin to wait. -/
  | slot {s id n f} (hn : s.node? id = some n)
      (ticket : (f (n.load.getD {})).ticket = (n.load.getD {}).ticket)
      (hf : (f (n.load.getD {})).state = .loading → l.idles ∨ (n.load.getD {}).state = .loading) :
      Stroke l s (s.modifySlot id f)
  | ask {s id n p} (hn : s.node? id = some n) (hs : (n.load.getD {}).state = .notLoaded)
      (hp : s.loader = some p) : Stroke l s
        { s.modifySlot id (·.ask id) with
          loader := some
            (p.submit { request := ⟨id, (n.load.getD {}).ticket + 1⟩, urls := urls n }) }
  /-- Fields of a node out of setup are written, and each of them is marked. -/
  | revise {s id n} (write : List Value → List Value) (outputs : List Nat)
      (hn : s.node? id = some n) (out : n.inSetup = false)
      (inside : ∀ i ∈ outputs, i < n.changed.length)
      (others : ∀ i, i ∉ outputs → (write n.values)[i]? = n.values[i]?) :
      Stroke l s ((s.modifyNode id fun n ↦ { n with values := write n.values }).markAll id outputs)
  | draft {s id n} (write : List Value → List Value) (hn : s.node? id = some n)
      (hi : n.inSetup = true) :
      Stroke l s (s.modifyNode id fun n ↦ { n with values := write n.values })
  | endSetup {s id} (h : l.opens id) :
      Stroke l s (s.modifyNode id fun n ↦ { n with inSetup := false })
  | addNode (s sp type) : Stroke l s (s.addNode sp type)
  | dropNode {s k n} (hn : s.node? (.issued k) = some n) : Stroke l s (s.dropNode k n)
  | dequeue (h : l.dequeues) (s pending) : Stroke l s { s with pending }

abbrev Strokes (l : Licence) : Scene → Scene → Prop := Relation.ReflTransGen (Stroke l)

variable {l : Licence} {s s' t : Scene} {guest : Option SpaceId} {id : NodeId} {n : Node}
  {sp : SpaceId} {x : Space} {index field : Nat}

section markAll

theorem markAll_cons (s : Scene) (id : NodeId) (i : Nat) (outputs : List Nat) :
    s.markAll id (i :: outputs) = (s.markChanged id i).markAll id outputs := rfl

theorem node?_markAll (s : Scene) (id : NodeId) (outputs : List Nat) (k : NodeId) :
    (s.markAll id outputs).node? k =
      if k = id then (s.node? k).map (·.flagAll outputs) else s.node? k := by
  induction outputs generalizing s with
  | nil =>
    change s.node? k = _
    split
    · cases s.node? k <;> rfl
    · rfl
  | cons i outputs ih =>
    rw [markAll_cons, ih, markChanged]
    change ite _ (Option.map _ ((s.modifyNode id _).node? k)) ((s.modifyNode id _).node? k) = _
    rw [node?_modifyNode]
    split
    · rw [Option.map_map]
      rfl
    · rfl

theorem pending_markAll (s : Scene) (id : NodeId) (outputs : List Nat) :
    (s.markAll id outputs).pending = s.pending ++ outputs.map (id, ·) := by
  induction outputs generalizing s with
  | nil => exact (List.append_nil _).symm
  | cons i outputs ih =>
    rw [markAll_cons, ih, List.map_cons, List.append_cons]
    simp [markChanged, emit, log]

theorem journal_markAll (s : Scene) (id : NodeId) (outputs : List Nat) :
    (s.markAll id outputs).journal =
      s.journal ++ outputs.map fun i ↦ .event (.fieldChanged id i) := by
  induction outputs generalizing s with
  | nil => exact (List.append_nil _).symm
  | cons i outputs ih =>
    rw [markAll_cons, ih, List.map_cons, List.append_cons]
    simp [markChanged, emit, log]

theorem loader_markAll (s : Scene) (id : NodeId) (outputs : List Nat) :
    (s.markAll id outputs).loader = s.loader := by
  induction outputs generalizing s with
  | nil => rfl
  | cons i outputs ih => exact (ih _).trans (loader_modifyNode ..)

theorem spaces_markAll (s : Scene) (id : NodeId) (outputs : List Nat) :
    (s.markAll id outputs).spaces = s.spaces := by
  induction outputs generalizing s with
  | nil => rfl
  | cons i outputs ih => exact (ih _).trans (spaces_modifyNode ..)

theorem issued_markAll (s : Scene) (id : NodeId) (outputs : List Nat) :
    (s.markAll id outputs).nodes.issued = s.nodes.issued := by
  induction outputs generalizing s with
  | nil => rfl
  | cons i outputs ih => exact (ih _).trans (issued_modifyNode ..)

end markAll

theorem routesOf_eq (hx : s.space? sp = some x) : s.routesOf sp = x.routes := by
  rw [routesOf, hx]
  rfl

theorem routesOf_congr (h : s'.spaces = s.spaces) (sp : SpaceId) :
    s'.routesOf sp = s.routesOf sp := by
  rw [routesOf, space?_congr h, routesOf]

namespace Rerouted

theorem of_spaces (h : s'.spaces = s.spaces) : Rerouted l s s' where
  issued := Nat.le_of_eq (by rw [h])
  routes sp _ := by rw [routesOf_congr h]

protected theorem trans (h : Rerouted l s t) (h' : Rerouted l t s') : Rerouted l s s' where
  issued := Nat.le_trans h.issued h'.issued
  routes sp hl := (h'.routes sp hl).trans (h.routes sp hl)

/-- A space gives up routes, or it may get some. -/
theorem modifySpace {f : Space → Space}
    (h : l.links sp ∨ ∀ x, s.space? sp = some x → (f x).routes.Sublist x.routes) :
    Rerouted l s (s.modifySpace sp f) where
  issued := Nat.le_of_eq (issued_modifySpace ..).symm
  routes q hl := by
    unfold routesOf
    rw [space?_modifySpace]
    split
    · next he =>
      subst he
      cases hx : s.space? q with
      | none => exact List.Sublist.refl _
      | some x => exact h.resolve_left hl x hx
    · exact List.Sublist.refl _

theorem dropSpace (p : Option SpaceId) : Rerouted l s (s.dropSpace sp p) where
  issued := Nat.le_of_eq (by cases p <;> simp [Scene.dropSpace, Scene.modifySpace])
  routes q _ := by
    cases hy : (s.dropSpace sp p).space? q with
    | none => simp [routesOf, hy]
    | some y =>
      obtain ⟨-, x, hx, rfl⟩ := of_space?_dropSpace hy
      rw [routesOf_eq hy, routesOf_eq hx]

theorem addSpace {kind : SpaceKind} {owner : Option NodeId} (hx : s.space? sp = some x) :
    Rerouted l s (s.addSpace kind sp owner) where
  issued := Nat.le_of_lt (by simp [Scene.addSpace, Scene.modifySpace])
  routes q _ := by
    cases hy : (s.addSpace kind sp owner).space? q with
    | none => simp [routesOf, hy]
    | some y =>
      rw [routesOf_eq hy]
      rcases of_space?_addSpace hx hy with ⟨-, rfl⟩ | ⟨-, z, hz, rfl⟩
      · exact List.nil_sublist _
      · rw [routesOf_eq hz]

end Rerouted

theorem log_log (s : Scene) (js js' : Journal) : (s.log js).log js' = s.log (js ++ js') := by
  rw [log, log, log, List.append_assoc]

theorem modifySlot_log (s : Scene) (id : NodeId) (f : LoadSlot → LoadSlot) (js : Journal) :
    (s.log js).modifySlot id f = (s.modifySlot id f).log js := by
  cases id <;> rfl

theorem modifySlot_modifySlot (s : Scene) (id : NodeId) (f g : LoadSlot → LoadSlot) :
    (s.modifySlot id f).modifySlot id g = s.modifySlot id fun slot ↦ g (f slot) := by
  cases id with
  | void => rfl
  | issued k =>
    simp [modifySlot, modifyNode, Arena.modify, List.modify_modify_eq, Function.comp_def]

theorem modifySlot_congr {f g : LoadSlot → LoadSlot} (hn : s.node? id = some n)
    (h : f (n.load.getD {}) = g (n.load.getD {})) : s.modifySlot id f = s.modifySlot id g :=
  modifyNode_congr s id _ fun m hm ↦ by
    cases hn.symm.trans hm
    rw [h]

theorem submit_log (s : Scene) (id : NodeId) (ticket : Nat) (urls : List String) (js : Journal) :
    (s.log js).submit id ticket urls = (s.submit id ticket urls).log js := by
  cases id <;> rfl

theorem submit_enter {p : Pool} (hn : s.node? id = some n) (hp : s.loader = some p)
    (urls : List String) :
    (s.modifySlot id (·.enter .loading)).submit id ((n.load.getD {}).ticket + 1) urls =
      { s.modifySlot id (·.ask id) with
        loader := some (p.submit { request := ⟨id, (n.load.getD {}).ticket + 1⟩, urls }) } := by
  have loader (f : LoadSlot → LoadSlot) : (s.modifySlot id f).loader = some p :=
    (loader_modifyNode ..).trans hp
  have asked : ((s.modifySlot id (·.enter .loading)).modifySlot id fun slot ↦ { slot with
      ticket := (n.load.getD {}).ticket + 1
      pending := some ⟨id, (n.load.getD {}).ticket + 1⟩ }) = s.modifySlot id (·.ask id) := by
    rw [modifySlot_modifySlot]
    exact modifySlot_congr hn rfl
  unfold submit
  dsimp only
  rw [asked, loader, Option.map_some]

theorem modifyNode_log (s : Scene) (id : NodeId) (f : Node → Node) (js : Journal) :
    (s.log js).modifyNode id f = (s.modifyNode id f).log js := by
  cases id <;> rfl

/-- A field of a node out of setup is stored and marked. -/
theorem stored (hs : n.Sound) (hn : s.node? id = some n) (out : n.inSetup = false)
    {d : Declaration} (hd : n.type.table.get? index = some d) (v : Value) :
    Stroke l s ((s.modifyNode id fun n ↦ n.store index v).markChanged id index) := by
  refine .revise (fun vs ↦ vs.set index v) [index] hn out (fun i hi ↦ ?_) fun i hi ↦ ?_
  · rw [List.mem_singleton.mp hi, hs.flags]
    exact FieldTable.lt_size_of_get? hd
  · exact List.getElem?_set_ne fun he ↦ hi (List.mem_singleton.mpr he.symm)

@[simp] theorem cancel_log (s : Scene) (js : Journal) (r : Option Request) :
    (s.log js).cancel r = (s.cancel r).log js := by
  cases r <;> rfl

theorem setLoadState_begin (hn : s.node? id = some n) (hu : n.type.url? = some field)
    (hs : (n.load.getD {}).state = .notLoaded) : s.setLoadState id .loading =
      (.ok (), (s.modifySlot id (·.enter .loading)).emit (loadEvent id field .loading)) := by
  unfold setLoadState
  simp only [hn, hu, hs]
  rfl

/-- A node begins to wait only from the beginning. -/
theorem setLoadState_loading (hn : s.node? id = some n) :
    (∃ e, s.setLoadState id .loading = (.error e, s)) ∨
      ∃ field, n.type.url? = some field ∧ (n.load.getD {}).state = .notLoaded ∧
        s.setLoadState id .loading =
          (.ok (), (s.modifySlot id (·.enter .loading)).emit (loadEvent id field .loading)) := by
  cases hu : n.type.url? with
  | none => exact .inl ⟨_, by simp only [setLoadState, hn, hu]; rfl⟩
  | some field =>
    cases hs : (n.load.getD {}).state with
    | notLoaded => exact .inr ⟨field, rfl, rfl, setLoadState_begin hn hu hs⟩
    | loading | complete | failed =>
      exact .inl ⟨_, by simp only [setLoadState, hn, hu, hs]; rfl⟩

/-- A node that just began to load fails. -/
theorem setLoadState_fail {f : LoadSlot → LoadSlot} (js : Journal) (hn : s.node? id = some n)
    (hu : n.type.url? = some field) (hf : (f (n.load.getD {})).state = .loading) :
    ((s.modifySlot id f).log js).setLoadState id .failed =
      (.ok (), ((s.modifySlot id fun slot ↦ (f slot).enter .failed).cancel
        (f (n.load.getD {})).pending).log (js ++ [.event (loadEvent id field .failed)])) := by
  have self : ((s.modifySlot id f).log js).node? id =
      some { n with load := some (f (n.load.getD {})) } :=
    node?_modifyNode_self s id _ hn
  unfold setLoadState
  simp only [self, hu, hf, Option.getD_some, modifySlot_log, modifySlot_modifySlot, cancel_log]
  exact congrArg (Prod.mk _) (log_log ..)

/-- A node that waits takes its content in. -/
theorem complete_eq (hn : s.node? id = some n) (hu : n.type.url? = some field)
    (hs : (n.load.getD {}).state = .loading) (content : Content) (space : Option SpaceId) :
    s.complete id content space =
      (.ok (), ((s.modifySlot id (·.fill content space)).cancel (n.load.getD {}).pending).emit
        (loadEvent id field .complete)) := by
  have self : (s.modifySlot id fun slot ↦ { slot with content := some content, space }).node? id =
      some { n with load := some { n.load.getD {} with content := some content, space } } :=
    node?_modifyNode_self s id _ hn
  unfold complete setLoadState
  simp only [self, hu, Option.getD_some, hs, modifySlot_modifySlot]
  rfl

@[simp] theorem changes_notes (notes : List String) : Journal.changes (notes.map .note) = [] :=
  List.filterMap_eq_nil_iff.mpr (by simp [Entry.change?])

@[simp] theorem changes_marks (id : NodeId) (outputs : List Nat) :
    Journal.changes (outputs.map fun i ↦ .event (.fieldChanged id i)) = outputs.map (id, ·) := by
  simp [Journal.changes, Entry.change?, List.filterMap_map, Function.comp_def]

theorem Stroke.issued_le (h : Stroke l s s') : s.nodes.issued ≤ s'.nodes.issued := by
  cases h with
  | aside nodes => exact Nat.le_of_eq (by rw [nodes])
  | flag | terminate | tend | dequeue => exact Nat.le_refl _
  | slot | ask | draft | endSetup => exact Nat.le_of_eq (issued_modifyNode ..).symm
  | revise => exact Nat.le_of_eq ((issued_markAll ..).trans (issued_modifyNode ..)).symm
  | addNode => exact Nat.le_of_lt (by rw [Scene.addNode]; simp [modifySpace])
  | dropNode => simp

theorem Strokes.issued_le (h : Strokes l s s') : s.nodes.issued ≤ s'.nodes.issued := by
  induction h with
  | refl => exact Nat.le_refl _
  | tail _ hs ih => exact Nat.le_trans ih hs.issued_le

theorem Stroke.rerouted (h : Stroke l s s') : Rerouted l s s' := by
  cases h with
  | aside nodes pending loader spaces => exact spaces
  | flag | terminate | tend | dequeue => exact .of_spaces rfl
  | slot | ask | draft | endSetup => exact .of_spaces (spaces_modifyNode ..)
  | revise => exact .of_spaces ((spaces_markAll ..).trans (spaces_modifyNode ..))
  | addNode s sp type =>
    have kept : Rerouted l s (s.modifySpace sp (·.adopt s.nextNode)) :=
      .modifySpace (.inr fun _ _ ↦ List.Sublist.refl _)
    exact ⟨kept.issued, kept.routes⟩
  | dropNode => exact .of_spaces (spaces_dropNode ..)

theorem Strokes.rerouted (h : Strokes l s s') : Rerouted l s s' := by
  induction h with
  | refl => exact .of_spaces rfl
  | tail _ hs ih => exact ih.trans hs.rerouted

/-- What the scene makes from now on may be opened and linked. -/
structure Licence.Covers (l : Licence) (s : Scene) : Prop where
  opens : ∀ id, s.Fresh id → l.opens id
  links : ∀ sp, s.spaces.issued ≤ sp.number → l.links sp

theorem Licence.Covers.of_strokes (h : l.Covers s) (hs : Strokes l s s') : l.Covers s' where
  opens id hid := h.opens id (hid.of_issued hs.issued_le)
  links sp hsp := h.links sp (Nat.le_trans hs.rerouted.issued hsp)

namespace Strokes

theorem aside (nodes : s'.nodes = s.nodes) (spaces : s'.spaces = s.spaces)
    (pending : s'.pending = s.pending) (loader : s'.loader = s.loader)
    (journal : ∃ js, s'.journal = s.journal ++ js ∧ Journal.changes js = []) : Strokes l s s' :=
  .single (.aside nodes pending loader (.of_spaces spaces) journal)

theorem log {js : Journal} (h : js.changes = []) : Strokes l s (s.log js) :=
  aside rfl rfl rfl rfl ⟨js, rfl, h⟩

theorem reroute (nodes : s'.nodes = s.nodes) (pending : s'.pending = s.pending)
    (loader : s'.loader = s.loader) (journal : s'.journal = s.journal) (h : Rerouted l s s') :
    Strokes l s s' :=
  .single (.aside nodes pending loader h ⟨[], by rw [journal, List.append_nil], rfl⟩)

theorem cancel (r : Option Request) : Strokes l s (s.cancel r) := by
  cases r with
  | none => exact .refl
  | some r =>
    unfold Scene.cancel
    cases hp : s.loader with
    | none => exact aside rfl rfl rfl (by rw [hp]; rfl) ⟨[], (List.append_nil _).symm, rfl⟩
    | some p => exact .single (.flag hp [r])

end Strokes

end Scene

end SceneGraph
