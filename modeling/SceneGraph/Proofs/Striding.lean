import SceneGraph.Proofs.Faring

/-!
Operations as sequences of strides.

A stride is a write from outside with all that reacts to it, the end of a setup, the tick of a
sensor, a new node, or something that leaves the fields of nodes alone. Nodes between two strides
are at rest: no script of theirs has been put off. What strides keep, nodes have whenever they are
at rest.
-/

namespace SceneGraph

namespace Scene

/-- The nodes of the second scene are nodes of the first, but for their loads and their flags. -/
structure Resembles (s s' : Scene) : Prop where
  node : ∀ {k m}, s'.node? k = some m →
    ∃ n, s.node? k = some n ∧ m = { n with load := m.load, changed := m.changed }

inductive Stride : Scene → Scene → Prop
  | aside {s s'} (h : Resembles s s') : Stride s s'
  | addNode {s sp type} (ht : type ∈ s.catalog.types) : Stride s (s.addNode sp type)
  | setValue {s s' guest id index v} (hc : s.Coherent [] guest)
      (h : s.setValue id index v = .ok s') : Stride s s'
  | finishSetup {s s' guest id} (hc : s.Coherent [] guest) (h : s.finishSetup id = .ok s') :
      Stride s s'
  | tickSensor {s guest} (hc : s.Coherent [] guest) (id : NodeId) : Stride s (s.tickSensor id)

abbrev Strides : Scene → Scene → Prop := Relation.ReflTransGen Stride

variable {asked : NodeId → Prop} {s s' t : Scene} {guest : Option SpaceId} {id : NodeId}

theorem Fares.resembles (h : Fares asked s s') : Resembles s s' where
  node hm := by
    obtain ⟨n, hn, he, -⟩ := h.node hm
    exact ⟨n, hn, he⟩

theorem Leg.stride (h : Leg asked s s') : Stride s s' := by
  cases h with
  | aside h => exact .aside h.resembles
  | addNode ht => exact .addNode ht
  | setValue hc h => exact .setValue hc h
  | finishSetup hc h => exact .finishSetup hc h
  | tickSensor hc id => exact .tickSensor hc id

theorem Legs.strides (h : Legs asked s s') : Strides s s' := by
  induction h with
  | refl => exact .refl
  | tail _ h ih => exact ih.tail h.stride

/-- An operation is done in strides. -/
theorem Step.strides (h : s.Coherent [] none) (hs : Step s s') : Strides s s' := by
  obtain ⟨op, rfl⟩ := hs.exists_run
  exact (h.legs op).strides

/-- New nodes have the property, and no stride takes it from them. -/
structure Restful (P : Node → Prop) : Prop where
  new (type sp place) : P (.new type sp place)
  aside {n load changed} : P n → P { n with load, changed }
  setValue {s s' : Scene} {guest id index v n m} : s.Coherent [] guest →
    s.setValue id index v = .ok s' → s.node? id = some n → s'.node? id = some m → P n → P m
  finishSetup {s s' : Scene} {guest id n m} : s.Coherent [] guest → s.finishSetup id = .ok s' →
    s.node? id = some n → s'.node? id = some m → P n → P m
  tickSensor {s : Scene} {guest id n m} : s.Coherent [] guest → s.node? id = some n →
    (s.tickSensor id).node? id = some m → P n → P m

namespace Restful

variable {P : Node → Prop}

/-- Work on one node leaves the property to the others. -/
theorem edited (he : Edited guest id s s') (h : ∀ {k n}, s.node? k = some n → P n)
    (self : ∀ {n m}, s.node? id = some n → s'.node? id = some m → P n → P m) {k : NodeId}
    {m : Node} (hm : s'.node? k = some m) : P m := by
  by_cases hk : k = id
  · subst hk
    obtain ⟨n, hn⟩ := hasNode_iff.mp (he.hasNode (hasNode_iff.mpr ⟨m, hm⟩))
    exact self hn hm (h hn)
  · exact h (he.node hk hm)

theorem stride (hp : Restful P) (hs : Stride s s') (h : ∀ {k n}, s.node? k = some n → P n)
    {k : NodeId} {m : Node} (hm : s'.node? k = some m) : P m := by
  cases hs with
  | aside resembles =>
    obtain ⟨n, hn, he⟩ := resembles.node hm
    exact he ▸ hp.aside (h hn)
  | addNode =>
    rcases of_node?_addNode hm with ⟨-, rfl⟩ | hm
    · exact hp.new ..
    · exact h hm
  | setValue hc hs => exact edited (Edited.setValue hc hs) h (hp.setValue hc hs) hm
  | finishSetup hc hs => exact edited (Edited.finishSetup hc hs) h (hp.finishSetup hc hs) hm
  | tickSensor hc id => exact edited (Edited.tickSensor hc) h (hp.tickSensor hc) hm

theorem strides (hp : Restful P) (hs : Strides s s') (h : ∀ {k n}, s.node? k = some n → P n) :
    ∀ {k m}, s'.node? k = some m → P m := by
  induction hs with
  | refl => exact h
  | tail _ hs ih => exact hp.stride hs ih

/-- Nodes have the property in every scene that operations lead to, and whenever they are at rest
in the midst of one. -/
theorem forall_nodes (hp : Restful P) (h : s.Reachable) (ht : Strides s t) :
    ∀ {k m}, t.node? k = some m → P m := by
  refine hp.strides ht ?_
  clear ht
  induction h with
  | @new catalog settings s _ h =>
    obtain ⟨⟨⟩, -, h⟩ := bind_eq_ok.mp h
    cases h
    intro k n hn
    rw [node?_start] at hn
    cases hn
  | step before hs ih => exact hp.strides (hs.strides before.coherent) ih

end Restful

end Scene

end SceneGraph
