import Mathlib
import SceneGraph.Proofs.Reachable

namespace SceneGraph

namespace Scene

variable {s s' : Scene} {sp : SpaceId} {x : Space}

/-- The second scene is the first but for reports made since. -/
structure Same (s s' : Scene) : Prop where
  node : ∀ id, s'.node? id = s.node? id
  space : ∀ q, s'.space? q = s.space? q
  sensors : s'.sensors = s.sensors
  pending : s'.pending = s.pending
  loader : s'.loader = s.loader
  cache : s'.cache = s.cache
  time : s'.time = s.time
  settings : s'.settings = s.settings
  catalog : s'.catalog = s.catalog
  journal : ∃ reports : List Report, s'.journal = s.journal ++ reports.map .report

/-- The scene with other names bound in a space. -/
def rebind (s : Scene) (sp : SpaceId) (names : List (String × NodeId)) : Scene :=
  s.modifySpace sp fun x ↦ { x with names }

theorem space?_rebind_self (hx : s.space? sp = some x) (names : List (String × NodeId)) :
    (s.rebind sp names).space? sp = some { x with names } :=
  space?_modifySpace_self _ _ _ hx

theorem space?_rebind_of_ne {q : SpaceId} (hq : q ≠ sp) (names : List (String × NodeId)) :
    (s.rebind sp names).space? q = s.space? q :=
  space?_modifySpace_of_ne _ _ _ hq

theorem Same.of_rebind {names : List (String × NodeId)} (h : Same (s.rebind sp names) s')
    (hx : s.space? sp = some x) : Same s s' ↔ names = x.names := by
  have home := (h.space sp).trans (space?_rebind_self hx names)
  constructor
  · intro hs
    rw [hs.space, hx, Option.some.injEq] at home
    rw [home]
  · rintro rfl
    refine ⟨h.node, fun q ↦ ?_, h.sensors, h.pending, h.loader, h.cache, h.time, h.settings,
      h.catalog, h.journal⟩
    by_cases hq : q = sp
    · rw [hq, home, hx]
    · rw [h.space, space?_rebind_of_ne hq]

/-- The bindings of a space that a text, read up to its fault, did not replace. -/
def keptBindings (s : Scene) (sp : SpaceId) (text : String) : List (String × NodeId) :=
  (s.bindings sp).filter fun b ↦ b ∈ (s.draftOf sp text).scene.bindings sp

/-- A load that fails puts back all but the bindings that its text replaced. -/
theorem same_of_load_error {guest : Option SpaceId} (h : s.Coherent [] guest)
    (hx : s.space? sp = some x) {text : String} {e : Error}
    (hl : s.load sp text = (.error e, s')) :
    Same (s.rebind sp (s.keptBindings sp text)) s' := by
  obtain ⟨drafting, ⟨e', he⟩ | ⟨roots, s'', he, -⟩⟩ := load_cases h hx text
  · rw [hl] at he
    cases he
    obtain ⟨-, names, rfl, hd⟩ := drafting.rollBack h hx
    have kept : s.keptBindings sp text =
        x.names.filter fun b ↦ decide (b ∈ (s.draftOf sp text).scene.bindings sp) := by
      rw [keptBindings, bindings_eq hx]
    have ha := hd.aside
    simp only [Scene.aside, Prod.mk.injEq] at ha
    obtain ⟨hp, hlo, hc, ht, hj, hs, hcat, -⟩ := ha
    refine ⟨fun id ↦ hd.old List.not_mem_nil, fun q ↦ ?_, ?_, hp, hlo, hc, ht, hs, hcat,
      [_], congrArg (· ++ _) hj⟩
    · by_cases hq : q = sp
      · rw [hq, space?_rebind_self hx, kept]
        have home := hd.home
        rwa [List.append_nil] at home
      · rw [space?_rebind_of_ne hq]
        exact hd.other hq
    · exact (List.filter_eq_self.mpr (by simp)).symm.trans hd.sensors
  · rw [hl] at he
    cases he

/-- A load that fails leaves the scene as it was exactly if the text, up to its fault, replaced no
binding of the space. The bindings that it replaced, and nothing else, are lost. -/
theorem load_error_same_iff (h : s.Reachable) (hx : s.hasSpace sp) {text : String} {e : Error}
    (hl : s.load sp text = (.error e, s')) :
    (Same s s' ↔ ∀ b ∈ s.bindings sp, b ∈ (s.draftOf sp text).scene.bindings sp) ∧
      Same (s.rebind sp (s.keptBindings sp text)) s' := by
  obtain ⟨x, hx⟩ := hasSpace_iff.mp hx
  have hs := same_of_load_error h.coherent hx hl
  refine ⟨?_, hs⟩
  rw [hs.of_rebind hx, keptBindings, bindings_eq hx, List.filter_eq_self]
  simp only [decide_eq_true_eq]

section named

def bare : NodeType := ⟨"Group", ⟨[]⟩, [], .bytes, .passive⟩

def named : Scene :=
  ((start ⟨[bare]⟩ {}).addNode .main bare).modifySpace .main (·.bind "A" (.issued 0))

theorem reachable_named : named.Reachable := by
  have new : Scene.new ⟨[bare]⟩ {} = .ok (start ⟨[bare]⟩ {}) := rfl
  have built : ∀ t ∈ [bare], t.Built := by
    intro t ht
    cases List.mem_singleton.mp ht
    exact ⟨Blueprint.of "Group" [], rfl⟩
  have made : (start ⟨[bare]⟩ {}).createNode .main "Group" =
      .ok (.issued 0, (start ⟨[bare]⟩ {}).addNode .main bare) :=
    createNode_eq_ok.mpr ⟨_, _, rfl, rfl, rfl, rfl⟩
  have bound : ((start ⟨[bare]⟩ {}).addNode .main bare).define .main "A" (.issued 0) = .ok named :=
    define_eq_ok.mpr ⟨_, rfl, List.mem_singleton_self _, rfl⟩
  exact ((Reachable.new built new).step (.createNode made)).step (.define bound)

theorem load_named : (∃ e s', named.load .main "DEF A Group" = (.error e, s')) ∧
    (named.draftOf .main "DEF A Group").scene.bindings .main = [("A", .issued 1)] := by
  refine ⟨?_, by cbv⟩
  have tokens : Lexer.tokenize "DEF A Group" =
      .ok [⟨.keyword .define, 0, 3⟩, ⟨.ident "A", 4, 5⟩, ⟨.ident "Group", 6, 11⟩] := by
    cbv
  have faulty : (Reader.document ⟨.main, 11⟩ ⟨named, [], []⟩
      [⟨.keyword .define, 0, 3⟩, ⟨.ident "A", 4, 5⟩, ⟨.ident "Group", 6, 11⟩]).isOk = false := by
    cbv
  have size : "DEF A Group".utf8ByteSize = 11 := by decide +kernel
  unfold load
  rw [if_neg (by decide +kernel), tokens, size]
  dsimp only
  split
  · exact ⟨_, _, rfl⟩
  · next he =>
    rw [he] at faulty
    cases faulty

/-- Loading "DEF A Group" into a space that binds "A" fails, and the binding is lost. -/
theorem load_error_not_same : ¬∀ (s s' : Scene) (sp : SpaceId) (text : String) (e : Error),
    s.Reachable → s.hasSpace sp → s.load sp text = (.error e, s') → Same s s' := by
  intro h
  obtain ⟨⟨e, s', he⟩, hb⟩ := load_named
  have same := h named s' .main "DEF A Group" e reachable_named rfl he
  have restored := same_of_load_error reachable_named.coherent rfl he
  have kept := (restored.of_rebind rfl).mp same
  rw [keptBindings, hb] at kept
  exact absurd kept (by decide +kernel)

theorem load_error_same_iff_named : ∃ e s', named.load .main "DEF A Group" = (.error e, s') ∧
    ¬Same named s' ∧ Same (named.rebind .main []) s' := by
  obtain ⟨⟨e, s', he⟩, hb⟩ := load_named
  obtain ⟨hiff, hs⟩ := load_error_same_iff reachable_named rfl he
  refine ⟨e, s', he, ?_, ?_⟩
  · rw [hiff, hb]
    decide +kernel
  · rw [keptBindings, hb] at hs
    exact hs

end named

end Scene

end SceneGraph
