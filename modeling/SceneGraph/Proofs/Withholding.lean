import SceneGraph.Proofs.Alternating

/-!
Content that is switched off.

Loads begin at the end of a setup, with new urls, when loading is switched on, and when a provider
is replaced. None of these makes an inline node load whose `load` is FALSE, and when `load` becomes
FALSE the node lets go of what it has and of what it waits for.
-/

namespace SceneGraph

namespace Node

/-- The type of the node is that of inline scenes. -/
def IsInline (n : Node) : Prop := Standard.inlineScene.build = .ok n.type

/-- An inline node that is not to load. -/
structure SwitchedOff (n : Node) : Prop where
  inline : n.IsInline
  ready : n.inSetup = false
  off : n.valueOf? "load" = some (.bool false)

/-- Who is at the beginning has no content. -/
def Clears (n : Node) : Prop :=
  ∀ slot, n.load = some slot → slot.state = .notLoaded → slot.content = none ∧ slot.space = none

/-- An inline node is not loaded for as long as it is being set up or switched off. -/
def Withheld (n : Node) : Prop :=
  n.IsInline → n.Clears ∧
    (n.inSetup = true ∨ n.valueOf? "load" = some (.bool false) →
      n.loadState? = some .notLoaded)

end Node

namespace Scene

def inlineType : NodeType :=
  ⟨"Inline", ⟨Standard.inlineScene.declarations⟩, [.metadata, .loadable], .scene, .passive⟩

end Scene

namespace Node

open Scene

variable {n m : Node} {asked : Prop} {v : Value} {i : Nat}

namespace IsInline

theorem type_eq (h : n.IsInline) : n.type = inlineType := by
  have built : Standard.inlineScene.build = .ok inlineType := rfl
  exact Except.ok.inj (h.symm.trans built)

theorem behavior (h : n.IsInline) : n.type.behavior = .passive := by rw [h.type_eq]; rfl

theorem url? (h : n.IsInline) : n.type.url? = some 1 := by
  rw [h.type_eq]
  decide

theorem children? (h : n.IsInline) : n.type.children? = none := by rw [h.type_eq]; rfl

theorem load_index (h : n.IsInline) : n.type.table.indexOf? "load" = some 2 := by
  rw [h.type_eq]
  decide

theorem valueOf?_load (h : n.IsInline) : n.valueOf? "load" = n.values[2]? := by
  rw [valueOf?, h.load_index, Option.bind_some]

theorem has_loadable (h : n.IsInline) : n.type.has .loadable := by
  rw [h.type_eq]
  rfl

end IsInline

theorem Fared.clears (h : n.Fared asked m) (hc : n.Clears) : m.Clears := by
  intro slot hl hs
  cases h with
  | kept hk => exact hc slot (hk ▸ hl) hs
  | reset hr =>
    cases hr.symm.trans hl
    exact ⟨rfl, rfl⟩
  | begun hb => exact absurd (by rw [loadState?, hl, Option.map_some, hs]) hb

/-- Nodes that do not ask are not loaded on their own account. -/
theorem Fared.rests (h : n.Fared asked m) (ha : ¬asked) (hs : n.loadState? = some .notLoaded) :
    m.loadState? = some .notLoaded := by
  cases h with
  | kept hk => rwa [loadState?_congr hk]
  | reset hr => rw [loadState?, hr]; rfl
  | begun _ hb =>
    rcases hb with hb | hb
    · exact absurd hb ha
    · cases hs.symm.trans hb

/-- Loads that fare without being asked for are withheld as before. -/
theorem Withheld.fared (h : n.Withheld) (hf : n.Fared asked m) (type : m.type = n.type)
    (setup : m.inSetup = n.inSetup) (load : m.valueOf? "load" = n.valueOf? "load")
    (unasked : n.valueOf? "load" = some (.bool false) ∨ n.inSetup = true → ¬asked) :
    m.Withheld := by
  intro inline
  obtain ⟨clears, rests⟩ := h (by rwa [IsInline, ← type])
  refine ⟨hf.clears clears, fun hm ↦ ?_⟩
  rw [setup, load] at hm
  exact hf.rests (unasked hm.symm) (rests hm)

theorem Withheld.new (type : NodeType) (sp : SpaceId) (place : Nat) :
    (Node.new type sp place).Withheld := by
  intro inline
  have blank : (Node.new type sp place).load = some {} := if_pos inline.has_loadable
  refine ⟨fun slot hl _ ↦ ?_, fun _ ↦ by rw [loadState?, blank]; rfl⟩
  cases blank.symm.trans hl
  exact ⟨rfl, rfl⟩

end Node

namespace Scene

variable {asked : NodeId → Prop} {s s' t : Scene} {guest : Option SpaceId} {id : NodeId}
  {n m : Node} {index : Nat} {v : Value} {os : List (Operation × Scene)}

section wanting

theorem not_wantsLoad_of_off (hn : s.node? id = some n)
    (off : n.valueOf? "load" = some (.bool false)) : ¬s.wantsLoad id := by
  intro hw
  obtain ⟨n', hn', -, on, -⟩ := wantsLoad_iff.mp hw
  cases hn.symm.trans hn'
  exact on (by rw [off]; rfl)

/-- Who wants to load after its load has changed wanted that before, but for the state. -/
theorem Reloads.not_wantsLoad (h : Reloads s t) (hn : s.node? id = some n)
    (off : n.valueOf? "load" = some (.bool false)) : ¬t.wantsLoad id := by
  intro hw
  obtain ⟨m, hm, -⟩ := wantsLoad_iff.mp hw
  obtain ⟨n', hn', he⟩ := h.node hm
  cases hn.symm.trans hn'
  refine not_wantsLoad_of_off hm ?_ hw
  rw [he]
  exact off

namespace Fares

variable (h : s.Coherent [] guest) (ha : ∀ t, Reloads s t → t.wantsLoad id → asked id)
include h ha

theorem urlChanged : Fares asked s (s.urlChanged id) := by
  unfold Scene.urlChanged
  dsimp only
  split
  · have reloads : Reloads s (Scene.orWarn "Could not reset load state."
        (s.setLoadState id .notLoaded)) := (Reloads.setLoadState ..).orWarn _
    have edited : Edited guest id s (Scene.orWarn "Could not reset load state."
        (s.setLoadState id .notLoaded)) := Edited.orWarn (Edited.setLoadState h _) _
    exact ((reset h).orWarn _).trans (autoLoad edited.coherent (ha _ reloads))
  · exact autoLoad h (ha s (.refl s))

theorem loadSwitched (index : Nat) : Fares asked s (s.loadSwitched id index) := by
  unfold Scene.loadSwitched
  split
  · exact .refl s
  split
  · exact autoLoad h (ha s (.refl s))
  split
  · exact (reset h).orWarn _
  · exact .refl s

theorem applyLoadable (type : NodeType) (index : Nat) :
    Fares asked s (s.applyLoadable id type index) := by
  unfold Scene.applyLoadable
  split
  · exact urlChanged h ha
  split
  · exact loadSwitched h ha index
  · exact .refl s

end Fares

end wanting

/-- Whoever is switched off lets go of its content. -/
theorem loadSwitched_off (h : s.Coherent [] guest) (hn : s.node? id = some n)
    (inline : n.IsInline) (off : n.values[index]? = some (.bool false))
    (hm : (s.loadSwitched id index).node? id = some m) : m.loadState? = some .notLoaded := by
  obtain ⟨slot, hl⟩ := (h.sound hn).exists_slot inline.url?
  unfold loadSwitched at hm
  simp only [hn, off, Option.bind_some, Value.asBool?, Option.getD_some, Bool.false_eq_true,
    if_false] at hm
  split at hm
  · next hs =>
    have loaded : slot.state ≠ .notLoaded := by
      intro he
      rw [Node.loadState?, hl, Option.map_some, he] at hs
      exact hs rfl
    obtain ⟨t, entered, ht⟩ := setLoadState_reset h hn hl inline.url? loaded
    have after : (orWarn "Could not unload content." (s.setLoadState id .notLoaded)).node? id =
        some { n with load := some (slot.enter .notLoaded) } := by
      rcases ht with ⟨-, he, -⟩ | ⟨-, he⟩
      all_goals
        rw [he]
        exact entered.self
    cases after.symm.trans hm
    rfl
  · next hs =>
    cases hn.symm.trans hm
    exact Decidable.of_not_not hs

/-- A script of an inline node does nothing. -/
theorem node?_perform_inline (hn : s.node? id = some n) (inline : n.IsInline)
    {script : Behavior → Script} (hs : script .passive = .done)
    (hm : (s.perform id script).node? id = some m) : ∃ flags, m = { n with changed := flags } := by
  obtain ⟨flags, -, performed⟩ := Remade.perform hn script
  rw [inline.behavior, hs] at performed
  exact ⟨flags, Option.some.inj (hm.symm.trans performed.self)⟩

section legs

variable (h : s.Coherent [] guest) (hn : s.node? id = some n) (hw : n.Withheld)
include h hn hw

theorem withheld_setValue (hs : s.setValue id index v = .ok s') (hm : s'.node? id = some m) :
    m.Withheld := by
  intro later
  obtain ⟨m', hm', type, -⟩ := (Edited.setValue h hs).exists_self hn
  cases hm.symm.trans hm'
  have inline : n.IsInline := by rwa [Node.IsInline, ← type]
  obtain ⟨clears, rests⟩ := hw inline
  obtain ⟨n₁, hn₁, ⟨hi, -, rfl⟩ | ⟨hi, marked, rfl⟩⟩ := Edited.setValue_stages h hs
  all_goals
    cases hn.symm.trans hn₁
  · cases (node?_modifyNode_self _ _ _ hn).symm.trans hm
    exact ⟨clears, fun _ ↦ rests (.inl hi)⟩
  have before := (Remade.stored hn index v).self
  have same : ((n.store index v).flagAll [index]).IsInline := inline
  have load : ((n.store index v).flagAll [index]).valueOf? "load" =
      (n.values.set index v)[2]? := same.valueOf?_load
  generalize (s.modifyNode id fun n ↦ n.store index v).markChanged id index = t at *
  have childless : t.applyCapabilities id n.type index = t.applyLoadable id n.type index := by
    rw [applyCapabilities, inline.children?]
  rw [childless] at hm
  obtain ⟨w, hw', kept, -⟩ :=
    (Edited.applyLoadable marked.coherent n.type index).exists_self before
  obtain ⟨flags, he⟩ := node?_perform_inline hw' (by rwa [Node.IsInline, kept]) rfl hm
  have fares : Fares (fun _ ↦ (n.values.set index v)[2]? ≠ some (.bool false)) t
      (t.applyLoadable id n.type index) :=
    .applyLoadable marked.coherent (fun u reloads wants off ↦
      reloads.not_wantsLoad before (load.trans off) wants) n.type index
  obtain ⟨n', hn', he', fared⟩ := fares.node hw'
  cases before.symm.trans hn'
  have whole : m.load = w.load := by rw [he]
  refine ⟨fun slot hl ↦ fared.clears clears slot (whole ▸ hl), fun off ↦ ?_⟩
  have off : (n.values.set index v)[2]? = some (.bool false) := by
    rw [later.valueOf?_load, he] at off
    rw [he'] at off
    exact off.resolve_left (by simp [Node.flagAll, Node.store, hi])
  rw [Node.loadState?_congr whole]
  by_cases two : index = 2
  · subst two
    have switched : t.applyLoadable id n.type 2 = t.loadSwitched id 2 := by
      rw [applyLoadable, inline.url?, inline.load_index]
      rfl
    exact loadSwitched_off marked.coherent before same off (switched ▸ hw')
  · rw [List.getElem?_set_ne two] at off
    refine fared.rests (fun on ↦ on ?_) (rests (.inr (inline.valueOf?_load.trans off)))
    rwa [List.getElem?_set_ne two]

theorem withheld_finishSetup (hs : s.finishSetup id = .ok s') (hm : s'.node? id = some m) :
    m.Withheld := by
  intro later
  obtain ⟨m', hm', type, -⟩ := (Edited.finishSetup h hs).exists_self hn
  cases hm.symm.trans hm'
  have inline : n.IsInline := by rwa [Node.IsInline, ← type]
  have ended : Edited guest id s ((s.modifyNode id fun n ↦ { n with inSetup := false }).perform id
    Behavior.setupFinished) := Edited.endSetup h
  unfold finishSetup at hs
  obtain ⟨n₁, hn₁, hs⟩ := bind_eq_ok.mp hs
  rw [node_eq_ok] at hn₁
  cases hn.symm.trans hn₁
  split at hs
  · cases hs
    cases hn.symm.trans hm
    exact hw later
  next hi =>
  have opened := node?_modifyNode_self s id (fun n ↦ { n with inSetup := false }) hn
  obtain ⟨w, hw', -⟩ := ended.exists_self hn
  obtain ⟨flags, he⟩ := node?_perform_inline opened inline rfl hw'
  dsimp only at hs
  rw [if_pos inline.has_loadable] at hs
  cases hs
  generalize (s.modifyNode id fun n ↦ { n with inSetup := false }).perform id
    Behavior.setupFinished = t at *
  have fares : Fares (fun _ ↦ w.valueOf? "load" ≠ some (.bool false)) t (t.autoLoad id) :=
    .autoLoad ended.coherent fun wants off ↦ not_wantsLoad_of_off hw' off wants
  obtain ⟨w', hw'', he', fared⟩ := fares.node hm
  cases hw'.symm.trans hw''
  obtain ⟨clears, rests⟩ := hw inline
  refine ⟨fared.clears (by rw [he]; exact clears), fun off ↦ fared.rests (fun on ↦ on ?_) ?_⟩
  · rw [he', he] at off
    rw [he]
    exact off.resolve_left nofun
  · rw [he]
    exact rests (.inl (by simpa using hi))

theorem withheld_tickSensor (hm : (s.tickSensor id).node? id = some m) : m.Withheld := by
  intro later
  have ticked : Edited guest id s (s.tickSensor id) := Edited.tickSensor h
  obtain ⟨m', hm', type, -⟩ := ticked.exists_self hn
  cases hm.symm.trans hm'
  have inline : n.IsInline := by rwa [Node.IsInline, ← type]
  unfold tickSensor at hm
  simp only [hn] at hm
  split at hm
  · cases hn.symm.trans hm
    exact hw later
  · obtain ⟨flags, rfl⟩ := node?_perform_inline hn inline rfl hm
    exact hw inline

end legs

/-- Work on one node leaves it withheld, and has nothing to do with the others. -/
theorem Edited.keeps_withheld (he : Edited guest id s s') {k : NodeId}
    (h : ∀ {n}, s.node? k = some n → n.Withheld) (hm : s'.node? k = some m)
    (self : ∀ {n m}, s.node? id = some n → n.Withheld → s'.node? id = some m → m.Withheld) :
    m.Withheld := by
  by_cases hk : k = id
  · subst hk
    obtain ⟨n, hn⟩ := hasNode_iff.mp (he.hasNode (hasNode_iff.mpr ⟨m, hm⟩))
    exact self hn (h hn) hm
  · exact h (he.node hk hm)

/-- No leg makes a node load that did not ask and is switched off. -/
theorem Leg.keeps_withheld (hl : Leg asked s s') {k : NodeId} (hk : ¬asked k)
    (h : ∀ {n}, s.node? k = some n → n.Withheld) (hm : s'.node? k = some m) : m.Withheld := by
  cases hl with
  | aside fares =>
    obtain ⟨n, hn, he, fared⟩ := fares.node hm
    exact (h hn).fared fared (by rw [he]) (by rw [he]) (by rw [he]; rfl) fun _ ↦ hk
  | addNode =>
    rcases of_node?_addNode hm with ⟨-, rfl⟩ | hm
    · exact Node.Withheld.new _ _ _
    · exact h hm
  | setValue hc hs =>
    exact (Edited.setValue hc hs).keeps_withheld h hm fun hn hw ↦ withheld_setValue hc hn hw hs
  | finishSetup hc hs =>
    exact (Edited.finishSetup hc hs).keeps_withheld h hm
      fun hn hw ↦ withheld_finishSetup hc hn hw hs
  | tickSensor hc id =>
    exact (Edited.tickSensor hc).keeps_withheld h hm fun hn hw ↦ withheld_tickSensor hc hn hw

theorem Legs.keeps_withheld (hl : Legs asked s s') {k : NodeId} (hk : ¬asked k)
    (h : ∀ {n}, s.node? k = some n → n.Withheld) : ∀ {m}, s'.node? k = some m → m.Withheld := by
  induction hl with
  | refl => exact h
  | tail _ hl ih => exact hl.keeps_withheld hk ih

theorem Story.legs_withheld (h : Story os s) (unasked : ∀ o ∈ os, ¬o.1.Asks id) :
    ∀ {n}, s.node? id = some n → n.Withheld := by
  induction h with
  | @new catalog settings s _ h =>
    obtain ⟨⟨⟩, -, h⟩ := bind_eq_ok.mp h
    cases h
    intro n hn
    cases (node?_start ..).symm.trans hn
  | next h op ih =>
    obtain ⟨before, last⟩ := List.forall_mem_append.mp unasked
    exact (h.coherent.legs op).keeps_withheld (last _ List.mem_cons_self) (ih before)

/-- An inline node that is switched off, and that nobody asked to load by hand, is not loaded and
has no content, neither between operations nor whenever nodes are at rest in the midst of one that
does not ask. No space holds content for it. -/
theorem Story.withheld (h : Story os s) (unasked : ∀ o ∈ os, ¬o.1.Asks id) :
    (∀ t n, Legs (fun _ ↦ False) s t → t.node? id = some n → n.SwitchedOff →
      n.loadState? = some .notLoaded ∧ n.load.bind LoadSlot.content = none ∧
        t.inlineSpace? id = none) ∧
    ∀ n, s.node? id = some n → n.SwitchedOff → ∀ sp x, s.space? sp = some x →
      x.owner ≠ some id := by
  have begun : ∀ {n}, s.node? id = some n → n.Withheld := h.legs_withheld unasked
  have idle {t n} (legs : Legs (fun _ ↦ False) s t) (hn : t.node? id = some n)
      (off : n.SwitchedOff) : ∃ slot, n.load = some slot ∧ slot.state = .notLoaded ∧
        slot.content = none ∧ slot.space = none := by
    obtain ⟨clears, rests⟩ := legs.keeps_withheld not_false begun hn off.inline
    obtain ⟨slot, hl, hs⟩ := Option.map_eq_some_iff.mp (rests (.inr off.off))
    exact ⟨slot, hl, hs, clears slot hl hs⟩
  refine ⟨fun t n legs hn off ↦ ?_, fun n hn off sp x hx owner ↦ ?_⟩
  · obtain ⟨slot, hl, hs, content, space⟩ := idle legs hn off
    rw [Node.loadState?, hl, inlineSpace?, slot?_of_load hn hl, Option.map_some, hs]
    exact ⟨rfl, content, space⟩
  · obtain ⟨slot, hl, -, -, space⟩ := idle .refl hn off
    rcases h.coherent.claimed.owned hx owner with doomed | guest | ⟨n', hn', -, content⟩
    · cases doomed
    · cases guest
    · cases hn.symm.trans hn'
      rw [Node.contentSpace?, hl, Option.bind_some, space] at content
      cases content

def stocking : List Operation :=
  [.setProvider (.ofEntries [("a", .empty)]), .createNode .main "Inline",
    .setValue (.issued 0) 1 (.ofStrings ["a"]), .finishSetup (.issued 0), .poolTake] ++
    List.replicate 5 (.poolAdvance 0)

/-- Content for an inline node was found. -/
def stocked : Scene := stocking.foldl Operation.run (start ⟨[inlineType]⟩ {})

/-- The urls are written once more, and before the content comes again the node is switched off. -/
def clearing : List Operation :=
  [.setValue (.issued 0) 1 (.ofStrings ["a"]), .poolTake, .poolAdvance 0, .poolAdvance 0,
    .setValue (.issued 0) 2 (.bool false)] ++ List.replicate 3 (.poolAdvance 0)

/-- The node had its content, and content was found for it when it was switched off. -/
def cleared : Scene := clearing.foldl Operation.run (stocked.pulse 0)

def urging : List Operation :=
  [.setValue (.issued 0) 1 (.ofStrings ["a"]), .setProvider (.ofEntries [("a", .empty)])]

/-- The content came late, the urls were written again and the provider was replaced. -/
def urged : Scene := urging.foldl Operation.run (cleared.pulse 1)

theorem story_urged (id : NodeId) : ∃ os, Story os urged ∧ ∀ o ∈ os, ¬o.1.Asks id := by
  have built : ∀ t ∈ [inlineType], t.Built := by
    simpa using ⟨Standard.inlineScene, rfl⟩
  have made : Scene.new ⟨[inlineType]⟩ {} = .ok (start ⟨[inlineType]⟩ {}) := rfl
  have first : (Operation.tick [] 0).run stocked = stocked.pulse 0 :=
    run_tick_unrouted (by decide +kernel)
  have idle : (cleared.outsets [] 1).all (fun o ↦
      o.scene.pending.all fun p ↦ (o.scene.routesFor p.1 p.2).isEmpty) = true := by cbv
  have second : (Operation.tick [] 1).run cleared = cleared.pulse 1 :=
    run_tick_unrouted fun o ho p hp ↦
      List.isEmpty_iff.mp (List.all_eq_true.mp (List.all_eq_true.mp idle o ho) p hp)
  have begun := ((Story.new built made).trail stocking).next (.tick [] 0)
  rw [← stocked, first] at begun
  have onward := (begun.trail clearing).next (.tick [] 1)
  rw [← cleared, second] at onward
  refine ⟨_, onward.trail urging, fun o ho asks ↦ ?_⟩
  have mem : o.1 ∈ stocking ++ [.tick [] 0] ++ clearing ++ [.tick [] 1] ++ urging := by
    simp only [List.nil_append, List.mem_append, List.mem_singleton] at ho ⊢
    rcases ho with (((ho | rfl) | ho) | rfl) | ho
    · exact .inl (.inl (.inl (.inl (fst_mem_of_mem_trail ho))))
    · exact .inl (.inl (.inl (.inr rfl)))
    · exact .inl (.inl (.inr (fst_mem_of_mem_trail ho)))
    · exact .inl (.inr rfl)
    · exact .inr (fst_mem_of_mem_trail ho)
  generalize o.1 = op at mem asks
  cases asks <;> simp [stocking, clearing, urging] at mem

/-- The node was loaded, and loading again when it was switched off; now it has nothing. -/
theorem withheld_urged :
    ((stocked.pulse 0).inlineSpace? (.issued 0) = some ⟨1⟩ ∧
      (cleared.loader.map fun p ↦ p.completions.length) = some 1) ∧
    ∃ n, urged.node? (.issued 0) = some n ∧ n.SwitchedOff ∧
      n.loadState? = some .notLoaded ∧ n.load.bind LoadSlot.content = none ∧
      urged.inlineSpace? (.issued 0) = none := by
  obtain ⟨os, story, unasked⟩ := story_urged (.issued 0)
  have seen : (urged.node? (.issued 0)).map (fun n ↦ (n.inSetup, n.valueOf? "load")) =
      some (false, some (.bool false)) := by cbv
  obtain ⟨n, hn, he⟩ := Option.map_eq_some_iff.mp seen
  obtain ⟨ready, off⟩ := Prod.mk.inj he
  have known := story.met.type_mem hn
  rw [show urged.catalog = ⟨[inlineType]⟩ by cbv, List.mem_singleton] at known
  have inline : n.IsInline := by
    rw [Node.IsInline, known]
    rfl
  have switched : n.SwitchedOff := ⟨inline, ready, off⟩
  exact ⟨⟨by cbv, by cbv⟩, n, hn, switched, (Story.withheld story unasked).1 _ n .refl hn switched⟩

end Scene

end SceneGraph
