import Mathlib
import SceneGraph.Proofs.Proceeding

/-!
Histories of scenes as one node sees them. An operation is a sequence of shifts, unless it takes the
journal or removes a space.
-/

namespace SceneGraph

/-- The state at the end, if each of the states may follow the one before it. -/
def LoadState.replay (state : LoadState) (states : List LoadState) : Option LoadState :=
  states.foldlM (fun a b ↦ if a.canBecome b then some b else none) state

theorem LoadState.replay_reset {state : LoadState} (h : state ≠ .notLoaded) :
    state.replay [.notLoaded] = some .notLoaded := by
  cases state <;> first | rfl | exact absurd rfl h

namespace Scene

/-- The slot of the node stays, or changes legally and as announced; or the node goes back to the
beginning unheard, because its content is gone. -/
inductive Shift (id : NodeId) (s s' : Scene) : Prop
  | aside {slots heard} (h : Shifted slots heard [] s s') (same : slots id = s.slot? id)
      (quiet : ∀ entry ∈ heard, entry.1 ≠ id)
  | turn {slot slot' states} (hl : s.slot? id = some slot) (whole : s.contentGone id = false)
      (legal : slot.state.replay states = some slot'.state)
      (content : ∀ sp ∈ slot'.space, s.hasSpace sp) (h : Turned id slot' states s s')
  | lapse {slot} (hl : s.slot? id = some slot) (hs : slot.state = .complete)
      (hg : s.contentGone id) (h : Turned id (slot.enter .notLoaded) [] s s')

/-- The steps that led from a new scene to this one, each with the scenes before and after it. -/
inductive History : List (Scene × Scene) → Scene → Prop
  | new {catalog settings s} (built : ∀ t ∈ catalog.types, t.Built)
      (h : Scene.new catalog settings = .ok s) : History [] s
  | step {ts s s'} : History ts s → Step s s' → History (ts ++ [(s, s')]) s'

variable {s s' t : Scene} {id k : NodeId} {slot slot' : LoadSlot} {state : LoadState}
  {states : List LoadState} {sp : SpaceId} {heard : List (NodeId × LoadState)}
  {razed : List SpaceId} {slots : NodeId → Option LoadSlot} {ts : List (Scene × Scene)}

theorem History.reachable (h : History ts s) : s.Reachable := by
  induction h with
  | new built h => exact .new built h
  | step _ hs ih => exact ih.step hs

theorem Reachable.exists_history (h : s.Reachable) : ∃ ts, History ts s := by
  induction h with
  | new built h => exact ⟨[], .new built h⟩
  | step _ hs ih =>
    obtain ⟨ts, ih⟩ := ih
    exact ⟨_, ih.step hs⟩

@[simp] theorem slot?_start (catalog : Catalog) (settings : Settings) (id : NodeId) :
    (start catalog settings).slot? id = none := by
  rw [slot?, node?_start]
  rfl

namespace Shift

theorem of_calm (h : Shifted s.slot? [] [] s s') (id : NodeId) : Shift id s s' :=
  .aside h rfl nofun

theorem of_other (h : Turned k slot states s s') (hk : id ≠ k) : Shift id s s' := by
  refine .aside h (Function.update_of_ne hk ..) fun entry he ↦ ?_
  obtain ⟨state, -, rfl⟩ := List.mem_map.mp he
  exact hk.symm

theorem of_turn (hl : s.slot? k = some slot) (hg : s.contentGone k = false)
    (legal : slot.state.replay states = some slot'.state)
    (content : ∀ sp ∈ slot'.space, s.hasSpace sp) (h : Turned k slot' states s s') (id : NodeId) :
    Shift id s s' := by
  by_cases hk : id = k
  · subst hk
    exact .turn hl hg legal content h
  · exact of_other h hk

/-- Only a node that is complete has content. -/
theorem of_empty (hl : s.slot? k = some slot) (he : slot.space = none)
    (h : Turned k slot' states s s') (legal : slot.state.replay states = some slot'.state)
    (he' : slot'.space = none) (id : NodeId) : Shift id s s' := by
  refine of_turn hl (contentGone_of_empty hl he) legal (fun sp hp ↦ ?_) h id
  cases he'.symm.trans hp

theorem of_lapse (hl : s.slot? k = some slot) (hs : slot.state = .complete)
    (hg : s.contentGone k) (h : Turned k (slot.enter .notLoaded) [] s s') (id : NodeId) :
    Shift id s s' := by
  by_cases hk : id = k
  · subst hk
    exact .lapse hl hs hg h
  · exact of_other h hk

end Shift

theorem Turn.shift {ds : Deeds} (h : Turn ds s s') (id : NodeId) : Shift id s s' := by
  cases h with
  | calm h => exact .of_calm h.shifted id
  | ask hn hl hs he h => exact .of_empty (slot?_of_load hn hl) he h (by rw [hs]; rfl) he id
  | vain hl hs he h => exact .of_empty hl he h (by rw [hs]; rfl) he id
  | reset hl hs hg h =>
    exact .of_turn hl hg (LoadState.replay_reset hs) (fun sp hp ↦ by cases hp) h id
  | lapse hl hs hg h => exact .of_lapse hl hs hg h id
  | fill ha ho hl he hp h =>
    have legal := state_of_awaits ha hl
    exact .of_turn hl (contentGone_of_empty hl he) (by rw [legal]; rfl) hp h id
  | fail ha hl he h => exact .of_empty hl he h (by rw [state_of_awaits ha hl]; rfl) he id
  | release ha hl he h => exact .of_empty hl he h (by rw [state_of_awaits ha hl]; rfl) rfl id
  | take | find | advance =>
    refine .of_calm ?_ id
    exact (Calm.refl s).shifted.of_tables rfl rfl rfl

theorem Turns.shifts {ds : Deeds} (h : Turns s ds s') (id : NodeId) :
    Relation.ReflTransGen (Shift id) s s' := by
  induction h with
  | refl => exact .refl
  | step _ ht ih => exact ih.tail (ht.shift id)

/-- A state that is set by hand makes a shift, too. -/
theorem Shift.setLoadState (h : s.Coherent [] none) (k : NodeId) (state : LoadState)
    (id : NodeId) : Shift id s (s.setLoadState k state).2 := by
  rcases setLoadState_cases h k state with ⟨e, he⟩ |
    ⟨n, slot, field, t, hn, hl, hu, hc, entered, ⟨rfl, hg, he, -⟩ | ⟨hg, he⟩⟩
  · rw [he]
    exact of_calm (Calm.refl s).shifted id
  · rw [he]
    obtain ⟨sp, hs, -⟩ := contentGone_iff.mp hg
    obtain ⟨slot', hs, hp⟩ := inlineSpace?_eq_some.mp hs
    cases (slot?_of_load hn hl).symm.trans hs
    have complete := (h.sound hn).content slot hl (hp ▸ rfl)
    exact of_lapse (slot?_of_load hn hl) complete hg entered.turned id
  · rw [he]
    have legal : slot.state.replay [state] = some (slot.enter state).state := by
      rw [LoadState.replay, List.foldlM_cons, if_pos hc, LoadSlot.enter_state]
      rfl
    have turned := entered.turned.emit k field state
    by_cases hs : state = .notLoaded
    · subst hs
      have whole : s.contentGone k = false := Bool.eq_false_iff.mpr fun hg' ↦ hg ⟨rfl, hg'⟩
      exact of_turn (slot?_of_load hn hl) whole legal (fun sp hp ↦ by cases hp) turned id
    · have loading : slot.state ≠ .complete := by
        intro hw
        rw [hw] at hc
        cases state <;> first | exact hs rfl | cases hc
      have empty := (h.sound hn).space_eq_none hl loading
      exact of_empty (slot?_of_load hn hl) empty turned legal
        ((LoadSlot.enter_space hs).trans empty) id

theorem Step.shifts (h : s.Coherent [] none) (hs : Step s s') (id : NodeId) :
    s' = s.takeJournal.2 ∨ (∃ sp, s.removeSpace sp = .ok s' ∧ Calm [sp] s s') ∨
      Relation.ReflTransGen (Shift id) s s' := by
  rcases hs.proceeds h with rfl | ⟨k, state, rfl⟩ | removed | ⟨cs, ⟨ds, turns, -⟩, -⟩
  · exact .inl rfl
  · exact .inr (.inr (.single (.setLoadState h k state id)))
  · exact .inr (.inl removed)
  · exact .inr (.inr (turns.shifts id))

/-- What a node lacks now, it lacked before, or the content is among the razed. -/
theorem Shifted.lacks (h : Shifted slots heard razed s s') (hp : s'.inlineSpace? id = some sp)
    (hg : s'.hasSpace sp = false) :
    (slots id).bind LoadSlot.space = some sp ∧ (s.hasSpace sp = false ∨ sp ∈ razed) := by
  obtain ⟨slot, hs, hp⟩ := inlineSpace?_eq_some.mp hp
  constructor
  · rcases h.slot hs with hs | ⟨-, rfl⟩
    · rw [hs, Option.bind_some, hp]
    · cases hp
  · cases hl : s.hasSpace sp with
    | false => exact .inl rfl
    | true =>
      rcases h.kept hs hp hl with hl | hr
      · cases hg.symm.trans hl
      · exact .inr hr

theorem Shift.lacks (h : Shift id s s') (hp : s'.inlineSpace? id = some sp)
    (hg : s'.hasSpace sp = false) : s.inlineSpace? id = some sp ∧ s.hasSpace sp = false := by
  cases h with
  | aside h same =>
    obtain ⟨hp, hg⟩ := h.lacks hp hg
    exact ⟨by rwa [same] at hp, hg.resolve_right List.not_mem_nil⟩
  | turn hl whole legal content h =>
    obtain ⟨hp, hg⟩ := h.lacks hp hg
    rw [Function.update_self, Option.bind_some] at hp
    cases (content sp hp).symm.trans (hg.resolve_right List.not_mem_nil)
  | lapse hl hs hg' h =>
    obtain ⟨hp, -⟩ := h.lacks hp hg
    rw [Function.update_self, Option.bind_some] at hp
    cases hp

theorem lacks_of_shifts (h : Relation.ReflTransGen (Shift id) s s')
    (hp : s'.inlineSpace? id = some sp) (hg : s'.hasSpace sp = false) :
    s.inlineSpace? id = some sp ∧ s.hasSpace sp = false := by
  induction h with
  | refl => exact ⟨hp, hg⟩
  | tail _ shift ih =>
    obtain ⟨hp, hg⟩ := shift.lacks hp hg
    exact ih hp hg

theorem Shift.contentGone (h : Shift id s s') (hg : s.contentGone id = false) :
    s'.contentGone id = false := by
  rw [Bool.eq_false_iff] at hg ⊢
  intro hg'
  obtain ⟨sp, hp, hs⟩ := contentGone_iff.mp hg'
  exact hg (contentGone_iff.mpr ⟨sp, h.lacks hp hs⟩)

/-- The handle was given to a space that is gone. -/
def Lost (s : Scene) (sp : SpaceId) : Prop := sp.number < s.spaces.issued ∧ s.hasSpace sp = false

theorem Shifted.lost (h : Shifted slots heard razed s s') (hl : s.Lost sp) : s'.Lost sp := by
  obtain ⟨hi, hg⟩ := hl
  refine ⟨Nat.lt_of_lt_of_le hi h.spacesIssued, Bool.eq_false_iff.mpr fun hs ↦ ?_⟩
  rcases h.space hs with hs | hi'
  · cases hg.symm.trans hs
  · omega

theorem Shift.lost (h : Shift id s s') (hl : s.Lost sp) : s'.Lost sp := by
  cases h with
  | aside h => exact h.lost hl
  | turn _ _ _ _ h => exact h.lost hl
  | lapse _ _ _ h => exact h.lost hl

theorem lost_of_shifts (h : Relation.ReflTransGen (Shift id) s s') (hl : s.Lost sp) :
    s'.Lost sp := by
  induction h with
  | refl => exact hl
  | tail _ shift ih => exact shift.lost ih

def frame : NodeType :=
  ⟨"Inline", ⟨Capability.loadable.fields⟩, [.loadable], .scene, .passive⟩

theorem built_frame : frame.Built := ⟨(Blueprint.of "Inline" []).withContent .scene, rfl⟩

/-- A frame that has asked for its content, which is an empty text. -/
def framed : Scene :=
  let s := start ⟨[frame]⟩ {}
  let s := s.after ((s.createNode .main "Inline").map Prod.snd)
  let s := s.after (s.setValue (.issued 0) 0 (.ofStrings ["a"]))
  let s := (s.setProvider (.ofEntries [("a", .empty)])).2
  s.after (s.finishSetup (.issued 0))

theorem reachable_framed : framed.Reachable := by
  have built : ∀ t ∈ [frame], t.Built := by simpa using built_frame
  have new : Scene.new ⟨[frame]⟩ {} = .ok (start ⟨[frame]⟩ {}) := rfl
  refine (Reachable.step ?_ (.setProvider _ _)).after fun _ hs ↦ .finishSetup hs
  refine Reachable.after ?_ fun _ hs ↦ .setValue hs
  exact (Reachable.new built new).after_snd fun _ _ hs ↦ .createNode hs

/-- The frame with its content. -/
def filled : Scene :=
  let s := framed.work true
  s.after ((s.tick [] 0).map Prod.snd)

theorem reachable_filled : filled.Reachable :=
  (reachable_framed.work true).after_snd fun _ _ hs ↦ .tick hs

/-- The frame once the space of its content is removed. -/
def bereft : Scene := filled.after (filled.removeSpace ⟨1⟩)

theorem removeSpace_filled : filled.removeSpace ⟨1⟩ = .ok bereft := by
  have live : filled.hasSpace ⟨1⟩ := by cbv
  have removed : filled.removeSpace ⟨1⟩ = if filled.hasSpace ⟨1⟩ then
      .ok (filled.demolish [.space ⟨1⟩]) else .error .unknownSpace := removeSpace_eq (by decide)
  rw [if_pos live] at removed
  rw [bereft, removed]
  rfl

theorem reachable_bereft : bereft.Reachable :=
  reachable_filled.step (.removeSpace removeSpace_filled)

end Scene

end SceneGraph
