import SceneGraph.Proofs.History

/-!
Loads as those who listen hear of them. The announced states of a node follow each other and lead to
the state it is in, unless it lapsed: it went back to the beginning unheard.
-/

namespace SceneGraph

/-- The states that the node was announced to enter. -/
def Journal.states (j : Journal) (id : NodeId) : List LoadState :=
  (j.loads.filter fun entry ↦ entry.1 = id).map Prod.snd

@[simp] theorem Journal.states_append (j j' : Journal) (id : NodeId) :
    Journal.states (j ++ j') id = j.states id ++ j'.states id := by
  rw [states, loads_append, List.filter_append, List.map_append, states, states]

namespace LoadState

variable {state last : LoadState} {states states' : List LoadState}

theorem replay_append : state.replay (states ++ states') =
    (state.replay states).bind fun state ↦ state.replay states' :=
  List.foldlM_append ..

/-- The loads begun and not yet taken back. -/
def begun (state : LoadState) : Nat := if state = .notLoaded then 0 else 1

theorem begun_of_canBecome {next : LoadState} (h : state.canBecome next) :
    [next].count .notLoaded + next.begun = [next].count .loading + state.begun := by
  cases state <;> cases next <;> first | rfl | cases h

/-- Every load that is begun is taken back, but for the last one. -/
theorem count_of_replay (h : state.replay states = some last) :
    states.count .notLoaded + last.begun = states.count .loading + state.begun := by
  induction states generalizing state with
  | nil =>
    cases h
    simp
  | cons next rest ih =>
    rw [replay, List.foldlM_cons] at h
    obtain ⟨a, ha, h⟩ := Option.bind_eq_some_iff.mp h
    obtain ⟨legal, rfl⟩ : state.canBecome next = true ∧ next = a := by simpa using ha
    have first := begun_of_canBecome legal
    have others := ih h
    rw [← List.singleton_append, List.count_append, List.count_append]
    omega

end LoadState

namespace Scene

variable {s s' s'' t : Scene} {id : NodeId} {slot : LoadSlot} {state : LoadState}
  {sp : SpaceId} {loads : List (NodeId × LoadState)} {razed : List SpaceId}
  {slots : NodeId → Option LoadSlot} {ts : List (Scene × Scene)} {r : Option LoadState}

/-- What was heard of a node's loads between two scenes. -/
def heard (id : NodeId) (t : Scene × Scene) : List LoadState :=
  Journal.states (t.2.journal.drop t.1.journal.length) id

/-- The node let go of a content whose space was gone. -/
def lapses (id : NodeId) (t : Scene × Scene) : Bool :=
  t.1.contentGone id && !t.2.contentGone id

/-- What was heard, with the way back to the beginning that nobody heard of. -/
def recorded (id : NodeId) (t : Scene × Scene) : List LoadState :=
  if lapses id t then .notLoaded :: heard id t else heard id t

theorem heard_of_append {js : Journal} (h : s'.journal = s.journal ++ js) :
    heard id (s, s') = js.states id := by
  rw [Scene.heard, h, List.drop_left]

theorem heard_trans (h : s.journal <+: t.journal) (h' : t.journal <+: s'.journal) :
    heard id (s, s') = heard id (s, t) ++ heard id (t, s') := by
  obtain ⟨js, hj⟩ := h
  obtain ⟨js', hj'⟩ := h'
  have whole : s'.journal = s.journal ++ (js ++ js') := by rw [← hj', ← hj, List.append_assoc]
  rw [heard_of_append whole, heard_of_append hj.symm, heard_of_append hj'.symm,
    Journal.states_append]

/-- A replay has led to the state that the node is in, or will be in when it is created. -/
structure Told (s : Scene) (id : NodeId) (r : Option LoadState) : Prop where
  live : ∀ {slot}, s.slot? id = some slot → r = some slot.state
  fresh : s.Fresh id → r = some .notLoaded
  known : ∀ {sp}, s.inlineSpace? id = some sp → sp.number < s.spaces.issued

theorem Fresh.contentGone (h : s.Fresh id) : s.contentGone id = false := by
  rw [Scene.contentGone, inlineSpace?, h.slot?]
  rfl

theorem Shifted.heard_eq (h : Shifted slots loads razed s s') :
    heard id (s, s') = (loads.filter fun entry ↦ entry.1 = id).map Prod.snd := by
  obtain ⟨js, hj, rfl⟩ := h.journal
  exact heard_of_append hj

theorem Shifted.grows (h : Shifted slots loads razed s s') : s.journal <+: s'.journal := by
  obtain ⟨js, hj, -⟩ := h.journal
  exact ⟨js, hj.symm⟩

theorem recorded_of_whole (hg : s.contentGone id = false) :
    recorded id (s, s') = heard id (s, s') := by
  rw [recorded, lapses, hg, Bool.false_and, if_neg Bool.false_ne_true]

theorem recorded_of_gone (hg : s'.contentGone id) :
    recorded id (s, s') = heard id (s, s') := by
  rw [recorded, lapses, hg, Bool.not_true, Bool.and_false, if_neg Bool.false_ne_true]

theorem recorded_of_lapse (hg : s.contentGone id) (hg' : s'.contentGone id = false) :
    recorded id (s, s') = .notLoaded :: heard id (s, s') := by
  rw [recorded, lapses, hg, hg', Bool.not_false, Bool.and_true, if_pos rfl]

/-- A node that nothing happens to goes on to miss what it misses. -/
theorem Shifted.told (h : Shifted slots loads razed s s') (same : slots id = s.slot? id)
    (quiet : ∀ entry ∈ loads, entry.1 ≠ id) (ht : s.Told id r) :
    s'.Told id (r.bind (·.replay (recorded id (s, s')))) := by
  have unheard : heard id (s, s') = [] := by
    rw [h.heard_eq, List.map_eq_nil_iff, List.filter_eq_nil_iff]
    intro entry he hk
    exact quiet entry he (of_decide_eq_true hk)
  have onward (hr : recorded id (s, s') = heard id (s, s')) :
      r.bind (·.replay (recorded id (s, s'))) = r := by
    rw [hr, unheard]
    cases r <;> rfl
  constructor
  · intro slot hs
    rcases h.slot hs with hl | ⟨hf, rfl⟩
    · rw [same] at hl
      rw [onward ?_, ht.live hl]
      cases hg : s.contentGone id with
      | false => exact recorded_of_whole hg
      | true =>
        obtain ⟨sp, hp, hs'⟩ := contentGone_iff.mp hg
        obtain ⟨-, hs'⟩ := h.lost ⟨ht.known hp, hs'⟩
        refine recorded_of_gone (contentGone_iff.mpr ⟨sp, ?_, hs'⟩)
        rw [inlineSpace?, hs, ← hl, ← inlineSpace?, hp]
    · rw [onward (recorded_of_whole hf.contentGone), ht.fresh hf]
  · intro hf
    have hf := hf.of_issued h.nodesIssued
    rw [onward (recorded_of_whole hf.contentGone), ht.fresh hf]
  · intro sp hp
    obtain ⟨slot, hs, hp⟩ := inlineSpace?_eq_some.mp hp
    rcases h.slot hs with hl | ⟨-, rfl⟩
    · have known := ht.known (inlineSpace?_eq_some.mpr ⟨slot, same ▸ hl, hp⟩)
      exact Nat.lt_of_lt_of_le known h.spacesIssued
    · cases hp

/-- The way from one scene to the next as the record of a node has it. -/
structure Relayed (id : NodeId) (s s' : Scene) : Prop where
  grows : s.journal <+: s'.journal
  whole : s.contentGone id = false → s'.contentGone id = false
  mute : s.contentGone id → s'.contentGone id → heard id (s, s') = []
  told : ∀ {r}, s.Told id r → s'.Told id (r.bind (·.replay (recorded id (s, s'))))

theorem Relayed.refl (s : Scene) : Relayed id s s where
  grows := List.prefix_refl _
  whole hg := hg
  mute _ _ := heard_of_append (List.append_nil _).symm
  told {r} ht := by
    have nothing : recorded id (s, s) = [] := by
      rw [recorded, lapses, Bool.and_not_self, if_neg Bool.false_ne_true,
        heard_of_append (List.append_nil _).symm]
      rfl
    rw [nothing]
    cases r <;> exact ht

theorem Relayed.recorded_trans (h : Relayed id s t) (h' : Relayed id t s') :
    recorded id (s, s') = recorded id (s, t) ++ recorded id (t, s') := by
  have whole : heard id (s, s') = heard id (s, t) ++ heard id (t, s') :=
    heard_trans h.grows h'.grows
  cases hs : s.contentGone id with
  | false =>
    rw [recorded_of_whole hs, recorded_of_whole hs, recorded_of_whole (h.whole hs), whole]
  | true =>
    cases ht : t.contentGone id with
    | false =>
      rw [recorded_of_lapse hs (h'.whole ht), recorded_of_lapse hs ht, recorded_of_whole ht, whole]
      rfl
    | true =>
      rw [h.mute hs ht, List.nil_append] at whole
      rw [recorded_of_gone (s := s) ht, h.mute hs ht, List.nil_append, recorded, recorded, whole,
        lapses, lapses, hs, ht]

protected theorem Relayed.trans (h : Relayed id s t) (h' : Relayed id t s') :
    Relayed id s s' where
  grows := h.grows.trans h'.grows
  whole hg := h'.whole (h.whole hg)
  mute hs hs' := by
    have ht : t.contentGone id := by
      rw [← Bool.not_eq_false]
      intro ht
      cases hs'.symm.trans (h'.whole ht)
    rw [heard_trans h.grows h'.grows, h.mute hs ht, h'.mute ht hs', List.nil_append]
  told ht := by
    have told := h'.told (h.told ht)
    rw [Option.bind_assoc] at told
    rw [h.recorded_trans h']
    simpa only [LoadState.replay_append] using told

theorem Turned.heard_eq {states : List LoadState} (h : Turned id slot states s s') :
    heard id (s, s') = states := by
  rw [Shifted.heard_eq h, List.filter_eq_self.mpr (by simp), List.map_map]
  exact List.map_id _

theorem Turned.told {states : List LoadState} {slot' : LoadSlot} (hl : s.slot? id = some slot)
    (h : Turned id slot' states s s') (content : ∀ sp ∈ slot'.space, s.hasSpace sp)
    (legal : slot.state.replay (recorded id (s, s')) = some slot'.state) (ht : s.Told id r) :
    s'.Told id (r.bind (·.replay (recorded id (s, s')))) where
  live {σ} hs := by
    rw [Turned.slot_eq hl h hs, ht.live hl]
    exact legal
  fresh hf := by
    have hf := hf.of_issued (Shifted.nodesIssued h)
    cases hf.slot?.symm.trans hl
  known {sp} hp := by
    obtain ⟨σ, hs, hp⟩ := inlineSpace?_eq_some.mp hp
    obtain rfl := Turned.slot_eq hl h hs
    obtain ⟨x, hx⟩ := hasSpace_iff.mp (content sp hp)
    exact Nat.lt_of_lt_of_le (number_lt_of_space? hx) (Shifted.spacesIssued h)

theorem Shift.relayed (h : Shift id s s') : Relayed id s s' := by
  have whole := h.contentGone
  cases h with
  | aside h same quiet =>
    refine ⟨h.grows, whole, fun _ _ ↦ ?_, h.told same quiet⟩
    rw [h.heard_eq, List.map_eq_nil_iff, List.filter_eq_nil_iff]
    intro entry he hk
    exact quiet entry he (of_decide_eq_true hk)
  | turn hl hg legal content h =>
    refine ⟨Shifted.grows h, whole, fun hg' ↦ ?_, Turned.told hl h content ?_⟩
    · cases hg.symm.trans hg'
    · rwa [recorded_of_whole hg, Turned.heard_eq h]
  | lapse hl hs hg h =>
    refine ⟨Shifted.grows h, whole, fun _ _ ↦ Turned.heard_eq h,
      Turned.told hl h (fun sp hp ↦ by cases hp) ?_⟩
    have mended : s'.contentGone id = false := by
      rw [← Bool.not_eq_true]
      intro hg'
      obtain ⟨sp, hp, -⟩ := contentGone_iff.mp hg'
      obtain ⟨σ, hs, hp⟩ := inlineSpace?_eq_some.mp hp
      cases Turned.slot_eq hl h hs ▸ hp
    rw [recorded_of_lapse hg mended, Turned.heard_eq h, hs]
    rfl

theorem relayed_of_shifts (h : Relation.ReflTransGen (Shift id) s s') : Relayed id s s' := by
  induction h with
  | refl => exact .refl s
  | tail _ shift ih => exact ih.trans shift.relayed

theorem Step.told (h : s.Coherent [] none) (hs : Step s s') (ht : s.Told id r) :
    s'.Told id (r.bind (·.replay (recorded id (s, s')))) := by
  rcases hs.shifts h id with rfl | ⟨sp, -, removed⟩ | shifts
  · have nothing : recorded id (s, s.takeJournal.2) = [] := by
      have same : s.takeJournal.2.contentGone id = s.contentGone id := rfl
      rw [recorded, lapses, same, Bool.and_not_self, if_neg Bool.false_ne_true, heard]
      exact congrArg (Journal.states · id) List.drop_nil
    rw [nothing]
    cases r <;> exact ⟨ht.live, ht.fresh, ht.known⟩
  · exact removed.shifted.told rfl nofun ht
  · exact (relayed_of_shifts shifts).told ht

namespace History

theorem told (h : History ts s) (id : NodeId) :
    s.Told id (LoadState.notLoaded.replay (ts.flatMap (recorded id))) := by
  induction h with
  | new built h =>
    obtain ⟨⟨⟩, -, h⟩ := bind_eq_ok.mp h
    cases h
    refine ⟨fun hs ↦ ?_, fun _ ↦ rfl, fun hp ↦ ?_⟩
    · rw [slot?_start] at hs
      cases hs
    · rw [inlineSpace?, slot?_start] at hp
      cases hp
  | step h hs ih =>
    rw [List.flatMap_append, LoadState.replay_append, List.flatMap_singleton]
    exact hs.told h.reachable.coherent ih

end History

theorem count_recorded (id : NodeId) (ts : List (Scene × Scene)) :
    (ts.flatMap (recorded id)).count .loading = (ts.flatMap (heard id)).count .loading ∧
      (ts.flatMap (recorded id)).count .notLoaded =
        (ts.flatMap (heard id)).count .notLoaded + ts.countP (lapses id) := by
  induction ts with
  | nil => exact ⟨rfl, rfl⟩
  | cons t ts ih =>
    obtain ⟨loading, notLoaded⟩ := ih
    simp only [List.flatMap_cons, List.count_append, List.countP_cons, loading, notLoaded]
    cases hl : lapses id t with
    | false => simp [recorded, hl, Nat.add_assoc]
    | true =>
      simp [recorded, hl]
      omega

/-- What was heard of a node's loads leads to its state exactly if it never lapsed. -/
theorem replay_heard_iff (h : LoadState.notLoaded.replay (ts.flatMap (recorded id)) = some state) :
    LoadState.notLoaded.replay (ts.flatMap (heard id)) = some state ↔
      ∀ t ∈ ts, lapses id t = false := by
  constructor
  · intro h'
    obtain ⟨loading, notLoaded⟩ := count_recorded id ts
    have full := LoadState.count_of_replay h
    have plain := LoadState.count_of_replay h'
    have none : ts.countP (lapses id) = 0 := by omega
    intro t ht
    exact Bool.eq_false_iff.mpr (List.countP_eq_zero.mp none t ht)
  · intro steady
    have same : ts.flatMap (recorded id) = ts.flatMap (heard id) := by
      refine List.flatMap_congr fun t ht ↦ ?_
      rw [recorded, steady t ht, if_neg Bool.false_ne_true]
    rwa [← same]

/-- A load state is entered by one legal turn that is announced once, or refused without effect; but
a node whose content is gone goes back to the beginning unheard, and fails. Its slot is all that
changes then. So the announcements of a
node, with each such lapse put in, follow each other legally and lead to the state it is in; without
them they do so exactly if there were none. -/
theorem History.announced (h : History ts s) :
    (∀ id state, (∃ e, s.setLoadState id state = (.error e, s)) ∨
      ∃ n slot field s', s.node? id = some n ∧ n.load = some slot ∧ n.type.url? = some field ∧
        slot.state.canBecome state ∧ s'.slot? id = some (slot.enter state) ∧
        (¬(state = .notLoaded ∧ s.contentGone id) ∧ s.setLoadState id state = (.ok (), s') ∧
            s'.journal = s.journal ++ [.event (loadEvent id field state)] ∨
          (state = .notLoaded ∧ s.contentGone id) ∧
            s.setLoadState id state = (.error .unknownSpace, s') ∧ s'.journal = s.journal ∧
            s' = (s.modifySlot id (·.enter state)).cancel slot.pending)) ∧
      ∀ id slot, s.slot? id = some slot →
        LoadState.notLoaded.replay (ts.flatMap (recorded id)) = some slot.state ∧
          (LoadState.notLoaded.replay (ts.flatMap (heard id)) = some slot.state ↔
            ∀ t ∈ ts, lapses id t = false) := by
  have coherent := h.reachable.coherent
  refine ⟨fun id state ↦ ?_, fun id slot hs ↦ ?_⟩
  · rcases setLoadState_cases coherent id state with he |
      ⟨n, slot, field, t, hn, hl, hu, hc, entered, ⟨hs, hg, he, ht⟩ | ⟨hg, he⟩⟩
    · exact .inl he
    · exact .inr ⟨n, slot, field, t, hn, hl, hu, hc, slot?_of_load entered.self rfl,
        .inr ⟨⟨hs, hg⟩, he, entered.journal, ht⟩⟩
    · refine .inr ⟨n, slot, field, _, hn, hl, hu, hc, ?_, .inl ⟨hg, he, ?_⟩⟩
      · exact slot?_of_load entered.self rfl
      · rw [emit, log, entered.journal]
  · have replayed := (h.told id).live hs
    exact ⟨replayed, replay_heard_iff replayed⟩

/-- The frame that gave its content up. -/
def reset : Scene := (bereft.cancelLoad (.issued 0)).2

theorem announced_reset : ∃ ts slot, History ts reset ∧ reset.slot? (.issued 0) = some slot ∧
    LoadState.notLoaded.replay (ts.flatMap (recorded (.issued 0))) = some slot.state ∧
    LoadState.notLoaded.replay (ts.flatMap (heard (.issued 0))) ≠ some slot.state := by
  obtain ⟨ts, h⟩ := reachable_bereft.exists_history
  have h := h.step (.cancelLoad bereft (.issued 0))
  have live : (reset.slot? (.issued 0)).isSome := by cbv
  obtain ⟨slot, hs⟩ := Option.isSome_iff_exists.mp live
  obtain ⟨replayed, steady⟩ := h.announced.2 _ slot hs
  refine ⟨_, slot, h, hs, replayed, fun plain ↦ ?_⟩
  have lapsed : lapses (.issued 0) (bereft, reset) = true := by cbv
  have whole := steady.mp plain _ (List.mem_append_right _ (List.mem_singleton_self _))
  cases lapsed.symm.trans whole

theorem not_slot_kept_of_error : ¬∀ (s : Scene) id state e s', s.Reachable →
    s.setLoadState id state = (.error e, s') → s'.slot? id = s.slot? id := by
  intro kept
  have failed : (bereft.setLoadState (.issued 0) .notLoaded).1 = .error .unknownSpace := by cbv
  have same := kept bereft (.issued 0) .notLoaded _ _ reachable_bereft (Prod.ext failed rfl)
  have before : (bereft.slot? (.issued 0)).map LoadSlot.state = some .complete := by cbv
  have after : ((bereft.setLoadState (.issued 0) .notLoaded).2.slot? (.issued 0)).map
      LoadSlot.state = some .notLoaded := by cbv
  rw [same, before] at after
  cases after

end Scene

end SceneGraph
