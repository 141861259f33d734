import SceneGraph.Proofs.Supplying

/-!
What comes of the replacement of a provider. The loads that it interrupts start again, and nothing
that the old pool had is applied any more.
-/

namespace SceneGraph

theorem Value.validCount_ne_zero {v : Value} {texts : List String} (h : v.asStrings? = some texts)
    (ht : texts ≠ []) : v.validCount ≠ 0 := by
  unfold Value.asStrings? at h
  split at h
  · next a =>
    cases h
    rw [Value.validCount, ← Counted.length_toList]
    exact mt List.length_eq_zero_iff.mp ht
  · cases h

/-- The node sent back to the beginning of its load. -/
def Node.rest (n : Node) : Node := { n with load := some ((n.load.getD {}).enter .notLoaded) }

@[simp] theorem Node.rest_rest (n : Node) : n.rest.rest = n.rest := rfl

namespace Scene

variable {s s' t u : Scene} {guest : Option SpaceId} {id k : NodeId} {n m : Node} {slot : LoadSlot}
  {p : Pool} {provider : Provider} {ids : List NodeId}
  {os : List (Operation × Scene)}

section requesting

theorem wantsLoad_iff : s.wantsLoad id ↔ ∃ n, s.node? id = some n ∧ s.loader.isSome ∧
    (n.valueOf? "load").bind Value.asBool? ≠ some false ∧
      ((n.type.url?.bind fun i ↦ n.values[i]?).map Value.validCount).getD 0 ≠ 0 ∧
        n.loadState? = some .notLoaded := by
  unfold wantsLoad
  cases hn : s.node? id with
  | none => simp
  | some n =>
    have on : ((n.valueOf? "load").bind Value.asBool?).getD true = true ↔
        (n.valueOf? "load").bind Value.asBool? ≠ some false := by
      cases (n.valueOf? "load").bind Value.asBool? with
      | none => simp
      | some b => cases b <;> simp
    simp only [Bool.and_eq_true, on, bne_iff_ne, beq_iff_eq, Option.some.injEq, exists_eq_left',
      and_assoc]

/-- A node that wants to load and has urls hands them to the loader. -/
theorem autoLoad_of_urls {field : Nat} (hw : s.wantsLoad id) (hn : s.node? id = some n)
    (hu : n.type.url? = some field) (hs : (n.load.getD {}).state = .notLoaded)
    (hp : s.loader = some p) (some : urls n ≠ []) : s.autoLoad id =
      { s.modifySlot id (·.ask id) with
        loader := .some
          (p.submit { request := ⟨id, (n.load.getD {}).ticket + 1⟩, urls := urls n }) }.log
        [.event (loadEvent id field .loading)] := by
  have loader : ((s.modifySlot id (·.enter .loading)).emit
      (loadEvent id field .loading)).loader = .some p := (loader_modifyNode ..).trans hp
  rw [autoLoad, if_pos hw, requestLoad]
  simp only [hn, setLoadState_begin hn hu hs, List.isEmpty_iff, some, if_false, loader,
    Option.isNone_some, Bool.false_eq_true]
  rw [emit, submit_log, submit_enter hn hp]
  rfl

/-- A node that wants to load hands its urls to the loader, or fails if it has none. -/
theorem autoLoad_cases (id : NodeId) : s.wantsLoad id = false ∧ s.autoLoad id = s ∨
    ∃ n p js, s.node? id = some n ∧ n.loadState? = some .notLoaded ∧ s.loader = some p ∧
      (urls n ≠ [] ∧ s.autoLoad id =
          { s.modifySlot id (·.ask id) with
            loader := some
              (p.submit { request := ⟨id, (n.load.getD {}).ticket + 1⟩, urls := urls n }) }.log js ∨
        urls n = [] ∧ s.autoLoad id =
          ((s.modifySlot id fun slot ↦ (slot.enter .loading).enter .failed).cancel
            (n.load.getD {}).pending).log js) := by
  cases hw : s.wantsLoad id with
  | false => exact .inl ⟨rfl, by simp [autoLoad, hw]⟩
  | true =>
    obtain ⟨n, hn, loaded, -, count, hl⟩ := wantsLoad_iff.mp hw
    obtain ⟨p, hp⟩ := Option.isSome_iff_exists.mp loaded
    obtain ⟨field, hu⟩ : ∃ field, n.type.url? = some field := by
      cases hu : n.type.url? with
      | none => simp [hu] at count
      | some field => exact ⟨field, rfl⟩
    have begins : (n.load.getD {}).state = .notLoaded := by
      obtain ⟨slot, hl, hs⟩ := Option.map_eq_some_iff.mp hl
      rw [hl]
      exact hs
    by_cases empty : urls n = []
    · let begun : Journal := [.event (loadEvent id field .loading),
        .report ⟨.warning, "Loadable node has no url to load.", none⟩]
      have failed := setLoadState_fail (f := (·.enter .loading)) begun hn hu rfl
      refine .inr ⟨n, p, begun ++ [.event (loadEvent id field .failed)], hn, hl, hp,
        .inr ⟨empty, ?_⟩⟩
      rw [autoLoad, if_pos hw, requestLoad]
      simp only [hn, setLoadState_begin hn hu begins, empty, List.isEmpty_nil, if_true]
      rw [emit, warn, report, log_log, List.singleton_append, failed]
      rfl
    · exact .inr ⟨n, p, _, hn, hl, hp, .inl ⟨empty, autoLoad_of_urls hw hn hu begins hp empty⟩⟩

end requesting

section resetting

theorem exists_of_mem_interrupted (h : id ∈ s.interrupted) :
    ∃ n slot, s.node? id = some n ∧ n.load = some slot ∧ slot.state = .loading := by
  unfold interrupted at h
  obtain ⟨a, ha, rfl⟩ := List.mem_map.mp h
  obtain ⟨k, -, hk⟩ := List.mem_filterMap.mp (List.mem_mergeSort.mp ha)
  obtain ⟨n, hn, hk⟩ := Option.bind_eq_some_iff.mp hk
  split at hk
  · next hl =>
    cases hk
    obtain ⟨slot, hl, hs⟩ := Option.map_eq_some_iff.mp hl
    exact ⟨n, slot, hn, hl, hs⟩
  · cases hk

/-- A node without a space for its content goes back alone. -/
theorem node?_of_reset (empty : ∀ n, s.node? id = some n → (n.load.getD {}).space = none)
    (he : s.setLoadState id .notLoaded = (.ok (), t)) (k : NodeId) :
    t.node? k = if k = id then (s.node? k).map Node.rest else s.node? k := by
  unfold setLoadState at he
  split at he
  · cases he
  next n hn =>
  split at he
  · cases he
  dsimp only at he
  split at he
  · cases he
  rw [empty n hn] at he
  cases he
  exact (node?_cancel ..).trans (node?_modifyNode ..)

theorem node?_of_resets (empty : ∀ k ∈ ids, ∀ n, s.node? k = some n → (n.load.getD {}).space = none)
    (he : inTurn (fun id s ↦ s.setLoadState id .notLoaded) ids s = (.ok (), t)) (k : NodeId) :
    t.node? k = if k ∈ ids then (s.node? k).map Node.rest else s.node? k := by
  induction ids generalizing s with
  | nil =>
    cases he
    rfl
  | cons id ids ih =>
    rw [inTurn] at he
    split at he
    · cases he
    next u hu =>
    have reset := node?_of_reset (empty id List.mem_cons_self) hu
    rw [ih (fun j hj n hn ↦ ?_) he, reset]
    · by_cases hk : k = id
      · subst hk
        cases s.node? k <;> simp
      · simp [hk]
    · rw [reset] at hn
      split at hn
      · obtain ⟨m, -, rfl⟩ := Option.map_eq_some_iff.mp hn
        rfl
      · exact empty j (List.mem_cons_of_mem _ hj) n hn

end resetting

section restarting

/-- On the way through the nodes that start to load again, what the new pool has was asked of it by
nodes that are as they were but for their loads. -/
structure Restarting (ids : List NodeId) (provider : Provider) (s u : Scene) : Prop where
  past : ∀ {r}, s.Past r → u.Past r
  nodes : ∀ {k n'}, u.node? k = some n' → ∃ n, s.node? k = some n ∧ n' = { n with load := n'.load }
  loader : ∃ p, u.loader = some p ∧ p.provider = provider ∧
    p.Backed (fun r provider' urls ↦ ¬s.Past r ∧ provider' = provider ∧
      ∀ n, s.node? r.node = some n → urls = Scene.urls n) fun _ _ _ ↦ False
  quiet : ∀ {k n}, k ∈ ids → u.node? k = some n → n.loadState? = some .notLoaded →
    (n.load.getD {}).pending = none

theorem Restarting.autoLoad (h : Restarting ids provider s u) (hk : k ∈ ids) :
    Restarting ids provider s (u.autoLoad k) := by
  have conveyed : Conveys (fun _ _ _ ↦ True) (fun _ _ _ ↦ True) u (u.autoLoad k) :=
    .of_aside Touches.autoLoad.strokes
  have past {r} (hr : s.Past r) : (u.autoLoad k).Past r := conveyed.past (h.past hr)
  obtain ⟨q, hq, provided, backed⟩ := h.loader
  have nodes {f : LoadSlot → LoadSlot} {j n'} (hn' : (u.modifySlot k f).node? j = some n') :
      ∃ n, s.node? j = some n ∧ n' = { n with load := n'.load } := by
    rcases of_node?_modifySlot hn' with ⟨rfl, m, hm, rfl⟩ | ⟨-, hm⟩
    · obtain ⟨n, hn, he⟩ := h.nodes hm
      exact ⟨n, hn, by rw [he]⟩
    · exact h.nodes hm
  have quiet {f : LoadSlot → LoadSlot} (hf : ∀ slot, (f slot).state ≠ .notLoaded) {j n'}
      (hj : j ∈ ids) (hn' : (u.modifySlot k f).node? j = some n')
      (hl : n'.loadState? = some .notLoaded) : (n'.load.getD {}).pending = none := by
    rcases of_node?_modifySlot hn' with ⟨rfl, m, hm, rfl⟩ | ⟨-, hm⟩
    · exact absurd (Option.some.inj hl) (hf _)
    · exact h.quiet hj hm hl
  rcases autoLoad_cases (s := u) k with ⟨-, he⟩ |
    ⟨n, p, js, hn, begins, hp, ⟨-, he⟩ | ⟨-, he⟩⟩
  · rwa [he]
  · cases hq.symm.trans hp
    rw [he] at past ⊢
    refine ⟨past, nodes, ⟨_, rfl, provided, backed.submit ⟨fun hr ↦ ?_, provided, fun m hm ↦ ?_⟩⟩,
      quiet fun _ h ↦ by cases h⟩
    · exact Nat.not_succ_le_self _ ((h.past hr).old hn)
    · obtain ⟨m', hm', same⟩ := h.nodes hn
      cases hm.symm.trans hm'
      rw [same]
      rfl
  · cases hq.symm.trans hp
    rw [he, h.quiet hk hn begins] at past ⊢
    exact ⟨past, nodes, ⟨q, (loader_modifyNode ..).trans hq, provided, backed⟩,
      quiet fun _ h ↦ by cases h⟩

/-- The node waits for a job of its urls in the queue. -/
def Waits (id : NodeId) (n : Node) (u : Scene) : Prop :=
  ∃ p job, u.loader = some p ∧
    u.node? id = some { n with load := some ((n.load.getD {}).ask id) } ∧ job ∈ p.queue ∧
      job.request = ⟨id, (n.load.getD {}).ticket + 1⟩ ∧ job.urls = urls n ∧ job.cancelled = false

theorem Waits.autoLoad (h : Waits id n u) (hr : Restarting ids provider s u) (hk : k ∈ ids) :
    Waits id n (u.autoLoad k) := by
  obtain ⟨q, job, hq, hn, hj, asked⟩ := h
  rcases autoLoad_cases (s := u) k with ⟨-, he⟩ |
    ⟨m, p, js, hm, begins, hp, ⟨-, he⟩ | ⟨-, he⟩⟩
  · rw [he]
    exact ⟨q, job, hq, hn, hj, asked⟩
  all_goals
    cases hq.symm.trans hp
    have other : id ≠ k := by
      rintro rfl
      cases hn.symm.trans hm
      cases begins
    have kept (f) : (u.modifySlot k f).node? id = _ := (node?_modifyNode_of_ne _ _ _ other).trans hn
    rw [he]
  · exact ⟨_, job, rfl, kept _, List.mem_append_left _ hj, asked⟩
  · rw [hr.quiet hk hm begins]
    exact ⟨q, job, (loader_modifyNode ..).trans hq, kept _, hj, asked⟩

theorem waits_autoLoad (hn : u.node? id = some n) (hw : u.wantsLoad id) (hu : urls n ≠ []) :
    Waits id n (u.autoLoad id) := by
  rcases autoLoad_cases (s := u) id with ⟨idle, -⟩ |
    ⟨m, p, js, hm, begins, hp, ⟨-, he⟩ | ⟨empty, -⟩⟩
  · cases hw.symm.trans idle
  · cases hn.symm.trans hm
    rw [he]
    exact ⟨_, _, rfl, node?_modifyNode_self _ _ _ hn,
      List.mem_append_right _ (List.mem_singleton_self _), rfl, rfl, rfl⟩
  · cases hn.symm.trans hm
    exact absurd empty hu

theorem Restarting.autoLoads (h : Restarting ids provider s u) {later : List NodeId}
    (sub : later ⊆ ids) : Restarting ids provider s (later.foldl Scene.autoLoad u) := by
  induction later generalizing u with
  | nil => exact h
  | cons k later ih =>
    obtain ⟨hk, sub⟩ := List.cons_subset.mp sub
    exact ih (h.autoLoad hk) sub

theorem Waits.autoLoads (h : Waits id n u) (hr : Restarting ids provider s u)
    {later : List NodeId} (sub : later ⊆ ids) : Waits id n (later.foldl Scene.autoLoad u) := by
  induction later generalizing u with
  | nil => exact h
  | cons k later ih =>
    obtain ⟨hk, sub⟩ := List.cons_subset.mp sub
    exact ih (h.autoLoad hr hk) (hr.autoLoad hk) sub

theorem node?_autoLoad_of_ne (h : id ≠ k) : (u.autoLoad k).node? id = u.node? id := by
  rcases autoLoad_cases (s := u) k with ⟨-, he⟩ | ⟨n, p, js, -, -, -, ⟨-, he⟩ | ⟨-, he⟩⟩
  · rw [he]
  · rw [he]
    exact node?_modifyNode_of_ne _ _ _ h
  · rw [he]
    exact (node?_cancel ..).trans (node?_modifyNode_of_ne _ _ _ h)

theorem wantsLoad_of_urls (hn : s.node? id = some n) (hp : s.loader = some p)
    (hl : n.loadState? = some .notLoaded) (hu : urls n ≠ [])
    (on : (n.valueOf? "load").bind Value.asBool? ≠ some false) : s.wantsLoad id := by
  refine wantsLoad_iff.mpr ⟨n, hn, by rw [hp]; rfl, on, ?_, hl⟩
  unfold urls at hu
  cases hv : n.type.url?.bind fun i ↦ n.values[i]? with
  | none => simp [hv] at hu
  | some v =>
    rw [hv, Option.bind_some] at hu
    cases ht : v.asStrings? with
    | none => simp [ht] at hu
    | some texts =>
      rw [ht] at hu
      exact Value.validCount_ne_zero ht hu

/-- A node that may load waits once it had its turn. -/
theorem Restarting.waits (h : Restarting ids provider s u) {later : List NodeId}
    (sub : later ⊆ ids) (hm : id ∈ later) (hn : u.node? id = some n)
    (hl : n.loadState? = some .notLoaded) (hu : urls n ≠ [])
    (on : (n.valueOf? "load").bind Value.asBool? ≠ some false) :
    Waits id n (later.foldl Scene.autoLoad u) := by
  induction later generalizing u with
  | nil => cases hm
  | cons k later ih =>
    obtain ⟨hk, rest⟩ := List.cons_subset.mp sub
    by_cases he : id = k
    · subst he
      obtain ⟨p, hp, -⟩ := h.loader
      exact (waits_autoLoad hn (wantsLoad_of_urls hn hp hl hu on) hu).autoLoads (h.autoLoad hk) rest
    · exact ih (h.autoLoad hk) rest ((List.mem_cons.mp hm).resolve_left he)
        ((node?_autoLoad_of_ne he).trans hn)

end restarting

section replacing

/-- What holds once a provider was replaced, whatever is done then. -/
structure Replaced (provider : Provider) (s s' : Scene) : Prop where
  /-- A node that waited with urls, and whose load is not switched off, waits for a new request that
  is with the new pool. Content for it is supplied by the provider, or it was live in the cache. -/
  restarted : ∀ {id n slot}, s.node? id = some n → n.load = some slot → slot.state = .loading →
    urls n ≠ [] → (n.valueOf? "load").bind Value.asBool? ≠ some false →
      ∃ slot' p job, s'.slot? id = some slot' ∧ slot'.state = .loading ∧
        slot.ticket < slot'.ticket ∧ s'.loader = some p ∧ p.provider = provider ∧ job ∈ p.queue ∧
        job.request = ⟨id, slot'.ticket⟩ ∧ job.urls = urls n ∧ job.cancelled = false ∧
        ∀ (ops : List Operation) requested, ∀ c ∈ (ops.foldl Operation.run s').delivered requested,
          c.request = job.request → ∀ content, c.outcome = .loaded content →
            Supplied (s'.trail ops) provider (urls n) content
  /-- No tick applies what the old pool had. -/
  renewed : ∀ {p}, s.loader = some p → ∀ (ops : List Operation) requested,
    ∀ c ∈ (ops.foldl Operation.run s').delivered requested, c.request ∉ p.requests

theorem setProvider_eq_ok (h : s.setProvider provider = (.ok (), s')) :
    ∃ p t, Pool.new provider s.settings.loaderThreads = .ok p ∧
      inTurn (fun id s ↦ s.setLoadState id .notLoaded) s.interrupted s = (.ok (), t) ∧
      s' = s.interrupted.foldl autoLoad { t with loader := some p } := by
  unfold setProvider at h
  split at h
  · cases h
  next p hp =>
  dsimp only at h
  split at h
  · cases h
  next t ht =>
  cases h
  exact ⟨p, t, hp, ht, rfl⟩

theorem provider_of_new {workers : Nat} (h : Pool.new provider workers = .ok p) :
    p.provider = provider := by
  unfold Pool.new at h
  split at h
  · cases h
  · cases h
    rfl

/-- Once all interrupted nodes are back at the beginning, the new pool can start. -/
theorem Restarting.of_resets (h : s.Coherent [] none)
    (hp : Pool.new provider s.settings.loaderThreads = .ok p)
    (ht : inTurn (fun id s ↦ s.setLoadState id .notLoaded) s.interrupted s = (.ok (), t)) :
    Restarting s.interrupted provider s { t with loader := some p } ∧
      ∀ {id n}, id ∈ s.interrupted → s.node? id = some n → t.node? id = some n.rest := by
  have empty : ∀ k ∈ s.interrupted, ∀ n, s.node? k = some n → (n.load.getD {}).space = none := by
    intro k hk n hn
    obtain ⟨m, slot, hm, hl, hw⟩ := exists_of_mem_interrupted hk
    cases hn.symm.trans hm
    have unfinished : slot.state ≠ .complete := by rw [hw]; nofun
    rw [hl]
    exact (h.sound hn).space_eq_none hl unfinished
  have reset (k) := node?_of_resets empty ht k
  have rested {k n} (hk : k ∈ s.interrupted) (hn : s.node? k = some n) :
      t.node? k = some n.rest := by
    rw [reset, if_pos hk, hn]
    rfl
  have before : Strokes .aside s t := by
    have strokes := inTurn_induction (f := fun id s ↦ s.setLoadState id .notLoaded)
      (P := fun t ↦ Strokes .aside s t) s.interrupted (fun id _ t hs ↦ hs.trans Touches.reset.strokes) .refl
    rwa [ht] at strokes
  refine ⟨⟨fun {r} hr ↦ ?_, fun {k n'} hn' ↦ ?_, ⟨p, rfl, provider_of_new hp, .of_new hp⟩,
    fun {k n} hk hn _ ↦ ?_⟩, rested⟩
  · have conveys : Conveys (fun _ _ _ ↦ True) (fun _ _ _ ↦ True) s { t with loader := some p } :=
      (Conveys.of_aside before).trans (.renew hp)
    exact conveys.past hr
  · have hn' := (reset k).symm.trans hn'
    split at hn'
    · obtain ⟨n, hn, rfl⟩ := Option.map_eq_some_iff.mp hn'
      exact ⟨n, hn, rfl⟩
    · exact ⟨n', hn', rfl⟩
  · obtain ⟨m, -, hm, -⟩ := exists_of_mem_interrupted hk
    cases (rested hk hm).symm.trans hn
    rfl

/-- The loads that a new provider interrupts start anew, and those of the old one are forgotten. -/
theorem Story.replaced (h : Story os s) (hs : s.setProvider provider = (.ok (), s')) :
    Replaced provider s s' := by
  have coherent := h.coherent
  have coherent' : s'.Coherent [] none := by
    have run := coherent.run (.setProvider provider)
    rwa [Operation.run, hs] at run
  obtain ⟨p, t, hp, ht, he⟩ := setProvider_eq_ok hs
  obtain ⟨start, rested⟩ := Restarting.of_resets coherent hp ht
  have all : s.interrupted ⊆ s.interrupted := List.Subset.refl _
  have finish : Restarting s.interrupted provider s s' := he ▸ start.autoLoads all
  -- what is asked from now on is not past, and what was asked since the new pool began is known
  let asked (r : Request) (provider' : Provider) (urls : List String) : Prop :=
    ¬s.Past r ∧ (s'.Past r → provider' = provider ∧
      ∀ n, s.node? r.node = some n → urls = Scene.urls n)
  have backing : s'.Backing asked (Supplied []) := by
    intro q hq
    obtain ⟨q', hq', -, backed⟩ := finish.loader
    cases hq.symm.trans hq'
    exact backed.mono (fun h ↦ ⟨h.1, fun _ ↦ h.2⟩) False.elim
  have later (ops : List Operation) (requested) (c)
      (hc : c ∈ (ops.foldl Operation.run s').delivered requested) : ∃ provider' urls,
        asked c.request provider' urls ∧ ∀ content, c.outcome = .loaded content →
          Supplied (s'.trail ops) provider' urls content := by
    have backing := backing.trail s' coherent' id
      (fun unmet ↦ ⟨fun hr ↦ unmet (finish.past hr), fun hr ↦ absurd hr unmet⟩) ops
    rw [List.nil_append] at backing
    have hc := delivered_subset _ _ hc
    unfold posted at hc
    cases hq : (ops.foldl Operation.run s').loader with
    | none =>
      rw [hq] at hc
      cases hc
    | some q =>
      rw [hq] at hc
      exact (backing q hq).completions c hc
  constructor
  · intro id n slot hn hl hw hu on
    have mem : id ∈ s.interrupted := mem_interrupted (slot?_of_load hn hl) hw
    have waits : Waits id n.rest s' := by
      rw [he]
      exact start.waits all mem (rested mem hn) rfl hu on
    obtain ⟨q, job, hq, hn', hj, request, urls, uncancelled⟩ := waits
    obtain ⟨q', hq', provided, -⟩ := finish.loader
    cases hq.symm.trans hq'
    have ticket : n.rest.load = some (slot.enter .notLoaded) := by rw [Node.rest, hl]; rfl
    rw [ticket] at hn' request
    refine ⟨_, q, job, slot?_of_load hn' rfl, rfl, Nat.lt_succ_self _, hq, provided, hj, request,
      urls, uncancelled, fun ops requested c hc same content ho ↦ ?_⟩
    obtain ⟨provider', urls', ⟨-, known⟩, found⟩ := later ops requested c hc
    have past : s'.Past c.request := by
      rw [same, request]
      refine ⟨fun hf ↦ ?_, fun {m} hm ↦ ?_⟩
      · cases hn'.symm.trans hf.node?
      · cases hn'.symm.trans hm
        exact Nat.le_refl _
    obtain ⟨rfl, hu'⟩ := known past
    have found := found content ho
    rw [same, request] at hu'
    rwa [hu' n hn] at found
  · intro q hq ops requested c hc hr
    obtain ⟨-, -, ⟨unmet, -⟩, -⟩ := later ops requested c hc
    obtain ⟨-, -, past⟩ := (h.past q hq).of_mem_requests hr
    exact unmet past

/-- A node type with content that can be switched off. -/
def screen : NodeType :=
  ⟨"Screen", ⟨Capability.loadable.fields ++ [⟨.exposed, .single .bool, "load", .bool true⟩]⟩,
    [.loadable], .bytes, .passive⟩

theorem built_screen : screen.Built :=
  ⟨(Blueprint.of "Screen" []).withContent .bytes
    |>.exposed "load" (.single .bool) (.bool true), rfl⟩

/-- The story of what is done to screens. -/
theorem story_screen (ops : List Operation) : Story ((start ⟨[screen]⟩ {}).trail ops)
    (ops.foldl Operation.run (start ⟨[screen]⟩ {})) := by
  have built : ∀ t ∈ [screen], t.Built := by simpa using built_screen
  have made : Scene.new ⟨[screen]⟩ {} = .ok (start ⟨[screen]⟩ {}) := rfl
  exact (Story.new built made).trail ops

theorem setProvider_of_ok (s : Scene) (provider : Provider)
    (h : (s.setProvider provider).1 = .ok ()) :
    s.setProvider provider = (.ok (), (s.setProvider provider).2) := by
  rw [← h]

theorem exists_loaded {cs : List Completion} {r : Request} {size : Nat}
    (h : cs.map (fun c ↦ (c.request, c.content?.map (·.bytes.size))) = [(r, some size)]) :
    ∃ c content, c ∈ cs ∧ c.request = r ∧ c.outcome = .loaded content ∧
      content.bytes.size = size := by
  obtain ⟨c, rfl, he⟩ := List.map_eq_singleton_iff.mp h
  obtain ⟨hr, hb⟩ := Prod.mk.inj he
  obtain ⟨content, hc, hb⟩ := Option.map_eq_some_iff.mp hb
  refine ⟨c, content, List.mem_singleton_self c, hr, ?_, hb⟩
  unfold Completion.content? at hc
  cases ho : c.outcome with
  | loaded => simpa [ho, Outcome.content?] using hc
  | failed | cancelled => simp [ho, Outcome.content?] at hc

def light : Provider := .ofEntries [("a", .empty)]

def dark : Provider := .ofEntries [("a", ⟨#[0]⟩)]

/-- A worker of the loader takes a job to its end. -/
def takeOne : List Operation :=
  [.poolTake, .poolAdvance 0, .poolAdvance 0, .poolAdvance 0, .poolAdvance 0, .poolAdvance 0]

/-- A screen waits for its content. -/
def alight : Scene :=
  [.createNode .main "Screen", .setValue (.issued 0) 0 (.ofStrings ["a"]), .setProvider light,
    .finishSetup (.issued 0)].foldl Operation.run (start ⟨[screen]⟩ {})

theorem replaced_alight : ∃ os slot' p job c content, Story os alight ∧
    alight.setProvider dark = (.ok (), (alight.setProvider dark).2) ∧
    (alight.setProvider dark).2.slot? (.issued 0) = some slot' ∧ slot'.state = .loading ∧
    (alight.setProvider dark).2.loader = some p ∧ job ∈ p.queue ∧
    job.request = ⟨.issued 0, slot'.ticket⟩ ∧
    c ∈ (takeOne.foldl Operation.run (alight.setProvider dark).2).delivered 0 ∧
    c.request = job.request ∧ c.outcome = .loaded content ∧
    Supplied ((alight.setProvider dark).2.trail takeOne) dark ["a"] content := by
  have replacing := setProvider_of_ok alight dark (by cbv)
  have waiting : (alight.node? (.issued 0)).map (fun n ↦
      (n.load.map LoadSlot.state, urls n, (n.valueOf? "load").bind Value.asBool?)) =
        some (some .loading, ["a"], some true) := by cbv
  have ticket : ((alight.setProvider dark).2.slot? (.issued 0)).map LoadSlot.ticket = some 2 := by
    cbv
  have applied : ((takeOne.foldl Operation.run (alight.setProvider dark).2).delivered 0).map
      (fun c ↦ (c.request, c.content?.map (·.bytes.size))) = [(⟨.issued 0, 2⟩, some 1)] := by cbv
  obtain ⟨n, hn, he⟩ := Option.map_eq_some_iff.mp waiting
  obtain ⟨hl, hu, on⟩ : n.load.map LoadSlot.state = some .loading ∧ urls n = ["a"] ∧
      (n.valueOf? "load").bind Value.asBool? = some true := by simpa using he
  obtain ⟨slot, hl, hw⟩ := Option.map_eq_some_iff.mp hl
  have replaced := Story.replaced (story_screen _) replacing
  obtain ⟨slot', p, job, hs, hw', -, hp, -, hj, hr, -, -, supplied⟩ :=
    replaced.restarted hn hl hw (by rw [hu]; exact List.cons_ne_nil _ _) (by rw [on]; decide)
  rw [hs] at ticket
  obtain ⟨c, content, hc, request, ho, -⟩ := exists_loaded applied
  have same : c.request = job.request := by
    rw [request, hr, Option.some.inj ticket]
  have supplied := supplied takeOne 0 c hc same content ho
  rw [hu] at supplied
  exact ⟨_, slot', p, job, c, content, story_screen _, replacing, hs, hw', hp, hj, hr, hc, same, ho,
    supplied⟩

/-- A screen that is switched off waits for content that was asked for by hand. -/
def shaded : Scene :=
  [.createNode .main "Screen", .setValue (.issued 0) 0 (.ofStrings ["a"]),
    .setValue (.issued 0) 1 (.bool false), .setProvider light, .finishSetup (.issued 0),
    .requestLoad (.issued 0)].foldl Operation.run (start ⟨[screen]⟩ {})

/-- A screen has its content, and another waits for the same. -/
def twofold : Scene :=
  List.foldl Operation.run (start ⟨[screen]⟩ {})
    ([.createNode .main "Screen", .setValue (.issued 0) 0 (.ofStrings ["a"]),
      .createNode .main "Screen", .setValue (.issued 1) 0 (.ofStrings ["a"]), .setProvider light,
      .finishSetup (.issued 0)] ++ takeOne ++ [.tick [] 0, .finishSetup (.issued 1)])

/-- A load that was switched off does not start again with a new provider, and content that is still
held is taken from the cache and not from the new provider. -/
theorem left_shaded_and_stale_twofold :
    (∃ os n, Story os shaded ∧ shaded.setProvider dark = (.ok (), (shaded.setProvider dark).2) ∧
      shaded.node? (.issued 0) = some n ∧ n.loadState? = some .loading ∧ urls n = ["a"] ∧
      ((shaded.setProvider dark).2.slot? (.issued 0)).map LoadSlot.state = some .notLoaded) ∧
    ∃ os n c content, Story os twofold ∧
      twofold.setProvider dark = (.ok (), (twofold.setProvider dark).2) ∧
      twofold.node? (.issued 1) = some n ∧ n.loadState? = some .loading ∧ urls n = ["a"] ∧
      ((twofold.setProvider dark).2.slot? (.issued 1)).map LoadSlot.ticket = some 2 ∧
      c ∈ (takeOne.foldl Operation.run (twofold.setProvider dark).2).delivered 1 ∧
      c.request = ⟨.issued 1, 2⟩ ∧ c.outcome = .loaded content ∧
      ∀ bytes, dark.fetch "a" = .ok bytes → content.bytes ≠ bytes := by
  constructor
  · have replacing := setProvider_of_ok shaded dark (by cbv)
    have waiting : (shaded.node? (.issued 0)).map (fun n ↦ (n.loadState?, urls n)) =
        some (some .loading, ["a"]) := by cbv
    obtain ⟨n, hn, he⟩ := Option.map_eq_some_iff.mp waiting
    obtain ⟨hw, hu⟩ := Prod.mk.inj he
    exact ⟨_, n, story_screen _, replacing, hn, hw, hu, by cbv⟩
  · have replacing := setProvider_of_ok twofold dark (by cbv)
    have waiting : (twofold.node? (.issued 1)).map (fun n ↦ (n.loadState?, urls n)) =
        some (some .loading, ["a"]) := by cbv
    have applied : ((takeOne.foldl Operation.run (twofold.setProvider dark).2).delivered 1).map
        (fun c ↦ (c.request, c.content?.map (·.bytes.size))) = [(⟨.issued 1, 2⟩, some 0)] := by cbv
    obtain ⟨n, hn, he⟩ := Option.map_eq_some_iff.mp waiting
    obtain ⟨hw, hu⟩ := Prod.mk.inj he
    obtain ⟨c, content, hc, hr, ho, size⟩ := exists_loaded applied
    refine ⟨_, n, c, content, story_screen _, replacing, hn, hw, hu, by cbv, hc, hr, ho, ?_⟩
    intro bytes served he
    have fetched : dark.fetch "a" = .ok ⟨#[0]⟩ := by cbv
    cases fetched.symm.trans served
    rw [he] at size
    cases size

end replacing

end Scene

end SceneGraph
