import SceneGraph.Proofs.Reachable
import SceneGraph.Proofs.Turning

namespace SceneGraph

/-- The writes that a program asks for, each with the state it asks in. -/
def Program.writes {View Write Answer State : Type} (host : Host View Write Answer State) :
    Program View Write Answer → State → List (Write × State)
  | done, _ => []
  | look next, s => writes host (next (host.view s)) s
  | act w next, s => (w, s) :: writes host (next (host.act s w).2) (host.act s w).1
  | note text next, s => writes host next (host.note s text)

namespace Scene

/-- The writes that hooks ask for, one hook after the other. -/
def hookWrites : List HookProgram → Scene → List (HookWrite × Scene)
  | [], _ => []
  | p :: ps, s => p.writes hookHost s ++ hookWrites ps (s.runHook p)

variable {s s' t : Scene} {guest : Option SpaceId} {id : NodeId} {n : Node} {slot : LoadSlot}
  {razed : List SpaceId} {cs : List Completion} {c : Completion} {sp : SpaceId} {x : Space}

/-- The scene once an awaited completion was applied. -/
def applied (s : Scene) (c : Completion) : Scene :=
  match s.applyCompletion c with
  | (.ok (), s) => s
  | (.error e, s) => s.report .error "Could not apply a load result." (some e)

/-- Those of the completions that are applied if they are drained in their order. -/
def landed : List Completion → Scene → List Completion
  | [], _ => []
  | c :: cs, s => if s.awaits c then c :: landed cs (s.applied c) else landed cs s

/-- The completions that a tick applies. -/
def delivered (s : Scene) (requested : Double) : List Completion :=
  match s.advanceClock requested with
  | .error _ => []
  | .ok (_, s) => landed s.posted { s with loader := s.loader.map fun p ↦ p.drain.2 }

theorem applyCompletions_cons (c : Completion) (cs : List Completion) (s : Scene) :
    applyCompletions (c :: cs) s =
      if s.awaits c then
        ((applyCompletions cs (s.applied c)).1 + 1, (applyCompletions cs (s.applied c)).2)
      else applyCompletions cs s := rfl

theorem applyCompletions_eq (cs : List Completion) (s : Scene) :
    applyCompletions cs s = ((landed cs s).length, (landed cs s).foldl applied s) := by
  induction cs generalizing s with
  | nil => rfl
  | cons c cs ih =>
    rw [applyCompletions_cons, landed]
    split
    · rw [ih]
      rfl
    · exact ih s

theorem landed_subset (cs : List Completion) (s : Scene) : landed cs s ⊆ cs := by
  induction cs generalizing s with
  | nil => exact List.Subset.refl _
  | cons c cs ih =>
    rw [landed]
    split
    · exact List.cons_subset_cons _ (ih _)
    · exact List.subset_cons_of_subset _ (ih s)

theorem delivered_subset (s : Scene) (requested : Double) : s.delivered requested ⊆ s.posted := by
  unfold delivered
  split
  · exact List.nil_subset _
  · next t ha =>
    have clock : Calm [] s t := .advanceClock ha
    exact List.Subset.trans (landed_subset ..) clock.tended.posted

theorem slot?_of_awaits (h : s.awaits c) : ∃ slot, s.slot? c.request.node = some slot ∧
    slot.ticket = c.request.ticket ∧ slot.state = .loading := by
  unfold awaits at h
  obtain ⟨slot, hs, hw⟩ := (Option.any_eq_true ..).mp h
  simp only [Bool.and_eq_true, decide_eq_true_eq] at hw
  exact ⟨slot, hs, hw⟩

theorem state_of_awaits (ha : s.awaits c)
    (hl : s.slot? c.request.node = some slot) : slot.state = .loading := by
  obtain ⟨slot', hl', -, hw⟩ := slot?_of_awaits ha
  cases hl.symm.trans hl'
  exact hw

theorem awaits_congr (h : t.node? c.request.node = s.node? c.request.node) :
    t.awaits c = s.awaits c := by
  rw [awaits, h, awaits]

theorem Coherent.applied (h : s.Coherent [] none) (ha : s.awaits c) :
    (s.applied c).Coherent [] none := by
  have applied := h.applyCompletion ha
  unfold Scene.applied
  split
  · next he =>
    rwa [he] at applied
  · next he =>
    rw [he] at applied
    exact applied.log _

theorem keep_induction {P : Scene → Prop} (h : P s) {a : Except Error Scene}
    (ha : ∀ s', a = .ok s' → P s') : P (s.keep a).2 := by
  cases a with
  | error => exact h
  | ok s' => exact ha s' rfl

/-- A space that is nobody's content yet is nobody's loss. -/
theorem Calm.removeGuest (h : s.Coherent [] guest) (hx : s.space? sp = some x)
    (ho : x.owner = some id) (hn : s.node? id = some n) (hc : n.contentSpace? = none)
    (hr : s.removeSpace sp = .ok s') : Calm razed s s' := by
  unfold Scene.removeSpace at hr
  split at hr
  · cases hr
  obtain ⟨y, -, hr⟩ := bind_eq_ok.mp hr
  cases hr
  refine .demolish (h.doom sp) fun {k m q} hm hq hs hd ↦ ?_
  have live : s.node? k = some m := (shrunk_demolish _ s).node hm
  obtain rfl : q = sp := by simpa using hd
  obtain ⟨-, owner, -⟩ := (h.claimed.content live hq).2 x hx
  obtain rfl : id = k := Option.some.inj (ho.symm.trans owner)
  cases hn.symm.trans live
  cases hc.symm.trans hq

namespace Proceeds

section reading

theorem commit {d : Draft} (h : d.scene.Coherent [] guest) (sp : SpaceId) (text : String)
    (roots : List NodeId) : Proceeds [] d.scene (Scene.commit sp text roots d).2 := by
  have rooted := inTurn_induction (f := fun id s ↦ s.keep ((s.addRoot sp id).map Prod.snd))
    (P := fun s ↦ s.Coherent [] guest ∧ Proceeds [] d.scene s) roots
    (fun id _ s ⟨hs, hp⟩ ↦ by
      refine keep_induction (P := fun s ↦ s.Coherent [] guest ∧ Proceeds [] d.scene s)
        ⟨hs, hp⟩ fun s' ha ↦ ?_
      cases hr : s.addRoot sp id with
      | error => cases hr ▸ ha
      | ok a =>
        cases hr ▸ ha
        exact ⟨hs.addRoot hr, hp.next (calm (.addRoot hr))⟩) ⟨h, .refl _⟩
  unfold Scene.commit
  split
  · next he =>
    rw [he] at rooted
    exact rooted.2
  next t he =>
  rw [he] at rooted
  have routed : (d.routes.foldl (addStatementOrWarn text sp) t).Coherent [] guest ∧
      Proceeds [] d.scene (d.routes.foldl (addStatementOrWarn text sp) t) := by
    refine List.foldlRecOn d.routes (addStatementOrWarn text sp)
      (motive := fun s ↦ s.Coherent [] guest ∧ Proceeds [] d.scene s) rooted ?_
    intro s ⟨hs, hp⟩ r _
    exact ⟨hs.addStatementOrWarn text r, hp.next (calm (.addStatementOrWarn text sp s r))⟩
  have finished := inTurn_induction (f := fun id s ↦ s.keep (s.finishSetup id))
    (P := fun s ↦ s.Coherent [] guest ∧ Proceeds [] d.scene s) d.created
    (fun id _ s ⟨hs, hp⟩ ↦ by
      refine keep_induction (P := fun s ↦ s.Coherent [] guest ∧ Proceeds [] d.scene s)
        ⟨hs, hp⟩ fun s' hf ↦ ?_
      exact ⟨(Edited.finishSetup hs hf).coherent, hp.next (finishSetup hs hf)⟩) routed
  exact finished.2

theorem load (h : s.Coherent [] guest) (sp : SpaceId) (text : String) :
    Proceeds [] s (s.load sp text).2 := by
  cases hs : s.hasSpace sp with
  | false =>
    rw [load_of_unknown hs]
    exact .refl s
  | true =>
    obtain ⟨x, hx⟩ := hasSpace_iff.mp hs
    unfold Scene.load
    simp only [hs, Bool.not_true, Bool.false_eq_true, if_false]
    split
    · exact calm (.report ..)
    next tokens _ =>
    have start : Draft.Steps ⟨sp, text.utf8ByteSize⟩ ⟨s, [], []⟩ ⟨s, [], []⟩ := .refl
    have reads := Reader.document_reads start tokens
    split
    · next fault d he =>
      rw [he] at reads
      have drafting := (Drafting.refl h hx).steps h hx reads
      have read : Calm [] s d.scene := .steps h hx (.refl h hx) reads
      exact calm ((read.trans (.rollBack drafting.coherent)).trans (.report ..))
    · next roots d he =>
      rw [he] at reads
      have drafting := (Drafting.refl h hx).steps h hx reads.1
      have read : Calm [] s d.scene := .steps h hx (.refl h hx) reads.1
      have committed := (calm read).next (commit drafting.coherent sp text roots)
      split
      all_goals
        next hc =>
        rwa [hc] at committed

end reading

section ticking

theorem fire (h : s.Coherent [] guest) (r : Route) : Proceeds [] s (s.fire r).2 := by
  unfold Scene.fire
  split
  · next he =>
    obtain ⟨v, -, he⟩ := bind_eq_ok.mp he
    exact setValue h he
  · exact calm (.report ..)

theorem cascade (h : s.Coherent [] guest) (limit : Nat) (waiting fired : List Route) (t : Tally) :
    Proceeds [] s (Scene.cascade limit waiting fired t s).2 := by
  induction waiting, fired, t, s using Scene.cascade.induct limit with
  | case1 fired t s r waiting hr ih =>
    rw [Scene.cascade, if_pos hr]
    exact ih h
  | case2 fired t s r waiting hr hl =>
    rw [Scene.cascade, if_neg hr, if_pos hl]
    have emptied : Calm [] s { s with pending := [] } :=
      .aside rfl rfl (.of_loader rfl) ⟨[], (List.append_nil _).symm, rfl⟩
    exact calm (emptied.trans (.report ..))
  | case3 fired t s r waiting hr hl delivered s' hf ih =>
    rw [Scene.cascade, if_neg hr, if_neg hl]
    have coherent := (Edited.fire h r).coherent
    have sent : Proceeds [] s (s.fire r).2 := fire h r
    rw [hf] at coherent sent ⊢
    exact sent.next (ih coherent)
  | case4 fired t s hp =>
    rw [cascade_settled hp]
    exact .refl s
  | case5 fired t s id field pending hp ih =>
    rw [cascade_take hp]
    have taken : Calm [] s { s with pending } :=
      .aside rfl rfl (.of_loader rfl) ⟨[], (List.append_nil _).symm, rfl⟩
    exact (calm taken).next (ih (h.take hp))

/-- A firing stands between turns that apply nothing. -/
theorem course {limit : Nat} {waiting fired : List Route} {t : Tally} {r : Route} {m : Scene}
    (h : s.Coherent [] guest) (hm : (.fire r, m) ∈ Scene.course limit waiting fired t s) :
    Proceeds [] s m ∧ m.Coherent [] guest ∧
      Proceeds [] (m.fire r).2 (Scene.cascade limit waiting fired t s).2 := by
  induction waiting, fired, t, s using Scene.course.induct limit with
  | case1 fired t s q waiting hq ih =>
    rw [Scene.course, if_pos hq] at hm
    rw [Scene.cascade, if_pos hq]
    rcases List.mem_cons.mp hm with he | hm
    · cases he
    · exact ih h hm
  | case2 fired t s q waiting hq hl =>
    rw [Scene.course, if_neg hq, if_pos hl] at hm
    cases hm
  | case3 fired t s q waiting hq hl ih =>
    rw [Scene.course, if_neg hq, if_neg hl] at hm
    rw [Scene.cascade, if_neg hq, if_neg hl]
    have coherent := (Edited.fire h q).coherent
    rcases List.mem_cons.mp hm with he | hm
    · cases he
      exact ⟨.refl m, h, cascade coherent ..⟩
    · obtain ⟨before, hc, after⟩ := ih coherent hm
      exact ⟨(fire h q).next before, hc, after⟩
  | case4 fired t s hp =>
    rw [course_settled hp] at hm
    cases hm
  | case5 fired t s id field pending hp ih =>
    rw [course_take hp] at hm
    rw [cascade_take hp]
    have taken : Calm [] s { s with pending } :=
      .aside rfl rfl (.of_loader rfl) ⟨[], (List.append_nil _).symm, rfl⟩
    rcases List.mem_cons.mp hm with he | hm
    · cases he
    · obtain ⟨before, hc, after⟩ := ih (h.take hp) hm
      exact ⟨(calm taken).next before, hc, after⟩

theorem act (h : s.Coherent [] guest) (w : HookWrite) :
    (hookHost.act s w).1.Coherent [] guest ∧ Proceeds [] s (hookHost.act s w).1 := by
  unfold hookHost
  dsimp only
  split
  · next he =>
    have set := he
    obtain ⟨i, -, he⟩ := bind_eq_ok.mp he
    exact ⟨h.set set, setValue h he⟩
  · exact ⟨h, .refl s⟩

theorem runHook (h : s.Coherent [] guest) (p : HookProgram) : Proceeds [] s (s.runHook p) := by
  have ran : (s.runHook p).Coherent [] guest ∧ Proceeds [] s (s.runHook p) :=
    Program.run_induction (P := fun t : Scene ↦ t.Coherent [] guest ∧ Proceeds [] s t)
      (fun t w ⟨ht, hp⟩ ↦ by
        obtain ⟨coherent, acted⟩ := act ht w
        exact ⟨coherent, hp.next acted⟩)
      (fun t text ⟨ht, hp⟩ ↦ ⟨ht.log _, hp.next (calm (.log rfl))⟩) p ⟨h, .refl s⟩
  exact ran.2

theorem runHooks (h : s.Coherent [] guest) (hooks : List HookProgram) :
    Proceeds [] s (hooks.foldl Scene.runHook s) := by
  induction hooks generalizing s with
  | nil => exact .refl s
  | cons p ps ih => exact (runHook h p).next (ih (h.runHook p))

section writes

variable {hooks : List HookProgram} {w : HookWrite} {m : Scene}

/-- A write of a hook stands between turns that apply nothing, too. -/
theorem writes (h : s.Coherent [] guest) (p : HookProgram) (hw : (w, m) ∈ p.writes hookHost s) :
    Proceeds [] s m ∧ m.Coherent [] guest ∧
      Proceeds [] (hookHost.act m w).1 (s.runHook p) := by
  induction p generalizing s with
  | done => cases hw
  | look next ih => exact ih _ h hw
  | act q next ih =>
    obtain ⟨coherent, acted⟩ := act h q
    have rest := runHook coherent (next (hookHost.act s q).2)
    rcases List.mem_cons.mp hw with he | hw
    · cases he
      exact ⟨.refl m, h, rest⟩
    · obtain ⟨before, hc, after⟩ := ih _ coherent hw
      exact ⟨acted.next before, hc, after⟩
  | note text next ih =>
    obtain ⟨before, hc, after⟩ := ih (h.log [.note text]) hw
    exact ⟨(calm (.log rfl)).next before, hc, after⟩

theorem hookWrites (h : s.Coherent [] guest) (hw : (w, m) ∈ Scene.hookWrites hooks s) :
    Proceeds [] s m ∧ m.Coherent [] guest ∧
      Proceeds [] (hookHost.act m w).1 (hooks.foldl Scene.runHook s) := by
  induction hooks generalizing s with
  | nil => cases hw
  | cons p ps ih =>
    rcases List.mem_append.mp hw with hw | hw
    · obtain ⟨before, hc, after⟩ := writes h p hw
      exact ⟨before, hc, after.next (runHooks (h.runHook p) ps)⟩
    · obtain ⟨before, hc, after⟩ := ih (h.runHook p) hw
      exact ⟨(runHook h p).next before, hc, after⟩

end writes

end ticking

section delivering

/-- The load that a completion answers fails. -/
theorem failed (h : s.Coherent [] guest) (ha : s.awaits c) :
    Proceeds [c] s (s.setLoadState c.request.node .failed).2 := by
  obtain ⟨slot, hs, -, hw⟩ := slot?_of_awaits ha
  obtain ⟨n, field, hn, hl, hu, empty⟩ := exists_node_of_loading h hs hw
  obtain ⟨t, entered, he⟩ := setLoadState_onward hn hl hu .failed (by rw [hw]; rfl) nofun
  rw [he]
  exact turn (.fail ha hs empty (entered.turned.emit _ field .failed)
    (entered.tended.trans (.of_loader rfl)))

theorem released (h : s.Coherent [] guest) (ha : s.awaits c) :
    Proceeds [c] s (s.setLoadState c.request.node .notLoaded).2 := by
  obtain ⟨slot, hs, -, hw⟩ := slot?_of_awaits ha
  obtain ⟨-, -, -, -, -, empty⟩ := exists_node_of_loading h hs hw
  obtain ⟨n, field, t, entered, he⟩ := setLoadState_reset_of_loading h hs hw
  rw [he]
  exact turn (.release ha hs empty (entered.turned.emit _ field .notLoaded)
    (entered.tended.trans (.of_loader rfl)))

theorem filled {content : Content} {space : Option SpaceId} (h : s.Coherent [] guest)
    (ha : s.awaits c) (ho : c.outcome = .loaded content) (hp : ∀ sp ∈ space, s.hasSpace sp) :
    Proceeds [c] s (s.complete c.request.node content space).2 := by
  obtain ⟨slot, hs, -, hw⟩ := slot?_of_awaits ha
  obtain ⟨n, field, hn, hl, hu, empty⟩ := exists_node_of_loading h hs hw
  obtain ⟨s', he, filled, tended⟩ := complete_eq_ok hn hl hu hw content space
  rw [he]
  exact turn (.fill ha ho hs empty hp filled tended)

/-- The space of a text that could not be read goes again, and the load fails. -/
theorem unread (h : s.Coherent [] (some sp)) (ha : s.awaits c) (hm : sp ≠ .main)
    (hx : s.space? sp = some x) (owner : x.owner = some c.request.node)
    (hn : s.node? c.request.node = some n) (empty : n.contentSpace? = none)
    (older : n.space.number < sp.number) : ∃ t, s.removeSpace sp = .ok t ∧
      Proceeds [c] s (t.setLoadState c.request.node .failed).2 := by
  have removed : s.removeSpace sp = .ok (s.demolish [.space sp]) := by
    rw [removeSpace_eq hm, if_pos (hasSpace_iff.mpr ⟨x, hx⟩)]
  have dropped : Calm [] s (s.demolish [.space sp]) := .removeGuest h hx owner hn empty removed
  have below : From sp.number s [.space sp] := by
    constructor
    · intro q z hq _
      cases List.mem_singleton.mp hq
      exact Nat.le_refl _
    · intro k m hk
      cases List.mem_singleton.mp hk
  have spared : (s.demolish [.space sp]).node? c.request.node = some n :=
    (spares_demolish (h.doom _) below).node hn older
  have awaits := (awaits_congr (spared.trans hn.symm)).trans ha
  exact ⟨_, removed, (calm dropped).next (failed (h.removeGuest removed) awaits)⟩

theorem applyContent {content : Content} (h : s.Coherent [] none) (ha : s.awaits c)
    (ho : c.outcome = .loaded content) :
    Proceeds [c] s (s.applyContent c.request.node content).2 := by
  obtain ⟨slot, hs, -, hw⟩ := slot?_of_awaits ha
  obtain ⟨n, -, hn, hl, -, vacant⟩ := exists_node_of_loading h hs hw
  unfold Scene.applyContent
  simp only [hn]
  split
  · exact filled h ha ho nofun
  split
  · have reported : Calm [] s (s.report .fatal "Inline content could not be read."
        (some (.content (.notText content.url)))) := .report ..
    exact (calm reported).next (failed (h.log _) ha)
  next text _ =>
  -- the node waits on while its content is read, though other nodes start to load
  obtain ⟨opened, hc, hm, x, hx, -, owner, -, hn'⟩ := h.readContent hn text
  have empty : n.contentSpace? = none := by
    rw [Node.contentSpace?, hl, Option.bind_some, vacant]
  have loaded := hc.load s.nextSpace text
  have read : Proceeds [] s
      ((s.addSpace .inline n.space (some c.request.node)).load s.nextSpace text).2 :=
    (calm (.openSpace opened)).next (load hc s.nextSpace text)
  have awaits := (awaits_congr (hn'.trans hn.symm)).trans ha
  rw [opened]
  dsimp only
  split
  · next he =>
    rw [he] at loaded read awaits hx
    refine read.next (filled loaded awaits ho fun q hq ↦ ?_)
    cases hq
    exact hasSpace_iff.mpr ⟨x, hx⟩
  · next t he =>
    rw [he] at loaded read awaits hx hn'
    obtain ⟨y, hy, -⟩ := h.home hn
    obtain ⟨u, removed, failed⟩ :=
      unread loaded awaits hm hx owner hn' empty (number_lt_of_space? hy)
    rw [removed]
    exact read.next failed

theorem applied (h : s.Coherent [] none) (ha : s.awaits c) :
    Proceeds [c] s (s.applied c) := by
  have apply : Proceeds [c] s (s.applyCompletion c).2 := by
    unfold applyCompletion
    split
    · next content ho => exact applyContent h ha ho
    · next reason _ =>
      have warned : Calm [] s (s.warn ("Content load failed: " ++ reason) none) := .report ..
      exact (calm warned).next (failed (h.log _) ha)
    · exact released h ha
  unfold Scene.applied
  split
  · next he =>
    rwa [he] at apply
  · next he =>
    rw [he] at apply
    exact apply.rest (calm (.report ..))

theorem applyCompletions (h : s.Coherent [] none) (cs : List Completion) :
    Proceeds (landed cs s) s (Scene.applyCompletions cs s).2 := by
  induction cs generalizing s with
  | nil => exact .refl s
  | cons c cs ih =>
    rw [landed, applyCompletions_cons]
    cases ha : s.awaits c with
    | false =>
      simp only [Bool.false_eq_true, if_false]
      exact ih h
    | true =>
      simp only [if_true]
      have coherent := h.applied ha
      exact (applied h ha).trans (ih coherent)

theorem drainLoads (h : s.Coherent [] none) :
    Proceeds (landed s.posted { s with loader := s.loader.map fun p ↦ p.drain.2 }) s
      s.drainLoads.2 := by
  unfold Scene.drainLoads Scene.posted
  cases hl : s.loader with
  | none => exact .refl s
  | some p =>
    have drained : Calm [] s { s with loader := some p.drain.2 } := by
      refine .reload ?_ ?_ ?_ <;> rintro _ ⟨⟩
      · simp [jobs, hl, Pool.drain, Pool.jobs]
      · simp [works, hl, Pool.drain, Pool.works]
      · exact List.nil_subset _
    refine (calm drained).next (applyCompletions ?_ _)
    exact h.congr rfl rfl rfl rfl fun _ hp ↦ hp

theorem setProvider (h : s.Coherent [] guest) (provider : Provider) :
    Proceeds [] s (s.setProvider provider).2 := by
  unfold Scene.setProvider
  split
  · exact .refl s
  next pool hp =>
  have reset := inTurn_induction (f := fun id s ↦ s.setLoadState id .notLoaded)
    (P := fun t ↦ t.Coherent [] guest ∧ Proceeds [] s t) s.interrupted
    (fun id _ t ⟨ht, hp⟩ ↦ ⟨(Edited.setLoadState ht _).coherent, hp.next (reset ht id)⟩)
    ⟨h, .refl s⟩
  dsimp only
  split
  · next he =>
    rw [he] at reset
    exact reset.2
  · next t he =>
    rw [he] at reset
    obtain ⟨coherent, before⟩ := reset
    have idle : pool.jobs = [] ∧ pool.works = [] ∧ pool.completions = [] := by
      unfold Pool.new at hp
      split at hp
      · cases hp
      · cases hp
        exact ⟨rfl, rfl, rfl⟩
    have renewed : Calm [] t { t with loader := some pool } := by
      obtain ⟨jobs, works, posted⟩ := idle
      refine .reload ?_ ?_ ?_ <;> rintro _ ⟨⟩
      · exact jobs ▸ List.nil_subset _
      · exact works ▸ List.nil_subset _
      · exact posted ▸ List.nil_subset _
    have coherent : { t with loader := some pool }.Coherent [] guest :=
      coherent.congr rfl rfl rfl rfl fun _ hp ↦ hp
    have asked := List.foldlRecOn s.interrupted Scene.autoLoad
      (motive := fun t ↦ t.Coherent [] guest ∧ Proceeds [] s t)
      ⟨coherent, before.next (calm renewed)⟩ fun t ⟨ht, hp⟩ id _ ↦
        ⟨(Edited.autoLoad ht).coherent, hp.next (autoLoad ht id)⟩
    exact asked.2

variable {hooks : List HookProgram} {requested : Double} {tally : Tally}
  {o : Outset}

/-- A tick up to its first cascade and from its last one on, with the hooks between them. -/
theorem tick_stages (h : s.Coherent [] none) (ht : s.tick hooks requested = .ok (tally, s')) :
    ∃ first : Outset, Proceeds (s.delivered requested) s first.scene ∧
      (hooks = [] ∧ s.outsets hooks requested = [first] ∧ Proceeds [] first.run.2 s' ∨
        ∃ second : Outset, s.outsets hooks requested = [first, second] ∧
          second.scene = hooks.foldl Scene.runHook first.run.2 ∧ Proceeds [] second.run.2 s') := by
  unfold Scene.tick at ht
  obtain ⟨⟨time, u⟩, ha, ht⟩ := bind_eq_ok.mp ht
  have clock : Calm [] s u := .advanceClock ha
  have drain := (calm clock).next (drainLoads (h.advanceClock ha))
  have delivered : Proceeds (s.delivered requested) s u.drainLoads.2 := by
    rwa [Scene.delivered, ha]
  have ready := delivered.rest (calm (.tickSensors u.drainLoads.2))
  unfold outsets
  rw [ha]
  dsimp only at ht ⊢
  refine ⟨⟨u.drainLoads.2.settings.cascadeSteps, { time, loads := u.drainLoads.1 },
    u.drainLoads.2.tickSensors⟩, ready, ?_⟩
  cases hh : hooks.isEmpty with
  | true =>
    rw [hh, if_pos rfl] at ht
    cases ht
    exact .inl ⟨List.isEmpty_iff.mp hh, rfl, calm (.tickFinished ..)⟩
  | false =>
    rw [hh, if_neg Bool.false_ne_true] at ht
    cases ht
    exact .inr ⟨_, rfl, rfl, calm (.tickFinished ..)⟩

theorem tick_hooks (h : s.Coherent [] none) (ht : s.tick hooks requested = .ok (tally, s'))
    (ho : o ∈ (s.outsets hooks requested).head?) :
    Proceeds (s.delivered requested) s o.run.2 ∧ o.run.2.Coherent [] none ∧
      Proceeds [] (hooks.foldl Scene.runHook o.run.2) s' := by
  have coherent : ∀ o ∈ s.outsets hooks requested, o.scene.Coherent [] none := h.outsets
  obtain ⟨first, ready, ⟨rfl, he, finish⟩ | ⟨second, he, hooked, finish⟩⟩ := tick_stages h ht
  all_goals
    rw [he] at ho coherent
    cases ho
    have begun := coherent o List.mem_cons_self
    refine ⟨ready.rest (cascade begun ..), begun.cascade .., ?_⟩
  · exact finish
  · have begun := coherent second (List.mem_cons_of_mem _ List.mem_cons_self)
    exact hooked ▸ (cascade begun ..).next finish

theorem tick_outset (h : s.Coherent [] none) (ht : s.tick hooks requested = .ok (tally, s'))
    (ho : o ∈ s.outsets hooks requested) :
    Proceeds (s.delivered requested) s o.scene ∧ Proceeds [] o.run.2 s' := by
  obtain ⟨first, ready, ⟨-, he, finish⟩ | ⟨second, he, hooked, finish⟩⟩ := tick_stages h ht
  · rw [he] at ho
    cases List.mem_singleton.mp ho
    exact ⟨ready, finish⟩
  · obtain ⟨settled, coherent, rest⟩ := tick_hooks h ht (o := first) (by rw [he]; rfl)
    have ran := runHooks coherent hooks
    rw [he] at ho
    rcases List.mem_cons.mp ho with rfl | ho
    · exact ⟨ready, ran.next rest⟩
    · cases List.mem_singleton.mp ho
      exact ⟨hooked ▸ settled.rest ran, finish⟩

theorem tick (h : s.Coherent [] none) (ht : s.tick hooks requested = .ok (tally, s')) :
    Proceeds (s.delivered requested) s s' := by
  obtain ⟨o, hl, -⟩ := tick_eq_ok ht
  have ho := List.mem_of_getLast? hl
  obtain ⟨ready, finish⟩ := tick_outset h ht ho
  exact (ready.rest (cascade (h.outsets o ho) ..)).rest finish

theorem advance {p : Pool} (hp : s.loader = some p) (i : Nat) :
    Proceeds [] s { s with
      loader := some (p.advance i s.held s.cache).1
      cache := (p.advance i s.held s.cache).2 } := by
  by_cases hs : ∃ r ∈ p.running[i]?, ∃ content,
      (r.step p.provider s.held s.cache).1 = .ended (.loaded content)
  · obtain ⟨r, hr, content, hs⟩ := hs
    obtain ⟨url, hu, -⟩ := Run.url?_of_loaded hs
    exact turn (.find hp hr hu hs)
  · refine turn (.advance hp fun r hr content he ↦ ?_)
    exact hs ⟨r, hr, content, he⟩

end delivering

end Proceeds

/-- Whatever is done to a scene are turns, but for a journal that is taken, a state that is set by
hand and a space that is removed. Completions that are applied had been posted before. -/
theorem Step.proceeds (h : s.Coherent [] none) (hs : Step s s') :
    s' = s.takeJournal.2 ∨ (∃ id state, s' = (s.setLoadState id state).2) ∨
      (∃ sp, s.removeSpace sp = .ok s' ∧ Calm [sp] s s') ∨
      ∃ cs, Proceeds cs s s' ∧ cs ⊆ s.posted := by
  have quiet (hp : Proceeds [] s s') : s' = s.takeJournal.2 ∨
      (∃ id state, s' = (s.setLoadState id state).2) ∨
      (∃ sp, s.removeSpace sp = .ok s' ∧ Calm [sp] s s') ∨
      ∃ cs, Proceeds cs s s' ∧ cs ⊆ s.posted :=
    .inr (.inr (.inr ⟨[], hp, List.nil_subset _⟩))
  cases hs with
  | createSpace hs => exact quiet (.calm (.openSpace hs))
  | removeSpace hs => exact .inr (.inr (.inl ⟨_, hs, .removeSpace h hs⟩))
  | createNode hs => exact quiet (.calm (.createNode hs))
  | finishSetup hs => exact quiet (.finishSetup h hs)
  | removeNode hs => exact quiet (.calm (.removeNode h hs))
  | collect hs => exact quiet (.calm (.collect h hs))
  | setValue hs => exact quiet (.setValue h hs)
  | set hs | setInts hs | setFloats hs | setStrings hs =>
    obtain ⟨a, -, hs⟩ := bind_eq_ok.mp hs
    exact quiet (.setValue h hs)
  | checkChanged hs => exact quiet (.calm (.checkChanged hs))
  | addRoot hs => exact quiet (.calm (.addRoot hs))
  | removeRoot hs => exact quiet (.calm (.removeRoot hs))
  | define hs => exact quiet (.calm (.define hs))
  | addRoute hs => exact quiet (.calm (.addRoute hs))
  | addRouteIn hs => exact quiet (.calm (.addRouteIn hs))
  | addStatement hs => exact quiet (.calm (.addStatement hs))
  | removeRoute => exact quiet (.calm (.removeRoute ..))
  | load => exact quiet (.load h ..)
  | setLoadState id state => exact .inr (.inl ⟨id, state, rfl⟩)
  | requestLoad => exact quiet (.requestLoad h _)
  | cancelLoad => exact quiet (.reset h _)
  | terminateLoads => exact quiet (.calm (.terminateLoads s))
  | setProvider => exact quiet (.setProvider h _)
  | tick hs => exact .inr (.inr (.inr ⟨_, .tick h hs, delivered_subset ..⟩))
  | takeJournal => exact .inl rfl
  | poolTake hp => exact quiet (.turn (.take hp))
  | poolAdvance hp i => exact quiet (.advance hp i)
  | useCache =>
    exact quiet (.calm (.aside rfl rfl (.of_loader rfl) ⟨[], (List.append_nil _).symm, rfl⟩))

end Scene

end SceneGraph
