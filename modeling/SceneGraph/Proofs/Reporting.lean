import SceneGraph.Proofs.Blaming
import SceneGraph.Proofs.Furnishing
import SceneGraph.Proofs.Locating
import SceneGraph.Proofs.Publishing

/-!
What is reported when a text is read: one fatal report where the text is given up, and otherwise a
warning for each route that cannot be added.
-/

namespace SceneGraph

theorem Journal.reports_append (js js' : Journal) :
    (js ++ js').reports = js.reports ++ js'.reports :=
  List.filterMap_append

namespace Scene

variable {s s' t : Scene} {guest : Option SpaceId} {sp : SpaceId} {x : Space} {id : NodeId}
  {n : Node} {st : Statement} {text : String} {ids : List NodeId} {d : Draft}

section silence

theorem reports_perform (s : Scene) (id : NodeId) (script : Behavior → Script) :
    (s.perform id script).journal.reports = s.journal.reports := by
  have notes (texts : List String) : Journal.reports (texts.map .note) = [] :=
    List.filterMap_eq_nil_iff.mpr (by simp)
  have events (k : NodeId) (outputs : List Nat) :
      Journal.reports (outputs.map fun i ↦ .event (.fieldChanged k i)) = [] :=
    List.filterMap_eq_nil_iff.mpr (by simp)
  unfold Scene.perform
  split
  · rfl
  next n _ =>
  generalize (script n.type.behavior).perform (s.viewOf id n) = a
  have noted : ((s.modifyNode id fun n ↦ { n with values := a.view.values }).log
      (a.notes.map .note)).journal.reports = s.journal.reports := by
    rw [log, Journal.reports_append, notes, List.append_nil, journal_modifyNode]
  dsimp only
  split
  · exact noted
  · have marked := journal_markAll ((s.modifyNode id fun n ↦ { n with values := a.view.values }).log
      (a.notes.map .note)) id a.outputs
    rw [markAll] at marked
    rw [marked, Journal.reports_append, events, List.append_nil, noted]

/-- The urls of a node that wants to load are strings. -/
theorem urls_ne_nil (hn : s.node? id = some n) (sound : n.Sound) (hw : s.wantsLoad id) :
    urls n ≠ [] := by
  obtain ⟨m, hm, -, -, count, -⟩ := wantsLoad_iff.mp hw
  cases hn.symm.trans hm
  cases hu : n.type.url? with
  | none => simp [hu] at count
  | some i =>
    let url : Declaration := ⟨.exposed, .multi .string, "url", .ofStrings []⟩
    have hd : n.type.table.get? i = some url :=
      sound.built.get?_standard (c := .loadable) List.mem_cons_self hu
    obtain ⟨v, hv, fits⟩ := (Node.Furnished.of_sound sound).shape hd
    have strings : v.kind = ⟨true, .string⟩ := (Declaration.checkShape_iff.mp fits).1
    rw [hu, Option.bind_some, hv] at count
    rw [urls, hu, Option.bind_some, hv, Option.bind_some]
    cases v with
    | strings a =>
      intro empty
      exact count ((Counted.length_toList a).symm.trans (congrArg List.length empty))
    | _ => cases strings

theorem reports_autoLoad (h : s.Coherent [] guest) (id : NodeId) :
    (s.autoLoad id).journal.reports = s.journal.reports := by
  cases hw : s.wantsLoad id with
  | false => simp [autoLoad, hw]
  | true =>
    obtain ⟨n, hn, loaded, -, count, hl⟩ := wantsLoad_iff.mp hw
    obtain ⟨p, hp⟩ := Option.isSome_iff_exists.mp loaded
    obtain ⟨slot, hs, rest⟩ := Option.map_eq_some_iff.mp hl
    obtain ⟨field, hu⟩ := exists_url_of_slot h hn hs
    have begins : (n.load.getD {}).state = .notLoaded := by rwa [hs]
    rw [autoLoad_of_urls hw hn hu begins hp (urls_ne_nil hn (h.sound hn) hw), log,
      Journal.reports_append, modifySlot, journal_modifyNode]
    exact List.append_nil _

theorem reports_finishSetup (h : s.Coherent [] guest) (hs : s.finishSetup id = .ok s') :
    s'.journal.reports = s.journal.reports := by
  obtain ⟨n, hn, hs⟩ := bind_eq_ok.mp hs
  split at hs
  · cases hs
    rfl
  cases hs
  have performed : ((s.modifyNode id fun n ↦ { n with inSetup := false }).perform id
      Behavior.setupFinished).journal.reports = s.journal.reports := by
    rw [reports_perform, journal_modifyNode]
  split
  · rw [reports_autoLoad (Edited.endSetup h).coherent, performed]
  · exact performed

end silence

section skipping

/-- The scenes agree on what routes may join in the space. -/
structure Agree (sp : SpaceId) (s s' : Scene) : Prop where
  type : ∀ id, (s'.node? id).map Node.type = (s.node? id).map Node.type
  nodes : (s'.space? sp).map Space.nodes = (s.space? sp).map Space.nodes
  named : ∀ name, s'.named? sp name = s.named? sp name

theorem Agree.trans (h : Agree sp s t) (h' : Agree sp t s') : Agree sp s s' :=
  ⟨fun id ↦ (h'.type id).trans (h.type id), h'.nodes.trans h.nodes,
    fun name ↦ (h'.named name).trans (h.named name)⟩

theorem Agree.link? (h : Agree sp s s') : s'.link? sp = s.link? sp :=
  link?_congr (fun id ↦ table?_congr (h.type id)) h.named

theorem Agree.node_cases (h : Agree sp s s') (id : NodeId) :
    (s.node? id = none ∧ s'.node? id = none) ∨
      ∃ n m, s.node? id = some n ∧ s'.node? id = some m ∧ m.type = n.type := by
  have type := h.type id
  cases hn : s.node? id with
  | none =>
    rw [hn] at type
    exact .inl ⟨rfl, Option.map_eq_none_iff.mp type⟩
  | some n =>
    rw [hn] at type
    obtain ⟨m, hm, same⟩ := Option.map_eq_some_iff.mp type
    exact .inr ⟨n, m, rfl, hm, same⟩

theorem Agree.resolve (h : Agree sp s s') (st : Statement) :
    s'.resolve sp st = s.resolve sp st := by
  have index (id : NodeId) (name : String) : s'.fieldIndex id name = s.fieldIndex id name := by
    unfold fieldIndex node
    rcases h.node_cases id with ⟨hn, hm⟩ | ⟨n, m, hn, hm, same⟩
    · rw [hn, hm]
    · rw [hn, hm]
      exact congrArg (·.lookup name) same
  unfold Scene.resolve routeByName
  simp only [h.named, index]

theorem Agree.checkRoute (h : Agree sp s s') (r : Route) :
    s'.checkRoute sp r = s.checkRoute sp r := by
  have member (id : NodeId) : s'.isMember sp id = s.isMember sp id :=
    congrArg (fun ids ↦ decide (id ∈ ids)) (congrArg (·.getD []) h.nodes)
  unfold Scene.checkRoute node
  rw [member, member]
  rcases h.node_cases r.source with ⟨hs, hs'⟩ | ⟨n, m, hs, hs', same⟩
  · rw [hs, hs']
    rfl
  rcases h.node_cases r.dest with ⟨hd, hd'⟩ | ⟨n', m', hd, hd', same'⟩
  · rw [hs, hs', hd, hd']
    rfl
  · rw [hs, hs', hd, hd']
    simp only [bind, Except.bind, same, same']

theorem addStatement_eq_error (hx : s.space? sp = some x) {e : Error} :
    s.addStatement sp st = .error e ↔ (s.resolve sp st >>= s.checkRoute sp) = .error e := by
  unfold addStatement addRouteIn
  rw [space_eq_ok.mpr hx]
  cases s.resolve sp st with
  | error e' => simp [bind, Except.bind]
  | ok r =>
    simp only [bind, Except.bind]
    cases s.checkRoute sp r with
    | error e' => simp
    | ok _ =>
      constructor
      · intro h
        dsimp only at h
        split at h <;> cases h
      · nofun

theorem Agree.addStatement_eq_error (h : Agree sp s s') (hx : s.space? sp = some x) {e : Error} :
    s'.addStatement sp st = .error e ↔ s.addStatement sp st = .error e := by
  have home := h.nodes
  rw [hx] at home
  obtain ⟨y, hy, -⟩ := Option.map_eq_some_iff.mp home
  rw [Scene.addStatement_eq_error hy, Scene.addStatement_eq_error hx, h.resolve,
    funext h.checkRoute]

theorem exists_fault_of_checkRoute {r : Route} {m : Node} {e : Error}
    (hn : s.node? r.source = some n) (hm : s.node? r.dest = some m)
    (h : s.checkRoute sp r = .error e) : ∃ fault, e = .route fault := by
  unfold checkRoute at h
  rw [node_eq_ok.mpr hn, node_eq_ok.mpr hm] at h
  simp only [bind, Except.bind, throw, throwThe, MonadExceptOf.throw, pure, Except.pure] at h
  repeat' split at h
  all_goals cases h
  all_goals exact ⟨_, rfl⟩

/-- A statement that stands for no route is refused for the route's sake. -/
theorem exists_refusal (h : s.Coherent [] guest) (hx : s.space? sp = some x)
    (hl : s.link? sp st = none) : ∃ fault, s.addStatement sp st = .error (.route fault) := by
  have refused {fault : RouteFault} (hr : (s.resolve sp st >>= s.checkRoute sp) =
      .error (.route fault)) : ∃ fault, s.addStatement sp st = .error (.route fault) :=
    ⟨fault, (addStatement_eq_error hx).mpr hr⟩
  cases hr : s.resolve sp st with
  | error e =>
    have unresolved : ∃ fault, e = .route fault := by
      unfold resolve at hr
      repeat' split at hr
      all_goals cases hr
      all_goals exact ⟨_, rfl⟩
    obtain ⟨fault, rfl⟩ := unresolved
    exact refused (by rw [hr]; rfl)
  | ok r =>
    obtain ⟨hs, hd, -⟩ := resolve_eq_ok.mp hr
    obtain ⟨n, hn, -⟩ := h.housed.lodged hx (named?_mem h hx hs)
    obtain ⟨m, hm, -⟩ := h.housed.lodged hx (named?_mem h hx hd)
    cases hc : s.checkRoute sp r with
    | ok _ => cases hl.symm.trans (link?_eq_some.mpr ⟨hr, (fits_of_checkRoute hx hc).2.2⟩)
    | error e =>
      obtain ⟨fault, rfl⟩ := exists_fault_of_checkRoute hn hm hc
      exact refused (by rw [hr]; exact hc)

/-- The report is the warning about the statement, which cannot be added. -/
def Skips (s : Scene) (sp : SpaceId) (text : String) (a : Statement × Nat) (w : Report) : Prop :=
  ∃ fault, s.addStatement sp a.1 = .error (.route fault) ∧
    w = ⟨.warning, "Skipping unresolved route.", some (readingError text a.2 fault.text)⟩

theorem Agree.skips (h : Agree sp s s') (hx : s.space? sp = some x) {a : Statement × Nat}
    {w : Report} : s'.Skips sp text a w ↔ s.Skips sp text a w :=
  exists_congr fun _ ↦ and_congr_left fun _ ↦ h.addStatement_eq_error hx

theorem agree_addStatementOrWarn (text : String) (h : s.Coherent [] guest)
    (hx : s.space? sp = some x) (a : Statement × Nat) :
    Agree sp s (addStatementOrWarn text sp s a) := by
  obtain ⟨beside, departures, home⟩ := addStatementOrWarn_space text h hx a
  refine ⟨fun id ↦ by rw [node?_congr beside.nodes], ?_, fun name ↦ ?_⟩
  · rw [home, hx]
    rfl
  · unfold named?
    rw [home, hx]
    rfl

/-- There is one warning for each statement that stands for no route. -/
theorem exists_warnings (text : String) (h : s.Coherent [] guest) (hx : s.space? sp = some x)
    (rs : List (Statement × Nat)) :
    Agree sp s (rs.foldl (addStatementOrWarn text sp) s) ∧ ∃ warnings : List Report,
      (rs.foldl (addStatementOrWarn text sp) s).journal =
        s.journal ++ warnings.map .report ∧
      List.Forall₂ (s.Skips sp text) (rs.filter fun a ↦ (s.link? sp a.1).isNone) warnings := by
  induction rs generalizing s x with
  | nil => exact ⟨⟨fun _ ↦ rfl, rfl, fun _ ↦ rfl⟩, [], by simp, .nil⟩
  | cons a rs ih =>
    have agree := agree_addStatementOrWarn text h hx a
    obtain ⟨-, departures, home⟩ := addStatementOrWarn_space text h hx a
    obtain ⟨agree', warnings, journal, skipped⟩ := ih (h.addStatementOrWarn text a) home
    rw [agree.link?] at skipped
    replace skipped := skipped.imp fun _ _ ↦ (agree.skips hx).mp
    refine ⟨agree.trans agree', ?_⟩
    rw [List.foldl_cons, journal]
    cases hl : s.link? sp a.1 with
    | some r =>
      refine ⟨warnings, ?_, by simpa [hl] using skipped⟩
      rw [addStatementOrWarn, addStatement_of_link? h hx hl]
      cases x.hasRoute r <;> rfl
    | none =>
      obtain ⟨fault, refused⟩ := exists_refusal h hx hl
      let w : Report :=
        ⟨.warning, "Skipping unresolved route.", some (readingError text a.2 fault.text)⟩
      refine ⟨w :: warnings, ?_, ?_⟩
      · rw [addStatementOrWarn, refused]
        exact List.append_assoc ..
      · simp only [List.filter_cons, hl, Option.isNone_none, if_true]
        exact .cons ⟨fault, refused, rfl⟩ skipped

end skipping

section reading

variable {tokens : List Spanned} {g : Gist}

theorem Rounds.reports {s₁ s₂ s₃ : Scene} (rounds : Rounds guest sp text ids d x s₁ s₂ s₃) :
    ∃ warnings, s₃.journal.reports = d.scene.journal.reports ++ warnings ∧
      List.Forall₂ (s₃.Skips sp text) (d.routes.filter fun a ↦ (s₃.link? sp a.1).isNone)
        warnings := by
  have rooted : s₁.journal = d.scene.journal := by
    have silent := inTurn_induction (f := fun id s ↦ s.keep ((s.addRoot sp id).map Prod.snd))
      (P := fun s ↦ s.journal = d.scene.journal) (s := d.scene) ids (fun id _ s hs ↦ by
        cases ha : s.addRoot sp id with
        | error e => exact hs
        | ok b =>
          obtain ⟨-, y, -, -, ⟨-, -, he⟩ | ⟨-, -, he⟩⟩ := addRoot_eq_ok.mp ha
          · exact (congrArg journal he).trans hs
          · exact (congrArg journal he).trans hs) rfl
    rwa [rounds.rooted] at silent
  obtain ⟨-, warnings, routed, skipped⟩ :=
    exists_warnings text rounds.coherent rounds.roots d.routes
  rw [rounds.routed, rooted] at routed
  have ended : s₃.journal.reports = s₂.journal.reports := by
    have silent := inTurn_induction (f := fun id s ↦ s.keep (s.finishSetup id))
      (P := fun s ↦ s.Coherent [] guest ∧ s.journal.reports = s₂.journal.reports) (s := s₂)
      d.created (fun id _ s ⟨hc, hr⟩ ↦ by
        cases hf : s.finishSetup id with
        | error e => exact ⟨hc, hr⟩
        | ok t => exact ⟨(Edited.finishSetup hc hf).coherent, (reports_finishSetup hc hf).trans hr⟩)
      ⟨rounds.later, rfl⟩
    rw [rounds.ended] at silent
    exact silent.2
  have agree : Agree sp s₁ s₃ := by
    obtain ⟨departures, home⟩ := rounds.routes
    refine ⟨rounds.type, ?_, rounds.named?⟩
    rw [space?_congr rounds.endings.standing.spaces, home, rounds.roots]
    rfl
  have warned : Journal.reports (warnings.map .report) = warnings := by
    simp [Journal.reports, List.filterMap_map]
  refine ⟨warnings, ?_, ?_⟩
  · rw [ended, routed, Journal.reports_append, warned]
  · rw [agree.link?]
    exact skipped.imp fun _ _ ↦ (agree.skips rounds.roots).mpr

theorem load_of_stray {o : Nat} (live : s.hasSpace sp) (ht : Lexer.tokenize text = .error o) :
    s.load sp text = (.error (readingError text o Complaint.strayCharacter.text),
      s.report .fatal "Scene content could not be read."
        (some (readingError text o Complaint.strayCharacter.text))) := by
  unfold load
  simp only [live, Bool.not_true, Bool.false_eq_true, if_false, ht]

theorem load_of_fault {f : Fault} (live : s.hasSpace sp) (ht : Lexer.tokenize text = .ok tokens)
    (hd : Reader.document ⟨sp, text.utf8ByteSize⟩ ⟨s, [], []⟩ tokens = .error (f, d)) :
    s.load sp text = (.error (f.error text),
      d.rollBack.report .fatal "Scene content could not be read." (some (f.error text))) := by
  unfold load
  simp only [live, Bool.not_true, Bool.false_eq_true, if_false, ht, hd]

/-- What was read of a text is committed without fail. -/
theorem exists_read (h : s.Coherent [] guest) (hx : s.space? sp = some x)
    (hd : Reader.document ⟨sp, text.utf8ByteSize⟩ ⟨s, [], []⟩ tokens = .ok (ids, d)) :
    ∃ g s' warnings, Derives (s.language sp) {} (.document ids) tokens g ∧
      commit sp text ids d = (.ok (), s') ∧ s.Published sp ids g s' ∧
      s'.journal.reports = s.journal.reports ++ warnings ∧
      List.Forall₂ (s'.Skips sp text) (g.routes.filter fun a ↦ (s'.link? sp a.1).isNone)
        warnings := by
  obtain ⟨g, derived, drawn⟩ := Reader.document_derives (draws_start h hx text.utf8ByteSize) hd
  have start : Draft.Steps ⟨sp, text.utf8ByteSize⟩ ⟨s, [], []⟩ ⟨s, [], []⟩ := .refl
  have known := Reader.document_reads start tokens
  rw [hd] at known
  have members (y : Space) (hy : d.scene.space? sp = some y) (id) (hid : id ∈ ids) :
      id ∈ y.nodes := by
    obtain ⟨z, hz, hm⟩ := Drafting.mem_of_known h hx (known.2 id hid)
    cases hy.symm.trans hz
    exact hm
  obtain ⟨s', hc, published⟩ := commit_published text drawn members
  obtain ⟨_, _, -, -, drafting⟩ := drawn.drafting
  obtain ⟨names, drafted, -⟩ := drafting.drafted
  obtain ⟨s₁, s₂, s₃, rounds⟩ := exists_rounds text drafting.coherent drafted members
  cases hc.symm.trans rounds.commit
  obtain ⟨warnings, reports, skipped⟩ := rounds.reports
  rw [drafted.journal_eq] at reports
  rw [drawn.routes] at skipped
  exact ⟨g, s', warnings, derived, hc, published, reports, skipped⟩

/-- A text that is given up is to blame for it, and nothing is reported before. -/
theorem exists_given_up {f : Fault} (h : s.Coherent [] guest) (hx : s.space? sp = some x)
    (ht : Lexer.tokenize text = .ok tokens)
    (hd : Reader.document ⟨sp, text.utf8ByteSize⟩ ⟨s, [], []⟩ tokens = .error (f, d)) :
    ∃ o c, f = .textual o c ∧ (Lexer.Marks (Lexer.tokenize text) o ∨ o = text.utf8ByteSize) ∧
      d.rollBack.journal = s.journal := by
  have blamed := Reader.document_blames _ _ _ hd
  have start : Draft.Steps ⟨sp, text.utf8ByteSize⟩ ⟨s, [], []⟩ ⟨s, [], []⟩ := .refl
  have steps := Reader.document_reads start tokens
  rw [hd] at steps
  obtain ⟨-, names, -, drafted⟩ := ((Drafting.refl h hx).steps h hx steps).rollBack h hx
  cases f with
  | refusal e => exact blamed.elim
  | textual o c =>
    rw [ht]
    exact ⟨o, c, rfl, blamed, drafted.journal_eq⟩

/-- A text is read into a live space, and then there is no report but one warning for each route
statement that cannot be added; or there is one fatal report of a reading error. The line and the
column of the error are those of one byte only, where a token starts, or what is no token, or where
the text ends. What was read is committed without fail. -/
theorem Reachable.load_reports (h : s.Reachable) (live : s.hasSpace sp) (text : String) :
    ((∃ tokens ids g s' warnings, Lexer.tokenize text = .ok tokens ∧
        Derives (s.language sp) {} (.document ids) tokens g ∧
        s.load sp text = (.ok ids, s') ∧ s.Published sp ids g s' ∧
        s'.journal.reports = s.journal.reports ++ warnings ∧
        List.Forall₂ (s'.Skips sp text) (g.routes.filter fun a ↦ (s'.link? sp a.1).isNone)
          warnings) ∨
      ∃ line column message offset s',
        s.load sp text = (.error (.reading line column message), s') ∧
        s'.journal = s.journal ++ [.report ⟨.fatal, "Scene content could not be read.",
          some (.reading line column message)⟩] ∧
        (∀ o, Designates text line column o ↔ o = offset) ∧
        (Lexer.Marks (Lexer.tokenize text) offset ∨ offset = text.utf8ByteSize)) ∧
    ∀ tokens ids d, Lexer.tokenize text = .ok tokens →
      Reader.document ⟨sp, text.utf8ByteSize⟩ ⟨s, [], []⟩ tokens = .ok (ids, d) →
      ∃ s', commit sp text ids d = (.ok (), s') := by
  obtain ⟨x, hx⟩ := hasSpace_iff.mp live
  refine ⟨?_, fun tokens ids d _ hd ↦ ?_⟩
  · cases ht : Lexer.tokenize text with
    | error o =>
      have here : Lexer.Marks (.error o) o := rfl
      have marked : Lexer.Marks (Lexer.tokenize text) o := ht ▸ here
      obtain ⟨line, column, he, designated⟩ :=
        exists_designated Complaint.strayCharacter.text (.inl marked)
      exact .inr ⟨line, column, _, o, _, he ▸ load_of_stray live ht, rfl, designated, .inl here⟩
    | ok tokens =>
      cases hd : Reader.document ⟨sp, text.utf8ByteSize⟩ ⟨s, [], []⟩ tokens with
      | ok read =>
        obtain ⟨ids, d⟩ := read
        obtain ⟨g, s', warnings, derived, hc, published, reports, skipped⟩ :=
          exists_read h.coherent hx hd
        exact .inl ⟨tokens, ids, g, s', warnings, rfl, derived, load_of_read live ht hd hc,
          published, reports, skipped⟩
      | error e =>
        obtain ⟨f, d⟩ := e
        obtain ⟨o, c, rfl, here, journal⟩ := exists_given_up h.coherent hx ht hd
        obtain ⟨line, column, he, designated⟩ := exists_designated c.text here
        have hl := load_of_fault live ht hd
        rw [Fault.error, he] at hl
        refine .inr ⟨line, column, c.text, o, _, hl, ?_, designated, ht ▸ here⟩
        rw [report, log, journal]
  · obtain ⟨g, s', warnings, -, hc, -⟩ := exists_read h.coherent hx hd
    exact ⟨s', hc⟩

end reading

section unrouted

/-- A route between nodes that are not there. -/
def unrouted : String := "ROUTE A.x TO B.y"

def astray : Statement := ⟨"A", "x", "B", "y"⟩

def unopened : String := "\n ]"

theorem load_unrouted : ∃ s w, (start ⟨[meter]⟩ {}).load .main unrouted = (.ok [], s) ∧
    s.journal.reports = [w] := by
  have tokens : Lexer.tokenize unrouted = .ok
      [⟨.keyword .route, 0, 5⟩, ⟨.ident "A", 6, 7⟩, ⟨.mark .dot, 7, 8⟩, ⟨.ident "x", 8, 9⟩,
        ⟨.keyword .into, 10, 12⟩, ⟨.ident "B", 13, 14⟩, ⟨.mark .dot, 14, 15⟩,
        ⟨.ident "y", 15, 16⟩] := by cbv
  have read : Reader.document ⟨.main, unrouted.utf8ByteSize⟩ ⟨start ⟨[meter]⟩ {}, [], []⟩
      [⟨.keyword .route, 0, 5⟩, ⟨.ident "A", 6, 7⟩, ⟨.mark .dot, 7, 8⟩, ⟨.ident "x", 8, 9⟩,
        ⟨.keyword .into, 10, 12⟩, ⟨.ident "B", 13, 14⟩, ⟨.mark .dot, 14, 15⟩,
        ⟨.ident "y", 15, 16⟩] = .ok ([], ⟨start ⟨[meter]⟩ {}, [], [(astray, 0)]⟩) := by
    rw [Reader.document]
    change Reader.document _ _ [] = _
    rw [Reader.document]
    rfl
  exact ⟨_, _, load_of_read rfl tokens read rfl, rfl⟩

theorem load_unopened : ∃ message s,
    (start ⟨[meter]⟩ {}).load .main unopened = (.error (.reading 2 2 message), s) := by
  have tokens : Lexer.tokenize unopened = .ok [⟨.mark .closeBracket, 2, 3⟩] := by cbv
  have read : Reader.document ⟨.main, unopened.utf8ByteSize⟩ ⟨start ⟨[meter]⟩ {}, [], []⟩
      [⟨.mark .closeBracket, 2, 3⟩] = .error
        (.textual 2 (.expected "a node" (some (.mark .closeBracket))),
          ⟨start ⟨[meter]⟩ {}, [], []⟩) := by
    rw [Reader.document]
    dsimp only
    rw [Reader.statement]
    · rfl
    all_goals simp
  exact ⟨_, _, load_of_fault rfl tokens read⟩

/-- One text brings a warning, the other is given up in its second line. -/
theorem load_reports_unrouted : ∃ s w t message, (start ⟨[meter]⟩ {}).Reachable ∧
    (start ⟨[meter]⟩ {}).hasSpace .main ∧
    (start ⟨[meter]⟩ {}).load .main unrouted = (.ok [], s) ∧ s.journal.reports = [w] ∧
    w.severity = .warning ∧
    (start ⟨[meter]⟩ {}).load .main unopened = (.error (.reading 2 2 message), t) ∧
    t.journal = [.report ⟨.fatal, "Scene content could not be read.",
      some (.reading 2 2 message)⟩] ∧ ∀ o, Designates unopened 2 2 o ↔ o = 2 := by
  have live : (start ⟨[meter]⟩ {}).hasSpace .main := rfl
  obtain ⟨s, w, read, reports⟩ := load_unrouted
  obtain ⟨message, t, given⟩ := load_unopened
  have warned : w.severity = .warning := by
    obtain ⟨⟨_, _, g, s', warnings, -, -, hl, -, reported, skipped⟩ | ⟨_, _, _, _, _, hl, -⟩, -⟩ :=
      reachable_metered.load_reports live unrouted
    · cases read.symm.trans hl
      cases reports.symm.trans reported
      obtain ⟨_, _, ⟨fault, -, rfl⟩, -⟩ := List.forall₂_cons_right_iff.mp skipped
      rfl
    · cases read.symm.trans hl
  obtain ⟨⟨_, _, _, _, _, -, -, hl, -⟩ | ⟨l, c, _, o, _, hl, journal, designated, -⟩, -⟩ :=
    reachable_metered.load_reports live unopened
  · cases given.symm.trans hl
  · cases given.symm.trans hl
    have place : Designates unopened 2 2 2 := ⟨by decide, by decide, by decide⟩
    cases (designated 2).mp place
    exact ⟨s, w, t, message, reachable_metered, live, read, reports, warned, given, journal,
      designated⟩

end unrouted

end Scene

end SceneGraph
