import Mathlib
import SceneGraph.Proofs.Operation
import SceneGraph.Scene.Outline

/-!
The outline of a space. It goes through the nodes depth first and describes each live node that the
roots lead to once, where it meets it first.
-/

namespace SceneGraph

/-- The fields of the node that refer to other nodes, by index, with their names and references.
Inputs do not count. -/
def Node.links (n : Node) : List (String × List NodeId) :=
  (n.type.table.declarations.zip n.values).filterMap fun (d, v) ↦
    if d.type.kind.isNode ∧ d.access ≠ .eventIn ∧ v.refs ≠ [] then some (d.name, v.refs) else none

namespace Scene

/-- The label of a field and the nodes that it refers to. -/
def linkTasks (depth : Nat) (link : String × List NodeId) : List OutlineTask :=
  .label depth link.1 :: link.2.map (.visit (depth + 1))

theorem outlineFields_eq (n : Node) (depth : Nat) :
    outlineFields n depth = n.links.flatMap (linkTasks depth) := by
  unfold outlineFields Node.links FieldTable.nodeFields FieldTable.get? FieldTable.size
  generalize n.type.table.declarations = ds
  generalize n.values = vs
  -- the declarations and the values go along with each other, and the indices move by one
  induction ds generalizing vs with
  | nil => rfl
  | cons d ds ih =>
    cases vs with
    | nil => simp
    | cons v vs =>
      have ih := ih vs
      simp only [List.length_cons, List.range_succ_eq_map, List.filter_cons, List.filter_map,
        Function.comp_def, List.getElem?_cons_zero, List.getElem?_cons_succ, Option.any_some,
        List.zip_cons_cons, List.filterMap_cons]
      by_cases hk : d.type.kind.isNode
      · rw [if_pos hk, List.flatMap_cons, List.flatMap_map]
        simp only [List.getElem?_cons_zero, List.getElem?_cons_succ]
        rw [ih]
        simp only [hk, true_and, Option.map_some, Option.getD_some]
        cases hr : v.refs with
        | nil => simp
        | cons ref refs =>
          by_cases ha : d.access = .eventIn
          · simp [ha]
          · simp [ha, linkTasks]
      · rw [if_neg hk, List.flatMap_map]
        simp only [List.getElem?_cons_succ]
        rw [ih]
        simp [hk]

/-- A line of an outline: the label of a field, or a node that is described, only named again, or
gone. -/
inductive Line where
  | label (depth : Nat) (name : String)
  | opened (depth : Nat) (id : NodeId) (type : String)
  | used (depth : Nat) (id : NodeId) (type : String)
  | removed (depth : Nat) (id : NodeId)

namespace Line

def text : Line → String
  | label depth name => indented (2 * depth + 1) ("." ++ name)
  | opened depth _ type => indented (2 * depth) type
  | used depth _ type => indented (2 * depth) ("USE " ++ type)
  | removed depth _ => indented (2 * depth) "<removed>"

def depth : Line → Nat
  | label depth _ | opened depth _ _ | used depth _ _ | removed depth _ => depth

/-- The handle that the line is about. -/
def subject? : Line → Option NodeId
  | label _ _ => none
  | opened _ id _ | used _ id _ | removed _ id => some id

def opened? : Line → Option NodeId
  | opened _ id _ => some id
  | label _ _ | used _ _ _ | removed _ _ => none

theorem label_or_subject (l : Line) :
    (∃ depth name, l = .label depth name) ∨ ∃ id, l.subject? = some id := by
  cases l with
  | label depth name => exact .inl ⟨depth, name, rfl⟩
  | opened _ id _ | used _ id _ | removed _ id => exact .inr ⟨id, rfl⟩

theorem subject?_of_opened? {l : Line} {id : NodeId} (h : l.opened? = some id) :
    l.subject? = some id := by
  cases l with
  | opened => exact h
  | label | used | removed => cases h

end Line

def linksOf (s : Scene) (id : NodeId) : List (String × List NodeId) :=
  ((s.node? id).map Node.links).getD []

/-- The references of a node in the order of its fields, inputs aside. -/
def linked (s : Scene) (id : NodeId) : List NodeId := (s.linksOf id).flatMap Prod.snd

/-- What stands below a line: the fields of a node that is described, and else nothing. -/
def below (s : Scene) : Line → List OutlineTask
  | .opened depth id _ => (s.linksOf id).flatMap (linkTasks depth)
  | .label _ _ | .used _ _ _ | .removed _ _ => []

/-- The lines are nested as the nodes are: behind each line stand those below it, and then those of
what is left. -/
inductive Nested (s : Scene) : List OutlineTask → List Line → Prop
  | nil : Nested s [] []
  | label {depth name tasks lines} (rest : Nested s tasks lines) :
      Nested s (.label depth name :: tasks) (.label depth name :: lines)
  | visit {depth id l tasks inner lines} (hd : l.depth = depth) (hl : l.subject? = some id)
      (own : Nested s (s.below l) inner) (rest : Nested s tasks lines) :
      Nested s (.visit depth id :: tasks) (l :: (inner ++ lines))

/-- The line about a handle, behind lines about those in `seen`. -/
def lineOf (s : Scene) (seen : List NodeId) (depth : Nat) (id : NodeId) : Line :=
  match s.node? id with
  | none => .removed depth id
  | some n => if id ∈ seen then .used depth id n.type.name else .opened depth id n.type.name

/-- Each line about a handle is what it has to be behind lines about those in `seen` and behind the
lines before it. -/
def Follows (s : Scene) (seen : List NodeId) : List Line → Prop
  | [] => True
  | l :: lines =>
    (∀ id ∈ l.subject?, l = s.lineOf seen l.depth id) ∧ Follows s (seen ++ l.subject?.toList) lines

/-- The handles that lines are about, in their order. -/
def subjects (lines : List Line) : List NodeId := lines.filterMap Line.subject?

/-- The handles that are to be visited, labels of fields aside. -/
def visits (tasks : List OutlineTask) : List NodeId :=
  tasks.filterMap fun
    | .label _ _ => none
    | .visit _ id => some id

/-- The nodes that are described. -/
def described (lines : List Line) : List NodeId := lines.filterMap Line.opened?

/-- The roots of the space lead to the handle, through fields that are no inputs. -/
inductive Shown (s : Scene) (sp : SpaceId) : NodeId → Prop
  | root {id} (h : id ∈ s.roots sp) : Shown s sp id
  | link {k id} (hk : Shown s sp k) (h : id ∈ s.linked k) : Shown s sp id

variable {s : Scene} {sp : SpaceId} {id k : NodeId} {n : Node} {depth : Nat}
  {fresh seen : List NodeId} {tasks tasks' : List OutlineTask} {lines lines' : List Line} {l : Line}

theorem linksOf_eq (hn : s.node? id = some n) : s.linksOf id = n.links := by
  rw [linksOf, hn]
  rfl

theorem hasNode_of_linked (h : k ∈ s.linked id) : s.hasNode id := by
  rw [linked, linksOf] at h
  cases hn : s.node? id with
  | none =>
    rw [hn] at h
    cases h
  | some n => exact hasNode_iff.mpr ⟨n, hn⟩

section follows

theorem follows_label {name : String} :
    s.Follows seen (.label depth name :: lines) ↔ s.Follows seen lines := by
  rw [Follows, Line.subject?, Option.toList_none, List.append_nil]
  exact and_iff_right nofun

theorem follows_subject (hl : l.subject? = some id) : s.Follows seen (l :: lines) ↔
    l = s.lineOf seen l.depth id ∧ s.Follows (seen ++ [id]) lines := by
  rw [Follows, hl, Option.toList_some]
  simp

theorem follows_append : s.Follows seen (lines ++ lines') ↔
    s.Follows seen lines ∧ s.Follows (seen ++ subjects lines) lines' := by
  induction lines generalizing seen with
  | nil => simp [Follows, subjects]
  | cons l lines ih =>
    obtain ⟨depth, name, rfl⟩ | ⟨id, hl⟩ := l.label_or_subject
    · rw [List.cons_append, follows_label, follows_label, ih]
      rfl
    · rw [List.cons_append, follows_subject hl, follows_subject hl, ih, and_assoc, subjects,
        subjects, List.filterMap_cons_some hl, List.append_assoc, List.singleton_append]

theorem opened?_lineOf (s : Scene) (seen : List NodeId) (depth : Nat) (id : NodeId) :
    (s.lineOf seen depth id).opened? = if s.hasNode id ∧ id ∉ seen then some id else none := by
  rw [lineOf, hasNode]
  cases s.node? id with
  | none => rfl
  | some n => by_cases h : id ∈ seen <;> simp [h, Line.opened?]

/-- A live node that was not seen is described, where a line is about it first. -/
theorem Follows.mem_described (h : s.Follows seen lines) (live : s.hasNode id) (first : id ∉ seen)
    (mem : id ∈ subjects lines) : id ∈ described lines := by
  induction lines generalizing seen with
  | nil => cases mem
  | cons l lines ih =>
    obtain ⟨depth, name, rfl⟩ | ⟨k, hk⟩ := l.label_or_subject
    · exact ih (follows_label.mp h) first mem
    obtain ⟨own, others⟩ := (follows_subject hk).mp h
    rw [described, List.filterMap_cons]
    by_cases same : id = k
    · subst same
      rw [own, opened?_lineOf, if_pos ⟨live, first⟩]
      exact List.mem_cons_self
    · rw [subjects, List.filterMap_cons_some hk] at mem
      have later := ih others (by simp [first, same]) ((List.mem_cons.mp mem).resolve_left same)
      split
      · exact later
      · exact List.mem_cons_of_mem _ later

/-- The nodes that are described are live and were not seen, and no node is described twice. -/
theorem Follows.described_once (h : s.Follows seen lines) :
    (described lines).Nodup ∧ ∀ id ∈ described lines, s.hasNode id ∧ id ∉ seen := by
  induction lines generalizing seen with
  | nil => simp [described]
  | cons l lines ih =>
    obtain ⟨depth, name, rfl⟩ | ⟨k, hk⟩ := l.label_or_subject
    · exact ih (follows_label.mp h)
    obtain ⟨own, others⟩ := (follows_subject hk).mp h
    obtain ⟨once, each⟩ := ih others
    have later : ∀ id ∈ described lines, s.hasNode id ∧ id ∉ seen := by
      intro id hid
      obtain ⟨live, first⟩ := each id hid
      exact ⟨live, fun mem ↦ first (List.mem_append_left _ mem)⟩
    rw [described, List.filterMap_cons, own, opened?_lineOf, ← described]
    by_cases new : s.hasNode k ∧ k ∉ seen
    · rw [if_pos new]
      refine ⟨List.nodup_cons.mpr ⟨fun mem ↦ ?_, once⟩, List.forall_mem_cons.mpr ⟨new, later⟩⟩
      exact (each k mem).2 (List.mem_append_right _ (List.mem_singleton_self k))
    · rw [if_neg new]
      exact ⟨once, later⟩

end follows

section nested

variable {inner outer : List Line}

theorem subjects_visit (hl : l.subject? = some id) :
    subjects (l :: (inner ++ outer)) = id :: (subjects inner ++ subjects outer) := by
  rw [subjects, List.filterMap_cons_some hl, List.filterMap_append, subjects, subjects]

theorem described_visit : described (l :: (inner ++ outer)) =
    l.opened?.toList ++ (described inner ++ described outer) := by
  rw [described, List.filterMap_cons, List.filterMap_append]
  cases l.opened? <;> rfl

theorem Nested.leaf (hd : l.depth = depth) (hl : l.subject? = some id) (none : s.below l = [])
    (rest : s.Nested tasks lines) : s.Nested (.visit depth id :: tasks) (l :: lines) := by
  have own : s.Nested (s.below l) [] := none ▸ .nil
  exact .visit hd hl own rest

theorem Nested.exists_append (h : s.Nested (tasks ++ tasks') lines) :
    ∃ before after, lines = before ++ after ∧ s.Nested tasks before ∧ s.Nested tasks' after := by
  induction tasks generalizing lines with
  | nil => exact ⟨[], lines, rfl, .nil, h⟩
  | cons task tasks ih =>
    cases h with
    | label rest =>
      obtain ⟨before, after, rfl, first, others⟩ := ih rest
      exact ⟨_ :: before, after, rfl, .label first, others⟩
    | @visit _ _ l _ inner _ hd hl own rest =>
      obtain ⟨before, after, rfl, first, others⟩ := ih rest
      refine ⟨l :: (inner ++ before), after, ?_, .visit hd hl own first, others⟩
      rw [List.cons_append, List.append_assoc]

theorem visits_below (s : Scene) (l : Line) :
    visits (s.below l) = l.opened?.toList.flatMap s.linked := by
  cases l with
  | label | used | removed => rfl
  | opened depth id type =>
    have own (link : String × List NodeId) : visits (linkTasks depth link) = link.2 := by
      rw [visits, linkTasks, List.filterMap_cons_none rfl, List.filterMap_map]
      exact List.filterMap_some
    rw [Line.opened?, Option.toList_some, List.flatMap_singleton, linked, below, visits,
      List.filterMap_flatMap]
    exact List.flatMap_congr fun link _ ↦ own link

/-- There is one line for each occurrence of a handle among the tasks and among the references of
the nodes that are described. -/
theorem Nested.subjects_perm (h : s.Nested tasks lines) :
    (subjects lines).Perm (visits tasks ++ (described lines).flatMap s.linked) := by
  induction h with
  | nil => exact .nil
  | label rest ih => exact ih
  | @visit depth id l tasks inner outer hd hl own rest ih ih' =>
    rw [visits_below] at ih
    rw [subjects_visit hl, described_visit, List.flatMap_append, List.flatMap_append]
    have joined := (ih.append ih').trans (List.perm_append_comm_assoc _ (visits tasks) _)
    rw [List.append_assoc] at joined
    exact joined.cons id

/-- If the roots lead to the handles of the tasks, they lead to all that the lines are about. -/
theorem Nested.shown (h : s.Nested tasks lines) (start : ∀ id ∈ visits tasks, s.Shown sp id) :
    ∀ id ∈ subjects lines, s.Shown sp id := by
  induction h with
  | nil => nofun
  | label rest ih => exact ih start
  | @visit depth k l tasks inner lines hd hl own rest ih ih' =>
    obtain ⟨first, later⟩ := List.forall_mem_cons.mp start
    have inside := ih fun id hid ↦ by
      rw [visits_below] at hid
      obtain ⟨k', hk, hid⟩ := List.mem_flatMap.mp hid
      have same := Line.subject?_of_opened? (Option.mem_toList.mp hk)
      cases hl.symm.trans same
      exact .link first hid
    rw [subjects_visit hl]
    exact List.forall_mem_cons.mpr ⟨first, List.forall_mem_append.mpr ⟨inside, ih' later⟩⟩

/-- Nesting, and what the lines have to be behind each other, leave no choice. -/
theorem Nested.unique (h : s.Nested tasks lines) (h' : s.Nested tasks lines')
    (follows : s.Follows seen lines) (follows' : s.Follows seen lines') : lines' = lines := by
  induction h generalizing seen lines' with
  | nil =>
    cases h'
    rfl
  | label rest ih =>
    cases h' with
    | label rest' => rw [ih rest' (follows_label.mp follows) (follows_label.mp follows')]
  | @visit depth id l _ inner outer hd hl own rest ih ih' =>
    cases h' with
    | @visit _ _ l' _ inner' outer' hd' hl' own' rest' =>
      obtain ⟨first, others⟩ := (follows_subject hl).mp follows
      obtain ⟨first', others'⟩ := (follows_subject hl').mp follows'
      have same : l' = l := by rw [first, first', hd, hd']
      subst same
      obtain ⟨inside, after⟩ := follows_append.mp others
      obtain ⟨inside', after'⟩ := follows_append.mp others'
      obtain rfl := ih own' inside inside'
      rw [ih' rest' after after']

end nested

section unseen

/-- The fresh nodes are those live ones that were not seen. -/
structure Unseen (s : Scene) (seen fresh : List NodeId) : Prop where
  mem_iff : ∀ id, id ∈ fresh ↔ s.hasNode id ∧ id ∉ seen
  nodup : fresh.Nodup

theorem unseen_liveNodes (s : Scene) : s.Unseen [] s.liveNodes where
  mem_iff id := by
    rw [mem_liveNodes]
    simp
  nodup := by
    refine List.Nodup.map ?_ (List.nodup_range.filter _)
    intro i j h
    cases h
    rfl

theorem Unseen.erase (h : s.Unseen seen fresh) (id : NodeId) :
    s.Unseen (seen ++ [id]) (fresh.erase id) where
  mem_iff k := by
    rw [h.nodup.mem_erase_iff, h.mem_iff]
    simp only [List.mem_append, List.mem_singleton, not_or]
    constructor
    · rintro ⟨other, live, first⟩
      exact ⟨live, first, other⟩
    · rintro ⟨live, first, other⟩
      exact ⟨other, live, first⟩
  nodup := h.nodup.erase id

theorem Unseen.pass (h : s.Unseen seen fresh) (other : id ∉ fresh) :
    s.Unseen (seen ++ [id]) fresh := by
  have erased := h.erase id
  rwa [List.erase_of_not_mem other] at erased

/-- The tasks are written as lines that are nested and are what they have to be. -/
theorem exists_lines (h : s.Unseen seen fresh) (tasks : List OutlineTask) :
    ∃ lines, s.outlineLines fresh tasks = lines.map Line.text ∧ s.Nested tasks lines ∧
      s.Follows seen lines := by
  induction fresh, tasks using outlineLines.induct s generalizing seen with
  | case1 fresh => exact ⟨[], by simp [outlineLines], .nil, trivial⟩
  | case2 fresh depth name rest ih =>
    obtain ⟨lines, written, nested, follows⟩ := ih h
    refine ⟨.label depth name :: lines, ?_, .label nested, follows_label.mpr follows⟩
    rw [outlineLines, written]
    rfl
  | case3 fresh depth id rest hn ih =>
    have gone : id ∉ fresh := by
      rw [h.mem_iff, hasNode_iff, hn]
      simp
    obtain ⟨lines, written, nested, follows⟩ := ih (h.pass gone)
    have line : s.lineOf seen depth id = .removed depth id := by
      rw [lineOf, hn]
    refine ⟨.removed depth id :: lines, ?_, .leaf rfl rfl rfl nested,
      (follows_subject rfl).mpr ⟨line.symm, follows⟩⟩
    rw [outlineLines, hn, written]
    rfl
  | case4 fresh depth id rest n hn hid ih =>
    obtain ⟨lines, written, nested, follows⟩ := ih (h.erase id)
    have line : s.lineOf seen depth id = .opened depth id n.type.name := by
      rw [lineOf, hn]
      exact if_neg ((h.mem_iff id).mp hid).2
    rw [outlineFields_eq, ← linksOf_eq hn] at nested
    obtain ⟨inner, outer, rfl, own, others⟩ := nested.exists_append
    refine ⟨.opened depth id n.type.name :: (inner ++ outer), ?_, .visit rfl rfl own others,
      (follows_subject rfl).mpr ⟨line.symm, follows⟩⟩
    rw [outlineLines, hn]
    dsimp only
    rw [dif_pos hid, written]
    rfl
  | case5 fresh depth id rest n hn hid ih =>
    obtain ⟨lines, written, nested, follows⟩ := ih (h.pass hid)
    have again : id ∈ seen := by
      rw [h.mem_iff, hasNode_iff] at hid
      exact Decidable.byContradiction fun first ↦ hid ⟨⟨n, hn⟩, first⟩
    have line : s.lineOf seen depth id = .used depth id n.type.name := by
      rw [lineOf, hn]
      exact if_pos again
    refine ⟨.used depth id n.type.name :: lines, ?_, .leaf rfl rfl rfl nested,
      (follows_subject rfl).mpr ⟨line.symm, follows⟩⟩
    rw [outlineLines, hn]
    dsimp only
    rw [dif_neg hid, written]
    rfl

end unseen

/-- The lines of the outline of a space: they are nested as the nodes are from its roots on, and
each is what it has to be after the lines before. So a live node is described just if the roots lead
to it, and then once, and the lines are about all handles that the roots lead to and no others. -/
structure Outlines (s : Scene) (sp : SpaceId) (lines : List Line) : Prop where
  nested : s.Nested ((s.roots sp).map (.visit 0)) lines
  follows : s.Follows [] lines
  once : (described lines).Nodup
  mem_described : ∀ id, id ∈ described lines ↔ s.hasNode id ∧ s.Shown sp id
  mem_subjects : ∀ id, id ∈ subjects lines ↔ s.Shown sp id
  occurrences : (subjects lines).Perm (s.roots sp ++ (described lines).flatMap s.linked)

theorem visits_roots (ids : List NodeId) : visits (ids.map (.visit 0)) = ids := by
  rw [visits, List.filterMap_map]
  exact List.filterMap_some

theorem outlines_of_nested (nested : s.Nested ((s.roots sp).map (.visit 0)) lines)
    (follows : s.Follows [] lines) : s.Outlines sp lines := by
  obtain ⟨once, each⟩ := follows.described_once
  have occurrences := nested.subjects_perm
  have shown : (∀ id ∈ visits ((s.roots sp).map (.visit 0)), s.Shown sp id) →
    ∀ id ∈ subjects lines, s.Shown sp id := nested.shown
  rw [visits_roots] at occurrences shown
  have about : ∀ id, id ∈ subjects lines ↔ s.Shown sp id := by
    intro id
    refine ⟨shown (fun k hk ↦ .root hk) id, fun h ↦ ?_⟩
    induction h with
    | root hr => exact occurrences.mem_iff.mpr (List.mem_append_left _ hr)
    | @link k _ _ hid ih =>
      have mem := follows.mem_described (hasNode_of_linked hid) List.not_mem_nil ih
      exact occurrences.mem_iff.mpr
        (List.mem_append_right _ (List.mem_flatMap.mpr ⟨k, mem, hid⟩))
  refine ⟨nested, follows, once, fun id ↦ ⟨fun mem ↦ ⟨(each id mem).1, ?_⟩, fun ⟨live, h⟩ ↦ ?_⟩,
    about, occurrences⟩
  · obtain ⟨l, hl, ho⟩ := List.mem_filterMap.mp mem
    exact (about id).mp (List.mem_filterMap.mpr ⟨l, hl, Line.subject?_of_opened? ho⟩)
  · exact follows.mem_described live List.not_mem_nil ((about id).mpr h)

/-- The outline of a space is the text of the lines it has to have, and these are determined. -/
theorem outline_exact (s : Scene) (sp : SpaceId) : ∃ lines, s.Outlines sp lines ∧
    (∀ lines', s.Outlines sp lines' → lines' = lines) ∧
    s.outline sp = String.join (lines.map fun l ↦ l.text ++ "\n") := by
  obtain ⟨lines, written, nested, follows⟩ :=
    exists_lines (unseen_liveNodes s) ((s.roots sp).map (.visit 0))
  refine ⟨lines, outlines_of_nested nested follows, fun lines' other ↦ ?_, ?_⟩
  · exact nested.unique other.nested follows other.follows
  · rw [outline, written, List.map_map]
    rfl

section tangled

def tangle : NodeType :=
  ⟨"Group", ⟨[⟨.eventIn, .multi .node, "target", .ofNodes []⟩,
    ⟨.exposed, .multi .node, "children", .ofNodes []⟩]⟩, [], .bytes, .passive⟩

/-- The root holds a group of another space, itself, a group that is gone, and the first one again.
That one holds the root, and the input of the root refers to a group that nothing else holds. -/
def tangled : Scene :=
  List.foldl Operation.run (start ⟨[tangle]⟩ {})
    [.createNode .main "Group", .createNode .main "Group", .createSpace .scene .main,
      .createNode ⟨1⟩ "Group", .createNode .main "Group", .addRoot .main (.issued 0),
      .setValue (.issued 0) 0 (.ofNodes [.issued 1]),
      .setValue (.issued 0) 1 (.ofNodes [.issued 2, .issued 0, .issued 3, .issued 2]),
      .setValue (.issued 2) 1 (.ofNodes [.issued 0]), .removeNode (.issued 3)]

theorem outline_exact_tangled : ∃ lines, tangled.Outlines .main lines ∧
    tangled.outline .main = String.join (lines.map fun l ↦ l.text ++ "\n") ∧
    tangled.outline .main = String.join ["Group\n", " .children\n", "  Group\n", "   .children\n",
      "    USE Group\n", "  USE Group\n", "  <removed>\n", "  USE Group\n"] := by
  obtain ⟨lines, outlines, -, written⟩ := outline_exact tangled .main
  refine ⟨lines, outlines, written, ?_⟩
  cbv

end tangled

end Scene

end SceneGraph
