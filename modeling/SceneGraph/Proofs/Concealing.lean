import SceneGraph.Proofs.Domains
import SceneGraph.Proofs.Operation
import SceneGraph.Proofs.Pacing
import SceneGraph.Scene.Session

/-!
What follows the valid elements of an array is never seen: two runs that differ in nothing else give
the same answers, and leave scenes that nobody who reads them can tell apart.
-/

namespace SceneGraph

/-- What an operation that was not refused answers. -/
inductive Reply where
  | done
  | node (id : NodeId)
  | space (sp : SpaceId)
  | nodes (ids : List NodeId)
  | flag (b : Bool)
  | count (n : Nat)
  | tally (t : Tally)
  | journal (j : Journal)

namespace Operation

/-- What an operation answers in a scene, or why it is refused. -/
def reply (s : Scene) : Operation → Except Error Reply
  | createSpace kind parent => (s.createSpace kind parent).map fun a ↦ .space a.1
  | removeSpace sp => (s.removeSpace sp).map fun _ ↦ .done
  | createNode sp typeName => (s.createNode sp typeName).map fun a ↦ .node a.1
  | finishSetup id => (s.finishSetup id).map fun _ ↦ .done
  | removeNode id => (s.removeNode id).map fun _ ↦ .done
  | collect sp => (s.collect sp).map fun a ↦ .nodes a.1
  | setValue id index v => (s.setValue id index v).map fun _ ↦ .done
  | set id target v => (s.set id target v).map fun _ ↦ .done
  | setInts id index data count => (s.setInts id index data count).map fun _ ↦ .done
  | setFloats id index data count => (s.setFloats id index data count).map fun _ ↦ .done
  | setStrings id index data count => (s.setStrings id index data count).map fun _ ↦ .done
  | checkChanged id index => (s.checkChanged id index).map fun a ↦ .flag a.1
  | addRoot sp id => (s.addRoot sp id).map fun a ↦ .flag a.1
  | removeRoot sp id => (s.removeRoot sp id).map fun a ↦ .flag a.1
  | define sp name id => (s.define sp name id).map fun _ ↦ .done
  | addRoute r => (s.addRoute r).map fun a ↦ .flag a.1
  | addRouteIn sp r => (s.addRouteIn sp r).map fun a ↦ .flag a.1
  | addStatement sp statement => (s.addStatement sp statement).map fun a ↦ .flag a.1
  | removeRoute r => .ok (.flag (s.removeRoute r).1)
  | load sp text => (s.load sp text).1.map .nodes
  | setLoadState id state => (s.setLoadState id state).1.map fun _ ↦ .done
  | requestLoad id => (s.requestLoad id).1.map fun _ ↦ .done
  | cancelLoad id => (s.cancelLoad id).1.map fun _ ↦ .done
  | terminateLoads => .ok (.count s.terminateLoads.1)
  | setProvider provider => (s.setProvider provider).1.map fun _ ↦ .done
  | tick hooks requested => (s.tick hooks requested).map fun a ↦ .tally a.1
  | takeJournal => .ok (.journal s.takeJournal.1)
  | poolTake | poolAdvance _ | useCache _ => .ok .done

/-- What the operations answer, done one after the other. -/
def replies (s : Scene) : List Operation → List (Except Error Reply)
  | [] => []
  | op :: ops => op.reply s :: replies (op.run s) ops

/-- The operations differ at most in what follows the valid elements of the arrays that are set. -/
inductive Alike : Operation → Operation → Prop
  | same (op) (h : ∀ hooks requested, op ≠ tick hooks requested) : Alike op op
  | setValue (id index) {v w} (h : v.Alike w) : Alike (setValue id index v) (setValue id index w)
  | set (id target) {v w} (h : v.Alike w) : Alike (set id target v) (set id target w)
  | setInts (id index) (xs tail tail') :
    Alike (setInts id index (xs ++ tail) xs.length) (setInts id index (xs ++ tail') xs.length)
  | setFloats (id index) (xs tail tail') :
    Alike (setFloats id index (xs ++ tail) xs.length) (setFloats id index (xs ++ tail') xs.length)
  | setStrings (id index) (xs tail tail') :
    Alike (setStrings id index (xs ++ tail) xs.length)
      (setStrings id index (xs ++ tail') xs.length)
  | tick {ps qs} (h : List.Forall₂ HookProgram.Alike ps qs) (requested) :
    Alike (tick ps requested) (tick qs requested)

end Operation

/-- Nothing that is read of the values tells them apart. -/
structure Value.Indistinct (v w : Value) : Prop where
  kind : w.kind = v.kind
  validCount : w.validCount = v.validCount
  /-- The valid elements of an array, or a single value. -/
  trim : w.trim = v.trim
  refs : w.refs = v.refs
  text : w.text = v.text
  eqv : ∀ u : Value, u.eqv w = u.eqv v ∧ w.eqv u = v.eqv u

theorem Value.Alike.indistinct {v w : Value} (h : v.Alike w) : v.Indistinct w where
  kind := (h.congr kind_trim).symm
  validCount := (h.congr validCount_trim).symm
  trim := Eq.symm h
  refs := (h.congr refs_trim).symm
  text := (h.congr text_trim).symm
  eqv u := ⟨(h.congr (eqv_trim u)).symm, (h.congr (f := (eqv · u)) fun v ↦ trim_eqv v u).symm⟩

namespace Scene

/-- Nothing that is read of the scenes tells them apart. -/
structure Indistinct (s t : Scene) : Prop where
  /-- Apart from its nodes, all that a scene has: its journal, its spaces, its clock, its queue, its
  loader. -/
  rest : t = { s with nodes := t.nodes }
  live : t.liveNodes = s.liveNodes
  /-- Apart from its values, all that a node has: its type, its flags, its place, its content. -/
  node : ∀ id, Option.Rel (fun n m : Node ↦ m = { n with values := m.values }) (s.node? id)
    (t.node? id)
  value : ∀ id index, Both Eq Value.Indistinct (s.value id index) (t.value id index)
  refsOf : t.refsOf = s.refsOf
  reachable : t.reachable = s.reachable
  outline : t.outline = s.outline
  summary : ∀ hooks, Session.summary ⟨t, hooks⟩ = Session.summary ⟨s, hooks⟩

variable {s t : Scene}

namespace Alike

section reads

theorem outlineFields {n m : Node} (alike : n.Alike m) (depth : Nat) :
    outlineFields m depth = outlineFields n depth := by
  unfold Scene.outlineFields
  simp only [alike.type, alike.map _ Value.refs_trim]

theorem outlineLines (h : s.Alike t) (fresh : List NodeId) (tasks : List OutlineTask) :
    t.outlineLines fresh tasks = s.outlineLines fresh tasks := by
  induction fresh, tasks using outlineLines.induct s with
  | case1 fresh => simp only [Scene.outlineLines]
  | case2 fresh depth name rest ih => simp only [Scene.outlineLines, ih]
  | case3 fresh depth id rest hn ih =>
    rcases h.node_cases id with ⟨-, hm⟩ | ⟨n, m, hn', -⟩
    · simp only [Scene.outlineLines, hn, hm, ih]
    · cases hn.symm.trans hn'
  | case4 fresh depth id rest n hn hid ih =>
    rcases h.node_cases id with ⟨hn', -⟩ | ⟨n', m, hn', hm, alike⟩
    · cases hn.symm.trans hn'
    cases hn.symm.trans hn'
    simp only [Scene.outlineLines, hn, hm, dif_pos hid, alike.type, outlineFields alike, ih]
  | case5 fresh depth id rest n hn hid ih =>
    rcases h.node_cases id with ⟨hn', -⟩ | ⟨n', m, hn', hm, alike⟩
    · cases hn.symm.trans hn'
    cases hn.symm.trans hn'
    simp only [Scene.outlineLines, hn, hm, dif_neg hid, alike.type, ih]

theorem indistinct (h : s.Alike t) : s.Indistinct t where
  rest := by
    cases h
    rfl
  live := h.liveNodes
  node id := by
    rcases h.node_cases id with ⟨hn, hm⟩ | ⟨n, m, hn, hm, alike⟩ <;> rw [hn, hm]
    · exact .none
    · cases alike
      exact .some rfl
  value id index := (h.value id index).mono fun _ _ same ↦ same.indistinct
  refsOf := h.refsOf
  reachable := by
    funext sp
    unfold Scene.reachable members roots
    rw [h.refsOf, h.space?]
  outline := by
    funext sp
    unfold Scene.outline roots
    rw [h.liveNodes, h.space?, h.outlineLines]
  summary hooks := by
    have size : t.nodes.size = s.nodes.size := by
      cases h with
      | mk h _ => exact congrArg List.length h.keys
    have spaces := h.agree Scene.spaces fun _ ↦ rfl
    unfold Session.summary
    rw [size, spaces, h.pending, h.time]

end reads

section answers

theorem settled (h : s.Alike t) {x y : Except Error Scene} (hx : Both Eq Alike x y) :
    (y.map fun _ ↦ Reply.done) = (x.map fun _ ↦ Reply.done) ∧ (s.after x).Alike (t.after y) := by
  rcases hx.cases with ⟨e, _, rfl, rfl, rfl⟩ | ⟨s', t', rfl, rfl, alike⟩
  · exact ⟨rfl, h⟩
  · exact ⟨rfl, alike⟩

theorem answered {α : Type} (h : s.Alike t) {x y : Except Error (α × Scene)}
    (hx : Both Eq Parallel x y) (f : α → Reply) :
    (y.map fun a ↦ f a.1) = (x.map fun a ↦ f a.1) ∧
      (s.after (x.map Prod.snd)).Alike (t.after (y.map Prod.snd)) := by
  rcases hx.cases with ⟨e, _, rfl, rfl, rfl⟩ | ⟨a, b, rfl, rfl, both⟩
  · exact ⟨rfl, h⟩
  · exact ⟨congrArg (fun r ↦ Except.ok (f r)) both.result.symm, both.scene⟩

theorem attempted {α : Type} {a b : Except Error α × Scene} (h : Parallel a b) (f : α → Reply) :
    b.1.map f = a.1.map f ∧ a.2.Alike b.2 :=
  ⟨congrArg (Except.map f) h.result.symm, h.scene⟩

/-- The arrays have the same valid elements, or they are refused alike. -/
abbrev Counts {α : Type} (x y : Except Error (Counted α)) : Prop :=
  Both Eq (fun a b ↦ a.toList = b.toList) x y

theorem counted {α : Type} (h : s.Alike t) (id : NodeId) (index : Nat) (data : List α)
    (count : Nat) : Counts (s.counted id index data count) (t.counted id index data count) := by
  unfold Scene.counted
  split
  · exact rfl
  rcases h.node_cases id with ⟨hn, hm⟩ | ⟨n, m, hn, hm, alike⟩ <;> rw [hn, hm]
  · exact rfl
  · dsimp only
    rw [alike.type]
    exact rfl

theorem counted_append {α : Type} (s t : Scene) (id : NodeId) (index : Nat)
    (xs tail tail' : List α) :
    Counts (s.counted id index (xs ++ tail) xs.length)
      (t.counted id index (xs ++ tail') xs.length) := by
  have fits (l : List α) : xs.length ≤ (xs ++ l).length := by
    rw [List.length_append]
    exact Nat.le_add_right ..
  have prefixes (s : Scene) (l : List α) :
      s.counted id index (xs ++ l) xs.length = .ok ⟨xs ++ l, xs.length, fits l⟩ := by
    rw [Scene.counted, Counted.withCount?, dif_pos (fits l)]
  rw [prefixes, prefixes]
  exact (List.take_left ..).trans (List.take_left ..).symm

theorem setCounted {α : Type} (h : s.Alike t) (id : NodeId) (index : Nat)
    {make : Counted α → Value} (hm : ∀ {a b}, a.toList = b.toList → (make a).Alike (make b))
    {x y : Except Error (Counted α)} (hx : Counts x y) :
    (y >>= fun a ↦ t.setValue id index (make a)).map (fun _ ↦ Reply.done) =
        (x >>= fun a ↦ s.setValue id index (make a)).map (fun _ ↦ Reply.done) ∧
      (s.after (x >>= fun a ↦ s.setValue id index (make a))).Alike
        (t.after (y >>= fun a ↦ t.setValue id index (make a))) :=
  h.settled (hx.bind fun _ _ he ↦ h.setValue id index (hm he))

theorem checkChanged (h : s.Alike t) (id : NodeId) (index : Nat) :
    Both Eq Parallel (s.checkChanged id index) (t.checkChanged id index) := by
  refine (h.node id).bind fun n m alike ↦ ⟨?_, h.flag id (·.set index false)⟩
  cases alike
  rfl

theorem terminateLoads (h : s.Alike t) : Parallel s.terminateLoads t.terminateLoads := by
  unfold Scene.terminateLoads
  rw [h.loader]
  cases hp : s.loader with
  | none => exact ⟨rfl, h⟩
  | some p => exact ⟨rfl, h.withLoader fun _ ↦ some p.terminate.2⟩

theorem takeJournal (h : s.Alike t) : Parallel s.takeJournal t.takeJournal where
  result := (h.agree Scene.journal fun _ ↦ rfl).symm
  scene := h.aside (·.takeJournal.2) (fun _ ↦ rfl) ⟨rfl, rfl⟩

theorem poolTake (h : s.Alike t) : (Operation.poolTake.run s).Alike (Operation.poolTake.run t) := by
  unfold Operation.run
  dsimp only
  rw [h.loader]
  cases hp : s.loader with
  | none => exact h
  | some p => exact h.withLoader fun _ ↦ some p.take

theorem withCache (h : s.Alike t) (cache : Cache) :
    Alike { s with cache } { t with cache } :=
  h.aside (fun s ↦ { s with cache }) (fun _ ↦ rfl) ⟨rfl, rfl⟩

theorem poolAdvance (h : s.Alike t) (i : Nat) :
    ((Operation.poolAdvance i).run s).Alike ((Operation.poolAdvance i).run t) := by
  unfold Operation.run
  dsimp only
  rw [h.loader, h.held, h.agree Scene.cache fun _ ↦ rfl]
  cases hp : s.loader with
  | none => exact h
  | some p =>
    let after := p.advance i s.held s.cache
    exact (h.withLoader fun _ ↦ some after.1).withCache after.2

end answers

end Alike

theorem Alike.run_self (h : s.Alike t) {op : Operation}
    (ho : ∀ hooks requested, op ≠ .tick hooks requested) :
    op.reply t = op.reply s ∧ (op.run s).Alike (op.run t) := by
  cases op with
  | createSpace kind parent => exact h.answered (h.openSpace kind parent none) .space
  | removeSpace sp => exact h.settled (h.removeSpace sp)
  | createNode sp typeName => exact h.answered (h.createNode sp typeName) .node
  | finishSetup id => exact h.settled (h.finishSetup id)
  | removeNode id => exact h.settled (h.removeNode id)
  | collect sp => exact h.answered (h.collect sp) .nodes
  | setValue id index v => exact h.settled (h.setValue id index (.refl v))
  | set id target v => exact h.settled (h.set id target (.refl v))
  | setInts id index data count =>
    exact h.setCounted id index (congrArg Value.ofInts) (h.counted id index data count)
  | setFloats id index data count =>
    exact h.setCounted id index (congrArg Value.ofFloats) (h.counted id index data count)
  | setStrings id index data count =>
    exact h.setCounted id index (congrArg Value.ofStrings) (h.counted id index data count)
  | checkChanged id index => exact h.answered (h.checkChanged id index) .flag
  | addRoot sp id => exact h.answered (h.addRoot sp id) .flag
  | removeRoot sp id => exact h.answered (h.removeRoot sp id) .flag
  | define sp name id => exact h.settled (h.define sp name id)
  | addRoute r => exact h.answered (h.addRoute r) .flag
  | addRouteIn sp r => exact h.answered (h.addRouteIn sp r) .flag
  | addStatement sp statement => exact h.answered (h.addStatement sp statement) .flag
  | removeRoute r => exact ⟨by rw [Operation.reply, Operation.reply, (h.removeRoute r).result],
      (h.removeRoute r).scene⟩
  | load sp text => exact attempted (h.load sp text) .nodes
  | setLoadState id state => exact attempted (h.setLoadState id state) fun _ ↦ .done
  | requestLoad id => exact attempted (h.requestLoad id) fun _ ↦ .done
  | cancelLoad id => exact attempted (h.setLoadState id .notLoaded) fun _ ↦ .done
  | terminateLoads => exact ⟨by rw [Operation.reply, Operation.reply, h.terminateLoads.result],
      h.terminateLoads.scene⟩
  | setProvider provider => exact attempted (h.setProvider provider) fun _ ↦ .done
  | tick hooks requested => exact absurd rfl (ho hooks requested)
  | takeJournal => exact ⟨by rw [Operation.reply, Operation.reply, h.takeJournal.result],
      h.takeJournal.scene⟩
  | poolTake => exact ⟨rfl, h.poolTake⟩
  | poolAdvance i => exact ⟨rfl, h.poolAdvance i⟩
  | useCache cache => exact ⟨rfl, h.withCache cache⟩

/-- Operations that are alike have one answer, and leave scenes alike. -/
theorem Alike.run (h : s.Alike t) {op op' : Operation} (ho : op.Alike op') :
    op'.reply t = op.reply s ∧ (op.run s).Alike (op'.run t) := by
  cases ho with
  | same _ ho => exact h.run_self ho
  | setValue id index hv => exact h.settled (h.setValue id index hv)
  | set id target hv => exact h.settled (h.set id target hv)
  | setInts id index xs tail tail' =>
    exact h.setCounted id index (congrArg Value.ofInts) (counted_append ..)
  | setFloats id index xs tail tail' =>
    exact h.setCounted id index (congrArg Value.ofFloats) (counted_append ..)
  | setStrings id index xs tail tail' =>
    exact h.setCounted id index (congrArg Value.ofStrings) (counted_append ..)
  | tick hp requested => exact h.answered (h.tick hp requested) .tally

theorem Alike.runs {ops ops' : List Operation} (ho : List.Forall₂ Operation.Alike ops ops')
    (h : s.Alike t) : Operation.replies t ops' = Operation.replies s ops ∧
      (ops.foldl Operation.run s).Alike (ops'.foldl Operation.run t) := by
  induction ho generalizing s t with
  | nil => exact ⟨rfl, h⟩
  | cons ho _ ih =>
    obtain ⟨answer, left⟩ := h.run ho
    obtain ⟨answers, ends⟩ := ih left
    exact ⟨congrArg₂ List.cons answer answers, ends⟩

end Scene

end SceneGraph
