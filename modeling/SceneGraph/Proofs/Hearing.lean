import Mathlib.Data.List.DropRight
import SceneGraph.Proofs.Firing
import SceneGraph.Proofs.Voicing

/-!
The queue and the flags of a scene, as those know them who listened to its story.
-/

namespace SceneGraph

namespace Scene

/-- The changes announced in an operation. -/
def sent (o : Operation × Scene) : List (NodeId × Nat) :=
  Journal.changes ((o.1.run o.2).journal.drop o.2.journal.length)

/-- Whether the operation was a tick that was not refused. -/
def ticks (o : Operation × Scene) : Bool :=
  match o.1 with
  | .tick hooks requested => (o.2.tick hooks requested).isOk
  | _ => false

/-- Whether the operation was a check of the field. -/
def checks (id : NodeId) (index : Nat) (o : Operation × Scene) : Bool :=
  match o.1 with
  | .checkChanged k i => k = id ∧ i = index
  | _ => false

def sinceTick (os : List (Operation × Scene)) : List (Operation × Scene) :=
  os.rtakeWhile fun o ↦ !ticks o

/-- The operations since the node is there and since its field was last checked. -/
def sinceCheck (id : NodeId) (index : Nat) (os : List (Operation × Scene)) :
    List (Operation × Scene) :=
  os.rtakeWhile fun o ↦ (o.1.run o.2).hasNode id && !checks id index o

variable {l : Licence} {s s' : Scene} {js : List (NodeId × Nat)} {os : List (Operation × Scene)}
  {op : Operation} {id k : NodeId} {n n' : Node} {index : Nat}

/-- What an operation announces, and how the queue, the flags and the fields go with that. -/
structure Noted (o : Operation × Scene) : Prop where
  issued : o.2.nodes.issued ≤ (o.1.run o.2).nodes.issued
  known : ∀ {p}, p ∈ sent o → ¬(o.1.run o.2).Fresh p.1
  fresh : ∀ {k}, (o.1.run o.2).hasNode k → o.2.hasNode k = false → o.2.Fresh k
  flags : ∀ {k n'}, (o.1.run o.2).node? k = some n' → ∀ i,
    n'.hasChanged i ↔ checks k i o = false ∧ (o.2.flagged k i ∨ (k, i) ∈ sent o)
  silent : ∀ {k n'}, (o.1.run o.2).node? k = some n' → n'.inSetup = true → ∀ i, (k, i) ∉ sent o
  setup : ∀ {k n n'}, o.2.node? k = some n → (o.1.run o.2).node? k = some n' →
    n'.inSetup = true → n.inSetup = true
  ripe : ∀ earlier p later, sent o = earlier ++ p :: later →
    Ripe (o.1.licence o.2) o.2 (o.1.run o.2) earlier p
  values : ∀ {k n n'}, o.2.node? k = some n → (o.1.run o.2).node? k = some n' →
    n'.inSetup = false → ∀ i, n'.values[i]? ≠ n.values[i]? → (k, i) ∈ sent o
  queue : (∀ p ∈ o.2.pending, o.2.hasNode p.1) → (o.1.run o.2).pending =
    if ticks o then [] else (o.2.pending ++ sent o).filter fun p ↦ (o.1.run o.2).hasNode p.1

theorem Voiced.sent_eq (h : Voiced l js s (op.run s)) : sent (op, s) = js := by
  obtain ⟨es, he, rfl⟩ := h.journal
  rw [sent, he, List.drop_left]

namespace Noted

/-- Nothing is announced where at most a flag is cleared. -/
theorem unsaid (issued : (op.run s).nodes.issued = s.nodes.issued) (quiet : sent (op, s) = [])
    (untimed : ticks (op, s) = false) (pending : (op.run s).pending = s.pending)
    (kept : ∀ k, s.hasNode k → (op.run s).hasNode k)
    (nodes : ∀ {k n'}, (op.run s).node? k = some n' → ∃ n, s.node? k = some n ∧
      n'.inSetup = n.inSetup ∧ n'.values = n.values ∧
      ∀ i, n'.hasChanged i ↔ checks k i (op, s) = false ∧ n.hasChanged i) : Noted (op, s) where
  issued := Nat.le_of_eq issued.symm
  known hp := by
    rw [quiet] at hp
    cases hp
  fresh hk hs := by
    obtain ⟨n', hn'⟩ := hasNode_iff.mp hk
    obtain ⟨n, hn, -⟩ := nodes hn'
    cases hn.symm.trans (hasNode_eq_false.mp hs)
  flags hn' i := by
    obtain ⟨n, hn, -, -, flags⟩ := nodes hn'
    rw [flags, quiet, flagged_of_node? hn]
    simp
  silent _ _ _ := by
    rw [quiet]
    exact List.not_mem_nil
  setup hn hn' hi := by
    obtain ⟨m, hm, he, -⟩ := nodes hn'
    cases hn.symm.trans hm
    exact he ▸ hi
  ripe earlier p later he := by simp [quiet] at he
  values hn hn' _ i hv := by
    obtain ⟨m, hm, -, he, -⟩ := nodes hn'
    cases hn.symm.trans hm
    exact absurd (by rw [he]) hv
  queue live := by
    rw [quiet, untimed, List.append_nil, pending]
    exact (Voiced.filter_of_kept kept live).symm

/-- A check clears the flag that it reads. -/
theorem checkChanged (s : Scene) (id : NodeId) (index : Nat) :
    Noted (.checkChanged id index, s) := by
  have run := Operation.run_checkChanged s id index
  refine .unsaid (by rw [run, issued_modifyNode]) ?_ rfl (by rw [run, pending_modifyNode])
    (fun k hk ↦ ?_) fun {k n'} hn' ↦ ?_
  · rw [sent, run, journal_modifyNode, List.drop_length]
    rfl
  · rw [run, hasNode, node?_modifyNode]
    split
    · rwa [Option.isSome_map]
    · exact hk
  rw [run, node?_modifyNode] at hn'
  split at hn'
  · next he =>
    obtain ⟨n, hn, rfl⟩ := Option.map_eq_some_iff.mp hn'
    refine ⟨n, hn, rfl, rfl, fun i ↦ ?_⟩
    by_cases hi : index = i
    · subst hi
      have cleared : (n.changed.set index false)[index]?.getD false = false := by
        rw [List.getElem?_set_self']
        cases n.changed[index]? <;> rfl
      simp [checks, he, Node.hasChanged, cleared]
    · simp [checks, he, hi, Node.hasChanged, List.getElem?_set_ne hi]
  · next he => exact ⟨n', hn', rfl, rfl, fun i ↦ by simp [checks, Ne.symm he]⟩

end Noted

theorem Coherent.live_of_queued (h : s.Coherent [] none) : ∀ p ∈ s.pending, s.hasNode p.1 := by
  intro p hp
  obtain ⟨n, hn, -⟩ := h.tracked.queued hp
  exact hasNode_iff.mpr ⟨n, hn⟩

/-- The end of a setup writes fields after it, so those who listen hear of that. -/
theorem Coherent.heard_finishSetup (h : s.Coherent [] none) (hn : s.node? k = some n)
    (hn' : ((Operation.finishSetup id).run s).node? k = some n') (out : n'.inSetup = false)
    (hv : n'.values[index]? ≠ n.values[index]?) : (k, index) ∈ sent (.finishSetup id, s) := by
  have unchanged : n' ≠ n := fun he ↦ hv (by rw [he])
  cases hf : s.finishSetup id with
  | error =>
    rw [Operation.run, hf] at hn'
    exact absurd (Option.some.inj (hn'.symm.trans hn)) unchanged
  | ok t =>
    have run : (Operation.finishSetup id).run s = t := by
      rw [Operation.run, hf]
      rfl
    rw [run] at hn'
    rcases Touches.finishSetup (l := ⟨fun _ ↦ False, False, False, False, fun _ ↦ False⟩) h hf with
      rfl | ⟨-, -, -, opened⟩
    · exact absurd (Option.some.inj (hn'.symm.trans hn)) unchanged
    obtain ⟨js, voiced, -⟩ := opened.strokes.voiced
    obtain ⟨es, he, hes⟩ := voiced.journal
    rw [journal_modifyNode] at he
    have announced : sent (.finishSetup id, s) = js := by
      rw [sent, run, he, List.drop_left, hes]
    obtain ⟨m, hm, same⟩ : ∃ m, (s.modifyNode id fun n ↦ { n with inSetup := false }).node? k =
        some m ∧ m.values = n.values := by
      rw [node?_modifyNode, hn]
      split
      · exact ⟨_, rfl, rfl⟩
      · exact ⟨n, rfl, rfl⟩
    rw [announced]
    exact voiced.values hm hn' not_false out index (same ▸ hv)

theorem Coherent.noted (h : s.Coherent [] none) (op : Operation) : Noted (op, s) := by
  by_cases hc : ∃ id index, op = .checkChanged id index
  · obtain ⟨id, index, rfl⟩ := hc
    exact .checkChanged s id index
  rcases (h.run_cases op).resolve_left hc with rfl | strokes
  · exact .unsaid rfl (by simp [sent, Operation.run, takeJournal]) rfl rfl (fun _ hk ↦ hk)
      fun {k n'} hn' ↦ ⟨n', hn', rfl, rfl, fun i ↦ by simp [checks]⟩
  obtain ⟨js, voiced, ripe⟩ := strokes.voiced
  have announced : sent (op, s) = js := voiced.sent_eq
  have unchecked (k i) : checks k i (op, s) = false := by
    unfold checks
    split
    · next he => exact absurd ⟨_, _, he⟩ hc
    · rfl
  refine {
    issued := voiced.issued
    known := fun hp ↦ voiced.known (announced ▸ hp)
    fresh := voiced.fresh
    flags := fun hn' i ↦ by simp [voiced.flags hn' i, unchecked, announced]
    silent := fun hn' hi i ↦ announced ▸ voiced.silent hn' hi i
    setup := fun hn hn' ↦ (voiced.setup hn hn').1
    ripe := announced ▸ ripe
    values := fun {k n n'} hn hn' out i hv ↦ ?_
    queue := fun live ↦ ?_ }
  · by_cases hf : ∃ id, op = .finishSetup id
    · obtain ⟨id, rfl⟩ := hf
      exact h.heard_finishSetup hn hn' out hv
    · refine announced ▸ voiced.values hn hn' (fun ho ↦ ?_) out i hv
      rcases ho with fresh | he
      · cases hn.symm.trans fresh.node?
      · exact hf ⟨k, he⟩
  · by_cases hd : (op.licence s).dequeues
    · obtain ⟨hooks, requested, rfl⟩ := hd
      cases ht : s.tick hooks requested with
      | error =>
        have run : (Operation.tick hooks requested).run s = s := by
          rw [Operation.run, ht]
          rfl
        have refused : ticks (.tick hooks requested, s) = false := by
          simp only [ticks, ht]
          rfl
        rw [refused, sent, run, List.drop_length]
        simpa using (List.filter_eq_self.mpr live).symm
      | ok a =>
        have run : (Operation.tick hooks requested).run s = a.2 := by
          rw [Operation.run, ht]
          rfl
        have done : ticks (.tick hooks requested, s) = true := by
          simp only [ticks, ht]
          rfl
        rw [run, done]
        exact pending_tick ht
    · have untimed : ticks (op, s) = false := by
        unfold ticks
        split
        · next he => exact absurd ⟨_, _, he⟩ hd
        · rfl
      simpa [untimed, announced] using voiced.queue hd live

namespace Story

variable {o : Operation × Scene}

theorem of_concat (h : Story (os ++ [o]) s) : Story os o.2 ∧ o.1.run o.2 = s := by
  generalize he : os ++ [o] = ps at h
  cases h with
  | new => simp at he
  | next h op =>
    obtain ⟨rfl, ho⟩ := List.append_inj' he rfl
    cases ho
    exact ⟨h, rfl⟩

/-- Changes are announced of nodes that the scene has made. -/
theorem known (h : Story os s) : ∀ o ∈ os, ∀ p ∈ sent o, ¬s.Fresh p.1 := by
  induction h with
  | new => exact fun o ho ↦ by cases ho
  | next h op ih =>
    have noted := h.coherent.noted op
    intro o ho p hp
    rcases List.mem_append.mp ho with ho | ho
    · exact fun fresh ↦ ih o ho p hp (fresh.of_issued noted.issued)
    · cases List.mem_singleton.mp ho
      exact noted.known hp

/-- Nothing was ever heard of a node in setup. -/
theorem silent (h : Story os s) : ∀ {id n}, s.node? id = some n → n.inSetup = true →
    ∀ o ∈ os, ∀ i, (id, i) ∉ sent o := by
  induction h with
  | new => exact fun _ _ o ho ↦ by cases ho
  | @next os s h op ih =>
    have noted := h.coherent.noted op
    intro id n' hn' hi o ho i
    rcases List.mem_append.mp ho with ho | ho
    · cases hn : s.node? id with
      | none =>
        have fresh := noted.fresh (hasNode_iff.mpr ⟨n', hn'⟩) (hasNode_eq_false.mpr hn)
        exact fun hp ↦ h.known o ho _ hp fresh
      | some n => exact ih hn (noted.setup hn hn' hi) o ho i
    · cases List.mem_singleton.mp ho
      exact noted.silent hn' hi i

theorem queued (h : Story os s) :
    s.pending = ((sinceTick os).flatMap sent).filter fun p ↦ s.hasNode p.1 := by
  induction h with
  | new built h =>
    obtain ⟨-, -, h⟩ := bind_eq_ok.mp h
    cases h
    rfl
  | @next os s h op ih =>
    have noted := h.coherent.noted op
    rw [noted.queue h.coherent.live_of_queued, sinceTick]
    cases ticked : ticks (op, s) with
    | true =>
      rw [List.rtakeWhile_concat_neg _ _ _ (by simp [ticked])]
      rfl
    | false =>
      -- a node that is there in the end, and was heard of before, was there in between
      have kept : (((sinceTick os).flatMap sent).filter fun p ↦ s.hasNode p.1).filter
          (fun p ↦ (op.run s).hasNode p.1) =
            ((sinceTick os).flatMap sent).filter fun p ↦ (op.run s).hasNode p.1 := by
        rw [List.filter_filter]
        refine List.filter_congr fun p hp ↦ ?_
        cases hr : (op.run s).hasNode p.1 with
        | false => rfl
        | true =>
          cases hs : s.hasNode p.1 with
          | true => rfl
          | false =>
            obtain ⟨o, ho, hp⟩ := List.mem_flatMap.mp hp
            exact absurd (noted.fresh hr hs) (h.known o (List.rtakeWhile_suffix _ _ |>.mem ho) p hp)
      rw [List.rtakeWhile_concat_pos _ _ _ (by simp [ticked]), List.flatMap_append,
        List.flatMap_singleton, if_neg Bool.false_ne_true, List.filter_append, List.filter_append]
      exact congrArg (· ++ _) ((congrArg (List.filter _) ih).trans kept)

/-- The operation before a node was made left a scene without it. -/
theorem sinceCheck_of_absent (h : Story os s) (hn : s.node? id = none) (i : Nat) :
    sinceCheck id i os = [] := by
  refine List.rtakeWhile_eq_nil_iff.mpr fun hl ↦ ?_
  rw [← List.dropLast_append_getLast hl] at h
  simp [h.of_concat.2, hasNode_eq_false.mpr hn]

theorem flagged_iff (h : Story os s) : ∀ {id n}, s.node? id = some n → ∀ i,
    n.hasChanged i ↔ (id, i) ∈ (sinceCheck id i os).flatMap sent := by
  induction h with
  | new built h =>
    obtain ⟨-, -, h⟩ := bind_eq_ok.mp h
    cases h
    intro id n hn
    cases id <;> cases hn
  | @next os s h op ih =>
    intro id n' hn' i
    rw [(h.coherent.noted op).flags hn', sinceCheck]
    have there : (op.run s).hasNode id := hasNode_iff.mpr ⟨n', hn'⟩
    cases checked : checks id i (op, s) with
    | true => simp [checked]
    | false =>
      have flags : s.flagged id i ↔ (id, i) ∈ (sinceCheck id i os).flatMap sent := by
        cases hn : s.node? id with
        | some n => rw [flagged_of_node? hn, ih hn]
        | none => simp [flagged_of_none hn, h.sinceCheck_of_absent hn]
      rw [List.rtakeWhile_concat_pos _ _ _ (by simp [there, checked]), List.flatMap_append,
        List.flatMap_singleton, List.mem_append, ← sinceCheck, ← flags]
      simp

/-- The queue holds what was announced since the last tick, of those who are still there. A field
counts as changed if it was announced since it was checked. Nothing is announced of a node in setup,
and of nodes out of setup nothing is written unannounced. -/
theorem recounted (h : Story os s) :
    (s.pending = ((sinceTick os).flatMap sent).filter fun p ↦ s.hasNode p.1) ∧
      (∀ id i b, s.hasChanged id i = .ok b →
        (b = true ↔ (id, i) ∈ (sinceCheck id i os).flatMap sent)) ∧
      (∀ id n, s.node? id = some n → n.inSetup = true → ∀ o ∈ os, ∀ i, (id, i) ∉ sent o) ∧
      (∀ o ∈ os, ∀ earlier p later, sent o = earlier ++ p :: later →
        Ripe (o.1.licence o.2) o.2 (o.1.run o.2) earlier p) ∧
      ∀ o ∈ os, ∀ id n n', o.2.node? id = some n → (o.1.run o.2).node? id = some n' →
        n'.inSetup = false → ∀ i, n'.values[i]? ≠ n.values[i]? → (id, i) ∈ sent o := by
  have noted : ∀ o ∈ os, Noted o := by
    induction h with
    | new => exact fun o ho ↦ by cases ho
    | next h op ih =>
      intro o ho
      rcases List.mem_append.mp ho with ho | ho
      · exact ih o ho
      · cases List.mem_singleton.mp ho
        exact h.coherent.noted op
  refine ⟨h.queued, fun id i b hb ↦ ?_, fun _ _ ↦ h.silent, fun o ho ↦ (noted o ho).ripe,
    fun o ho _ _ _ ↦ (noted o ho).values⟩
  obtain ⟨n, hn, he⟩ := bind_eq_ok.mp hb
  cases he
  exact h.flagged_iff (node_eq_ok.mp hn) i

end Story

/-- Two cells are switched before and after a tick, and one of them is removed. -/
def blinking : List Operation :=
  [.createNode .main "Cell", .createNode .main "Cell", .finishSetup (.issued 0),
    .finishSetup (.issued 1), .setValue (.issued 0) 0 (.bool true), .tick [] 0,
    .setValue (.issued 0) 0 (.bool false), .setValue (.issued 1) 0 (.bool true),
    .removeNode (.issued 1), .checkChanged (.issued 0) 0, .setValue (.issued 0) 0 (.bool true)]

theorem recounted_blinking : ∃ os s, Story os s ∧
    (sinceTick os).flatMap sent = [(.issued 0, 0), (.issued 1, 0), (.issued 0, 0)] ∧
    s.pending = [(.issued 0, 0), (.issued 0, 0)] ∧ s.hasChanged (.issued 0) 0 = .ok true ∧
    (.issued 0, 0) ∈ (sinceCheck (.issued 0) 0 os).flatMap sent := by
  have built : ∀ t ∈ [cell], t.Built := by simpa using built_cell
  have made : Scene.new ⟨[cell]⟩ {} = .ok (start ⟨[cell]⟩ {}) := rfl
  have story := (Story.new built made).trail blinking
  have since : (sinceTick ([] ++ (start ⟨[cell]⟩ {}).trail blinking)).flatMap sent =
      [(.issued 0, 0), (.issued 1, 0), (.issued 0, 0)] := by cbv
  have flag : (blinking.foldl Operation.run (start ⟨[cell]⟩ {})).hasChanged (.issued 0) 0 =
      .ok true := by cbv
  obtain ⟨queue, flags, -⟩ := Story.recounted story
  refine ⟨_, _, story, since, ?_, flag, (flags _ _ _ flag).mp rfl⟩
  rw [queue, since]
  cbv

end Scene

end SceneGraph
