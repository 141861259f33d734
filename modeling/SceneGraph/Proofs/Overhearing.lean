import SceneGraph.Proofs.Hearing
import SceneGraph.Proofs.Plain
import SceneGraph.Proofs.Validating

/-!
The values that are announced of a field.

An announcement names a field, and whoever hears it finds there the value that the field has then.
The values that are found at all the announcements of a field are listed along the passes of a
story.
-/

namespace SceneGraph

namespace Scene

/-- Something that is done to a scene at once, and what it announces. -/
inductive Beat : List Port → Scene → Scene → Prop
  | touch {l s s' js} (h : Touch l s s') (hj : s'.journal = s.journal ++ js) :
      Beat (Journal.changes js) s s'
  | check (s id index) :
      Beat [] s (s.modifyNode id fun n ↦ { n with changed := n.changed.set index false })
  | clock (s time) : Beat [] s { s with time }
  | log {s js} (h : Journal.changes js = []) : Beat [] s (s.log js)
  | forget (s) : Beat [] s { s with journal := [] }

/-- Between the two scenes, these are the values that the field at `k` had at the announcements of
its changes. -/
inductive Airs (k : Port) (s : Scene) : List (Option Value) → Scene → Prop
  | refl : Airs k s [] s
  | beat {vs js t u} (h : Airs k s vs t) (hb : Beat js t u) :
      Airs k s (vs ++ List.replicate (js.count k) (u.held? k)) u

/-- The field is not heard of, and keeps its value. -/
structure Unheard (k : Port) (js : List Port) (s s' : Scene) : Prop where
  unsaid : k ∉ js
  type : ∀ {n n'}, s.node? k.1 = some n → s'.node? k.1 = some n' → n'.type = n.type
  value : ∀ {n n'}, s.node? k.1 = some n → s'.node? k.1 = some n' →
    n'.values[k.2]? = n.values[k.2]?

/-- What is heard of a field: nothing, what a script of its node writes, or that it is written
though no script is run. -/
inductive Overheard (k : Port) (js : List Port) (s : Scene) : Scene → Prop
  | silence {s'} (h : Unheard k js s s') : Overheard k js s s'
  | script {n script} (hn : s.node? k.1 = some n) (h : Cued n script)
      (hj : js = if n.inSetup then []
        else ((script n.type.behavior).perform (s.viewOf k.1 n)).outputs.map (k.1, ·)) :
      Overheard k js s (s.perform k.1 script)
  | input {s' n d} (hn : s.node? k.1 = some n) (hd : n.type.table.get? k.2 = some d)
      (h : d.access ≠ .eventOut) : Overheard k js s s'

variable {l : Licence} {s s' t u : Scene} {id : NodeId} {n m : Node} {k : Port} {js : List Port}
  {vs ws : List (Option Value)} {os : List (Operation × Scene)}

section overhearing

namespace Unheard

theorem of_same (unsaid : k ∉ js)
    (same : ∀ {n n'}, s.node? k.1 = some n → s'.node? k.1 = some n' → n' = n) :
    Unheard k js s s' :=
  ⟨unsaid, fun hn hn' ↦ by rw [same hn hn'], fun hn hn' ↦ by rw [same hn hn']⟩

theorem of_nodes (unsaid : k ∉ js) (nodes : s'.nodes = s.nodes) : Unheard k js s s' :=
  of_same unsaid fun hn hn' ↦
    Option.some.inj (hn'.symm.trans ((node?_congr nodes k.1).trans hn))

theorem of_remade (unsaid : k ∉ js) (h : Remade id m s s') (hn : s.node? id = some n)
    (type : m.type = n.type) (value : id = k.1 → m.values[k.2]? = n.values[k.2]?) :
    Unheard k js s s' := by
  have cases {n₀ n'} (hn₀ : s.node? k.1 = some n₀) (hn' : s'.node? k.1 = some n') :
      (k.1 = id ∧ n₀ = n ∧ n' = m) ∨ n' = n₀ := by
    rw [h] at hn'
    split at hn'
    · next he =>
      rw [he] at hn₀
      exact .inl ⟨he, Option.some.inj (hn₀.symm.trans hn), (Option.some.inj hn').symm⟩
    · exact .inr (Option.some.inj (hn'.symm.trans hn₀))
  refine ⟨unsaid, fun hn₀ hn' ↦ ?_, fun hn₀ hn' ↦ ?_⟩
  · rcases cases hn₀ hn' with ⟨-, rfl, rfl⟩ | rfl
    · exact type
    · rfl
  · rcases cases hn₀ hn' with ⟨he, rfl, rfl⟩ | rfl
    · exact value he.symm
    · rfl

end Unheard

theorem journal_markChanged (s : Scene) (id : NodeId) (index : Nat) :
    (s.markChanged id index).journal = s.journal ++ [.event (.fieldChanged id index)] :=
  journal_markAll s id [index]

/-- A field is overheard in a touch as the touch says. -/
theorem Touch.exists_overheard (h : Touch l s s') (k : Port) :
    ∃ js, s'.journal = s.journal ++ js ∧ Overheard k (Journal.changes js) s s' := by
  have quiet (hj : s'.journal = s.journal) (h : Unheard k [] s s') :
      ∃ js, s'.journal = s.journal ++ js ∧ Overheard k (Journal.changes js) s s' :=
    ⟨[], by rw [hj, List.append_nil], .silence h⟩
  have slot {s id n} (hn : s.node? id = some n) (f : LoadSlot → LoadSlot) (r : Option Request) :
      Unheard k [] s ((s.modifySlot id f).cancel r) :=
    .of_remade (n := n) List.not_mem_nil (.slot hn f r) hn rfl fun _ ↦ rfl
  cases h with
  | log h =>
    have unsaid := List.filterMap_eq_nil_iff.mpr fun e he ↦ change?_of_incidental (h e he)
    exact ⟨_, rfl, .silence (.of_nodes (by rw [Journal.changes, unsaid]; exact List.not_mem_nil)
      rfl)⟩
  | reroute | terminate | renew | drain | take | advance | useCache | dequeue =>
    exact quiet rfl (.of_nodes List.not_mem_nil rfl)
  | idle _ hn => exact quiet (journal_modifyNode ..) (slot hn (·.enter .loading) none)
  | leave hn | vain hn | fill _ _ hn =>
    exact quiet ((journal_cancel ..).trans (journal_modifyNode ..)) (slot hn _ _)
  | ask hn =>
    exact quiet (journal_modifyNode ..)
      (.of_remade List.not_mem_nil ((Remade.slot hn _ none).congr rfl) hn rfl fun _ ↦ rfl)
  | @write id n index v hn _ _ ha =>
    obtain ⟨d, hd, access, -⟩ := Node.admits_eq_ok.mp ha
    have journal := (journal_markChanged (s.modifyNode id fun n ↦ n.store index v) id index).trans
      (congrArg (· ++ _) (journal_modifyNode ..))
    refine ⟨_, journal, ?_⟩
    by_cases hk : k = (id, index)
    · subst hk
      exact .input hn hd access
    have written := Remade.modifyNode hn fun n ↦ n.store index v
    refine .silence (.of_remade (by simpa [Journal.changes, Entry.change?] using hk)
      (written.trans (.markAll written.self [index])) hn rfl fun he ↦ ?_)
    exact List.getElem?_set_ne fun hi ↦ hk (Prod.ext he.symm hi.symm)
  | @draft id n index v hn _ ha =>
    obtain ⟨d, hd, access, -⟩ := Node.admits_eq_ok.mp ha
    by_cases hk : k = (id, index)
    · subst hk
      exact ⟨[], by rw [journal_modifyNode, List.append_nil], .input hn hd access⟩
    refine quiet (journal_modifyNode ..) (.of_remade List.not_mem_nil
      (.modifyNode hn fun n ↦ n.store index v) hn rfl fun he ↦ ?_)
    exact List.getElem?_set_ne fun hi ↦ hk (Prod.ext he.symm hi.symm)
  | @perform id n script hn _ cued =>
    obtain ⟨js, hj, changes⟩ := journal_perform hn script
    refine ⟨js, hj, ?_⟩
    by_cases he : id = k.1
    · subst he
      exact .script hn cued changes
    obtain ⟨flags, -, remade⟩ := Remade.perform hn script
    refine .silence (.of_remade (fun hk ↦ ?_) remade hn rfl fun hk ↦ absurd hk he)
    rw [changes] at hk
    split at hk
    · cases hk
    · obtain ⟨i, -, rfl⟩ := List.mem_map.mp hk
      exact he rfl
  | @editChildren id n input children edit hn sound hc =>
    have hd := sound.built.get?_standard (c := .children) (d := .children) List.mem_cons_self hc
    obtain ⟨js, hj, changes⟩ : ∃ js, (s.editChildren id input children edit).journal =
        s.journal ++ js ∧ ∀ p ∈ Journal.changes js, p = (id, children) := by
      unfold Scene.editChildren
      simp only [hn]
      split
      · exact ⟨[], (List.append_nil _).symm, List.forall_mem_nil _⟩
      split
      · exact ⟨[], by rw [journal_modifyNode, List.append_nil], List.forall_mem_nil _⟩
      · refine ⟨_, (journal_markChanged ..).trans (congrArg (· ++ _) (journal_modifyNode ..)), ?_⟩
        simp [Journal.changes, Entry.change?]
    refine ⟨js, hj, ?_⟩
    by_cases hk : k = (id, children)
    · subst hk
      exact .input hn hd (by decide)
    have unsaid : k ∉ Journal.changes js := fun hp ↦ hk (changes k hp)
    rcases Remade.editChildren hn input children edit with he | ⟨flags, -, remade⟩
    · exact .silence (.of_nodes unsaid (congrArg nodes he))
    · refine .silence (.of_remade unsaid remade hn rfl fun he ↦ ?_)
      exact List.getElem?_set_ne fun hi ↦ hk (Prod.ext he.symm hi.symm)
  | endSetup _ hn =>
    exact quiet (journal_modifyNode ..)
      (.of_remade List.not_mem_nil (.modifyNode hn _) hn rfl fun _ ↦ rfl)
  | addNode =>
    refine quiet rfl (.of_same List.not_mem_nil fun hn hn' ↦ ?_)
    rcases of_node?_addNode hn' with ⟨he, -⟩ | hn'
    · rw [he, node?_nextNode] at hn
      cases hn
    · exact Option.some.inj (hn'.symm.trans hn)
  | dropNode =>
    refine quiet (journal_dropNode ..) (.of_same List.not_mem_nil fun hn hn' ↦ ?_)
    rw [node?_dropNode] at hn'
    split at hn'
    · cases hn'
    · exact Option.some.inj (hn'.symm.trans hn)

namespace Beat

theorem overheard (h : Beat js s s') (k : Port) : Overheard k js s s' := by
  cases h with
  | touch h hj =>
    obtain ⟨js', hj', overheard⟩ := h.exists_overheard k
    cases List.append_cancel_left (hj.symm.trans hj')
    exact overheard
  | clock | log | forget => exact .silence (.of_nodes List.not_mem_nil rfl)
  | check _ id index =>
    cases hn : s.node? id with
    | none =>
      rw [modifyNode_of_none s id _ hn]
      exact .silence (.of_nodes List.not_mem_nil rfl)
    | some n =>
      exact .silence (.of_remade List.not_mem_nil (.modifyNode hn _) hn rfl fun _ ↦ rfl)

theorem pass (h : Beat js s s') : Pass s s' := by
  cases h with
  | touch h => exact .touch h
  | check => exact .check ..
  | clock => exact .clock ..
  | log | forget => exact .journal s _

theorem issued (h : Beat js s s') : s.nodes.issued ≤ s'.nodes.issued := h.pass.issued_le

/-- A node that comes was never there before. -/
theorem fresh (h : Beat js s s') (hs : s.node? id = none) (hm : s'.node? id = some m) :
    s.Fresh id := by
  rcases h.pass.altered hm with ⟨n, hn, -⟩ | ⟨fresh, -⟩
  · cases hs.symm.trans hn
  · exact fresh

/-- Nothing is heard of a node that is not there. -/
theorem unsaid (h : Beat js s s') (hs : s.node? k.1 = none) : k ∉ js := by
  cases h.overheard k with
  | silence unheard => exact unheard.unsaid
  | script hn | input hn => cases hs.symm.trans hn

end Beat

end overhearing

section airing

namespace Airs

theorem passes (h : Airs k s vs s') : Passes s s' := by
  induction h with
  | refl => exact .refl
  | beat _ hb ih => exact ih.tail hb.pass

protected theorem trans (h : Airs k s vs t) (h' : Airs k t ws s') : Airs k s (vs ++ ws) s' := by
  induction h' with
  | refl => rwa [List.append_nil]
  | beat _ hb ih =>
    rw [← List.append_assoc]
    exact .beat ih hb

/-- A beat that announces nothing. -/
theorem still (hb : Beat [] s s') : Airs k s [] s' := .beat .refl hb

theorem of_nil (h : Airs k s vs t) (hb : Beat [] t u) : Airs k s vs u :=
  List.append_nil vs ▸ h.trans (.still hb)

/-- What holds in the beginning and after every beat holds of what was aired and of the scene. -/
theorem induction {P : List (Option Value) → Scene → Prop} {w : List (Option Value)}
    (h : Airs k s vs s') (hs : s.Met) (base : P w s)
    (beat : ∀ {vs js t u}, t.Met → Beat js t u → P vs t →
      P (vs ++ List.replicate (js.count k) (u.held? k)) u) : P (w ++ vs) s' := by
  induction h with
  | refl => rwa [List.append_nil]
  | beat before hb ih =>
    rw [← List.append_assoc]
    exact beat (hs.passes before.passes) hb ih

end Airs

theorem Touches.exists_airs (h : Touches l s s') (k : Port) : ∃ vs js,
    Airs k s vs s' ∧ s'.journal = s.journal ++ js ∧ vs.length = (Journal.changes js).count k := by
  induction h with
  | refl => exact ⟨[], [], .refl, (List.append_nil _).symm, rfl⟩
  | @tail t u _ ht ih =>
    obtain ⟨vs, js, airs, hj, length⟩ := ih
    obtain ⟨js', hj', -⟩ := ht.lasts.journal
    refine ⟨_, js ++ js', .beat airs (.touch ht hj'), by rw [hj', hj, List.append_assoc], ?_⟩
    rw [List.length_append, List.length_replicate, length, Journal.changes_append,
      List.count_append]

/-- As many values are aired in an operation as it announces changes. -/
theorem Coherent.exists_airs (h : s.Coherent [] none) (op : Operation) (k : Port) :
    ∃ vs, Airs k s vs (op.run s) ∧ vs.length = (sent (op, s)).count k := by
  have silent (hb : Beat [] s (op.run s)) (hs : sent (op, s) = []) :
      ∃ vs, Airs k s vs (op.run s) ∧ vs.length = (sent (op, s)).count k :=
    ⟨[], .still hb, by rw [hs]; rfl⟩
  by_cases hc : ∃ id index, op = .checkChanged id index
  · obtain ⟨id, index, rfl⟩ := hc
    have run := Operation.run_checkChanged s id index
    refine silent (run ▸ .check s id index) ?_
    rw [sent, run, journal_modifyNode, List.drop_length]
    rfl
  by_cases hj : op = .takeJournal
  · subst hj
    exact silent (.forget s) (by simp [sent, Operation.run, takeJournal])
  by_cases ht : ∃ hooks requested, op = .tick hooks requested
  · obtain ⟨hooks, requested, rfl⟩ := ht
    cases ht : s.tick hooks requested with
    | error =>
      have run : (Operation.tick hooks requested).run s = s := by
        rw [Operation.run, ht]
        rfl
      refine ⟨[], run.symm ▸ .refl, ?_⟩
      rw [sent, run, List.drop_length]
      rfl
    | ok a =>
      obtain ⟨tally, s'⟩ := a
      have run : (Operation.tick hooks requested).run s = s' := by
        rw [Operation.run, ht]
        rfl
      obtain ⟨time, t, u, ha, touches, rfl⟩ := h.touches_tick ht
      obtain ⟨vs, js, airs, journal, length⟩ := touches.exists_airs k
      obtain ⟨clock, warnings, hw, quiet⟩ : Beat [] s t ∧
          ∃ warnings, t.journal = s.journal ++ warnings ∧ Journal.changes warnings = [] := by
        rcases advanceClock_cases ha with ⟨text, rfl⟩ | rfl
        · exact ⟨.log rfl, _, rfl, rfl⟩
        · exact ⟨.clock s _, [], (List.append_nil _).symm, rfl⟩
      refine ⟨vs, run ▸ (Airs.still clock).trans (airs.of_nil (.log rfl)), ?_⟩
      rw [length, sent, run, emit, Scene.log, journal, hw, List.append_assoc, List.append_assoc,
        List.drop_left, Journal.changes_append, Journal.changes_append, quiet]
      exact congrArg (List.count k) (List.append_nil _).symm
  · obtain ⟨vs, js, airs, journal, length⟩ := (h.touches op (fun id index he ↦ hc ⟨id, index, he⟩)
      hj fun hooks requested he ↦ ht ⟨hooks, requested, he⟩).exists_airs k
    exact ⟨vs, airs, by rw [length, sent, journal, List.drop_left]⟩

/-- A story airs a value at each announcement of a change. -/
theorem Story.exists_airs (h : Story os s) : ∃ catalog settings,
    (∀ t ∈ catalog.types, t.Built) ∧ ∀ k : Port, ∃ vs, Airs k (start catalog settings) vs s ∧
      vs.length = (os.flatMap sent).count k := by
  induction h with
  | @new catalog settings _ built h =>
    obtain ⟨⟨⟩, -, h⟩ := bind_eq_ok.mp h
    cases h
    exact ⟨catalog, settings, built, fun k ↦ ⟨[], .refl, rfl⟩⟩
  | next h op ih =>
    obtain ⟨catalog, settings, built, ih⟩ := ih
    refine ⟨catalog, settings, built, fun k ↦ ?_⟩
    obtain ⟨vs, airs, length⟩ := ih k
    obtain ⟨ws, onward, length'⟩ := h.coherent.exists_airs op k
    refine ⟨vs ++ ws, airs.trans onward, ?_⟩
    rw [List.length_append, length, length', List.flatMap_append, List.flatMap_singleton,
      List.count_append]

end airing

end Scene

end SceneGraph
