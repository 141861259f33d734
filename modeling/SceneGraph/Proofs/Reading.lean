import Mathlib.Logic.Relation
import SceneGraph.Proofs.Typing
import SceneGraph.Scene.Reading

namespace SceneGraph

namespace Draft

/-- What a reader may do to a draft. Only nodes made for the text are named and written. -/
inductive Step (env : Surroundings) : Draft → Draft → Prop
  | create {d d' : Draft} {start : Nat} {typeName : String} {id : NodeId}
      (h : d.create env start typeName = .ok (id, d')) : Step env d d'
  | define {d d' : Draft} {name : String} {id : NodeId} (hid : id ∈ d.created)
      (h : d.define env name id = .ok d') : Step env d d'
  | set {d d' : Draft} {id : NodeId} {index start : Nat} {v : Value} (hid : id ∈ d.created)
      (h : d.set id index start v = .ok d') : Step env d d'
  | addRoute (d : Draft) (r : Statement) (start : Nat) : Step env d (d.addRoute r start)

abbrev Steps (env : Surroundings) : Draft → Draft → Prop := Relation.ReflTransGen (Step env)

/-- A node that was made for the text, or found under a name. -/
def Known (env : Surroundings) (d₀ d : Draft) (id : NodeId) : Prop :=
  ∃ d', Steps env d₀ d' ∧ Steps env d' d ∧
    (id ∈ d'.created ∨ ∃ name, d'.named? env name = some id)

variable {env : Surroundings} {d₀ d d' : Draft} {id : NodeId}

theorem create_eq_ok {start : Nat} {typeName : String} :
    d.create env start typeName = .ok (id, d') ↔ ∃ s,
      d.scene.createNode env.space typeName = .ok (id, s) ∧
        d' = { d with scene := s, created := d.created ++ [id] } := by
  unfold create
  rcases d.scene.createNode env.space typeName with e | ⟨k, s⟩
  · simp
  · constructor
    · rintro ⟨⟩
      exact ⟨s, rfl, rfl⟩
    · rintro ⟨_, ⟨⟩, rfl⟩
      rfl

theorem define_eq_ok {name : String} : d.define env name id = .ok d' ↔
    ∃ s, d.scene.define env.space name id = .ok s ∧ d' = { d with scene := s } := by
  unfold define
  rcases d.scene.define env.space name id with e | s
  · simp
  · simp [eq_comm]

theorem set_eq_ok {index start : Nat} {v : Value} : d.set id index start v = .ok d' ↔
    ∃ s, d.scene.setValue id index v = .ok s ∧ d' = { d with scene := s } := by
  unfold set
  rcases d.scene.setValue id index v with e | s
  · simp
  · simp [eq_comm]

theorem Step.created_subset (h : Step env d d') : d.created ⊆ d'.created := by
  cases h with
  | create h =>
    obtain ⟨s, -, rfl⟩ := create_eq_ok.mp h
    exact List.subset_append_left ..
  | define _ h =>
    obtain ⟨s, -, rfl⟩ := define_eq_ok.mp h
    exact List.Subset.refl _
  | set _ h =>
    obtain ⟨s, -, rfl⟩ := set_eq_ok.mp h
    exact List.Subset.refl _
  | addRoute => exact List.Subset.refl _

theorem Steps.created_subset (h : Steps env d d') : d.created ⊆ d'.created := by
  induction h with
  | refl => exact List.Subset.refl _
  | tail _ h ih => exact List.Subset.trans ih h.created_subset

theorem Known.trans (h : Known env d₀ d id) (hs : Steps env d d') : Known env d₀ d' id := by
  obtain ⟨d₁, h₀, h₁, hk⟩ := h
  exact ⟨d₁, h₀, h₁.trans hs, hk⟩

theorem Steps.known (h : Steps env d₀ d) (hid : id ∈ d.created) : Known env d₀ d id :=
  ⟨d, h, .refl, .inl hid⟩

end Draft

namespace Reader

open Draft

variable {env : Surroundings} {d₀ d : Draft} {id : NodeId} {α β : Type}

/-- Wherever the reading ends, steps led from `d₀` to the draft; where it ends well, `P` holds. -/
def Reads (env : Surroundings) (d₀ : Draft) (x : Except (Fault × Draft) α) (P : α → Prop) : Prop :=
  match x with
  | .ok a => P a
  | .error (_, d) => Steps env d₀ d

theorem Reads.ok {P : α → Prop} {a : α} (h : P a) : Reads env d₀ (.ok a) P := h

theorem Reads.fault {P : α → Prop} {f : Fault} (h : Steps env d₀ d) :
    Reads env d₀ (.error (f, d)) P := h

theorem Reads.bind {x : Except (Fault × Draft) α} {f : α → Except (Fault × Draft) β}
    {P : α → Prop} {Q : β → Prop} (h : Reads env d₀ x P)
    (hf : ∀ a, P a → Reads env d₀ (f a) Q) : Reads env d₀ (x >>= f) Q := by
  rcases x with ⟨e, d⟩ | a
  · exact h
  · exact hf a h

theorem Reads.keeping (h : Steps env d₀ d) (x : Except Fault α) :
    Reads env d₀ (keeping d x) fun a ↦ x = .ok a := by
  rcases x with e | a
  · exact h
  · rfl

theorem Reads.mono {x : Except (Fault × Draft) α} {P Q : α → Prop} (h : Reads env d₀ x P)
    (hpq : ∀ a, P a → Q a) : Reads env d₀ x Q := by
  rcases x with ⟨e, d⟩ | a
  · exact h
  · exact hpq a h

/-- Steps led on from `d`, and the nodes found are known. -/
def Found (env : Surroundings) (d₀ d : Draft) {ts : List Spanned} (ids : α → List NodeId)
    (a : α × Draft × Rest ts) : Prop :=
  Steps env d a.2.1 ∧ ∀ id ∈ ids a.1, Known env d₀ a.2.1 id

theorem addRoute_reads (h : Steps env d₀ d) (ts : List Spanned) :
    Reads env d₀ (addRoute env d ts) fun a ↦ Steps env d a.2.1 := by
  unfold addRoute
  refine (Reads.keeping h _).bind fun _ _ ↦ ?_
  exact .single (.addRoute ..)

theorem nameNode_reads (h : Steps env d₀ d) (hid : id ∈ d.created) (name : Option String) :
    Reads env d₀ (nameNode env d id name) fun d' ↦ Steps env d d' := by
  cases name with
  | none => exact Reads.ok .refl
  | some name =>
    unfold nameNode
    dsimp only
    cases hd : d.define env name id with
    | error e => exact Reads.fault h
    | ok d' => exact Reads.ok (.single (.define hid hd))

theorem header_reads (h : Steps env d₀ d) (name : Option String) (ts : List Spanned) :
    Reads env d₀ (header env d name ts) fun a ↦
      Steps env d a.2.1 ∧ a.1 ∈ a.2.1.created := by
  unfold header
  refine (Reads.keeping h _).bind fun a _ ↦ ?_
  apply (Reads.keeping h _).bind
  rintro ⟨id, d₁⟩ hc
  have made : Steps env d d₁ := .single (.create hc)
  have hid : id ∈ d₁.created := by
    obtain ⟨s, -, rfl⟩ := create_eq_ok.mp hc
    exact List.mem_append_right _ (List.mem_singleton_self _)
  refine (nameNode_reads (h.trans made) hid name).bind fun d₂ named ↦ ?_
  refine (Reads.keeping (h.trans (made.trans named)) _).bind fun _ _ ↦ ?_
  exact Reads.ok ⟨made.trans named, named.created_subset hid⟩

/-- The parts of a text are read by steps. -/
structure ReadsOn (env : Surroundings) (d₀ : Draft) (ts : List Spanned) : Prop where
  statement : ∀ {d}, Steps env d₀ d →
    Reads env d₀ (statement env d ts) (Found env d₀ d Option.toList)
  statements : ∀ {d}, Steps env d₀ d →
    Reads env d₀ (statements env d ts) (Found env d₀ d fun ids ↦ ids)
  body : ∀ {d id}, Steps env d₀ d → id ∈ d.created →
    Reads env d₀ (body env d id ts) fun a ↦ Steps env d a.2.1
  fieldValue : ∀ {d} t, Steps env d₀ d →
    Reads env d₀ (fieldValue env d t ts) fun a ↦ Steps env d a.2.1

section steps

variable {ts : List Spanned} (ih : ∀ r : List Spanned, r.length < ts.length → ReadsOn env d₀ r)
include ih

theorem statement_reads (h : Steps env d₀ d) :
    Reads env d₀ (statement env d ts) (Found env d₀ d Option.toList) := by
  unfold Reader.statement
  split
  · exact Reads.ok ⟨.refl, by simp⟩
  · apply (Reads.keeping h _).bind
    rintro ⟨name, r⟩ -
    dsimp only
    cases hid : d.named? env name with
    | some id =>
      refine Reads.ok ⟨.refl, fun k hk ↦ ?_⟩
      cases Option.mem_toList.mp hk
      exact ⟨d, h, .refl, .inr ⟨name, hid⟩⟩
    | none => exact Reads.fault h
  · apply (Reads.keeping h _).bind
    rintro ⟨name, r⟩ -
    apply (header_reads h _ _).bind
    rintro ⟨id, d₁, r₁⟩ ⟨hs, hid⟩
    have shorter := Nat.lt_succ_of_lt (Nat.lt_trans r₁.2 r.2)
    refine ((ih _ shorter).body (h.trans hs) hid).bind ?_
    rintro ⟨_, d₂, r₂⟩ hs₂
    refine Reads.ok ⟨hs.trans hs₂, ?_⟩
    simpa using Steps.known (h.trans (hs.trans hs₂)) (hs₂.created_subset hid)
  · apply (header_reads h _ _).bind
    rintro ⟨id, d₁, r₁⟩ ⟨hs, hid⟩
    refine ((ih _ r₁.2).body (h.trans hs) hid).bind ?_
    rintro ⟨_, d₂, r₂⟩ hs₂
    refine Reads.ok ⟨hs.trans hs₂, ?_⟩
    simpa using Steps.known (h.trans (hs.trans hs₂)) (hs₂.created_subset hid)
  · exact Reads.fault h

theorem body_reads (h : Steps env d₀ d) (hid : id ∈ d.created) :
    Reads env d₀ (body env d id ts) fun a ↦ Steps env d a.2.1 := by
  unfold Reader.body
  split
  · exact Reads.ok .refl
  · apply (addRoute_reads h _).bind
    rintro ⟨_, d₁, r₁⟩ hs
    refine ((ih _ r₁.2).body (h.trans hs) (hs.created_subset hid)).bind ?_
    rintro ⟨_, d₂, r₂⟩ hs₂
    exact Reads.ok (hs.trans hs₂)
  · apply (Reads.keeping h _).bind
    rintro ⟨index, t⟩ -
    apply ((ih _ (Nat.lt_succ_self _)).fieldValue t h).bind
    rintro ⟨v, d₁, r₁⟩ hs
    have hid₁ := hs.created_subset hid
    refine (Reads.keeping (h.trans hs) _).bind fun d₂ hd ↦ ?_
    have hs₂ : Steps env d d₂ := hs.tail (.set hid₁ hd)
    have shorter := Nat.lt_succ_of_lt r₁.2
    refine ((ih _ shorter).body (h.trans hs₂) (hs₂.created_subset hid)).bind ?_
    rintro ⟨_, d₃, r₃⟩ hs₃
    exact Reads.ok (hs₂.trans hs₃)
  · exact Reads.fault h

theorem statements_reads (h : Steps env d₀ d) :
    Reads env d₀ (statements env d ts) (Found env d₀ d fun ids ↦ ids) := by
  cases ts with
  | nil =>
    rw [Reader.statements]
    exact Reads.fault h
  | cons t rest =>
    rw [Reader.statements]
    split
    · exact Reads.ok ⟨.refl, by simp⟩
    apply (statement_reads ih h).bind
    rintro ⟨id, d₁, r₁⟩ ⟨hs, hk⟩
    refine ((ih _ r₁.2).statements (h.trans hs)).bind ?_
    rintro ⟨ids, d₂, r₂⟩ ⟨hs₂, hk₂⟩
    refine Reads.ok ⟨hs.trans hs₂, fun k hid ↦ ?_⟩
    rcases List.mem_append.mp hid with hid | hid
    · exact (hk k hid).trans hs₂
    · exact hk₂ k hid

theorem fieldValue_reads (h : Steps env d₀ d) (t : FieldType) :
    Reads env d₀ (fieldValue env d t ts) fun a ↦ Steps env d a.2.1 := by
  unfold Reader.fieldValue
  split
  · exact (Reads.keeping h _).bind fun _ _ ↦ Reads.ok .refl
  split
  · exact (statement_reads ih h).bind fun _ found ↦ Reads.ok found.1
  split
  · exact ((ih _ (Nat.lt_succ_self _)).statements h).bind fun _ found ↦ Reads.ok found.1
  · exact (statement_reads ih h).bind fun _ found ↦ Reads.ok found.1

end steps

theorem readsOn (env : Surroundings) (d₀ : Draft) (ts : List Spanned) : ReadsOn env d₀ ts := by
  refine (measure List.length).wf.induction ts fun ts below ↦ ?_
  exact ⟨statement_reads below, statements_reads below, body_reads below,
    fun t h ↦ fieldValue_reads below h t⟩

/-- A text is read by steps, and the nodes at its top level are known. -/
theorem document_reads (h : Steps env d₀ d) (ts : List Spanned) :
    Reads env d₀ (document env d ts) fun a ↦
      Steps env d a.2 ∧ ∀ id ∈ a.1, Known env d₀ a.2 id := by
  induction hn : ts.length using Nat.strongRecOn generalizing ts d with
  | _ n ih =>
    subst hn
    cases ts with
    | nil =>
      rw [document]
      exact Reads.ok ⟨.refl, by simp⟩
    | cons t rest =>
      rw [document]
      split
      · apply (addRoute_reads h _).bind
        rintro ⟨_, d₁, r₁⟩ hs
        refine Reads.mono (ih _ r₁.2 (h.trans hs) _ rfl) ?_
        rintro a ⟨hs₂, hk⟩
        exact ⟨hs.trans hs₂, hk⟩
      · exact Reads.fault h
      · exact Reads.fault h
      · refine ((readsOn env d₀ _).statement h).bind ?_
        rintro ⟨id, d₁, r₁⟩ ⟨hs, hk⟩
        refine (ih _ r₁.2 (h.trans hs) _ rfl).bind ?_
        rintro ⟨ids, d₂⟩ ⟨hs₂, hk₂⟩
        refine Reads.ok ⟨hs.trans hs₂, fun k hid ↦ ?_⟩
        rcases List.mem_append.mp hid with hid | hid
        · exact (hk k hid).trans hs₂
        · exact hk₂ k hid

end Reader

end SceneGraph
