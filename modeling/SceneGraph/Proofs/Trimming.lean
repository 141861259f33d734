import SceneGraph.Node.Catalog
import SceneGraph.Node.Rules
import SceneGraph.Proofs.Typing

/-!
What follows the valid elements of an array. Values that differ in it only are alike, and scripts
that do not look at it write alike values on nodes that are alike.
-/

namespace SceneGraph

/-- Both results are faults that are related, or both are values that are related. -/
def Both {ε α β : Type} (E : ε → ε → Prop) (R : α → β → Prop) : Except ε α → Except ε β → Prop
  | .ok a, .ok b => R a b
  | .error e, .error f => E e f
  | _, _ => False

namespace Both

variable {ε α β γ δ : Type} {E : ε → ε → Prop} {R : α → β → Prop} {S : γ → δ → Prop}

theorem cases {x : Except ε α} {y : Except ε β} (h : Both E R x y) :
    (∃ e f, x = .error e ∧ y = .error f ∧ E e f) ∨ ∃ a b, x = .ok a ∧ y = .ok b ∧ R a b := by
  rcases x with e | a <;> rcases y with f | b
  · exact .inl ⟨e, f, rfl, rfl, h⟩
  · exact h.elim
  · exact h.elim
  · exact .inr ⟨a, b, rfl, rfl, h⟩

theorem bind {x : Except ε α} {y : Except ε β} {f : α → Except ε γ} {g : β → Except ε δ}
    (h : Both E R x y) (hf : ∀ a b, R a b → Both E S (f a) (g b)) :
    Both E S (x >>= f) (y >>= g) := by
  rcases h.cases with ⟨e, e', rfl, rfl, he⟩ | ⟨a, b, rfl, rfl, hab⟩
  · exact he
  · exact hf a b hab

theorem map {S : γ → δ → Prop} {x : Except ε α} {y : Except ε β} {f : α → γ} {g : β → δ}
    (h : Both E R x y) (hf : ∀ a b, R a b → S (f a) (g b)) : Both E S (x.map f) (y.map g) := by
  rcases h.cases with ⟨e, e', rfl, rfl, he⟩ | ⟨a, b, rfl, rfl, hab⟩
  · exact he
  · exact hf a b hab

theorem of_eq {x y : Except ε α} (hE : ∀ e, E e e) (h : x = y) : Both E Eq x y := by
  subst h
  cases x with
  | error e => exact hE e
  | ok a => exact rfl

theorem mono {R' : α → β → Prop} {x : Except ε α} {y : Except ε β} (h : Both E R x y)
    (hR : ∀ a b, R a b → R' a b) : Both E R' x y := by
  rcases h.cases with ⟨e, e', rfl, rfl, he⟩ | ⟨a, b, rfl, rfl, hab⟩
  · exact he
  · exact hR a b hab

theorem eq {x y : Except ε α} (h : Both Eq Eq x y) : y = x := by
  rcases h.cases with ⟨e, _, rfl, rfl, rfl⟩ | ⟨a, _, rfl, rfl, rfl⟩ <;> rfl

end Both

namespace Value

/-- The value without what follows its valid elements. -/
def trim : Value → Value
  | bools a => ofBools a.toList
  | ints a => ofInts a.toList
  | floats a => ofFloats a.toList
  | doubles a => ofDoubles a.toList
  | strings a => ofStrings a.toList
  | nodes a => ofNodes a.toList
  | v => v

/-- The values are the same, or arrays of one kind with the same valid elements. -/
def Alike (v w : Value) : Prop := v.trim = w.trim

variable {v w : Value}

theorem Alike.refl (v : Value) : v.Alike v := rfl

/-- What does not depend on the rest of an array agrees on values that are alike. -/
theorem Alike.congr {α : Type} {f : Value → α} (h : v.Alike w) (hf : ∀ v, f v.trim = f v) :
    f v = f w :=
  (hf v).symm.trans ((congrArg f h).trans (hf w))

theorem kind_trim (v : Value) : v.trim.kind = v.kind := by
  cases v <;> rfl

theorem validCount_trim (v : Value) : v.trim.validCount = v.validCount := by
  cases v <;> simp [trim, validCount, ofBools, ofInts, ofFloats, ofDoubles, ofStrings, ofNodes,
    Counted.ofList]

theorem asBool?_trim (v : Value) : v.trim.asBool? = v.asBool? := by
  cases v <;> rfl

theorem asStrings?_trim (v : Value) : v.trim.asStrings? = v.asStrings? := by
  cases v <;> simp [trim, asStrings?, ofBools, ofInts, ofFloats, ofDoubles, ofStrings, ofNodes]

theorem refs_trim (v : Value) : v.trim.refs = v.refs := by
  cases v with
  | nodes a => exact Counted.toList_ofList _
  | _ => rfl

theorem text_trim (v : Value) : v.trim.text = v.text := by
  cases v <;> simp [trim, text, ofBools, ofInts, ofFloats, ofDoubles, ofStrings, ofNodes]

theorem eqv_trim (u v : Value) : u.eqv v.trim = u.eqv v := by
  have arrays {α : Type} (elem : α → α → Bool) (a b : Counted α) :
      a.eqv elem (.ofList b.toList) = a.eqv elem b := by
    rw [Counted.eqv, Counted.toList_ofList, Counted.eqv]
    simp [Counted.ofList]
  cases u <;> cases v <;> first | rfl | exact arrays ..

theorem trim_eqv (u v : Value) : u.trim.eqv v = u.eqv v := by
  have arrays {α : Type} (elem : α → α → Bool) (a b : Counted α) :
      (Counted.ofList a.toList).eqv elem b = a.eqv elem b := by
    rw [Counted.eqv, Counted.toList_ofList, Counted.eqv]
    simp [Counted.ofList]
  cases u <;> cases v <;> first | rfl | exact arrays ..

end Value

theorem Declaration.shapeFault?_trim (d : Declaration) (v : Value) :
    d.shapeFault? v.trim = d.shapeFault? v := by
  simp only [shapeFault?, v.kind_trim, v.validCount_trim]

/-- The values of the fields are alike, one by one. -/
def AllAlike (vs ws : List Value) : Prop := vs.map Value.trim = ws.map Value.trim

namespace AllAlike

variable {vs ws : List Value}

theorem refl (vs : List Value) : AllAlike vs vs := rfl

theorem getElem? (h : AllAlike vs ws) (i : Nat) :
    vs[i]?.map Value.trim = ws[i]?.map Value.trim := by
  rw [← List.getElem?_map, h, List.getElem?_map]

theorem set (h : AllAlike vs ws) (i : Nat) {v w : Value} (hv : v.Alike w) :
    AllAlike (vs.set i v) (ws.set i w) := by
  unfold AllAlike
  rw [List.map_set, List.map_set, h, hv]

/-- Both fields have no value, or they have values that are alike. -/
theorem option_cases {x y : Option Value} (h : x.map Value.trim = y.map Value.trim) :
    x = none ∧ y = none ∨ ∃ v w, x = some v ∧ y = some w ∧ v.Alike w := by
  cases x <;> cases y
  · exact .inl ⟨rfl, rfl⟩
  · cases h
  · cases h
  · exact .inr ⟨_, _, rfl, rfl, Option.some.inj h⟩

theorem option_map {α : Type} {f : Value → α} (hf : ∀ v, f v.trim = f v) {x y : Option Value}
    (h : x.map Value.trim = y.map Value.trim) : x.map f = y.map f := by
  rcases option_cases h with ⟨rfl, rfl⟩ | ⟨v, w, rfl, rfl, alike⟩
  · rfl
  · exact congrArg some (alike.congr hf)

theorem option_bind {α : Type} {f : Value → Option α} (hf : ∀ v, f v.trim = f v)
    {x y : Option Value} (h : x.map Value.trim = y.map Value.trim) : x.bind f = y.bind f := by
  rcases option_cases h with ⟨rfl, rfl⟩ | ⟨v, w, rfl, rfl, alike⟩
  · rfl
  · exact alike.congr hf

end AllAlike

section scripts

variable {View Write Answer State : Type} {V : View → View → Prop} {W : Write → Write → Prop}

/-- The programs do alike what they do, as long as they look at views that are related. -/
inductive Program.Alike (V : View → View → Prop) (W : Write → Write → Prop) :
    Program View Write Answer → Program View Write Answer → Prop
  | done : Alike V W .done .done
  | look {p q} (h : ∀ v w, V v w → Alike V W (p v) (q w)) : Alike V W (.look p) (.look q)
  | act {x y p q} (hx : W x y) (h : ∀ a, Alike V W (p a) (q a)) :
    Alike V W (.act x p) (.act y q)
  | note {text p q} (h : Alike V W p q) : Alike V W (.note text p) (.note text q)

/-- A host that treats alike what is alike lets programs that are alike end alike. -/
theorem Program.Alike.run {host : Host View Write Answer State} {S : State → State → Prop}
    (view : ∀ {s t}, S s t → V (host.view s) (host.view t))
    (act : ∀ {s t x y}, S s t → W x y →
      (host.act s x).2 = (host.act t y).2 ∧ S (host.act s x).1 (host.act t y).1)
    (note : ∀ {s t} text, S s t → S (host.note s text) (host.note t text))
    {p q : Program View Write Answer} (h : Alike V W p q) {s t : State} (hs : S s t) :
    S (p.run host s) (q.run host t) := by
  induction h generalizing s t with
  | done => exact hs
  | look _ ih => exact ih _ _ (view hs) hs
  | act hx _ ih =>
    obtain ⟨answer, left⟩ := act hs hx
    unfold Program.run
    rw [answer]
    exact ih _ left
  | note _ ih => exact ih (note _ hs)

/-- The views show one node, with values that are alike. -/
structure NodeView.Alike (v w : NodeView) : Prop where
  rest : w = { v with values := w.values }
  values : AllAlike v.values w.values

structure Output.Alike (o o' : Output) : Prop where
  target : o'.target = o.target
  value : o.value.Alike o'.value

abbrev Script.Alike (p q : Script) : Prop := Program.Alike NodeView.Alike Output.Alike p q

/-- The logic of a type does not depend on what follows the valid elements of arrays. -/
structure Behavior.Blind (b : Behavior) : Prop where
  validate : ∀ issued index d v, b.validate issued index d v.trim = b.validate issued index d v
  fieldChanged : ∀ index, (b.fieldChanged index).Alike (b.fieldChanged index)
  tick : b.tick.Alike b.tick
  setupFinished : b.setupFinished.Alike b.setupFinished

structure Activation.Alike (a b : Activation) : Prop where
  view : a.view.Alike b.view
  outputs : b.outputs = a.outputs
  notes : b.notes = a.notes

namespace NodeView.Alike

variable {v w : NodeView}

theorem table (h : v.Alike w) : w.table = v.table := by
  rw [h.rest]

theorem get? (h : v.Alike w) (i : Nat) : (v.get? i).map Value.trim = (w.get? i).map Value.trim :=
  h.values.getElem? i

theorem named? (h : v.Alike w) (name : String) :
    (v.named? name).map Value.trim = (w.named? name).map Value.trim := by
  unfold NodeView.named?
  rw [h.table]
  cases v.table.indexOf? name with
  | none => rfl
  | some i => exact h.get? i

theorem read? (h : v.Alike w) (target : Target) :
    (v.read? target).map Value.trim = (w.read? target).map Value.trim := by
  cases target with
  | index i => exact h.get? i
  | name name => exact h.named? name

end NodeView.Alike

theorem Activation.Alike.write {a b : Activation} (h : a.Alike b) {o o' : Output}
    (ho : o.Alike o') : Both Eq Activation.Alike (a.write o) (b.write o') := by
  have table := h.view.table
  have owner : b.view.owner = a.view.owner := by rw [h.view.rest]
  unfold Activation.write
  simp only [table, owner, ho.target]
  refine (Both.of_eq (fun _ ↦ rfl) rfl).bind ?_
  rintro i _ rfl
  refine (Both.of_eq (fun _ ↦ rfl) rfl).bind ?_
  rintro d _ rfl
  have shape : d.checkShape a.view.owner o.value = d.checkShape a.view.owner o'.value := by
    unfold Declaration.checkShape
    rw [ho.value.congr d.shapeFault?_trim]
  refine (Both.of_eq (fun _ ↦ rfl) shape).bind ?_
  rintro _ _ -
  exact {
    view := ⟨by rw [h.view.rest], h.view.values.set i ho.value⟩
    outputs := by rw [h.outputs]
    notes := h.notes }

/-- Scripts that are alike leave nodes alike. -/
theorem Script.Alike.perform {p q : Script} (h : p.Alike q) {v w : NodeView} (hv : v.Alike w) :
    (p.perform v).Alike (q.perform w) := by
  refine Program.Alike.run (S := Activation.Alike) (fun h ↦ h.view) ?_ ?_ h ⟨hv, rfl, rfl⟩
  · intro a b o o' ha ho
    unfold Activation.host
    dsimp only
    rcases (ha.write ho).cases with ⟨e, _, hx, hy, rfl⟩ | ⟨a', b', hx, hy, written⟩ <;> rw [hx, hy]
    · exact ⟨rfl, ha⟩
    · exact ⟨rfl, written⟩
  · intro a b text ha
    exact ⟨ha.view, ha.outputs, congrArg (· ++ [text]) ha.notes⟩

end scripts

section behaviors

namespace Standard

end Standard

end behaviors

end SceneGraph
