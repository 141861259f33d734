import SceneGraph.Proofs.Drafting
import SceneGraph.Proofs.Grammar

/-!
A reader takes the tokens that a value or a route is spelled with, and no more.
-/

namespace SceneGraph

namespace Reader

open Draft

variable {α ε : Type} {P : List Spanned → Prop} {env : Surroundings} {item : Item α}
  {w : Spelling α} {ts rest : List Spanned} {a : α} {as : List α}

section values

/-- The reading ends well with `a` and leaves the tokens `rest`. -/
def Leaves (x : Except ε (α × { rest // P rest })) (a : α) (rest : List Spanned) : Prop :=
  ∃ h, x = .ok (a, ⟨rest, h⟩)

/-- The item reads the tokens that stand for its elements. -/
structure Item.Reads (item : Item α) (w : Spelling α) : Prop where
  token : ∀ t a, item.read t = some (.ok a) ↔ w.value? t = some a
  mark : ∀ m, item.read (.mark m) = none

theorem Item.Reads.not_mark (reads : item.Reads w) {t : Token}
    (ht : item.read t = some (.ok a)) (m : Mark) : t ≠ .mark m := by
  rintro rfl
  rw [reads.mark] at ht
  cases ht

theorem Item.bool_reads : Item.bool.Reads .bool := by
  refine ⟨fun t a ↦ ?_, fun m ↦ rfl⟩
  rcases t with m | k | _ | _ | _ | _
  · simp [Item.bool, Spelling.bool]
  · cases k <;> simp [Item.bool, Spelling.bool]
  all_goals simp [Item.bool, Spelling.bool]

theorem Item.int32_reads : Item.int32.Reads .int32 := by
  refine ⟨fun t a ↦ ?_, fun m ↦ rfl⟩
  rcases t with m | k | n | _ | _ | _
  case int =>
    simp only [Item.int32, Spelling.int32]
    split <;> simp
  all_goals simp [Item.int32, Spelling.int32]

theorem Item.double_reads : Item.double.Reads .double := by
  refine ⟨fun t a ↦ ?_, fun m ↦ rfl⟩
  cases t <;> simp [Item.double, Spelling.double]

theorem Item.float_reads : Item.float.Reads .float := by
  refine ⟨fun t a ↦ ?_, fun m ↦ rfl⟩
  cases t <;> simp [Item.float, Spelling.float, Item.double, Spelling.double, Except.map]

theorem Item.string_reads : Item.string.Reads .string := by
  refine ⟨fun t a ↦ ?_, fun m ↦ rfl⟩
  cases t <;> simp [Item.string, Spelling.string]

theorem one_leaves : Leaves (one env item ts) a rest ↔
    ∃ t, ts = t :: rest ∧ item.read t.token = some (.ok a) := by
  cases ts with
  | nil => simp [one, Leaves]
  | cons t ts =>
    simp only [one]
    constructor
    · rintro ⟨h, he⟩
      split at he
      · next hv =>
        cases he
        exact ⟨t, rfl, hv⟩
      · cases he
      · cases he
    · rintro ⟨t', he, hv⟩
      cases he
      exact ⟨Nat.lt_succ_self _, by rw [hv]⟩

theorem exactly_leaves (reads : item.Reads w) {n : Nat} :
    Leaves (exactly env item n ts) as rest ↔
      ∃ us, ts = us ++ rest ∧ w.Lists (us.map Spanned.token) as ∧ as.length = n := by
  induction n generalizing ts as with
  | zero =>
    simp only [exactly]
    constructor
    · rintro ⟨h, he⟩
      cases he
      exact ⟨[], rfl, rfl, rfl⟩
    · rintro ⟨us, rfl, listed, length⟩
      cases List.length_eq_zero_iff.mp length
      cases List.map_eq_nil_iff.mp (List.map_eq_nil_iff.mp listed)
      exact ⟨Nat.le_refl _, rfl⟩
  | succ n ih =>
    unfold exactly
    constructor
    · rintro ⟨h, he⟩
      obtain ⟨⟨a, r⟩, first, he⟩ := bind_eq_ok.mp he
      obtain ⟨⟨as', r'⟩, others, he⟩ := bind_eq_ok.mp he
      cases he
      obtain ⟨t, ht, hv⟩ := one_leaves.mp ⟨r.2, first⟩
      obtain ⟨us, hu, listed, rfl⟩ := ih.mp ⟨r'.2, others⟩
      refine ⟨t :: us, ht.trans (congrArg (t :: ·) hu), ?_, rfl⟩
      exact congrArg₂ List.cons ((reads.token ..).mp hv) listed
    · rintro ⟨us, rfl, listed, length⟩
      cases as with
      | nil => cases length
      | cons a as =>
      cases us with
      | nil => cases listed
      | cons t us =>
      obtain ⟨hv, listed⟩ := List.cons.inj listed
      obtain ⟨h, first⟩ : Leaves (one env item (t :: (us ++ rest))) a (us ++ rest) :=
        one_leaves.mpr ⟨t, rfl, (reads.token ..).mpr hv⟩
      obtain ⟨h', others⟩ : Leaves (exactly env item n (us ++ rest)) as rest :=
        ih.mpr ⟨us, rfl, listed, Nat.succ.inj length⟩
      exact ⟨_, bind_eq_ok.mpr ⟨_, first, bind_eq_ok.mpr ⟨_, others, rfl⟩⟩⟩

theorem bracketed_leaves (reads : item.Reads w) :
    Leaves (bracketed env item ts) as rest ↔ ∃ us c, ts = us ++ c :: rest ∧
      w.Lists (us.map Spanned.token) as ∧ c.token = .mark .closeBracket := by
  induction ts generalizing as with
  | nil => simp [bracketed, Leaves]
  | cons t ts ih =>
    rw [bracketed]
    constructor
    · rintro ⟨h, he⟩
      split at he
      · next ht =>
        cases he
        exact ⟨[], t, rfl, rfl, ht⟩
      split at he
      · next a hv =>
        obtain ⟨⟨as', r⟩, others, he⟩ := bind_eq_ok.mp he
        cases he
        obtain ⟨us, c, hu, listed, hc⟩ := ih.mp ⟨r.2, others⟩
        refine ⟨t :: us, c, congrArg (t :: ·) hu, ?_, hc⟩
        exact congrArg₂ List.cons ((reads.token ..).mp hv) listed
      · cases he
      · cases he
    · rintro ⟨us, c, he, listed, hc⟩
      cases us with
      | nil =>
        cases List.map_eq_nil_iff.mp listed.symm
        cases he
        exact ⟨Nat.lt_succ_self _, if_pos hc⟩
      | cons u us =>
      cases as with
      | nil => cases listed
      | cons a as =>
      cases he
      obtain ⟨hv, listed⟩ := List.cons.inj listed
      have hv := (reads.token ..).mpr hv
      obtain ⟨h, others⟩ : Leaves (bracketed env item (us ++ c :: rest)) as rest :=
        ih.mpr ⟨us, c, rfl, listed, hc⟩
      refine ⟨Nat.lt_succ_of_lt h, ?_⟩
      rw [if_neg (reads.not_mark hv _), hv]
      exact bind_eq_ok.mpr ⟨_, others, rfl⟩

theorem list_leaves (reads : item.Reads w) {width : Nat} (positive : 0 < width) :
    Leaves (list env item width positive ts) as rest ↔
      (∃ o us c, ts = o :: (us ++ c :: rest) ∧ o.token = .mark .openBracket ∧
          w.Lists (us.map Spanned.token) as ∧ c.token = .mark .closeBracket) ∨
        ∃ us, ts = us ++ rest ∧ w.Lists (us.map Spanned.token) as ∧ as.length = width := by
  have bare {ts : List Spanned} (unopened : ∀ o us, ts = o :: us → o.token ≠ .mark .openBracket)
      (h : Leaves (exactly env item width ts) as rest) :
      Leaves (list env item width positive ts) as rest := by
    obtain ⟨h, others⟩ := h
    refine ⟨Nat.lt_of_lt_of_le (Nat.lt_add_of_pos_right positive) h, ?_⟩
    unfold list
    split
    · exact absurd rfl (unopened _ _ rfl)
    · exact bind_eq_ok.mpr ⟨_, others, rfl⟩
  constructor
  · rintro ⟨h, he⟩
    unfold list at he
    split at he
    · obtain ⟨⟨as', r⟩, others, he⟩ := bind_eq_ok.mp he
      cases he
      obtain ⟨us, c, hu, listed, hc⟩ := (bracketed_leaves reads).mp ⟨r.2, others⟩
      exact .inl ⟨_, us, c, congrArg _ hu, rfl, listed, hc⟩
    · obtain ⟨⟨as', r⟩, others, he⟩ := bind_eq_ok.mp he
      cases he
      exact .inr ((exactly_leaves reads).mp ⟨r.2, others⟩)
  · rintro (⟨⟨o, b, e⟩, us, c, rfl, ho, listed, hc⟩ | ⟨us, rfl, listed, rfl⟩)
    · cases ho
      obtain ⟨h, others⟩ : Leaves (bracketed env item (us ++ c :: rest)) as rest :=
        (bracketed_leaves reads).mpr ⟨us, c, rfl, listed, hc⟩
      exact ⟨Nat.lt_succ_of_lt h, bind_eq_ok.mpr ⟨_, others, rfl⟩⟩
    · refine bare (fun o vs he ↦ ?_) ((exactly_leaves reads).mpr ⟨us, rfl, listed, rfl⟩)
      -- an element does not begin with a bracket
      cases as with
      | nil => cases positive
      | cons a as =>
      cases us with
      | nil => cases listed
      | cons u us =>
      cases he
      exact reads.not_mark ((reads.token ..).mpr (List.cons.inj listed).1) _

theorem scalar_leaves (reads : item.Reads w) {t : FieldType} (ht : t.kind.isArray = false)
    {v : Value} : Leaves (scalar env item w.single ts) v rest ↔
      ∃ us, ts = us ++ rest ∧ w.Spells t (us.map Spanned.token) v := by
  obtain ⟨_ | _, e⟩ := t
  case true => cases ht
  have thin : ¬1 < e.components := of_decide_eq_false ht
  have width : e.components = 1 := Nat.le_antisymm (Nat.not_lt.mp thin) e.components_pos
  unfold scalar
  constructor
  · rintro ⟨h, he⟩
    obtain ⟨⟨a, r⟩, first, he⟩ := bind_eq_ok.mp he
    cases he
    obtain ⟨t, ht, hv⟩ := one_leaves.mp ⟨_, first⟩
    exact ⟨[t], ht, .one width ((reads.token ..).mp hv)⟩
  · rintro ⟨us, rfl, spelled⟩
    generalize hu : us.map Spanned.token = tokens at spelled
    cases spelled with
    | @one _ t a _ hv =>
      obtain ⟨u, rfl, rfl⟩ := List.map_eq_singleton_iff.mp hu
      obtain ⟨h, first⟩ : Leaves (one env item (u :: rest)) a rest :=
        one_leaves.mpr ⟨u, rfl, (reads.token ..).mpr hv⟩
      exact ⟨h, bind_eq_ok.mpr ⟨_, first, rfl⟩⟩
    | tuple wide => exact absurd wide thin

theorem array_leaves (reads : item.Reads w) {t : FieldType} (ht : t.kind.isArray)
    {v : Value} : Leaves (array env t item w.array ts) v rest ↔
      ∃ us, ts = us ++ rest ∧ w.Spells t (us.map Spanned.token) v := by
  obtain ⟨multi, e⟩ := t
  unfold array
  cases multi with
  | false =>
    have wide : 1 < e.components := of_decide_eq_true ht
    have tuple : FieldType.isFixedTuple ⟨false, e⟩ = true := decide_eq_true wide
    rw [if_pos tuple]
    constructor
    · rintro ⟨h, he⟩
      obtain ⟨⟨as, r⟩, others, he⟩ := bind_eq_ok.mp he
      cases he
      obtain ⟨us, hu, listed, length⟩ := (exactly_leaves reads).mp ⟨r.2, others⟩
      exact ⟨us, hu, .tuple wide listed length⟩
    · rintro ⟨us, rfl, spelled⟩
      generalize hu : us.map Spanned.token = tokens at spelled
      cases spelled with
      | one width => omega
      | @tuple _ _ as _ listed length =>
        obtain ⟨h, others⟩ : Leaves (exactly env item e.components (us ++ rest)) as rest :=
          (exactly_leaves reads).mpr ⟨us, rfl, hu ▸ listed, length⟩
        exact ⟨Nat.lt_of_lt_of_le (Nat.lt_add_of_pos_right e.components_pos) h,
          bind_eq_ok.mpr ⟨_, others, rfl⟩⟩
  | true =>
    have loose : ¬FieldType.isFixedTuple ⟨true, e⟩ = true := Bool.false_ne_true
    rw [if_neg loose]
    constructor
    · rintro ⟨h, he⟩
      obtain ⟨⟨as, r⟩, others, he⟩ := bind_eq_ok.mp he
      cases he
      rcases (list_leaves reads _).mp ⟨_, others⟩ with
        ⟨o, us, c, hu, ho, listed, hc⟩ | ⟨us, hu, listed, length⟩
      · have shape : (o :: (us ++ [c])).map Spanned.token =
            .mark .openBracket :: us.map Spanned.token ++ [.mark .closeBracket] := by simp [ho, hc]
        exact ⟨o :: (us ++ [c]), by simpa using hu, shape ▸ .list listed⟩
      · exact ⟨us, hu, .element listed length⟩
    · rintro ⟨us, rfl, spelled⟩
      generalize hu : us.map Spanned.token = tokens at spelled
      cases spelled with
      | @element _ _ as listed length =>
        obtain ⟨h, others⟩ :
            Leaves (list env item e.components e.components_pos (us ++ rest)) as rest :=
          (list_leaves reads _).mpr (.inr ⟨us, rfl, hu ▸ listed, length⟩)
        exact ⟨h, bind_eq_ok.mpr ⟨_, others, rfl⟩⟩
      | @list _ vs as listed =>
        cases us with
        | nil => cases hu
        | cons o us =>
        obtain ⟨ho, hu⟩ := List.cons.inj hu
        obtain ⟨us, cs, rfl, rfl, hc⟩ := List.map_eq_append_iff.mp hu
        obtain ⟨c, rfl, closed⟩ := List.map_eq_singleton_iff.mp hc
        obtain ⟨h, others⟩ : Leaves (list env item e.components e.components_pos
            (o :: (us ++ [c]) ++ rest)) as rest :=
          (list_leaves reads _).mpr (.inl
            ⟨o, us, c, congrArg (o :: ·) (List.append_assoc us [c] rest), ho, listed, closed⟩)
        exact ⟨h, bind_eq_ok.mpr ⟨_, others, rfl⟩⟩

theorem plainValue_leaves {t : FieldType} (ht : t.element ≠ .node) {v : Value} :
    Leaves (plainValue env t ts) v rest ↔
      ∃ us, ts = us ++ rest ∧ t.Spells (us.map Spanned.token) v := by
  unfold plainValue FieldType.Spells
  rw [show t.kind.scalar = t.element.scalar from rfl]
  cases hs : t.element.scalar <;> cases ha : t.kind.isArray
  case bool.false => exact scalar_leaves Item.bool_reads ha
  case bool.true => exact array_leaves Item.bool_reads ha
  case int32.false => exact scalar_leaves Item.int32_reads ha
  case int32.true => exact array_leaves Item.int32_reads ha
  case float.false => exact scalar_leaves Item.float_reads ha
  case float.true => exact array_leaves Item.float_reads ha
  case double.false => exact scalar_leaves Item.double_reads ha
  case double.true => exact array_leaves Item.double_reads ha
  case string.false => exact scalar_leaves Item.string_reads ha
  case string.true => exact array_leaves Item.string_reads ha
  all_goals
    generalize t.element = e at hs ht
    cases e <;> first | exact absurd rfl ht | cases hs

end values

section tokens

variable {wanted name : String} {u : Unit}

theorem one_keyword {k : Keyword} : Leaves (one env (.keyword k wanted) ts) u rest ↔
    ∃ t, ts = t :: rest ∧ t.token = .keyword k := by
  simp [one_leaves, Item.keyword]

theorem one_mark {m : Mark} : Leaves (one env (.mark m wanted) ts) u rest ↔
    ∃ t, ts = t :: rest ∧ t.token = .mark m := by
  simp [one_leaves, Item.mark]

theorem one_ident : Leaves (one env (.ident wanted) ts) name rest ↔
    ∃ t, ts = t :: rest ∧ t.token = .ident name := by
  rw [one_leaves]
  refine exists_congr fun t ↦ and_congr_right fun _ ↦ ?_
  cases t.token <;> simp [Item.ident]

theorem next_leaves {r : Rest ts} {x : Except Fault (α × Rest r.1)} :
    Leaves (routeStatement.next r x) a rest ↔ Leaves x a rest := by
  unfold routeStatement.next
  constructor
  · rintro ⟨h, he⟩
    rcases x with f | ⟨a, r⟩
    · cases he
    · cases he
      exact ⟨r.2, rfl⟩
  · rintro ⟨h, rfl⟩
    exact ⟨Nat.lt_trans h r.2, rfl⟩

theorem routeStatement_leaves {s : Statement} : Leaves (routeStatement env ts) s rest ↔
    ∃ us, ts = us ++ rest ∧ us.map Spanned.token = s.tokens := by
  constructor
  · have cons {ts us vs rest : List Spanned} {t : Spanned} (h : ts = t :: us)
        (h' : us = vs ++ rest) : ts = t :: vs ++ rest := by
      rw [h, h']
      rfl
    rintro ⟨h, he⟩
    unfold routeStatement at he
    obtain ⟨⟨_, r₁⟩, he₁, he⟩ := bind_eq_ok.mp he
    obtain ⟨⟨a, r₂⟩, he₂, he⟩ := bind_eq_ok.mp he
    obtain ⟨⟨_, r₃⟩, he₃, he⟩ := bind_eq_ok.mp he
    obtain ⟨⟨b, r₄⟩, he₄, he⟩ := bind_eq_ok.mp he
    obtain ⟨⟨_, r₅⟩, he₅, he⟩ := bind_eq_ok.mp he
    obtain ⟨⟨c, r₆⟩, he₆, he⟩ := bind_eq_ok.mp he
    obtain ⟨⟨_, r₇⟩, he₇, he⟩ := bind_eq_ok.mp he
    obtain ⟨⟨d, r₈⟩, he₈, he⟩ := bind_eq_ok.mp he
    cases he
    obtain ⟨t₁, h₁, ht₁⟩ := one_keyword.mp ⟨_, he₁⟩
    obtain ⟨t₂, h₂, ht₂⟩ := one_ident.mp (next_leaves.mp ⟨_, he₂⟩)
    obtain ⟨t₃, h₃, ht₃⟩ := one_mark.mp (next_leaves.mp ⟨_, he₃⟩)
    obtain ⟨t₄, h₄, ht₄⟩ := one_ident.mp (next_leaves.mp ⟨_, he₄⟩)
    obtain ⟨t₅, h₅, ht₅⟩ := one_keyword.mp (next_leaves.mp ⟨_, he₅⟩)
    obtain ⟨t₆, h₆, ht₆⟩ := one_ident.mp (next_leaves.mp ⟨_, he₆⟩)
    obtain ⟨t₇, h₇, ht₇⟩ := one_mark.mp (next_leaves.mp ⟨_, he₇⟩)
    obtain ⟨t₈, h₈, ht₈⟩ := one_ident.mp (next_leaves.mp ⟨_, he₈⟩)
    refine ⟨[t₁, t₂, t₃, t₄, t₅, t₆, t₇, t₈], ?_, ?_⟩
    · exact cons h₁ (cons h₂ (cons h₃ (cons h₄ (cons h₅ (cons h₆ (cons h₇ (cons h₈ rfl)))))))
    · simp [Statement.tokens, *]
  · rintro ⟨us, rfl, hu⟩
    obtain ⟨⟨_, b₁, e₁⟩, us₁, rfl, rfl, hu₁⟩ := List.map_eq_cons_iff.mp hu
    obtain ⟨⟨_, b₂, e₂⟩, us₂, rfl, rfl, hu₂⟩ := List.map_eq_cons_iff.mp hu₁
    obtain ⟨⟨_, b₃, e₃⟩, us₃, rfl, rfl, hu₃⟩ := List.map_eq_cons_iff.mp hu₂
    obtain ⟨⟨_, b₄, e₄⟩, us₄, rfl, rfl, hu₄⟩ := List.map_eq_cons_iff.mp hu₃
    obtain ⟨⟨_, b₅, e₅⟩, us₅, rfl, rfl, hu₅⟩ := List.map_eq_cons_iff.mp hu₄
    obtain ⟨⟨_, b₆, e₆⟩, us₆, rfl, rfl, hu₆⟩ := List.map_eq_cons_iff.mp hu₅
    obtain ⟨⟨_, b₇, e₇⟩, us₇, rfl, rfl, hu₇⟩ := List.map_eq_cons_iff.mp hu₆
    obtain ⟨⟨_, b₈, e₈⟩, us₈, rfl, rfl, hu₈⟩ := List.map_eq_cons_iff.mp hu₇
    cases List.map_eq_nil_iff.mp hu₈
    exact ⟨by simp only [List.length_append, List.length_cons]; omega, rfl⟩

end tokens

end Reader

end SceneGraph
