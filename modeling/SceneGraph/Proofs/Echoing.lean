import SceneGraph.Proofs.Adjoining
import SceneGraph.Proofs.Spelling
import SceneGraph.Proofs.Trimming

/-!
Values as texts. The text of a value without floats and nodes is read as that value again, where its
strings have no characters but those of ASCII that can be seen, and the space.
-/

namespace SceneGraph

open Lexer

variable {α : Type} {w : Spelling α} {a : α} {as : List α} {item : α → String} {rest : List Char}
  {us : List Token}

/-- A character of ASCII with a glyph, or the space. -/
def IsPlain (c : Char) : Prop := 0x20 ≤ c.toNat ∧ c.toNat ≤ 0x7e

def isClosing (c : Char) : Bool := isGap c || c = ']' || c = '\x7d'

/-- What follows does not go on with the value in front of it. -/
def Closes (rest : List Char) : Prop := ∀ c ∈ rest.head?, isClosing c

/-- The text is read as the element. -/
def Echoes (w : Spelling α) (a : α) (s : String) : Prop :=
  ∃ t, w.value? t = some a ∧ ∀ rest, Closes rest → Opens s.toList rest t

section elements

theorem not_isWordPart_of_isClosing {c : Char} (h : isClosing c) :
    ¬isWordPart c ∧ ¬continues c := by
  simp only [isClosing, isGap, Bool.or_eq_true, decide_eq_true_eq] at h
  rcases h with (((((rfl | rfl) | rfl) | rfl) | rfl) | rfl) | rfl <;> decide

theorem Closes.run_eq_zero (h : Closes rest) : run isWordPart rest = 0 := by
  cases rest with
  | nil => rfl
  | cons c more => rw [run_cons, if_neg (not_isWordPart_of_isClosing (h c rfl)).1]

theorem echoes_bool (b : Bool) : Echoes .bool b (Value.boolText b) := by
  cases b with
  | false => exact ⟨.keyword .false, rfl, fun _ h ↦ opens_keyword .false h.run_eq_zero⟩
  | true => exact ⟨.keyword .true, rfl, fun _ h ↦ opens_keyword .true h.run_eq_zero⟩

theorem echoes_int32 (i : Int32) : Echoes .int32 i (toString i.toInt) := by
  have low := i.le_toInt
  have high := i.toInt_lt
  refine ⟨.int i.toInt, ?_, fun rest h ↦ opens_int (by omega) (by omega) fun c hc ↦ ?_⟩
  · have range : -0x80000000 ≤ i.toInt ∧ i.toInt < 0x80000000 := by omega
    change (if _ then _ else _) = _
    rw [if_pos range, Int32.ofInt_toInt]
  · exact (not_isWordPart_of_isClosing (h c hc)).2

theorem escape_of_isPlain {c : Char} (h : IsPlain c) :
    Text.escape c = if c = '"' ∨ c = '\\' then ['\\', c] else [c] := by
  have visible : Text.isPrintable c := by
    have small : c.toNat < 0x80 := Nat.lt_of_le_of_lt h.2 (by decide)
    rw [Text.isPrintable, if_pos small, Bool.and_eq_true, decide_eq_true_eq, decide_eq_true_eq]
    exact ⟨h.1, Nat.lt_succ_of_le h.2⟩
  have control {d : Char} (hd : d.toNat < 0x20) : c ≠ d := by
    rintro rfl
    exact Nat.not_lt_of_le h.1 hd
  rw [Text.escape, if_neg (control (by decide)), if_neg (control (by decide)),
    if_neg (control (by decide)), if_neg (control (by decide)), if_pos visible]

theorem quoted_eq {s : String} (h : ∀ c ∈ s.toList, IsPlain c) :
    (Text.quoted s).toList = '"' :: escape s.toList ++ ['"'] := by
  rw [Text.quoted, String.toList_ofList, escape,
    List.flatMap_congr fun c hc ↦ escape_of_isPlain (h c hc)]

theorem echoes_string {s : String} (h : ∀ c ∈ s.toList, IsPlain c) :
    Echoes .string s (Text.quoted s) :=
  ⟨.string s, rfl, fun _ _ ↦ quoted_eq h ▸ opens_string s⟩

theorem Echoes.exists_token {s : String} (h : Echoes w a s) : ∃ t, w.value? t = some a ∧
    ∀ {rest us}, Closes rest → Gives rest us → Gives (s.toList ++ rest) ([t] ++ us) := by
  obtain ⟨t, ht, opens⟩ := h
  exact ⟨t, ht, fun closes later ↦ later.token (opens _ closes)⟩

end elements

section lists

theorem closes_cons {c : Char} {cs : List Char} (h : isClosing c) : Closes (c :: cs) := by
  intro d hd
  cases hd
  exact h

/-- The texts of elements with a space between any two of them, up to the end of the list. -/
theorem exists_items (h : ∀ a ∈ as, Echoes w a (item a)) : ∃ ts, w.Lists ts as ∧
    ∀ {rest us}, Gives rest us →
      Gives ([' '].intercalate ((as.map item).map String.toList) ++ ']' :: rest)
        (ts ++ .mark .closeBracket :: us) := by
  have bracket : Mark.closeBracket ≠ .dot := by decide
  induction as with
  | nil => exact ⟨[], rfl, fun later ↦ later.token (opens_mark bracket)⟩
  | cons a as ih =>
    obtain ⟨⟨t, ht, opens⟩, others⟩ := List.forall_mem_cons.mp h
    obtain ⟨ts, listed, gives⟩ := ih others
    refine ⟨t :: ts, congrArg₂ List.cons ht listed, fun {rest us} later ↦ ?_⟩
    cases as with
    | nil =>
      cases List.map_eq_nil_iff.mp listed
      have behind : Closes (']' :: rest) := closes_cons rfl
      have last := (later.token (opens_mark bracket)).token (opens _ behind)
      rwa [List.map_singleton, List.map_singleton, List.intercalate_singleton]
    | cons b as =>
      have behind {cs : List Char} : Closes (' ' :: cs) := closes_cons rfl
      have next := ((gives later).blank rfl).token (opens _ behind)
      simp only [List.map_cons, List.intercalate_cons_cons, List.append_assoc] at next ⊢
      exact next

theorem exists_list (h : ∀ a ∈ as, Echoes w a (item a)) : ∃ ts, w.Lists ts as ∧
    ∀ {rest us}, Gives rest us → Gives ((Value.listText item as).toList ++ rest)
      (.mark .openBracket :: ts ++ [.mark .closeBracket] ++ us) := by
  have bracket : Mark.openBracket ≠ .dot := by decide
  obtain ⟨ts, listed, gives⟩ := exists_items h
  refine ⟨ts, listed, fun {rest us} later ↦ ?_⟩
  have list := (gives later).token (opens_mark bracket)
  simpa [Value.listText, Mark.char] using list

end lists

namespace Value

variable {t : FieldType} {v : Value}

/-- The value is of the type, which has neither floats nor nodes, and the valid strings in it are
plain. What an array has behind its valid elements may be anything. -/
inductive Legible : Value → FieldType → Prop
  | bool (b : Bool) : Legible (.bool b) (.single .bool)
  | int32 (i : Int32) : Legible (.int32 i) (.single .int32)
  | string {s : String} : (∀ c ∈ s.toList, IsPlain c) → Legible (.string s) (.single .string)
  | bools (a : Counted Bool) : Legible (.bools a) (.multi .bool)
  | ints (a : Counted Int32) : Legible (.ints a) (.multi .int32)
  | strings {a : Counted String} : (∀ s ∈ a.toList, ∀ c ∈ s.toList, IsPlain c) →
    Legible (.strings a) (.multi .string)

theorem Legible.eqv_trim (h : v.Legible t) : v.eqv v.trim := by
  have arrays {α : Type} [DecidableEq α] (a : Counted α) : a.eqv (· == ·) a := by
    simp [Counted.eqv, List.zip_eq_zipWith, List.zipWith_self]
  rw [Value.eqv_trim]
  cases h with
  | bool | int32 | string => exact beq_self_eq_true _
  | bools a => exact arrays a
  | ints a => exact arrays a
  | strings => exact arrays _

theorem Legible.exists_tokens (h : v.Legible t) : ∃ ts, t.Spells ts v.trim ∧
    ∀ {rest us}, Closes rest → Gives rest us → Gives (v.text.toList ++ rest) (ts ++ us) := by
  cases h with
  | bool b =>
    obtain ⟨t, ht, gives⟩ := (echoes_bool b).exists_token
    exact ⟨[t], .one rfl ht, gives⟩
  | int32 i =>
    obtain ⟨t, ht, gives⟩ := (echoes_int32 i).exists_token
    exact ⟨[t], .one rfl ht, gives⟩
  | string plain =>
    obtain ⟨t, ht, gives⟩ := (echoes_string plain).exists_token
    exact ⟨[t], .one rfl ht, gives⟩
  | bools a =>
    obtain ⟨ts, listed, gives⟩ := exists_list fun b (_ : b ∈ a.toList) ↦ echoes_bool b
    exact ⟨_, .list listed, fun _ later ↦ gives later⟩
  | ints a =>
    obtain ⟨ts, listed, gives⟩ := exists_list fun i (_ : i ∈ a.toList) ↦ echoes_int32 i
    exact ⟨_, .list listed, fun _ later ↦ gives later⟩
  | strings plain =>
    obtain ⟨ts, listed, gives⟩ := exists_list fun s hs ↦ echoes_string (plain s hs)
    exact ⟨_, .list listed, fun _ later ↦ gives later⟩

theorem Legible.element_ne (h : v.Legible t) : t.element ≠ .node := by
  cases h <;> decide

/-- Before what closes it, the value is read from its text, and nothing of the rest is. -/
theorem Legible.exists_reading (h : v.Legible t) {text : String} {us : List Token}
    (closes : Closes text.toList) (later : Gives text.toList us) : ∃ tokens,
    tokenize (v.text ++ text) = .ok tokens ∧ ∀ env d, ∃ r : Reader.Rest tokens,
      Reader.fieldValue env d t tokens = .ok (v.trim, d, r) ∧ r.1.map Spanned.token = us := by
  obtain ⟨ts, spells, gives⟩ := h.exists_tokens
  obtain ⟨tokens, read, spelled⟩ := gives closes later 0
  refine ⟨tokens, by rw [tokenize, String.toList_append, read], fun env d ↦ ?_⟩
  obtain ⟨own, rest, rfl, own_eq, rest_eq⟩ := List.map_eq_append_iff.mp spelled
  obtain ⟨lt, found⟩ : Reader.Leaves (Reader.plainValue env t (own ++ rest)) v.trim rest :=
    (Reader.plainValue_leaves h.element_ne).mpr ⟨own, rfl, own_eq ▸ spells⟩
  refine ⟨⟨rest, lt⟩, ?_, rest_eq⟩
  unfold Reader.fieldValue
  rw [if_pos h.element_ne, found]
  rfl

/-- The text of a value without floats and nodes, and with plain strings, is read to its end as a
value that equals it, whatever its arrays have behind their valid elements. -/
theorem read_text (h : v.Legible t) : ∃ tokens, tokenize v.text = .ok tokens ∧
    ∀ env d, ∃ v' r, Reader.fieldValue env d t tokens = .ok (v', d, r) ∧ r.1 = [] ∧ v.eqv v' := by
  have closes : Closes "".toList := by
    rintro c ⟨⟩
  obtain ⟨tokens, read, reading⟩ := h.exists_reading closes gives_nil
  refine ⟨tokens, by rwa [String.append_empty] at read, fun env d ↦ ?_⟩
  obtain ⟨r, found, none⟩ := reading env d
  exact ⟨v.trim, r, found, List.map_eq_nil_iff.mp none, h.eqv_trim⟩

/-- Quotes, a run of backslashes and an empty string; the string behind them has characters that the
reader would not get back. -/
def quotes : Counted String := ⟨["\"\\\\", "", "\n\u3000"], 2, by decide⟩

theorem read_text_quotes : ∃ tokens,
    tokenize "[\"\\\"\\\\\\\\\" \"\"]" = .ok tokens ∧ ∀ env d, ∃ v' r,
      Reader.fieldValue env d (.multi .string) tokens = .ok (v', d, r) ∧ r.1 = [] ∧
        (strings quotes).eqv v' := by
  have plain : ∀ s ∈ quotes.toList, ∀ c ∈ s.toList, IsPlain c := by
    simp [quotes, Counted.toList, IsPlain]
  have text : (strings quotes).text = "[\"\\\"\\\\\\\\\" \"\"]" := by decide +kernel
  exact text ▸ read_text (.strings plain)

end Value

end SceneGraph
