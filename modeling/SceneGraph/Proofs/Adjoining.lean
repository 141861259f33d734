import SceneGraph.Proofs.Rereading

/-!
Tokens with nothing between them. A word ends before what is no part of a word, a numeral before
what does not go on with it, and a string and a bracket end by themselves.
-/

namespace SceneGraph

namespace Lexer

variable {cs w rest : List Char} {c : Char} {t : Token} {ts : List Token}

section stands

theorem not_starts_of_isWordStart (h : isWordStart c) : ¬isGap c ∧ c ≠ '#' ∧ c ≠ '"' := by
  refine ⟨fun gap ↦ (not_starts_of_isGap gap).2 h, ?_, ?_⟩
  · rintro rfl
    cases h
  · rintro rfl
    cases h

theorem stands_word (h : w ∈ Rule.word.pattern) (next : run isWordPart rest = 0) :
    Stands w rest .word := by
  refine ⟨by simp, lexeme?_eq_some_iff.mp ?_⟩
  obtain ⟨_, ⟨c, hc, rfl⟩, v, hv, rfl⟩ := h
  obtain ⟨gap, comment, quote⟩ := not_starts_of_isWordStart hc
  have all : run isWordPart (v ++ rest) = v.length := by rw [run_append (mem_many.mp hv), next]; rfl
  change lexeme? (c :: (v ++ rest)) = some (.word, v.length + 1)
  rw [lexeme?, if_neg gap, if_neg comment, if_neg quote, if_pos hc, all, Nat.add_comm]

theorem stands_string (h : w ∈ Rule.string.pattern) : Stands w rest .string := by
  refine ⟨by simp, lexeme?_eq_some_iff.mp ?_⟩
  obtain ⟨_, ⟨c, hc, rfl⟩, v, hv, rfl⟩ := h
  obtain rfl := of_decide_eq_true hc
  have closed : quoted? (v ++ rest) = some v.length :=
    quoted?_eq_some_iff.mpr ((heads_append le_rfl).mpr (heads_length.mpr hv))
  change lexeme? ('"' :: (v ++ rest)) = some (.string, v.length + 1)
  rw [lexeme?, if_neg (by decide), if_neg (by decide), if_pos rfl, closed]
  rfl

theorem stands_mark {m : Mark} (h : m ≠ .dot) : Stands [m.char] rest (.mark m) := by
  refine ⟨by simp, lexeme?_eq_some_iff.mp ?_⟩
  cases m with
  | dot => exact absurd rfl h
  | openBrace | closeBrace | openBracket | closeBracket => rfl

/-- A point with a digit behind it starts a number. -/
theorem stands_dot (next : digits rest = 0) : Stands ['.'] rest (.mark .dot) := by
  refine ⟨by simp, lexeme?_eq_some_iff.mp ?_⟩
  have found : lexeme? ('.' :: rest) =
      ((unsigned? ('.' :: rest)).map fun l ↦ (l.1, 0 + l.2)).or (some (.mark .dot, 1)) :=
    lexeme?_of_startsNumber rfl
  have none : unsigned? ('.' :: rest) = none := if_pos next
  rw [List.singleton_append, found, none]
  rfl

/-- A character that may go on with a decimal numeral. -/
def continues (c : Char) : Bool :=
  c.isDigit || c = '.' || c = 'e' || c = 'E' || c = 'x' || c = 'X'

theorem unsigned?_numeral (h : w ∈ numeral) (next : ∀ c ∈ rest.head?, ¬continues c) :
    unsigned? (w ++ rest) = some (.int, w.length) := by
  obtain ⟨some, each⟩ := mem_several.mp h
  have other {c : Char} {more : List Char} (hc : rest = c :: more) :
      ¬c.isDigit ∧ c ≠ '.' ∧ ¬(c = 'e' ∨ c = 'E') ∧ ¬(c = 'x' ∨ c = 'X') := by
    have stops : ¬continues c := next c (by rw [hc]; rfl)
    simpa [continues, and_assoc] using stops
  have all : digits (w ++ rest) = w.length := by
    have stops : run Char.isDigit rest = 0 := by
      cases rest with
      | nil => rfl
      | cons c rest => rw [run_cons, if_neg (other rfl).1]
    rw [digits, run_append each, stops, Nat.add_zero]
  have decimal : hexadecimal (w ++ rest) = 0 := by
    by_contra hex
    obtain ⟨-, one, -, c, more, second, hc⟩ := heads_hexadecimal hex
    rw [← one, all, List.drop_left] at second
    exact (other second).2.2.2 hc
  unfold unsigned?
  dsimp only
  rw [all, if_neg (mt List.length_eq_zero_iff.mp some), if_neg (not_not.mpr decimal),
    List.drop_left]
  split
  · exact absurd rfl (other rfl).2.1
  · have powerless : exponent rest = 0 := by
      cases rest with
      | nil => rfl
      | cons c rest => exact if_neg (other rfl).2.2.1
    exact if_pos powerless

theorem number?_numeral {s : List Char} (hs : s ∈ optionalSign) (h : w ∈ numeral)
    (next : ∀ c ∈ rest.head?, ¬continues c) :
    number? (s ++ (w ++ rest)) = some (.int, s.length + w.length) := by
  obtain ⟨some, each⟩ := mem_several.mp h
  obtain ⟨d, v, rfl⟩ := List.exists_cons_of_ne_nil some
  have digit : d.isDigit := each d List.mem_cons_self
  have all : sign (s ++ (d :: v ++ rest)) = s.length :=
    sign_eq ((heads_append le_rfl).mpr (heads_length.mpr hs)) List.drop_left
      (not_isSign_of_isDigit digit)
  rw [number?, all, List.drop_left, unsigned?_numeral h next]
  rfl

theorem stands_int (h : w ∈ Rule.int.pattern) (next : ∀ c ∈ rest.head?, ¬continues c) :
    Stands w rest .int := by
  obtain ⟨s, hs, v, hv, rfl⟩ := h
  change Stands (s ++ v) rest .int
  have found := number?_numeral hs hv next
  obtain ⟨c, more, split, starts⟩ : ∃ c more, s ++ (v ++ rest) = c :: more ∧ startsNumber c := by
    rcases hs with hs | ⟨c, hc, rfl⟩
    · obtain ⟨some, each⟩ := mem_several.mp hv
      obtain ⟨d, v, rfl⟩ := List.exists_cons_of_ne_nil some
      have digit : d.isDigit := each d List.mem_cons_self
      cases hs
      exact ⟨d, v ++ rest, rfl, by simp [startsNumber, digit]⟩
    · exact ⟨c, v ++ rest, rfl, by simp [startsNumber, hc]⟩
  refine ⟨by simp, lexeme?_eq_some_iff.mp ?_⟩
  rw [List.append_assoc, List.length_append, split, lexeme?_of_startsNumber starts, ← split, found]
  rfl

end stands

section opens

/-- At the head of the text stands `w`, which is the token. -/
def Opens (w rest : List Char) (t : Token) : Prop :=
  ∃ r, Stands w rest r ∧ token r w = .ok (some t)

/-- A name is a word that no keyword is spelled like. -/
def IsName (s : String) : Prop := s.toList ∈ Rule.word.pattern ∧ ∀ k : Keyword, k.spelling ≠ s

theorem opens_name {s : String} (h : IsName s) (next : run isWordPart rest = 0) :
    Opens s.toList rest (.ident s) := by
  refine ⟨.word, stands_word h.1 next, ?_⟩
  have none : Keyword.ofSpelling? s = none :=
    List.find?_eq_none.mpr fun k _ ↦ by simpa using h.2 k
  rw [token, String.ofList_toList, wordToken, none]

theorem opens_keyword (k : Keyword) (next : run isWordPart rest = 0) :
    Opens k.spelling.toList rest (.keyword k) := by
  refine ⟨.word, stands_word ?_ next, ?_⟩
  · cases k <;> decide
  · rw [token, String.ofList_toList]
    cases k <;> rfl

theorem opens_mark {m : Mark} (h : m ≠ .dot) : Opens [m.char] rest (.mark m) :=
  ⟨.mark m, stands_mark h, rfl⟩

theorem opens_dot (next : digits rest = 0) : Opens ['.'] rest (.mark .dot) :=
  ⟨.mark .dot, stands_dot next, rfl⟩

theorem opens_int {n : Int} (low : -0x8000000000000000 ≤ n) (high : n < 0x8000000000000000)
    (next : ∀ c ∈ rest.head?, ¬continues c) : Opens (toString n).toList rest (.int n) := by
  refine ⟨.int, stands_int (int_mem_pattern n) next, ?_⟩
  rw [token, int?, signed_toString, if_pos ⟨low, high⟩]

theorem opens_string (s : String) :
    Opens ('"' :: escape s.toList ++ ['"']) rest (.string s) := by
  refine ⟨.string, stands_string ?_, by rw [token_string, String.ofList_toList]⟩
  exact ⟨['"'], ⟨'"', rfl, rfl⟩, _, Language.append_mem_mul (escape_mem _) ⟨'"', rfl, rfl⟩, rfl⟩

end opens

section gives

/-- Wherever the text begins, it is read as the tokens. -/
def Gives (cs : List Char) (ts : List Token) : Prop :=
  ∀ offset, ∃ us, scan offset cs = .ok us ∧ us.map Spanned.token = ts

theorem gives_nil : Gives [] [] := fun _ ↦ ⟨[], scan_nil, rfl⟩

theorem Gives.blank (h : Gives cs ts) (hc : isGap c) : Gives (c :: cs) ts := by
  intro offset
  rw [scan_blank hc]
  exact h _

theorem Gives.token (later : Gives rest ts) (h : Opens w rest t) : Gives (w ++ rest) (t :: ts) := by
  intro offset
  obtain ⟨r, stands, ht⟩ := h
  obtain ⟨us, read, tokens⟩ := later (offset + byteLength w)
  refine ⟨⟨t, offset, offset + byteLength w⟩ :: us, ?_, congrArg (t :: ·) tokens⟩
  exact (scan_stands_eq_ok stands).mpr ⟨t, us, ht, read, rfl⟩

end gives

end Lexer

end SceneGraph
