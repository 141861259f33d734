import SceneGraph.Proofs.Heading

/-!
Lexemes. Every rule has a language of words, and the lexeme at the head of a text is the longest
word of any rule that stands there. A blank ends every lexeme that is no gap.
-/

namespace SceneGraph

def Mark.char : Mark → Char
  | .openBrace => '\x7b'
  | .closeBrace => '\x7d'
  | .openBracket => '['
  | .closeBracket => ']'
  | .dot => '.'

theorem Mark.ofChar?_eq_some {c : Char} {m : Mark} : Mark.ofChar? c = some m ↔ c = m.char := by
  constructor
  · unfold Mark.ofChar?
    intro h
    repeat' split at h
    all_goals
      cases h <;> assumption
  · rintro rfl
    cases m <;> rfl

namespace Lexer

/-- The words of a rule. -/
def Rule.pattern : Rule → Language Char
  | .gap => several isGap + character (· = '#') * many (· ≠ '\n')
  | .mark m => character (· = m.char)
  | .int => optionalSign * unsigned .int
  | .hex => optionalSign * unsigned .hex
  | .float => optionalSign * unsigned .float
  | .string => character (· = '"') * quotedTail
  | .word => character isWordStart * many isWordPart

section lexeme

variable {cs rest : List Char} {c : Char} {n k : Nat} {r r' : Rule}

theorem heads_pattern_of_number? (h : number? cs = some (r, n)) : Heads r.pattern cs n := by
  have heads := heads_of_number? h
  cases r with
  | int | hex | float => exact heads
  | gap | mark _ | string | word =>
    obtain ⟨i, j, -, hj, -⟩ := heads_mul.mp heads
    exact absurd hj.mem (Language.notMem_zero _)

theorem heads_of_lexeme? (h : lexeme? cs = some (r, n)) : Heads r.pattern cs n := by
  unfold lexeme? at h
  split at h
  · cases h
  · next c cs =>
    split at h
    · next gap =>
      cases h
      refine heads_add.mpr (.inl (heads_several.mpr ⟨by omega, ?_⟩))
      rw [run_cons, if_pos gap, Nat.add_comm]
    split at h
    · next comment =>
      cases h
      exact heads_add.mpr (.inr (heads_character_mul.mpr
        ⟨c, cs, _, rfl, decide_eq_true comment, heads_many.mpr le_rfl, rfl⟩))
    split at h
    · next quote =>
      obtain ⟨k, closed, h⟩ := Option.map_eq_some_iff.mp h
      cases h
      exact heads_character_mul.mpr ⟨c, cs, k, rfl, decide_eq_true quote,
        quoted?_eq_some_iff.mp closed, Nat.add_comm ..⟩
    split at h
    · next start =>
      cases h
      exact heads_character_mul.mpr ⟨c, cs, _, rfl, start, heads_many.mpr le_rfl, rfl⟩
    split at h
    · next found =>
      cases h
      exact heads_pattern_of_number? found
    · obtain ⟨m, hm, h⟩ := Option.map_eq_some_iff.mp h
      cases h
      have hc := Mark.ofChar?_eq_some.mp hm
      exact heads_character.mpr ⟨c, cs, rfl, decide_eq_true hc, rfl⟩

/-- A character with which a number starts. -/
def startsNumber (c : Char) : Bool := isSign c || c.isDigit || c = '.'

theorem not_starts_of_isGap (h : isGap c) : ¬startsNumber c ∧ ¬isWordStart c := by
  simp only [isGap, Bool.or_eq_true_iff, decide_eq_true_eq] at h
  rcases h with (((rfl | rfl) | rfl) | rfl) | rfl <;> decide

theorem not_isAlpha_of_isDigit (h : c.isDigit) : ¬c.isAlpha := by
  have digit : c.val ≤ '9'.val := of_decide_eq_true (Bool.and_eq_true_iff.mp h).2
  intro alpha
  rcases Bool.or_eq_true_iff.mp alpha with upper | lower
  · have upper : 'A'.val ≤ c.val ∧ c.val ≤ 'Z'.val := of_decide_eq_true upper
    exact absurd (UInt32.le_trans upper.1 digit) (by decide)
  · have lower : 'a'.val ≤ c.val := of_decide_eq_true (Bool.and_eq_true_iff.mp lower).1
    exact absurd (UInt32.le_trans lower digit) (by decide)

theorem not_isWordStart_of_startsNumber (h : startsNumber c) : ¬isWordStart c := by
  simp only [startsNumber, isSign, Bool.or_eq_true_iff, decide_eq_true_eq] at h
  rcases h with ((rfl | rfl) | digit) | rfl
  case inl.inr =>
    intro word
    rcases Bool.or_eq_true_iff.mp word with alpha | line
    · exact not_isAlpha_of_isDigit digit alpha
    · obtain rfl := of_decide_eq_true line
      cases digit
  all_goals decide

theorem lexeme?_of_startsNumber (h : startsNumber c) :
    lexeme? (c :: cs) = (number? (c :: cs)).or ((Mark.ofChar? c).map fun m ↦ (.mark m, 1)) := by
  have gap : ¬isGap c := fun gap ↦ (not_starts_of_isGap gap).1 h
  have comment : c ≠ '#' := by rintro rfl; cases h
  have quote : c ≠ '"' := by rintro rfl; cases h
  rw [lexeme?, if_neg gap, if_neg comment, if_neg quote,
    if_neg (not_isWordStart_of_startsNumber h)]
  cases number? (c :: cs) <;> rfl

theorem reaches_number (h : Heads (optionalSign * unsigned r) cs n) :
    Reaches (lexeme? cs) r n := by
  obtain ⟨r', k, found, le, same⟩ := number?_reaches h
  obtain ⟨i, j, hi, hj, -⟩ := heads_mul.mp h
  obtain ⟨d, more, next, hd⟩ := exists_of_heads_unsigned hj
  have starts : ∃ c rest, cs = c :: rest ∧ startsNumber c := by
    rcases heads_add.mp hi with hi | hi
    · obtain rfl := heads_one.mp hi
      exact ⟨d, more, next, by simpa [startsNumber, or_assoc] using .inr hd⟩
    · obtain ⟨c, rest, rfl, hc, -⟩ := heads_character.mp hi
      exact ⟨c, rest, rfl, by simp [startsNumber, hc]⟩
  obtain ⟨c, rest, rfl, hc⟩ := starts
  exact ⟨r', k, by rw [lexeme?_of_startsNumber hc, found]; rfl, le, same⟩

theorem reaches_mark {m : Mark} : Reaches (lexeme? (m.char :: rest)) (.mark m) 1 := by
  cases m with
  | dot =>
    have found : lexeme? ('.' :: rest) =
        ((unsigned? ('.' :: rest)).map fun l ↦ (l.1, 0 + l.2)).or (some (.mark .dot, 1)) :=
      lexeme?_of_startsNumber rfl
    by_cases fraction : digits rest = 0
    · have none : unsigned? ('.' :: rest) = none := if_pos fraction
      rw [none] at found
      exact ⟨_, 1, found, le_rfl, fun _ ↦ rfl⟩
    · rw [unsigned?_fraction fraction] at found
      exact ⟨.float, _, found, by omega, by omega⟩
  | openBrace | closeBrace | openBracket | closeBracket =>
    exact ⟨_, 1, rfl, le_rfl, fun _ ↦ rfl⟩

theorem lexeme?_reaches (h : Heads r.pattern cs n) : Reaches (lexeme? cs) r n := by
  cases r with
  | gap =>
    rcases heads_add.mp h with h | h
    · obtain ⟨pos, le⟩ := heads_several.mp h
      obtain ⟨c, rest, rfl, gap⟩ := exists_of_run_pos (Nat.lt_of_lt_of_le pos le)
      rw [run_cons, if_pos gap] at le
      exact ⟨.gap, _, if_pos gap, by omega, fun _ ↦ rfl⟩
    · obtain ⟨c, rest, j, rfl, hc, hj, rfl⟩ := heads_character_mul.mp h
      obtain rfl := of_decide_eq_true hc
      have le := heads_many.mp hj
      exact ⟨.gap, 1 + run (· ≠ '\n') rest, rfl, by omega, fun _ ↦ rfl⟩
  | mark m =>
    obtain ⟨c, rest, rfl, hc, rfl⟩ := heads_character.mp h
    obtain rfl := of_decide_eq_true hc
    exact reaches_mark
  | int | hex | float => exact reaches_number h
  | string =>
    obtain ⟨c, rest, j, rfl, hc, hj, rfl⟩ := heads_character_mul.mp h
    obtain rfl := of_decide_eq_true hc
    refine ⟨.string, j + 1, ?_, by omega, fun _ ↦ rfl⟩
    rw [lexeme?, if_neg (by decide), if_neg (by decide), if_pos rfl, quoted?_eq_some_iff.mpr hj]
    rfl
  | word =>
    obtain ⟨c, rest, j, rfl, hc, hj, rfl⟩ := heads_character_mul.mp h
    have gap : ¬isGap c := fun gap ↦ (not_starts_of_isGap gap).2 hc
    have comment : c ≠ '#' := by rintro rfl; cases hc
    have quote : c ≠ '"' := by rintro rfl; cases hc
    have le := heads_many.mp hj
    refine ⟨.word, 1 + run isWordPart rest, ?_, by omega, fun _ ↦ rfl⟩
    rw [lexeme?, if_neg gap, if_neg comment, if_neg quote, if_pos hc]

/-- The word of the rule that stands at the head, and no rule has a longer one there. -/
structure Longest (cs : List Char) (r : Rule) (n : Nat) : Prop where
  heads : Heads r.pattern cs n
  le : ∀ {r' : Rule} {n' : Nat}, Heads r'.pattern cs n' → n' ≤ n

theorem lexeme?_eq_some_iff : lexeme? cs = some (r, n) ↔ Longest cs r n := by
  constructor
  · intro found
    refine ⟨heads_of_lexeme? found, fun h ↦ ?_⟩
    obtain ⟨r', n', found', le, -⟩ := lexeme?_reaches h
    rw [found] at found'
    cases found'
    exact le
  · intro longest
    obtain ⟨r', n', found, le, same⟩ := lexeme?_reaches longest.heads
    have all : n = n' := Nat.le_antisymm le (longest.le (heads_of_lexeme? found))
    rw [found, same all, all]

theorem lexeme?_eq_none_iff : lexeme? cs = none ↔ ∀ (r : Rule) n, ¬Heads r.pattern cs n := by
  constructor
  · intro none r n h
    obtain ⟨r', n', found, -⟩ := lexeme?_reaches h
    rw [none] at found
    cases found
  · intro none
    cases found : lexeme? cs with
    | none => rfl
    | some found' => exact absurd (heads_of_lexeme? found) (none _ _)

theorem longest_of_mem {w : List Char} (h : w ∈ r.pattern) : Longest w r w.length :=
  ⟨heads_length.mpr h, fun h' ↦ h'.le⟩

theorem mem_pattern_iff {w : List Char} : w ∈ r.pattern ↔ lexeme? w = some (r, w.length) := by
  rw [lexeme?_eq_some_iff]
  exact ⟨longest_of_mem, fun h ↦ heads_length.mp h.heads⟩

instance {w : List Char} : Decidable (w ∈ r.pattern) := decidable_of_iff _ mem_pattern_iff.symm

theorem Longest.pos (h : Longest cs r n) : 0 < n := lexeme?_pos (lexeme?_eq_some_iff.mpr h)

theorem Longest.of_append {more : List Char} (h : Longest (cs ++ more) r n)
    (fits : n ≤ cs.length) : Longest cs r n :=
  ⟨(heads_append fits).mp h.heads, fun h' ↦ h.le ((heads_append h'.le).mpr h')⟩

end lexeme

section blank

variable {l m : Language Char} {cs more : List Char} {c : Char} {n : Nat} {r : Rule}
  {p : Char → Bool}

/-- No word has a blank in it. -/
def Blankless (l : Language Char) : Prop := ∀ w ∈ l, ∀ c ∈ w, ¬isGap c

theorem blankless_one : Blankless 1 := by
  rintro _ rfl c hc
  cases hc

theorem Blankless.add (hl : Blankless l) (hm : Blankless m) : Blankless (l + m) := by
  rintro w (h | h)
  exacts [hl w h, hm w h]

theorem Blankless.mul (hl : Blankless l) (hm : Blankless m) : Blankless (l * m) := by
  rintro _ ⟨u, hu, v, hv, rfl⟩ c hc
  rcases List.mem_append.mp hc with hc | hc
  exacts [hl u hu c hc, hm v hv c hc]

/-- None of the blanks is such a character. -/
def Excludes (p : Char → Bool) : Prop := ∀ c ∈ [' ', '\t', '\r', '\n', ','], p c = false

instance : Decidable (Excludes p) := List.decidableBAll (fun c ↦ p c = false) _

theorem Excludes.not_isGap (h : Excludes p) (hc : p c) : ¬isGap c := by
  intro gap
  have mem : c ∈ [' ', '\t', '\r', '\n', ','] := by
    simpa [isGap, or_assoc] using gap
  rw [h c mem] at hc
  cases hc

theorem Excludes.many (h : Excludes p) : Blankless (many p) :=
  fun _ hw _ hc ↦ h.not_isGap (mem_many.mp hw _ hc)

theorem Excludes.character (h : Excludes p) : Blankless (character p) := by
  rintro _ ⟨c, hc, rfl⟩ d hd
  rw [List.mem_singleton.mp hd]
  exact h.not_isGap hc

theorem Excludes.several (h : Excludes p) : Blankless (several p) := h.character.mul h.many

theorem blankless_pattern (gap : r ≠ .gap) (string : r ≠ .string) : Blankless r.pattern := by
  have digit : Excludes Char.isDigit := by decide
  have sign : Blankless optionalSign :=
    blankless_one.add (Excludes.character (by decide))
  have power : Blankless power :=
    (Excludes.character (by decide)).mul (sign.mul digit.several)
  cases r with
  | gap => exact absurd rfl gap
  | string => exact absurd rfl string
  | mark m =>
    refine Excludes.character ?_
    cases m <;> decide
  | int => exact sign.mul digit.several
  | hex =>
    refine sign.mul ((Excludes.character ?_).mul
      ((Excludes.character ?_).mul (Excludes.several ?_)))
    all_goals decide
  | float =>
    have point : Blankless (Lexer.character (· = '.')) := Excludes.character (by decide)
    have optional := blankless_one.add power
    have whole := digit.several.mul (point.mul (digit.many.mul optional))
    have fraction := point.mul (digit.several.mul optional)
    exact sign.mul ((whole.add fraction).add (digit.several.mul power))
  | word =>
    refine (Excludes.character ?_).mul (Excludes.many ?_)
    all_goals decide

theorem lexeme?_of_startsGap (h : isGap c ∨ c = '#') :
    ∃ n, lexeme? (c :: cs) = some (.gap, n) := by
  rcases h with gap | rfl
  · exact ⟨_, if_pos gap⟩
  · exact ⟨_, rfl⟩

theorem startsGap_of_heads (h : Heads Rule.gap.pattern (c :: cs) n) : isGap c ∨ c = '#' := by
  rcases heads_add.mp h with h | h
  · obtain ⟨pos, le⟩ := heads_several.mp h
    obtain ⟨d, rest, same, gap⟩ := exists_of_run_pos (Nat.lt_of_lt_of_le pos le)
    cases same
    exact .inl gap
  · obtain ⟨d, rest, _, same, hd, -⟩ := heads_character_mul.mp h
    cases same
    exact .inr (of_decide_eq_true hd)

/-- No string goes on after its closing quote. -/
theorem heads_string_unique {k : Nat} (h : Heads Rule.string.pattern cs n)
    (h' : Heads Rule.string.pattern (cs ++ more) k) : k = n := by
  obtain ⟨c, rest, i, rfl, -, tail, rfl⟩ := heads_character_mul.mp h
  obtain ⟨_, _, j, same, -, tail', rfl⟩ := heads_character_mul.mp h'
  cases same
  have first : quoted? (rest ++ more) = some i :=
    quoted?_eq_some_iff.mpr ((heads_append tail.le).mpr tail)
  have second : quoted? (rest ++ more) = some j := quoted?_eq_some_iff.mpr tail'
  rw [Option.some.inj (second.symm.trans first)]

theorem Longest.append_blank (h : Longest cs r n) (hr : r ≠ .gap) (hc : isGap c) :
    Longest (cs ++ c :: more) r n := by
  have fits := h.heads.le
  refine ⟨(heads_append fits).mpr h.heads, fun {r' n'} h' ↦ ?_⟩
  by_cases inside : n' ≤ cs.length
  · exact h.le ((heads_append inside).mp h')
  -- a longer word has the blank in it, so it is a gap, or a string that is closed before
  have found := lexeme?_eq_some_iff.mpr h
  obtain ⟨d, cs, rfl⟩ := List.exists_cons_of_length_pos (Nat.lt_of_lt_of_le h.pos fits)
  by_cases gap : r' = .gap
  · subst gap
    obtain ⟨k, found'⟩ : ∃ k, lexeme? (d :: cs) = some (.gap, k) :=
      lexeme?_of_startsGap (startsGap_of_heads h')
    rw [found] at found'
    cases found'
    exact absurd rfl hr
  by_cases string : r' = .string
  · subst string
    obtain ⟨_, _, _, same, hd, -⟩ := heads_character_mul.mp h'
    cases same
    obtain rfl := of_decide_eq_true hd
    have closed : (quoted? cs).map (fun n ↦ (.string, n + 1)) = some (r, n) := found
    obtain ⟨k, -, hk⟩ := Option.map_eq_some_iff.mp closed
    cases hk
    exact (heads_string_unique h.heads h').le
  have mem : c ∈ (d :: cs ++ c :: more).take n' := by
    obtain ⟨k, rfl⟩ := Nat.exists_eq_add_of_lt (Nat.lt_of_not_le inside)
    rw [Nat.add_assoc, List.take_length_add_append, List.take_succ_cons]
    exact List.mem_append_right _ List.mem_cons_self
  exact absurd hc (blankless_pattern gap string _ h'.mem c mem)

end blank

end Lexer

end SceneGraph
