import SceneGraph.Proofs.Scanning

/-!
Tokens written out and read again. Tokens with one blank between any two of them are read as they
were, strings with any characters included.
-/

namespace SceneGraph

namespace Lexer

/-- Quotes and backslashes get a backslash in front. -/
def escape (cs : List Char) : List Char :=
  cs.flatMap fun c ↦ if c = '"' ∨ c = '\\' then ['\\', c] else [c]

end Lexer

open Lexer

/-- The text is the token written out. A name is a word that no keyword is spelled like, and there
is no text for a float here. -/
inductive Token.Written : Token → String → Prop
  | mark (m : Mark) : Written (.mark m) (String.singleton m.char)
  | keyword (k : Keyword) : Written (.keyword k) k.spelling
  | int {n : Int} : -0x8000000000000000 ≤ n → n < 0x8000000000000000 → Written (.int n) (toString n)
  | ident {s : String} : s.toList ∈ Rule.word.pattern → (∀ k : Keyword, k.spelling ≠ s) →
    Written (.ident s) s
  | string (s : String) : Written (.string s) ("\"" ++ String.ofList (escape s.toList) ++ "\"")

namespace Lexer

variable {cs w : List Char} {c : Char} {r : Rule} {t : Token} {offset : Nat}

section int

theorem isDigit_of_mem {n : Nat} (h : c ∈ Nat.toDigits 10 n) : c.isDigit :=
  Nat.isDigit_of_mem_toDigits (by decide) (by decide) h

theorem numeralValue_toDigits (n : Nat) : numeralValue 10 (Nat.toDigits 10 n) = n := by
  calc numeralValue 10 (Nat.toDigits 10 n)
    _ = (Nat.toDigits 10 n).foldl (fun m c ↦ 10 * m + (c.toNat - '0'.toNat)) 0 := by
      refine List.foldl_ext _ _ _ fun m c hc ↦ ?_
      rw [digitValue, if_pos (isDigit_of_mem hc)]
      rfl
    _ = n := by
      rw [← Nat.ofDigitChars_eq_foldl, Nat.ofDigitChars_toDigits (by decide) (by decide)]

theorem toList_toString_int (n : Int) :
    (toString n).toList = (if n < 0 then ['-'] else []) ++ Nat.toDigits 10 n.natAbs := by
  cases n with
  | ofNat m =>
    rw [if_neg (by simp)]
    exact Nat.toList_repr
  | negSucc m =>
    rw [if_pos (by simp)]
    change ("-" ++ m.succ.repr).toList = _
    rw [String.toList_append, Nat.toList_repr]
    rfl

theorem int_mem_pattern (n : Int) : (toString n).toList ∈ Rule.int.pattern := by
  rw [toList_toString_int]
  have digits : Nat.toDigits 10 n.natAbs ∈ numeral :=
    mem_several.mpr ⟨Nat.toDigits_ne_nil, fun _ ↦ isDigit_of_mem⟩
  refine Language.append_mem_mul ?_ digits
  split
  · exact .inr ⟨'-', rfl, rfl⟩
  · exact .inl rfl

theorem signed_toString (n : Int) :
    signed (isNegative (toString n).toList)
      (numeralValue 10 ((toString n).toList.drop (sign (toString n).toList))) = n := by
  rw [toList_toString_int]
  split
  · next negative =>
    change -(numeralValue 10 (Nat.toDigits 10 n.natAbs) : Int) = n
    rw [numeralValue_toDigits]
    omega
  · next positive =>
    obtain ⟨c, ds, split⟩ : ∃ c ds, Nat.toDigits 10 n.natAbs = c :: ds :=
      List.exists_cons_of_ne_nil Nat.toDigits_ne_nil
    have digit : c.isDigit := isDigit_of_mem (by rw [split]; exact List.mem_cons_self)
    have unsigned : isNegative (c :: ds) = false := by
      refine decide_eq_false ?_
      rintro ⟨⟩
      cases digit
    rw [List.nil_append, split, sign_cons, if_neg (not_isSign_of_isDigit digit), unsigned,
      List.drop_zero, ← split, numeralValue_toDigits, signed, if_neg (by decide)]
    omega

end int

section string

theorem escape_mem (cs : List Char) : escape cs ∈ KStar.kstar quotedCharacter := by
  refine Language.join_mem_kstar fun w hw ↦ ?_
  obtain ⟨c, -, rfl⟩ := List.mem_map.mp hw
  split
  · next special =>
    refine .inr ⟨['\\'], ⟨'\\', rfl, rfl⟩, [c], ⟨c, decide_eq_true ?_, rfl⟩, rfl⟩
    rintro rfl
    rcases special with h | h <;> cases h
  · next plain => exact .inl ⟨c, decide_eq_true (not_or.mp plain), rfl⟩

theorem unescape_cons (h : c ≠ '\\') : unescape (c :: cs) = c :: unescape cs := by
  rw [unescape.eq_def]
  exact if_neg h

theorem unescape_escape (cs : List Char) : unescape (escape cs) = cs := by
  induction cs with
  | nil => rfl
  | cons c cs ih =>
    rw [escape, List.flatMap_cons, ← escape]
    split
    · exact congrArg (c :: ·) ih
    · next plain =>
      rw [List.cons_append, unescape_cons (not_or.mp plain).2, List.nil_append, ih]

theorem token_string (cs : List Char) :
    token .string ('"' :: escape cs ++ ['"']) = .ok (some (.string (String.ofList cs))) := by
  rw [token, List.cons_append, List.drop_succ_cons, List.drop_zero, List.dropLast_concat,
    unescape_escape]

end string

/-- A token written out is a word of a rule, and the rule makes the token of it. -/
theorem exists_rule_of_written {s : String} (h : t.Written s) :
    ∃ r, Stands s.toList [] r ∧ token r s.toList = .ok (some t) := by
  cases h with
  | mark m =>
    rw [String.toList_singleton]
    exact ⟨.mark m, stands_of_mem (by simp) ⟨m.char, decide_eq_true rfl, rfl⟩, rfl⟩
  | keyword k =>
    refine ⟨.word, stands_of_mem (by simp) ?_, ?_⟩
    · cases k <;> decide
    · rw [token, String.ofList_toList]
      cases k <;> rfl
  | int low high =>
    refine ⟨.int, stands_of_mem (by simp) (int_mem_pattern _), ?_⟩
    rw [token, int?, signed_toString, if_pos ⟨low, high⟩]
  | ident word other =>
    refine ⟨.word, stands_of_mem (by simp) word, ?_⟩
    have none : Keyword.ofSpelling? s = none :=
      List.find?_eq_none.mpr fun k _ ↦ by simpa using other k
    rw [token, String.ofList_toList, wordToken, none]
  | string s =>
    have written : ("\"" ++ String.ofList (escape s.toList) ++ "\"").toList =
        '"' :: escape s.toList ++ ['"'] := by
      simp
    rw [written]
    refine ⟨.string, stands_of_mem (by simp) ?_, ?_⟩
    · exact ⟨['"'], ⟨'"', rfl, rfl⟩, _, Language.append_mem_mul (escape_mem _) ⟨'"', rfl, rfl⟩, rfl⟩
    · rw [token_string, String.ofList_toList]

/-- A token written out is read before a blank, or at the end. -/
theorem scan_written {s : String} {rest : List Char} {us : List Spanned} (h : t.Written s)
    (blank : ∀ c ∈ rest.head?, isGap c)
    (later : scan (offset + byteLength s.toList) rest = .ok us) :
    scan offset (s.toList ++ rest) =
      .ok (⟨t, offset, offset + byteLength s.toList⟩ :: us) := by
  obtain ⟨r, alone, ht⟩ := exists_rule_of_written h
  have stands : Stands s.toList rest r := by
    cases rest with
    | nil => exact alone
    | cons c rest => exact alone.before_blank (blank c rfl)
  exact (scan_stands_eq_ok stands).mpr ⟨t, us, ht, later, rfl⟩

theorem scan_intercalate {ts : List Token} {ws : List String}
    (h : List.Forall₂ Token.Written ts ws) (offset : Nat) :
    ∃ us, scan offset ([' '].intercalate (ws.map String.toList)) = .ok us ∧
      us.map Spanned.token = ts := by
  induction h generalizing offset with
  | nil => exact ⟨[], scan_nil, rfl⟩
  | @cons t w ts ws written rest ih =>
    cases rest with
    | nil =>
      refine ⟨[⟨t, offset, offset + byteLength w.toList⟩], ?_, rfl⟩
      have read : scan offset (w.toList ++ []) = _ := scan_written written (by simp) scan_nil
      rw [List.append_nil] at read
      rwa [List.map_singleton, List.intercalate_singleton]
    | @cons t' w' ts ws next rest =>
      obtain ⟨us, ok, tokens⟩ := ih (offset + byteLength w.toList + 1)
      refine ⟨⟨t, offset, offset + byteLength w.toList⟩ :: us, ?_, by rw [List.map_cons, tokens]⟩
      rw [List.map_cons, List.map_cons, List.intercalate_cons_cons, List.append_assoc,
        List.singleton_append]
      refine scan_written written (fun c hc ↦ ?_) ?_
      · rw [← Option.some.inj hc]
        rfl
      · rw [scan_blank rfl]
        exact ok

end Lexer

/-- Tokens with one blank between any two of them are read again as they were. -/
theorem tokenize_written {ts : List Token} {ws : List String}
    (h : List.Forall₂ Token.Written ts ws) :
    (tokenize (" ".intercalate ws)).map (·.map Spanned.token) = .ok ts := by
  obtain ⟨us, ok, rfl⟩ := scan_intercalate h 0
  have joined : (" ".intercalate ws).toList = [' '].intercalate (ws.map String.toList) :=
    String.toList_intercalate
  rw [tokenize, joined, ok]
  rfl

theorem tokenize_written_mixed :
    let ts : List Token := [.mark .dot, .int (-0x8000000000000000), .ident "DEFx", .keyword .define,
      .string "#\"\\\n", .mark .closeBrace]
    let ws := [".", "-9223372036854775808", "DEFx", "DEF", "\"#\\\"\\\\\n\"", "\x7d"]
    List.Forall₂ Token.Written ts ws ∧
      (tokenize (" ".intercalate ws)).map (·.map Spanned.token) = .ok ts := by
  intro ts ws
  have written : List.Forall₂ Token.Written ts ws := by
    refine .cons (.mark .dot) (.cons ?_ (.cons ?_ (.cons (.keyword .define) (.cons ?_ ?_))))
    · exact .int (by decide) (by decide)
    · exact .ident (by decide) (by intro k; cases k <;> decide)
    · exact .string "#\"\\\n"
    · exact .cons (.mark .closeBrace) .nil
  exact ⟨written, tokenize_written written⟩

end SceneGraph
