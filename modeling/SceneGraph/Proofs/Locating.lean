import Mathlib.Data.List.DropRight
import SceneGraph.Document.Fault
import SceneGraph.Document.Lexer

/-!
Places in a text. A line with a column designates one byte of the text at most. The places where
tokens start lie between characters, and so does the place of what is no token.
-/

namespace SceneGraph

namespace Text

def octets (text : String) : List UInt8 := text.toUTF8.data.toList

def encode (cs : List Char) : List UInt8 := cs.flatMap String.utf8EncodeChar

theorem octets_eq (text : String) : octets text = encode text.toList := by
  unfold octets encode
  rw [String.toUTF8, ← String.utf8Encode_toList, List.utf8Encode]
  simp

theorem length_encode (cs : List Char) : (encode cs).length = Lexer.byteLength cs := by
  induction cs with
  | nil => rfl
  | cons c cs ih =>
    unfold encode Lexer.byteLength at *
    rw [List.flatMap_cons, List.length_append, ih, String.length_utf8EncodeChar]
    rfl

theorem length_octets (text : String) : (octets text).length = text.utf8ByteSize := rfl

/-- The line feed has a byte of its own. -/
theorem mem_utf8EncodeChar {c : Char} : 10 ∈ String.utf8EncodeChar c ↔ c = '\n' := by
  constructor
  · intro h
    have ten (n : Nat) : 10 = UInt8.ofNat n ↔ 10 = n % 256 := by
      rw [← UInt8.toNat_inj]
      simp
    have code : c.val.toNat = 10 := by
      unfold String.utf8EncodeChar at h
      dsimp only at h
      -- the bytes of a longer encoding are not below 128
      repeat' split at h
      all_goals
        simp only [List.mem_cons, List.not_mem_nil, or_false, ten] at h
        omega
    exact Char.ext (UInt32.toNat_inj.mp code)
  · rintro rfl
    decide

/-- The line, counted from one, of the byte after these. -/
def line (before : List UInt8) : Nat := before.count 10 + 1

/-- The column, counted from one, of the byte after these; the bytes after the last line feed
count. -/
def column (before : List UInt8) : Nat := (before.rtakeWhile (· ≠ 10)).length + 1

theorem line_append (before : List UInt8) {more : List UInt8} (h : 10 ∉ more) :
    line (before ++ more) = line before := by
  rw [line, List.count_append, List.count_eq_zero.mpr h, Nat.add_zero, line]

theorem column_append (before : List UInt8) {more : List UInt8} (h : 10 ∉ more) :
    column (before ++ more) = column before + more.length := by
  have all : ∀ b ∈ more.reverse, decide (b ≠ 10) := by
    intro b hb
    exact decide_eq_true (ne_of_mem_of_not_mem (List.mem_reverse.mp hb) h)
  simp only [column, List.rtakeWhile, List.reverse_append, List.length_reverse,
    List.takeWhile_append_of_pos all, List.length_append]
  omega

end Text

open Text

/-- The byte at `offset`, or the end of the text, is at the line and the column. -/
structure Designates (text : String) (line column offset : Nat) : Prop where
  le : offset ≤ text.utf8ByteSize
  line : Text.line ((octets text).take offset) = line
  column : Text.column ((octets text).take offset) = column

variable {text : String} {l c o o' : Nat}

theorem Designates.not_lt (h : Designates text l c o) (h' : Designates text l c o') : ¬o < o' := by
  intro hlt
  let between := ((octets text).drop o).take (o' - o)
  have split : (octets text).take o' = (octets text).take o ++ between := by
    rw [← List.take_add, Nat.add_sub_cancel' (Nat.le_of_lt hlt)]
  have length : between.length = o' - o := by
    have := h'.le
    rw [List.length_take, List.length_drop, length_octets]
    omega
  -- a line feed in between begins another line, and any other byte makes for another column
  by_cases feed : 10 ∈ between
  · have lines := h'.line.trans h.line.symm
    rw [split, Text.line, List.count_append, Text.line] at lines
    have := List.count_pos_iff.mpr feed
    omega
  · have columns := h'.column.trans h.column.symm
    rw [split, column_append _ feed] at columns
    omega

theorem Designates.unique (h : Designates text l c o) (h' : Designates text l c o') : o = o' :=
  Nat.le_antisymm (Nat.not_lt.mp (h'.not_lt h)) (Nat.not_lt.mp (h.not_lt h'))

section position

theorem position_go (before after : List Char) (here : Nat) (done : List UInt8) :
    position.go (here + Lexer.byteLength before) (before ++ after) here (line done) (column done) =
      (line (done ++ encode before), column (done ++ encode before)) := by
  induction before generalizing done here with
  | nil =>
    have stops : position.go (here + 0) after here (line done) (column done) =
        (line done, column done) := by
      cases after with
      | nil => rfl
      | cons => exact if_pos (Nat.le_refl _)
    simpa [Lexer.byteLength, encode] using stops
  | cons c before ih =>
    have further : Lexer.byteLength (c :: before) = c.utf8Size + Lexer.byteLength before := rfl
    have encoded : done ++ encode (c :: before) =
        done ++ String.utf8EncodeChar c ++ encode before := by
      rw [encode, List.flatMap_cons, ← List.append_assoc, encode]
    have pos := c.utf8Size_pos
    rw [List.cons_append, position.go, if_neg (by omega), encoded, further, ← Nat.add_assoc]
    split
    · next feed =>
      subst feed
      have next := ih (here + 1) (done ++ String.utf8EncodeChar '\n')
      have newline : String.utf8EncodeChar '\n' = [10] := by decide
      rw [newline, line, List.count_append, column, List.rtakeWhile_concat_neg _ _ _ (by decide)]
        at next
      exact next
    · next feed =>
      have next := ih (here + c.utf8Size) (done ++ String.utf8EncodeChar c)
      have plain : 10 ∉ String.utf8EncodeChar c := mt mem_utf8EncodeChar.mp feed
      rw [line_append _ plain, column_append _ plain, String.length_utf8EncodeChar] at next
      exact next

/-- The place `o` lies between two characters of the text, or at an end of it. -/
def Cuts (text : String) (o : Nat) : Prop :=
  ∃ before after, text.toList = before ++ after ∧ Lexer.byteLength before = o

theorem Cuts.designates (h : Cuts text o) :
    Designates text (position o text.toList).1 (position o text.toList).2 o := by
  obtain ⟨before, after, split, rfl⟩ := h
  have place := position_go before after 0 []
  rw [Nat.zero_add, ← split] at place
  have first : (octets text).take (Lexer.byteLength before) = encode before := by
    rw [octets_eq, split, encode, List.flatMap_append, ← encode, ← length_encode,
      List.take_left]
  refine ⟨?_, ?_, ?_⟩
  · rw [← length_octets, octets_eq, split, encode, List.flatMap_append, List.length_append,
      ← encode, length_encode]
    exact Nat.le_add_right ..
  · rw [first]
    exact (congrArg Prod.fst place).symm
  · rw [first]
    exact (congrArg Prod.snd place).symm

theorem cuts_end (text : String) : Cuts text text.utf8ByteSize :=
  ⟨text.toList, [], (List.append_nil _).symm, by
    rw [← length_encode, ← octets_eq, length_octets]⟩

end position

namespace Lexer

theorem unsigned?_pos {cs : List Char} {r : Rule × Nat} (h : unsigned? cs = some r) :
    0 < r.2 := by
  unfold unsigned? at h
  dsimp only at h
  repeat' split at h
  all_goals cases h <;> omega

theorem lexeme?_pos {cs : List Char} {r : Rule × Nat} (h : lexeme? cs = some r) : 0 < r.2 := by
  unfold lexeme? at h
  split at h
  · cases h
  repeat' split at h
  · cases h
    omega
  · cases h
    omega
  · obtain ⟨n, -, rfl⟩ := Option.map_eq_some_iff.mp h
    exact Nat.succ_pos n
  · cases h
    omega
  · next hn =>
    cases h
    obtain ⟨⟨rule, n⟩, hu, rfl⟩ := Option.map_eq_some_iff.mp hn
    exact Nat.lt_of_lt_of_le (unsigned?_pos hu) (Nat.le_add_left ..)
  · obtain ⟨m, -, rfl⟩ := Option.map_eq_some_iff.mp h
    exact Nat.one_pos

variable {offset : Nat} {cs : List Char}

theorem byteLength_append (cs cs' : List Char) :
    byteLength (cs ++ cs') = byteLength cs + byteLength cs' := by
  rw [← length_encode, encode, List.flatMap_append, List.length_append, ← encode, ← encode,
    length_encode, length_encode]

/-- Tokens start between characters, and so does what is no token. -/
def Starts (offset : Nat) (cs : List Char) (o : Nat) : Prop :=
  ∃ before after, cs = before ++ after ∧ o = offset + byteLength before

theorem Starts.later {lexeme rest : List Char}
    (h : Starts (offset + byteLength lexeme) rest o) : Starts offset (lexeme ++ rest) o := by
  obtain ⟨before, after, rfl, rfl⟩ := h
  exact ⟨lexeme ++ before, after, by simp, by rw [byteLength_append, Nat.add_assoc]⟩

/-- One of the tokens starts at the place, or what stands there is no token. -/
def Marks : Except Nat (List Spanned) → Nat → Prop
  | .ok ts, o => ∃ t ∈ ts, t.start = o
  | .error o', o => o = o'

theorem Starts.here : Starts offset cs offset := ⟨[], cs, rfl, rfl⟩

theorem starts_of_scan {o : Nat} (offset : Nat) (cs : List Char) (h : Marks (scan offset cs) o) :
    Starts offset cs o := by
  have split {c : Char} {rest : List Char} {r : Rule × Nat} (hl : lexeme? (c :: rest) = some r) :
      c :: rest = (c :: rest).take r.2 ++ rest.drop (r.2 - 1) := by
    obtain ⟨n, hn⟩ := Nat.exists_eq_add_of_lt (lexeme?_pos hl)
    rw [hn, Nat.zero_add, List.take_succ_cons, Nat.add_sub_cancel, List.cons_append,
      List.take_append_drop]
  fun_induction scan offset cs with
  | case1 =>
    obtain ⟨t, ht, -⟩ := h
    exact absurd ht List.not_mem_nil
  | case2 | case3 =>
    cases h
    exact .here
  | case4 offset c rest rule n hl lexeme stop t ht e he ih =>
    rw [he] at ih
    rw [split hl]
    exact (ih h).later
  | case5 offset c rest rule n hl lexeme stop ts hts ht ih =>
    rw [hts] at ih
    rw [split hl]
    exact (ih h).later
  | case6 offset c rest rule n hl lexeme stop ts hts t ht ih =>
    rw [hts] at ih
    obtain ⟨t', ht', rfl⟩ := h
    rcases List.mem_cons.mp ht' with rfl | ht'
    · exact .here
    · rw [split hl]
      exact (ih ⟨t', ht', rfl⟩).later

end Lexer

theorem cuts_of_marks (h : Lexer.Marks (Lexer.tokenize text) o) : Cuts text o := by
  obtain ⟨before, after, split, rfl⟩ := Lexer.starts_of_scan 0 text.toList h
  exact ⟨before, after, split, (Nat.zero_add _).symm⟩

/-- The line and the column of a reading error are those of one byte only. -/
theorem exists_designated (message : String)
    (h : Lexer.Marks (Lexer.tokenize text) o ∨ o = text.utf8ByteSize) :
    ∃ l c, readingError text o message = .reading l c message ∧
      ∀ o', Designates text l c o' ↔ o' = o := by
  have cuts : Cuts text o := by
    rcases h with h | rfl
    · exact cuts_of_marks h
    · exact cuts_end text
  refine ⟨_, _, rfl, fun o' ↦ ⟨fun h' ↦ h'.unique cuts.designates, ?_⟩⟩
  rintro rfl
  exact cuts.designates

end SceneGraph
