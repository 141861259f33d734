import Mathlib.Data.List.DropRight
import SceneGraph.Proofs.Typing
import SceneGraph.Route

/-!
Route statements as texts. A statement is read back from its text just if none of its names is
empty or has a point or a blank in it, and a text that is read as a statement is, up to its blanks,
the text of that statement.
-/

namespace SceneGraph

namespace Text

variable {c d : Char} {cs w rest : List Char} {ws : List (List Char)}

/-- Some characters, and no blank among them. -/
structure Solid (w : List Char) : Prop where
  ne_nil : w ≠ []
  not_isBlank : ∀ c ∈ w, ¬isBlank c

theorem solid_cons : Solid (c :: cs) ↔ ¬isBlank c ∧ ∀ d ∈ cs, ¬isBlank d :=
  ⟨fun h ↦ List.forall_mem_cons.mp h.not_isBlank,
    fun h ↦ ⟨List.cons_ne_nil c cs, List.forall_mem_cons.mpr h⟩⟩

section words

theorem words_cons : words (c :: cs) = if isBlank c then words cs else
    match cs with
    | [] => [[c]]
    | d :: _ => if isBlank d then [c] :: words cs else
      match words cs with
      | [] => [[c]]
      | w :: ws => (c :: w) :: ws :=
  words.eq_def (c :: cs)

theorem words_blank (h : isBlank c) : words (c :: cs) = words cs := by
  rw [words_cons, if_pos h]

/-- A character by itself. -/
theorem words_single (h : ¬isBlank c) (next : ∀ d ∈ cs.head?, isBlank d) :
    words (c :: cs) = [c] :: words cs := by
  rw [words_cons, if_neg h]
  cases cs with
  | nil => rfl
  | cons d cs => exact if_pos (next d rfl)

theorem words_ne_nil (h : ¬isBlank c) : words (c :: cs) ≠ [] := by
  rw [words_cons, if_neg h]
  repeat' split
  all_goals exact List.cons_ne_nil _ _

theorem words_double (h : ¬isBlank c) (hd : ¬isBlank d) :
    words (c :: d :: cs) = (words (d :: cs)).modifyHead (c :: ·) := by
  rw [words_cons, if_neg h]
  dsimp only
  rw [if_neg hd]
  cases hw : words (d :: cs) with
  | nil => exact absurd hw (words_ne_nil hd)
  | cons w ws => rfl

theorem solid_of_mem_words (h : w ∈ words cs) : Solid w := by
  induction cs generalizing w with
  | nil => cases h
  | cons c cs ih =>
    by_cases hc : isBlank c
    · rw [words_blank hc] at h
      exact ih h
    by_cases single : ∀ d ∈ cs.head?, isBlank d
    · rw [words_single hc single] at h
      rcases List.mem_cons.mp h with rfl | h
      · exact solid_cons.mpr ⟨hc, by simp⟩
      · exact ih h
    · obtain ⟨d, hd, solid⟩ : ∃ d ∈ cs.head?, ¬isBlank d := by simpa using single
      obtain ⟨more, rfl⟩ := List.head?_eq_some_iff.mp hd
      rw [words_double hc solid] at h
      cases hw : words (d :: more) with
      | nil => exact absurd hw (words_ne_nil solid)
      | cons v ws =>
        rw [hw] at h ih
        rcases List.mem_cons.mp h with rfl | h
        · exact solid_cons.mpr ⟨hc, (ih List.mem_cons_self).not_isBlank⟩
        · exact ih (List.mem_cons_of_mem v h)

theorem words_append (h : Solid w) (next : ∀ d ∈ rest.head?, isBlank d) :
    words (w ++ rest) = w :: words rest := by
  obtain ⟨c, w, rfl⟩ := List.exists_cons_of_ne_nil h.ne_nil
  induction w generalizing c with
  | nil => exact words_single (solid_cons.mp h).1 next
  | cons d w ih =>
    obtain ⟨hc, hw⟩ := solid_cons.mp h
    have hd : ¬isBlank d := hw d List.mem_cons_self
    rw [List.cons_append, List.cons_append, words_double hc hd, ← List.cons_append,
      ih d ⟨List.cons_ne_nil d w, hw⟩]
    rfl

/-- Words with a space between any two of them are found again. -/
theorem words_intercalate (h : ∀ w ∈ ws, Solid w) : words ([' '].intercalate ws) = ws := by
  induction ws with
  | nil => rfl
  | cons w ws ih =>
    obtain ⟨hw, hws⟩ := List.forall_mem_cons.mp h
    cases ws with
    | nil =>
      have alone : words (w ++ []) = w :: words [] := words_append hw (by simp)
      rw [List.append_nil] at alone
      rw [List.intercalate_singleton, alone]
      rfl
    | cons v ws =>
      rw [List.intercalate_cons_cons, List.append_assoc, List.singleton_append,
        words_append hw (by rintro _ ⟨⟩; rfl), words_blank rfl, ih hws]

end words

section squeeze

/-- Without the blanks around. -/
def trim (cs : List Char) : List Char := (cs.dropWhile isBlank).rdropWhile isBlank

/-- Each run of blanks gives way to one space. -/
def collapse : List Char → List Char
  | [] => []
  | c :: cs =>
    if isBlank c then if cs.head?.any isBlank then collapse cs else ' ' :: collapse cs
    else c :: collapse cs

def squeeze (s : String) : String := String.ofList (collapse (trim s.toList))

theorem words_dropWhile (cs : List Char) : words (cs.dropWhile isBlank) = words cs := by
  induction cs with
  | nil => rfl
  | cons c cs ih =>
    by_cases hc : isBlank c
    · rw [List.dropWhile_cons_of_pos hc, ih, words_blank hc]
    · rw [List.dropWhile_cons_of_neg hc]

theorem words_concat_blank (h : isBlank c) : words (cs ++ [c]) = words cs := by
  induction cs with
  | nil => exact words_blank h
  | cons b cs ih =>
    rw [List.cons_append]
    by_cases hb : isBlank b
    · rw [words_blank hb, words_blank hb, ih]
    cases cs with
    | nil =>
      have single : words (b :: ([] ++ [c])) = [b] :: words ([] ++ [c]) :=
        words_single hb (by rintro _ ⟨⟩; exact h)
      rw [single, ih, words_single hb (by simp)]
    | cons d cs =>
      rw [List.cons_append] at ih ⊢
      by_cases hd : isBlank d
      · have next {more : List Char} : ∀ e ∈ (d :: more).head?, isBlank e := by
          rintro _ ⟨⟩
          exact hd
        rw [words_single hb next, words_single hb next, ih]
      · rw [words_double hb hd, words_double hb hd, ih]

theorem words_trim (cs : List Char) : words (trim cs) = words cs := by
  rw [← words_dropWhile cs, trim]
  generalize cs.dropWhile isBlank = ds
  induction ds using List.reverseRecOn with
  | nil => rfl
  | append_singleton ds d ih =>
    by_cases hd : isBlank d
    · rw [List.rdropWhile_concat_pos _ _ _ hd, ih, words_concat_blank hd]
    · rw [List.rdropWhile_concat_neg _ _ _ hd]

theorem words_ne_nil_of_mem (h : c ∈ cs) (hc : ¬isBlank c) : words cs ≠ [] := by
  induction cs with
  | nil => cases h
  | cons b cs ih =>
    by_cases hb : isBlank b
    · rw [words_blank hb]
      rcases List.mem_cons.mp h with rfl | h
      · exact absurd hb hc
      · exact ih h
    · exact words_ne_nil hb

theorem intercalate_modifyHead (h : ws ≠ []) :
    [' '].intercalate (ws.modifyHead (c :: ·)) = c :: [' '].intercalate ws := by
  obtain ⟨w, ws, rfl⟩ := List.exists_cons_of_ne_nil h
  cases ws with
  | nil => simp
  | cons v ws => simp [List.intercalate_cons_cons]

/-- Where the text does not end with a blank, spaces are left between its words, and one before
them if there was a blank. -/
theorem collapse_eq (last : ∀ c ∈ cs.getLast?, ¬isBlank c) :
    collapse cs = (if cs.head?.any isBlank then [' '] else []) ++ [' '].intercalate (words cs) := by
  induction cs with
  | nil => rfl
  | cons c cs ih =>
    cases cs with
    | nil =>
      have hc : ¬isBlank c := last c rfl
      have alone : words [c] = [[c]] := words_single hc (by simp)
      simp [collapse, hc, alone]
    | cons d cs =>
      have last : ∀ c ∈ (d :: cs).getLast?, ¬isBlank c := by rwa [List.getLast?_cons_cons] at last
      have ih := ih last
      have some : words (d :: cs) ≠ [] := by
        obtain ⟨b, hb⟩ : ∃ b, (d :: cs).getLast? = some b := ⟨_, List.getLast?_cons⟩
        exact words_ne_nil_of_mem (List.mem_of_getLast? hb) (last b hb)
      by_cases hc : isBlank c <;> by_cases hd : isBlank d
      · simp_all [collapse, words_blank]
      · simp_all [collapse, words_blank]
      · rw [words_single hc (by rintro _ ⟨⟩; exact hd)]
        obtain ⟨w, ws, hw⟩ := List.exists_cons_of_ne_nil some
        simp_all [collapse, List.intercalate_cons_cons]
      · rw [words_double hc hd, intercalate_modifyHead some]
        simp_all [collapse]

theorem collapse_trim (cs : List Char) : collapse (trim cs) = [' '].intercalate (words cs) := by
  have last : ∀ c ∈ (trim cs).getLast?, ¬isBlank c := by
    intro c hc
    obtain ⟨hne, rfl⟩ := List.mem_getLast?_eq_getLast hc
    exact List.rdropWhile_last_not isBlank _ hne
  have first : (trim cs).head?.any isBlank = false := by
    cases ht : trim cs with
    | nil => rfl
    | cons c ds =>
      obtain ⟨more, hm⟩ : c :: ds <+: cs.dropWhile isBlank := ht ▸ List.rdropWhile_prefix ..
      have head : (cs.dropWhile isBlank).head? = some c := by rw [← hm]; rfl
      simpa [head] using List.head?_dropWhile_not isBlank cs
  rw [collapse_eq last, words_trim, first]
  rfl

theorem squeeze_eq (s : String) :
    squeeze s = String.ofList ([' '].intercalate (words s.toList)) := by
  rw [squeeze, collapse_trim]

end squeeze

end Text

namespace Statement

variable {s : Statement} {str a b : String} {cs : List Char}

def parts (s : Statement) : List String := [s.fromNode, s.fromField, s.toNode, s.toField]

/-- Some characters, and neither a point nor a blank among them. -/
def Proper (p : String) : Prop := p ≠ "" ∧ ∀ c ∈ p.toList, c ≠ '.' ∧ ¬Text.isBlank c

/-- The words of the text of a statement. -/
def words (s : Statement) : List (List Char) :=
  [['R', 'O', 'U', 'T', 'E'], s.fromNode.toList ++ '.' :: s.fromField.toList, ['T', 'O'],
    s.toNode.toList ++ '.' :: s.toField.toList]

theorem text_eq (s : Statement) : s.text = String.ofList ([' '].intercalate s.words) := by
  rw [← String.ofList_toList (s := s.text)]
  simp [text, words]

/-- No character is missing, and no point among them. -/
def Undotted (p : String) : Prop := p ≠ "" ∧ '.' ∉ p.toList

theorem endpoint_eq_ok : endpoint cs = .ok (a, b) ↔
    cs = a.toList ++ '.' :: b.toList ∧ Undotted a ∧ Undotted b := by
  have nonempty (p : String) : p ≠ "" ↔ p.toList ≠ [] := by simp
  unfold endpoint Undotted
  rw [nonempty, nonempty]
  constructor
  · intro h
    dsimp only at h
    split at h
    · cases h
    next proper =>
    cases h
    obtain ⟨node, field, undotted⟩ : _ ∧ _ ∧ _ := by simpa only [not_or] using proper
    simp only [String.toList_ofList]
    obtain ⟨d, rest, hd⟩ : ∃ d rest, cs.dropWhile (· ≠ '.') = d :: rest := by
      refine List.exists_cons_of_ne_nil fun none ↦ ?_
      rw [none] at field
      exact field rfl
    obtain rfl : d = '.' := by
      have first := List.head?_dropWhile_not (· ≠ '.') cs
      rw [hd] at first
      simpa using first
    rw [hd, List.drop_succ_cons, List.drop_zero] at field undotted ⊢
    refine ⟨?_, ⟨node, fun mem ↦ ?_⟩, field, undotted⟩
    · rw [← hd, List.takeWhile_append_dropWhile]
    · simpa using List.mem_takeWhile_imp mem
  · rintro ⟨rfl, ⟨node, undotted⟩, field, rest⟩
    have all : ∀ c ∈ a.toList, decide (c ≠ '.') = true :=
      fun c hc ↦ decide_eq_true (ne_of_mem_of_not_mem hc undotted)
    have before : (a.toList ++ '.' :: b.toList).takeWhile (· ≠ '.') = a.toList := by
      rw [List.takeWhile_append_of_pos all, List.takeWhile_cons_of_neg (by decide), List.append_nil]
    have after : (a.toList ++ '.' :: b.toList).dropWhile (· ≠ '.') = '.' :: b.toList := by
      rw [List.dropWhile_append_of_pos all, List.dropWhile_cons_of_neg (by decide)]
    dsimp only
    rw [before, after, List.drop_succ_cons, List.drop_zero,
      if_neg (not_or.mpr ⟨node, not_or.mpr ⟨field, rest⟩⟩), String.ofList_toList,
      String.ofList_toList]

theorem parse_eq_ok : parse str = .ok s ↔
    Text.words str.toList = s.words ∧ ∀ p ∈ s.parts, Undotted p := by
  unfold parse
  constructor
  · intro h
    split at h
    · next source dest hw =>
      obtain ⟨⟨fromNode, fromField⟩, hs, h⟩ := bind_eq_ok.mp h
      obtain ⟨⟨toNode, toField⟩, hd, h⟩ := bind_eq_ok.mp h
      cases h
      obtain ⟨rfl, source⟩ := endpoint_eq_ok.mp hs
      obtain ⟨rfl, dest⟩ := endpoint_eq_ok.mp hd
      refine ⟨hw, ?_⟩
      simpa [parts, and_assoc] using And.intro source dest
    · cases h
  · rintro ⟨hw, undotted⟩
    obtain ⟨fromNode, fromField, toNode, toField⟩ : Undotted s.fromNode ∧ Undotted s.fromField ∧
        Undotted s.toNode ∧ Undotted s.toField := by simpa [parts] using undotted
    rw [hw]
    exact bind_eq_ok.mpr ⟨_, endpoint_eq_ok.mpr ⟨rfl, fromNode, fromField⟩,
      bind_eq_ok.mpr ⟨_, endpoint_eq_ok.mpr ⟨rfl, toNode, toField⟩, rfl⟩⟩

theorem proper_iff {p : String} : Proper p ↔ Undotted p ∧ ∀ c ∈ p.toList, ¬Text.isBlank c := by
  unfold Proper Undotted
  rw [and_assoc, and_congr_right_iff]
  intro _
  constructor
  · intro h
    exact ⟨fun point ↦ (h _ point).1 rfl, fun c hc ↦ (h c hc).2⟩
  · rintro ⟨undotted, solid⟩ c hc
    exact ⟨ne_of_mem_of_not_mem hc undotted, solid c hc⟩

/-- The parts of a statement have no blanks if its words have none. -/
theorem solid_words : (∀ w ∈ s.words, Text.Solid w) ↔
    ∀ p ∈ s.parts, ∀ c ∈ p.toList, ¬Text.isBlank c := by
  have blank : ¬Text.isBlank '.' := by decide
  have route : Text.Solid ['R', 'O', 'U', 'T', 'E'] := ⟨by simp, by simp [Text.isBlank]⟩
  have into : Text.Solid ['T', 'O'] := ⟨by simp, by simp [Text.isBlank]⟩
  have endpoint (a b : List Char) : Text.Solid (a ++ '.' :: b) ↔
      (∀ c ∈ a, ¬Text.isBlank c) ∧ ∀ c ∈ b, ¬Text.isBlank c := by
    constructor
    · intro h
      obtain ⟨ha, hb⟩ := List.forall_mem_append.mp h.not_isBlank
      exact ⟨ha, (List.forall_mem_cons.mp hb).2⟩
    · rintro ⟨ha, hb⟩
      exact ⟨by simp, List.forall_mem_append.mpr ⟨ha, List.forall_mem_cons.mpr ⟨blank, hb⟩⟩⟩
  simp only [words, parts, List.forall_mem_cons, List.not_mem_nil, IsEmpty.forall_iff, implies_true,
    endpoint, route, into, true_and, and_true, and_assoc]

theorem parse_text (h : ∀ p ∈ s.parts, Proper p) : parse s.text = .ok s := by
  have solid := solid_words.mpr fun p hp ↦ (proper_iff.mp (h p hp)).2
  refine parse_eq_ok.mpr ⟨?_, fun p hp ↦ (proper_iff.mp (h p hp)).1⟩
  rw [text_eq, String.toList_ofList, Text.words_intercalate solid]

theorem proper_of_parse (h : parse str = .ok s) : ∀ p ∈ s.parts, Proper p := by
  obtain ⟨hw, undotted⟩ := parse_eq_ok.mp h
  have solid : ∀ w ∈ s.words, Text.Solid w := hw ▸ fun w ↦ Text.solid_of_mem_words
  exact fun p hp ↦ proper_iff.mpr ⟨undotted p hp, solid_words.mp solid p hp⟩

/-- A statement is read back from its text just if its parts are proper. Whatever text is read as a
statement, the parts are proper and the text is, with its blanks squeezed, that of the statement. -/
theorem parse_exact :
    (∀ s : Statement, parse s.text = .ok s ↔ ∀ p ∈ s.parts, Proper p) ∧
    ∀ (str : String) (s : Statement), parse str = .ok s →
      (∀ p ∈ s.parts, Proper p) ∧ s.text = Text.squeeze str := by
  refine ⟨fun s ↦ ⟨proper_of_parse, parse_text⟩, fun str s h ↦ ⟨proper_of_parse h, ?_⟩⟩
  rw [text_eq, Text.squeeze_eq, (parse_eq_ok.mp h).1]

/-- Keywords are names like others here, and blanks are those of Unicode. A point too many shifts
where a statement is split, so that its text is no longer read. -/
theorem parse_exact_shifted :
    parse "\u3000ROUTE TO.é\t\n TO ROUTE.x\u2028" = .ok ⟨"TO", "é", "ROUTE", "x"⟩ ∧
    text ⟨"TO", "é", "ROUTE", "x"⟩ =
      Text.squeeze "\u3000ROUTE TO.é\t\n TO ROUTE.x\u2028" ∧
    parse (text ⟨"TO", "é", "ROUTE", "x"⟩) = .ok ⟨"TO", "é", "ROUTE", "x"⟩ ∧
    parse (text ⟨"a", "b.c", "d", "e"⟩) ≠ .ok ⟨"a", "b.c", "d", "e"⟩ := by
  have read : parse "\u3000ROUTE TO.é\t\n TO ROUTE.x\u2028" = .ok ⟨"TO", "é", "ROUTE", "x"⟩ := by
    decide +kernel
  obtain ⟨again, first⟩ := parse_exact
  obtain ⟨proper, squeezed⟩ := first _ _ read
  refine ⟨read, squeezed, (again _).mpr proper, fun h ↦ ?_⟩
  have proper : Proper "b.c" := (again ⟨"a", "b.c", "d", "e"⟩).mp h "b.c" (by simp [parts])
  exact (proper.2 '.' (by decide)).1 rfl

end Statement

end SceneGraph
