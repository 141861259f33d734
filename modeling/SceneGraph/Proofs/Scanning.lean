import SceneGraph.Proofs.Matching

/-!
Texts as blanks, comments and tokens. A text that is read is laid out by its tokens, with nothing
but blanks and comments around; what stands before input that is no token is read by itself. Texts
with a line feed between them keep their tokens.
-/

namespace SceneGraph

def Spanned.shift (k : Nat) (s : Spanned) : Spanned := ⟨s.token, s.start + k, s.stop + k⟩

namespace Lexer

variable {cs w rest more g : List Char} {c : Char} {r : Rule} {t : Token} {offset : Nat}
  {ts us : List Spanned}

theorem byteLength_pos (h : w ≠ []) : 0 < byteLength w := by
  obtain ⟨c, w, rfl⟩ := List.exists_cons_of_ne_nil h
  exact Nat.lt_of_lt_of_le c.utf8Size_pos (Nat.le_add_right ..)

/-- The comment goes on to the end of its line. -/
structure EndsLine (body rest : List Char) : Prop where
  body : '\n' ∉ body
  rest : ∀ c ∈ rest.head?, c = '\n'

theorem EndsLine.cut {body before after : List Char} (h : EndsLine body (before ++ after)) :
    EndsLine body before := by
  refine ⟨h.body, fun c hc ↦ h.rest c ?_⟩
  obtain ⟨more, rfl⟩ := List.head?_eq_some_iff.mp hc
  rfl

theorem EndsLine.before_line {body : List Char} (h : EndsLine body rest) :
    EndsLine body (rest ++ '\n' :: more) := by
  refine ⟨h.body, fun c hc ↦ ?_⟩
  cases rest with
  | nil => exact (Option.some.inj hc).symm
  | cons d rest => exact h.rest c hc

/-- A token at the head of the text, and not only of `w`. -/
structure Stands (w rest : List Char) (r : Rule) : Prop where
  kind : r ≠ .gap
  longest : Longest (w ++ rest) r w.length

section step

theorem Stands.ne_nil (h : Stands w rest r) : w ≠ [] :=
  List.length_pos_iff.mp h.longest.pos

theorem stands_of_mem (kind : r ≠ .gap) (h : w ∈ r.pattern) : Stands w [] r :=
  ⟨kind, by simpa using longest_of_mem h⟩

theorem Stands.cut {before after : List Char} (h : Stands w (before ++ after) r) :
    Stands w before r := by
  have longest : Longest (w ++ before ++ after) r w.length := by
    rw [List.append_assoc]
    exact h.longest
  refine ⟨h.kind, longest.of_append ?_⟩
  rw [List.length_append]
  exact Nat.le_add_right ..

theorem Stands.before_blank (h : Stands w rest r) (hc : isGap c) :
    Stands w (rest ++ c :: more) r := by
  refine ⟨h.kind, ?_⟩
  rw [← List.append_assoc]
  exact h.longest.append_blank h.kind hc

theorem scan_of_longest (h : Longest (w ++ rest) r w.length) :
    scan offset (w ++ rest) =
      match token r w with
      | .error () => .error offset
      | .ok t => (scan (offset + byteLength w) rest).map
          (t.toList.map (⟨·, offset, offset + byteLength w⟩) ++ ·) := by
  obtain ⟨c, w, rfl⟩ := List.exists_cons_of_length_pos h.pos
  have found := lexeme?_eq_some_iff.mpr h
  rw [List.cons_append] at found
  rw [List.cons_append, scan, found]
  dsimp only
  rw [← List.cons_append, List.take_left, List.length_cons, Nat.add_sub_cancel, List.drop_left]
  cases token r (c :: w) with
  | error e => rfl
  | ok t =>
    cases scan (offset + byteLength (c :: w)) rest with
    | error e => rfl
    | ok ts => cases t <;> rfl

theorem scan_gap (h : Longest (w ++ rest) .gap w.length) :
    scan offset (w ++ rest) = scan (offset + byteLength w) rest := by
  rw [scan_of_longest h, token]
  cases scan (offset + byteLength w) rest <;> rfl

theorem scan_comment {body : List Char} (h : EndsLine body rest) :
    scan offset ('#' :: body ++ rest) = scan (offset + byteLength ('#' :: body)) rest := by
  have all : run (· ≠ '\n') (body ++ rest) = body.length := by
    have stops : run (· ≠ '\n') rest = 0 := by
      cases rest with
      | nil => rfl
      | cons c rest => rw [h.rest c rfl, run_cons, if_neg (by decide)]
    rw [run_append fun c hc ↦ decide_eq_true (ne_of_mem_of_not_mem hc h.body), stops,
      Nat.add_zero]
  refine scan_gap (lexeme?_eq_some_iff.mp ?_)
  rw [List.length_cons, Nat.add_comm, ← all]
  rfl

theorem scan_blanks (all : ∀ c ∈ g, isGap c) (stops : run isGap rest = 0) :
    scan offset (g ++ rest) = scan (offset + byteLength g) rest := by
  cases g with
  | nil => rfl
  | cons c g =>
    obtain ⟨hc, hg⟩ := List.forall_mem_cons.mp all
    refine scan_gap (lexeme?_eq_some_iff.mp ?_)
    rw [List.cons_append, lexeme?, if_pos hc, run_append hg, stops, List.length_cons,
      Nat.add_zero, Nat.add_comm]

/-- The blanks of a gap may be read one by one. -/
theorem scan_blank (hc : isGap c) :
    scan offset (c :: rest) = scan (offset + c.utf8Size) rest := by
  obtain ⟨g, rest, rfl, all, stops⟩ := exists_run isGap rest
  rw [← List.cons_append, scan_blanks (List.forall_mem_cons.mpr ⟨hc, all⟩) stops,
    scan_blanks all stops, Nat.add_assoc]
  rfl

theorem token_ne_none (h : r ≠ .gap) : token r w ≠ .ok none := by
  cases r with
  | gap => exact absurd rfl h
  | int | hex =>
    unfold token
    dsimp only
    split <;> rintro ⟨⟩
  | mark _ | float | string | word => rintro ⟨⟩

theorem scan_stands (h : Stands w rest r) :
    scan offset (w ++ rest) =
      match token r w with
      | .ok (some t) => (scan (offset + byteLength w) rest).map
          (⟨t, offset, offset + byteLength w⟩ :: ·)
      | _ => .error offset := by
  rw [scan_of_longest h.longest]
  match found : token r w with
  | .error () | .ok (some t) => rfl
  | .ok none => exact absurd found (token_ne_none h.kind)

theorem scan_stands_eq_ok (h : Stands w rest r) :
    scan offset (w ++ rest) = .ok ts ↔ ∃ t us, token r w = .ok (some t) ∧
      scan (offset + byteLength w) rest = .ok us ∧
      ts = ⟨t, offset, offset + byteLength w⟩ :: us := by
  rw [scan_stands h]
  split
  · next t ht =>
    cases scan (offset + byteLength w) rest with
    | error e => simp [Except.map]
    | ok us => simp [Except.map, ht, eq_comm]
  · next other =>
    constructor
    · rintro ⟨⟩
    · rintro ⟨t, -, ht, -⟩
      exact absurd ht (other t)

theorem scan_stuck (hne : cs ≠ []) (h : lexeme? cs = none) : scan offset cs = .error offset := by
  obtain ⟨c, rest, rfl⟩ := List.exists_cons_of_ne_nil hne
  rw [scan, h]

theorem scan_nil : scan offset [] = .ok [] := by rw [scan]

/-- A text is empty, or it starts with a blank, a comment, a token or what is none of them. -/
theorem text_induction {motive : List Char → Prop} (nil : motive [])
    (blank : ∀ c rest, isGap c → motive rest → motive (c :: rest))
    (comment : ∀ body rest, EndsLine body rest → motive rest → motive ('#' :: body ++ rest))
    (token : ∀ r w rest, Stands w rest r → motive rest → motive (w ++ rest))
    (stuck : ∀ cs, cs ≠ [] → lexeme? cs = none → motive cs) (cs : List Char) : motive cs := by
  induction length : cs.length using Nat.strong_induction_on generalizing cs with
  | _ n ih =>
    subst length
    cases cs with
    | nil => exact nil
    | cons c cs =>
      by_cases gap : isGap c
      · exact blank c cs gap (ih cs.length (Nat.lt_succ_self _) cs rfl)
      by_cases sign : c = '#'
      · subst sign
        obtain ⟨body, rest, rfl, all, stops⟩ := exists_run (· ≠ '\n') cs
        refine comment body rest ⟨fun feed ↦ ?_, fun c hc ↦ ?_⟩ (ih rest.length ?_ rest rfl)
        · exact of_decide_eq_true (all _ feed) rfl
        · obtain ⟨more, rfl⟩ := List.head?_eq_some_iff.mp hc
          by_contra other
          rw [run_cons, if_pos (decide_eq_true other)] at stops
          cases stops
        · simp only [List.length_cons, List.length_append]
          omega
      cases found : lexeme? (c :: cs) with
      | none => exact stuck _ (List.cons_ne_nil c cs) found
      | some found' =>
        obtain ⟨r, n⟩ := found'
        have longest := lexeme?_eq_some_iff.mp found
        have kind : r ≠ .gap := by
          rintro rfl
          exact (startsGap_of_heads longest.heads).elim gap sign
        have split := List.take_append_drop n (c :: cs)
        have length := List.length_take_of_le longest.heads.le
        rw [← split]
        refine token r _ _ ⟨kind, ?_⟩ (ih _ ?_ _ rfl)
        · rw [split, length]
          exact longest
        · have := longest.pos
          rw [List.length_drop, List.length_cons]
          omega

end step

section shift

/-- The tokens, or the place of what is none, moved on. -/
def shifted (k : Nat) : Except Nat (List Spanned) → Except Nat (List Spanned)
  | .ok ts => .ok (ts.map (.shift k))
  | .error o => .error (o + k)

theorem scan_add (offset k : Nat) (cs : List Char) :
    scan (offset + k) cs = shifted k (scan offset cs) := by
  induction cs using text_induction generalizing offset with
  | nil => rw [scan_nil, scan_nil, shifted, List.map_nil]
  | blank c rest hc ih => rw [scan_blank hc, scan_blank hc, ← ih, Nat.add_right_comm]
  | comment body rest ends ih =>
    rw [scan_comment ends, scan_comment ends, ← ih, Nat.add_right_comm]
  | token r w rest stands ih =>
    rw [scan_stands stands, scan_stands stands, Nat.add_right_comm, ih]
    cases token r w with
    | error e => rfl
    | ok t =>
      cases t with
      | none => rfl
      | some t => cases scan (offset + byteLength w) rest <;> rfl
  | stuck cs hne none => rw [scan_stuck hne none, scan_stuck hne none, shifted]

end shift

section layout

/-- Before the text `after`: nothing but blanks, and comments up to the ends of their lines. -/
inductive Gap (after : List Char) : List Char → Prop
  | nil : Gap after []
  | blank {c : Char} {g : List Char} : isGap c → Gap after g → Gap after (c :: g)
  | comment {body g : List Char} :
    EndsLine body (g ++ after) → Gap after g → Gap after ('#' :: body ++ g)

/-- The text from the byte `offset` on has the tokens at their places, with gaps in between. What
stands at the place of a token is the longest word there, and is that token by itself too. -/
inductive Laid : Nat → List Char → List Spanned → Prop
  | last {offset : Nat} {g : List Char} : Gap [] g → Laid offset g []
  | next {offset start stop : Nat} {g w rest : List Char} {r : Rule} {t : Token}
    {ts : List Spanned} :
    Gap (w ++ rest) g → Stands w rest r → token r w = .ok (some t) →
      start = offset + byteLength g → stop = start + byteLength w →
      tokenize (String.ofList w) = .ok [⟨t, 0, byteLength w⟩] → Laid stop rest ts →
      Laid offset (g ++ (w ++ rest)) (⟨t, start, stop⟩ :: ts)

theorem Laid.blank (hc : isGap c) (h : Laid (offset + c.utf8Size) cs ts) :
    Laid offset (c :: cs) ts := by
  cases h with
  | last gap => exact .last (.blank hc gap)
  | next gap stands ht start stop own rest =>
    exact .next (.blank hc gap) stands ht (start.trans (Nat.add_assoc ..)) stop own rest

theorem Laid.comment {body : List Char} (ends : EndsLine body cs)
    (h : Laid (offset + byteLength ('#' :: body)) cs ts) : Laid offset ('#' :: body ++ cs) ts := by
  cases h with
  | last gap => exact .last (.comment (by rwa [List.append_nil]) gap)
  | next gap stands ht start stop own rest =>
    rw [← List.append_assoc]
    refine .next (.comment ends gap) stands ht (start.trans ?_) stop own rest
    rw [byteLength_append, Nat.add_assoc]

theorem laid_of_scan (h : scan offset cs = .ok ts) : Laid offset cs ts := by
  induction cs using text_induction generalizing offset ts with
  | nil =>
    rw [scan_nil] at h
    cases h
    exact .last .nil
  | blank c rest hc ih => exact (ih (by rwa [scan_blank hc] at h)).blank hc
  | comment body rest ends ih => exact (ih (by rwa [scan_comment ends] at h)).comment ends
  | token r w rest stands ih =>
    obtain ⟨t, us, ht, hus, rfl⟩ := (scan_stands_eq_ok stands).mp h
    refine .next .nil stands ht rfl rfl ?_ (ih hus)
    -- the longest lexeme of the text is the longest of its own text
    have alone : Stands w [] r := .cut stands
    have own : scan 0 (w ++ []) = .ok [⟨t, 0, 0 + byteLength w⟩] :=
      (scan_stands_eq_ok alone).mpr ⟨t, [], ht, scan_nil, rfl⟩
    rw [List.append_nil, Nat.zero_add] at own
    rw [tokenize, String.toList_ofList, own]
  | stuck cs hne none =>
    rw [scan_stuck hne none] at h
    cases h

theorem Gap.scan_append {after : List Char} (h : Gap after g) :
    scan offset (g ++ after) = scan (offset + byteLength g) after := by
  induction h generalizing offset with
  | nil => rfl
  | blank hc gap ih =>
    rw [List.cons_append, scan_blank hc, ih, Nat.add_assoc]
    rfl
  | comment ends gap ih =>
    rw [List.append_assoc, scan_comment ends, ih, byteLength_append, Nat.add_assoc]

theorem Laid.scan (h : Laid offset cs ts) : scan offset cs = .ok ts := by
  induction h with
  | @last offset g gap => rw [← List.append_nil g, gap.scan_append, scan_nil]
  | next gap stands ht start stop own rest ih =>
    subst start stop
    rw [gap.scan_append]
    exact (scan_stands_eq_ok stands).mpr ⟨_, _, ht, ih, rfl⟩

theorem Laid.bounds (h : Laid offset cs ts) :
    ∀ t ∈ ts, offset ≤ t.start ∧ t.start < t.stop ∧ t.stop ≤ offset + byteLength cs := by
  induction h with
  | last => simp
  | @next offset start stop g w rest r t ts gap stands ht hstart hstop own laid ih =>
    have pos := byteLength_pos stands.ne_nil
    have all : byteLength (g ++ (w ++ rest)) = byteLength g + (byteLength w + byteLength rest) := by
      rw [byteLength_append, byteLength_append]
    refine List.forall_mem_cons.mpr ⟨?_, fun t ht ↦ ?_⟩
    · dsimp only
      omega
    · have := ih t ht
      omega

theorem Laid.pairwise (h : Laid offset cs ts) : ts.Pairwise fun s t ↦ s.stop ≤ t.start := by
  induction h with
  | last => exact .nil
  | next gap stands ht start stop own rest ih =>
    exact List.pairwise_cons.mpr ⟨fun t ht ↦ (rest.bounds t ht).1, ih⟩

end layout

section cut

/-- What starts here is no word of any rule, or the longest one makes no token. -/
inductive Stuck : List Char → Prop
  | unmatched {cs : List Char} : cs ≠ [] → (∀ (r : Rule) n, ¬Heads r.pattern cs n) → Stuck cs
  | refused {w rest : List Char} {r : Rule} :
    Stands w rest r → token r w = .error () → Stuck (w ++ rest)

theorem Stuck.ne_nil (h : Stuck cs) : cs ≠ [] := by
  cases h with
  | unmatched hne => exact hne
  | refused stands => exact List.append_ne_nil_of_left_ne_nil stands.ne_nil _

/-- The text before what is no token is read without it. -/
theorem exists_before_of_scan {o : Nat} (h : scan offset cs = .error o) :
    ∃ before after ts, cs = before ++ after ∧ Stuck after ∧ o = offset + byteLength before ∧
      scan offset before = .ok ts := by
  induction cs using text_induction generalizing offset with
  | nil =>
    rw [scan_nil] at h
    cases h
  | blank c rest hc ih =>
    rw [scan_blank hc] at h
    obtain ⟨before, after, ts, rfl, stuck, rfl, ok⟩ := ih h
    exact ⟨c :: before, after, ts, rfl, stuck, Nat.add_assoc .., by rw [scan_blank hc, ok]⟩
  | comment body rest ends ih =>
    rw [scan_comment ends] at h
    obtain ⟨before, after, ts, rfl, stuck, rfl, ok⟩ := ih h
    refine ⟨'#' :: body ++ before, after, ts, (List.append_assoc ..).symm, stuck, ?_, ?_⟩
    · rw [byteLength_append, Nat.add_assoc]
    · rw [scan_comment ends.cut, ok]
  | token r w rest stands ih =>
    rw [scan_stands stands] at h
    match ht : token r w with
    | .ok none => exact absurd ht (token_ne_none stands.kind)
    | .ok (some t) =>
      rw [ht] at h
      cases later : scan (offset + byteLength w) rest with
      | ok us =>
        rw [later] at h
        cases h
      | error e =>
        rw [later] at h
        cases h
        obtain ⟨before, after, ts, rfl, stuck, rfl, ok⟩ := ih later
        refine ⟨w ++ before, after, _, (List.append_assoc ..).symm, stuck, ?_,
          (scan_stands_eq_ok stands.cut).mpr ⟨t, ts, ht, ok, rfl⟩⟩
        rw [byteLength_append, Nat.add_assoc]
    | .error () =>
      rw [ht] at h
      cases h
      exact ⟨[], w ++ rest, [], rfl, .refused stands ht, rfl, scan_nil⟩
  | stuck cs hne none =>
    rw [scan_stuck hne none] at h
    cases h
    exact ⟨[], cs, [], rfl, .unmatched hne (lexeme?_eq_none_iff.mp none), rfl, scan_nil⟩

theorem scan_append_line (h : scan offset cs = .ok ts) :
    scan offset (cs ++ '\n' :: more) =
      (scan (offset + byteLength cs + 1) more).map (ts ++ ·) := by
  induction cs using text_induction generalizing offset ts with
  | nil =>
    -- the line feed is a blank, whether or not the other text starts with more of them
    rw [scan_nil] at h
    cases h
    rw [List.nil_append, scan_blank (by decide)]
    change _ = Except.map id _
    rw [Except.map_id]
    rfl
  | blank c rest hc ih =>
    rw [scan_blank hc] at h
    rw [List.cons_append, scan_blank hc, ih h, Nat.add_assoc offset]
    rfl
  | comment body rest ends ih =>
    rw [scan_comment ends] at h
    rw [List.append_assoc, scan_comment ends.before_line, ih h, byteLength_append,
      Nat.add_assoc offset]
  | token r w rest stands ih =>
    obtain ⟨t, us, ht, hus, rfl⟩ := (scan_stands_eq_ok stands).mp h
    rw [List.append_assoc, scan_stands (stands.before_blank (by decide)), ht]
    dsimp only
    rw [ih hus, byteLength_append, Nat.add_assoc offset]
    cases scan (offset + (byteLength w + byteLength rest) + 1) more <;> rfl
  | stuck cs hne none =>
    rw [scan_stuck hne none] at h
    cases h

end cut

theorem byteLength_toList (text : String) : byteLength text.toList = text.utf8ByteSize := by
  rw [← Text.length_encode, ← Text.octets_eq, Text.length_octets]

/-- A text is read just if it is laid out by tokens, with nothing but blanks and comments around
them. What stands before the place of an error is read, and there no token starts. Two texts with a
line feed between them are read as each of them is. -/
theorem tokenize_exact (text : String) :
    (∀ ts, tokenize text = .ok ts ↔ Laid 0 text.toList ts) ∧
    (∀ ts, tokenize text = .ok ts →
      (∀ t ∈ ts, t.start < t.stop ∧ t.stop ≤ text.utf8ByteSize) ∧
        ts.Pairwise fun s t ↦ s.stop ≤ t.start) ∧
    (∀ o, tokenize text = .error o → o < text.utf8ByteSize ∧
      ∃ before after ts, text = before ++ after ∧ before.utf8ByteSize = o ∧
        tokenize before = .ok ts ∧ Stuck after.toList) ∧
    ∀ other ts us, tokenize text = .ok ts → tokenize other = .ok us →
      tokenize (text ++ "\n" ++ other) =
        .ok (ts ++ us.map (.shift (text.utf8ByteSize + 1))) := by
  refine ⟨fun ts ↦ ⟨laid_of_scan, Laid.scan⟩, fun ts h ↦ ?_, fun o h ↦ ?_,
    fun other ts us h h' ↦ ?_⟩
  · have laid := laid_of_scan h
    refine ⟨fun t ht ↦ ?_, laid.pairwise⟩
    obtain ⟨-, proper, inside⟩ := laid.bounds t ht
    rw [Nat.zero_add, byteLength_toList] at inside
    exact ⟨proper, inside⟩
  · obtain ⟨before, after, ts, split, stuck, rfl, ok⟩ := exists_before_of_scan h
    have text_eq : text = String.ofList before ++ String.ofList after := by
      rw [← String.ofList_append, ← split, String.ofList_toList]
    have size : (String.ofList before).utf8ByteSize = 0 + byteLength before := by
      rw [← byteLength_toList, String.toList_ofList, Nat.zero_add]
    refine ⟨?_, String.ofList before, String.ofList after, ts, text_eq, size, ?_, ?_⟩
    · have pos := byteLength_pos stuck.ne_nil
      rw [← byteLength_toList, split, byteLength_append]
      omega
    · rw [tokenize, String.toList_ofList, ok]
    · rwa [String.toList_ofList]
  · have joined : (text ++ "\n" ++ other).toList = text.toList ++ '\n' :: other.toList := by
      simp
    rw [tokenize] at h h'
    rw [tokenize, joined, scan_append_line h, byteLength_toList, Nat.add_assoc, scan_add, h']
    rfl

/-- A comment goes no further than its line. -/
example : tokenize ("1 # a" ++ "\n" ++ "DEF") =
    .ok [⟨.int 1, 0, 1⟩, ⟨.keyword .define, 6, 9⟩] := by
  cbv

end Lexer

end SceneGraph
