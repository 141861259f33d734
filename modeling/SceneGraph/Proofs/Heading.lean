import Mathlib.Computability.Language
import SceneGraph.Proofs.Locating

/-!
Words at the head of a text. Languages are put together from characters as regular expressions
are, and the searches for runs, numbers and strings find the longest word of theirs.
-/

namespace SceneGraph

namespace Lexer

open Computability

section language

variable {p : Char → Bool} {w : List Char}

def character (p : Char → Bool) : Language Char := {w | ∃ c, p c ∧ w = [c]}

def many (p : Char → Bool) : Language Char := (character p)∗

def several (p : Char → Bool) : Language Char := character p * many p

theorem mem_many : w ∈ many p ↔ ∀ c ∈ w, p c := by
  constructor
  · rintro ⟨ws, rfl, each⟩ c hc
    obtain ⟨v, hv, hc⟩ := List.mem_flatten.mp hc
    obtain ⟨d, hd, rfl⟩ := each v hv
    rwa [List.mem_singleton.mp hc]
  · intro h
    refine ⟨w.map ([·]), ?_, fun v hv ↦ ?_⟩
    · rw [← List.flatMap_def, List.flatMap_singleton']
    · obtain ⟨c, hc, rfl⟩ := List.mem_map.mp hv
      exact ⟨c, h c hc, rfl⟩

theorem mem_several : w ∈ several p ↔ w ≠ [] ∧ ∀ c ∈ w, p c := by
  constructor
  · rintro ⟨_, ⟨c, hc, rfl⟩, v, hv, rfl⟩
    exact ⟨List.cons_ne_nil c v, List.forall_mem_cons.mpr ⟨hc, mem_many.mp hv⟩⟩
  · rintro ⟨hne, h⟩
    obtain ⟨c, v, rfl⟩ := List.exists_cons_of_ne_nil hne
    obtain ⟨hc, hv⟩ := List.forall_mem_cons.mp h
    exact ⟨[c], ⟨c, hc, rfl⟩, v, mem_many.mpr hv, rfl⟩

end language

/-- The first `n` characters are a word of the language. -/
structure Heads (l : Language Char) (cs : List Char) (n : Nat) : Prop where
  le : n ≤ cs.length
  mem : cs.take n ∈ l

section heads

variable {l m : Language Char} {cs more : List Char} {n k : Nat} {p : Char → Bool} {c : Char}

theorem heads_append (h : n ≤ cs.length) : Heads l (cs ++ more) n ↔ Heads l cs n := by
  have same : (cs ++ more).take n = cs.take n := List.take_append_of_le_length h
  refine ⟨fun heads ↦ ⟨h, same ▸ heads.mem⟩, fun heads ↦ ⟨?_, same ▸ heads.mem⟩⟩
  rw [List.length_append]
  omega

theorem heads_length {w : List Char} : Heads l w w.length ↔ w ∈ l :=
  ⟨fun h ↦ by simpa using h.mem, fun h ↦ ⟨le_rfl, by simpa using h⟩⟩

theorem heads_one : Heads 1 cs n ↔ n = 0 := by
  constructor
  · intro h
    have := congrArg List.length (Language.mem_one _ |>.mp h.mem)
    have := h.le
    simp only [List.length_take, List.length_nil] at *
    omega
  · rintro rfl
    exact ⟨Nat.zero_le _, Language.nil_mem_one⟩

theorem heads_add : Heads (l + m) cs n ↔ Heads l cs n ∨ Heads m cs n := by
  constructor
  · rintro ⟨le, h | h⟩
    exacts [.inl ⟨le, h⟩, .inr ⟨le, h⟩]
  · rintro (⟨le, h⟩ | ⟨le, h⟩)
    exacts [⟨le, .inl h⟩, ⟨le, .inr h⟩]

theorem heads_mul :
    Heads (l * m) cs n ↔ ∃ i j, Heads l cs i ∧ Heads m (cs.drop i) j ∧ n = i + j := by
  constructor
  · rintro ⟨le, u, hu, v, hv, split⟩
    have length := congrArg List.length split
    simp only [List.length_append, List.length_take, Nat.min_eq_left le] at length
    have first : cs.take u.length = u := by
      rw [← Nat.min_eq_left (by omega : u.length ≤ n), ← List.take_take, ← split,
        List.take_left]
    have second : (cs.drop u.length).take v.length = v := by
      rw [List.take_drop, length, ← split, List.drop_left]
    exact ⟨u.length, v.length, ⟨by omega, first.symm ▸ hu⟩,
      ⟨by rw [List.length_drop]; omega, second.symm ▸ hv⟩, length.symm⟩
  · rintro ⟨i, j, hi, hj, rfl⟩
    refine ⟨?_, ?_⟩
    · have := hi.le
      have := hj.le
      rw [List.length_drop] at this
      omega
    · rw [List.take_add]
      exact Language.append_mem_mul hi.mem hj.mem

theorem heads_character :
    Heads (character p) cs n ↔ ∃ c rest, cs = c :: rest ∧ p c ∧ n = 1 := by
  constructor
  · rintro ⟨le, c, hc, w⟩
    have length := congrArg List.length w
    rw [List.length_take, Nat.min_eq_left le, List.length_singleton] at length
    subst length
    cases cs with
    | nil => cases w
    | cons d cs =>
      cases w
      exact ⟨c, cs, rfl, hc, rfl⟩
  · rintro ⟨c, rest, rfl, hc, rfl⟩
    exact ⟨Nat.le_add_left .., c, hc, rfl⟩

theorem heads_character_mul : Heads (character p * l) cs n ↔
    ∃ c rest k, cs = c :: rest ∧ p c ∧ Heads l rest k ∧ n = 1 + k := by
  rw [heads_mul]
  constructor
  · rintro ⟨_, k, first, hk, rfl⟩
    obtain ⟨c, rest, rfl, hc, rfl⟩ := heads_character.mp first
    exact ⟨c, rest, k, rfl, hc, hk, rfl⟩
  · rintro ⟨c, rest, k, rfl, hc, hk, rfl⟩
    exact ⟨1, k, heads_character.mpr ⟨c, rest, rfl, hc, rfl⟩, hk, rfl⟩

theorem run_cons : run p (c :: cs) = if p c then run p cs + 1 else 0 := by
  unfold run
  cases hc : p c <;> simp [hc]

theorem run_append {a b : List Char} (h : ∀ c ∈ a, p c) : run p (a ++ b) = a.length + run p b := by
  unfold run
  rw [List.takeWhile_append_of_pos h, List.length_append]

/-- A run, and what does not go on with it. -/
theorem exists_run (p : Char → Bool) (cs : List Char) :
    ∃ a b, cs = a ++ b ∧ (∀ c ∈ a, p c) ∧ run p b = 0 := by
  induction cs with
  | nil => exact ⟨[], [], rfl, by simp, rfl⟩
  | cons c cs ih =>
    by_cases hc : p c
    · obtain ⟨a, b, rfl, each, stops⟩ := ih
      exact ⟨c :: a, b, rfl, List.forall_mem_cons.mpr ⟨hc, each⟩, stops⟩
    · exact ⟨[], c :: cs, rfl, by simp, by rw [run_cons, if_neg hc]⟩

theorem exists_of_run_pos (h : 0 < run p cs) : ∃ c rest, cs = c :: rest ∧ p c := by
  cases cs with
  | nil => cases h
  | cons c rest =>
    rw [run_cons] at h
    split at h
    · next hc => exact ⟨c, rest, rfl, hc⟩
    · cases h

theorem le_run : n ≤ run p cs ↔ n ≤ cs.length ∧ ∀ c ∈ cs.take n, p c := by
  induction cs generalizing n with
  | nil => simp [run]
  | cons c cs ih =>
    cases n with
    | zero => simp
    | succ n =>
      rw [run_cons, List.take_succ_cons, List.forall_mem_cons, List.length_cons]
      cases hc : p c
      · simp
      · simp [ih]

theorem heads_many : Heads (many p) cs n ↔ n ≤ run p cs := by
  rw [le_run, ← mem_many]
  exact ⟨fun h ↦ ⟨h.le, h.mem⟩, fun ⟨le, mem⟩ ↦ ⟨le, mem⟩⟩

theorem heads_several : Heads (several p) cs n ↔ 0 < n ∧ n ≤ run p cs := by
  rw [le_run]
  constructor
  · rintro ⟨le, mem⟩
    obtain ⟨hne, each⟩ := mem_several.mp mem
    exact ⟨Nat.pos_of_ne_zero fun h ↦ hne (by rw [h, List.take_zero]), le, each⟩
  · rintro ⟨pos, le, each⟩
    refine ⟨le, mem_several.mpr ⟨fun h ↦ ?_, each⟩⟩
    have := congrArg List.length h
    rw [List.length_take, Nat.min_eq_left le, List.length_nil] at this
    omega

theorem run_drop (h : n ≤ run p cs) : run p cs = n + run p (cs.drop n) := by
  induction n generalizing cs with
  | zero => rw [Nat.zero_add, List.drop_zero]
  | succ n ih =>
    cases cs with
    | nil => cases h
    | cons c cs =>
      rw [run_cons] at h ⊢
      split at h
      · next hc =>
        rw [if_pos hc, List.drop_succ_cons, ih (Nat.le_of_succ_le_succ h)]
        omega
      · cases h

/-- A run ends before a character of another kind. -/
theorem run_eq_of_drop {rest : List Char} (h : n ≤ run p cs) (next : cs.drop n = c :: rest)
    (hc : ¬p c) : run p cs = n := by
  rw [run_drop h, next, run_cons, if_neg hc, Nat.add_zero]

end heads

section number

variable {cs rest : List Char} {c : Char} {n k : Nat}

def isSign (c : Char) : Bool := c = '+' || c = '-'

def optionalSign : Language Char := 1 + character isSign

def numeral : Language Char := several Char.isDigit

theorem heads_numeral : Heads numeral cs n ↔ 0 < n ∧ n ≤ digits cs := heads_several

def power : Language Char := character (fun c ↦ c = 'e' ∨ c = 'E') * (optionalSign * numeral)

theorem sign_cons : sign (c :: cs) = if isSign c then 1 else 0 := by
  unfold sign isSign
  split
  · next h => cases h; rfl
  · next h => cases h; rfl
  · next plus minus =>
    rw [if_neg]
    rintro h
    rcases Bool.or_eq_true_iff.mp h with h | h
    · exact plus cs (by rw [of_decide_eq_true h])
    · exact minus cs (by rw [of_decide_eq_true h])

theorem heads_optionalSign : Heads optionalSign cs n ↔ n = 0 ∨ n = 1 ∧ sign cs = 1 := by
  rw [optionalSign, heads_add, heads_one, heads_character]
  refine or_congr_right ⟨?_, ?_⟩
  · rintro ⟨c, rest, rfl, hc, rfl⟩
    exact ⟨rfl, by rw [sign_cons, if_pos hc]⟩
  · rintro ⟨rfl, one⟩
    cases cs with
    | nil => cases one
    | cons c cs =>
      rw [sign_cons] at one
      split at one
      · next hc => exact ⟨c, cs, rfl, hc, rfl⟩
      · cases one

theorem sign_le (cs : List Char) : sign cs = 0 ∨ sign cs = 1 := by
  cases cs with
  | nil => exact .inl rfl
  | cons c cs =>
    rw [sign_cons]
    split
    exacts [.inr rfl, .inl rfl]

theorem heads_sign : Heads optionalSign cs (sign cs) := by
  rw [heads_optionalSign]
  rcases sign_le cs with h | h
  exacts [.inl h, .inr ⟨h, h⟩]

theorem sign_eq (h : Heads optionalSign cs n) (next : cs.drop n = c :: rest)
    (hc : ¬isSign c) : sign cs = n := by
  rcases heads_optionalSign.mp h with rfl | ⟨rfl, one⟩
  · rw [List.drop_zero] at next
    rw [next, sign_cons, if_neg hc]
  · exact one

theorem not_isSign_of_isDigit (h : c.isDigit) : ¬isSign c := by
  intro sign
  rcases Bool.or_eq_true_iff.mp sign with h' | h' <;> rw [of_decide_eq_true h'] at h <;> cases h

theorem exponent_cons : exponent (c :: cs) =
    if (c = 'e' ∨ c = 'E') ∧ digits (cs.drop (sign cs)) ≠ 0 then
      1 + sign cs + digits (cs.drop (sign cs)) else 0 := by
  rw [exponent]
  grind

theorem heads_power_exponent (h : exponent cs ≠ 0) : Heads power cs (exponent cs) := by
  cases cs with
  | nil => exact absurd rfl h
  | cons c cs =>
    rw [exponent_cons] at h ⊢
    split at h
    · next he =>
      rw [if_pos he, power, heads_character_mul]
      refine ⟨c, cs, _, rfl, decide_eq_true he.1, ?_, Nat.add_assoc ..⟩
      exact heads_mul.mpr ⟨_, _, heads_sign,
        heads_numeral.mpr ⟨Nat.pos_of_ne_zero he.2, le_rfl⟩, rfl⟩
    · exact absurd rfl h

theorem le_exponent (h : Heads power cs n) :
    0 < n ∧ n ≤ exponent cs ∧ ∃ c rest, cs = c :: rest ∧ (c = 'e' ∨ c = 'E') := by
  obtain ⟨c, rest, _, rfl, he, body, rfl⟩ := heads_character_mul.mp h
  have he := of_decide_eq_true he
  obtain ⟨i, j, hi, hj, rfl⟩ := heads_mul.mp body
  obtain ⟨pos, le⟩ := heads_numeral.mp hj
  obtain ⟨d, ds, next, hd⟩ := exists_of_run_pos (Nat.lt_of_lt_of_le pos le)
  have hs := sign_eq hi next (not_isSign_of_isDigit hd)
  refine ⟨by omega, ?_, c, rest, rfl, he⟩
  rw [exponent_cons, hs, if_pos ⟨he, by omega⟩]
  omega

/-- What a float may end with. -/
def optionalPower : Language Char := 1 + power

theorem heads_optionalPower_exponent : Heads optionalPower cs (exponent cs) := by
  rw [optionalPower, heads_add, heads_one]
  exact or_iff_not_imp_left.mpr heads_power_exponent

/-- Digits with a power, if any, are not longer than all digits with theirs. -/
theorem add_le_digits_exponent (h : k ≤ digits cs) (hp : Heads optionalPower (cs.drop k) n) :
    k + n ≤ digits cs + exponent (cs.drop (digits cs)) := by
  rw [optionalPower, heads_add, heads_one] at hp
  rcases hp with rfl | hp
  · omega
  · obtain ⟨-, le, c, rest, next, he⟩ := le_exponent hp
    have all : digits cs = k := by
      refine run_eq_of_drop h next ?_
      rcases he with rfl | rfl <;> decide
    rw [all]
    omega

/-- Numerals without a sign. -/
def unsigned : Rule → Language Char
  | .int => numeral
  | .hex => character (· = '0') * (character (fun c ↦ c = 'x' ∨ c = 'X') * several isHexDigit)
  | .float =>
    numeral * (character (· = '.') * (many Char.isDigit * optionalPower)) +
      character (· = '.') * (numeral * optionalPower) + numeral * power
  | _ => 0

/-- What was found is the rule with its word at the head, or a longer word. -/
def Reaches (found : Option (Rule × Nat)) (r : Rule) (n : Nat) : Prop :=
  ∃ r' n', found = some (r', n') ∧ n ≤ n' ∧ (n = n' → r = r')

theorem heads_hexadecimal (h : hexadecimal cs ≠ 0) :
    Heads (unsigned .hex) cs (hexadecimal cs) ∧ digits cs = 1 ∧ 1 < hexadecimal cs ∧
      ∃ c rest, cs.drop 1 = c :: rest ∧ (c = 'x' ∨ c = 'X') := by
  unfold hexadecimal at h ⊢
  split at h
  · next x cs =>
    dsimp only at h ⊢
    split at h
    · next hx =>
      rw [if_pos hx]
      refine ⟨?_, ?_, by omega, x, cs, rfl, hx.1⟩
      · refine heads_character_mul.mpr ⟨'0', x :: cs, _, rfl, rfl, heads_character_mul.mpr
          ⟨x, cs, _, rfl, decide_eq_true hx.1, ?_, rfl⟩, Nat.add_assoc 1 1 _⟩
        exact heads_several.mpr ⟨Nat.pos_of_ne_zero hx.2, le_rfl⟩
      · rw [digits, run_cons, if_pos (by rfl), run_cons, if_neg]
        rcases hx.1 with rfl | rfl <;> decide
    · exact absurd rfl h
  · exact absurd rfl h

theorem le_hexadecimal (h : Heads (unsigned .hex) cs n) :
    n ≤ hexadecimal cs ∧ hexadecimal cs ≠ 0 ∧ digits cs ≠ 0 := by
  obtain ⟨c, _, _, rfl, hc, body, rfl⟩ := heads_character_mul.mp h
  obtain rfl := of_decide_eq_true hc
  obtain ⟨x, cs, k, rfl, hx, hs, rfl⟩ := heads_character_mul.mp body
  obtain ⟨pos, le⟩ := heads_several.mp hs
  have value : hexadecimal ('0' :: x :: cs) = 2 + run isHexDigit cs :=
    if_pos ⟨of_decide_eq_true hx, by omega⟩
  refine ⟨by omega, by omega, ?_⟩
  rw [digits, run_cons, if_pos (by rfl)]
  exact Nat.succ_ne_zero _

theorem heads_of_unsigned? {r : Rule} (h : unsigned? cs = some (r, n)) :
    Heads (unsigned r) cs n := by
  unfold unsigned? at h
  dsimp only at h
  split at h
  · split at h
    · split at h
      · cases h
      · next rest _ some =>
        cases h
        refine heads_add.mpr (.inl (heads_add.mpr (.inr ?_)))
        refine heads_character_mul.mpr ⟨'.', rest, _, rfl, rfl, ?_, Nat.add_assoc ..⟩
        exact heads_mul.mpr ⟨digits rest, _, heads_numeral.mpr ⟨Nat.pos_of_ne_zero some, le_rfl⟩,
          heads_optionalPower_exponent, rfl⟩
    · cases h
  · next some =>
    have all : Heads numeral cs (digits cs) :=
      heads_numeral.mpr ⟨Nat.pos_of_ne_zero some, le_rfl⟩
    split at h
    · next hex =>
      cases h
      exact (heads_hexadecimal hex).1
    · split at h
      · next rest point =>
        cases h
        refine heads_add.mpr (.inl (heads_add.mpr (.inl ?_)))
        have tail : Heads (many Char.isDigit * optionalPower) rest _ := heads_mul.mpr
          ⟨digits rest, _, heads_many.mpr le_rfl, heads_optionalPower_exponent, rfl⟩
        exact heads_mul.mpr ⟨digits cs, _, all,
          heads_character_mul.mpr ⟨'.', rest, _, point, rfl, tail, rfl⟩, by omega⟩
      · split at h
        · cases h
          exact all
        · next power =>
          cases h
          exact heads_add.mpr (.inr (heads_mul.mpr
            ⟨digits cs, _, all, heads_power_exponent power, rfl⟩))

/-- There is no hexadecimal numeral where the digits end before another letter. -/
theorem hexadecimal_eq_zero (next : cs.drop (digits cs) = c :: rest)
    (hc : c ≠ 'x' ∧ c ≠ 'X') : hexadecimal cs = 0 := by
  by_contra h
  obtain ⟨-, one, -, x, more, second, hx⟩ := heads_hexadecimal h
  rw [one, second] at next
  cases next
  exact hx.elim hc.1 hc.2

theorem unsigned?_whole (whole : digits cs ≠ 0) (next : cs.drop (digits cs) = '.' :: rest) :
    unsigned? cs =
      some (.float, digits cs + 1 + digits rest + exponent (rest.drop (digits rest))) := by
  unfold unsigned?
  dsimp only
  rw [if_neg whole, if_neg (not_not.mpr (hexadecimal_eq_zero next (by decide))), next]
  rfl

theorem unsigned?_fraction (fraction : digits rest ≠ 0) :
    unsigned? ('.' :: rest) =
      some (.float, 1 + digits rest + exponent (rest.drop (digits rest))) :=
  if_neg fraction

theorem unsigned?_power (whole : digits cs ≠ 0) (next : cs.drop (digits cs) = c :: rest)
    (he : c = 'e' ∨ c = 'E') (some : exponent (cs.drop (digits cs)) ≠ 0) :
    unsigned? cs = .some (.float, digits cs + exponent (cs.drop (digits cs))) := by
  have other : c ≠ 'x' ∧ c ≠ 'X' ∧ c ≠ '.' := by rcases he with rfl | rfl <;> decide
  unfold unsigned?
  dsimp only
  rw [if_neg whole, if_neg (not_not.mpr (hexadecimal_eq_zero next ⟨other.1, other.2.1⟩))]
  split
  · next point =>
    rw [next] at point
    cases point
    exact absurd rfl other.2.2
  · exact if_neg some

theorem reaches_float (h : Heads (unsigned .float) cs n) : Reaches (unsigned? cs) .float n := by
  rcases heads_add.mp h with h | h
  · rcases heads_add.mp h with h | h
    · obtain ⟨i, _, hi, body, rfl⟩ := heads_mul.mp h
      obtain ⟨c, rest, _, next, hc, tail, rfl⟩ := heads_character_mul.mp body
      obtain rfl := of_decide_eq_true hc
      obtain ⟨j, k, hj, hk, rfl⟩ := heads_mul.mp tail
      obtain ⟨pos, le⟩ := heads_numeral.mp hi
      obtain rfl : digits cs = i := run_eq_of_drop le next (by decide)
      have most := add_le_digits_exponent (heads_many.mp hj) hk
      exact ⟨.float, _, unsigned?_whole (by omega) next, by omega, fun _ ↦ rfl⟩
    · obtain ⟨c, rest, _, rfl, hc, tail, rfl⟩ := heads_character_mul.mp h
      obtain rfl := of_decide_eq_true hc
      obtain ⟨j, k, hj, hk, rfl⟩ := heads_mul.mp tail
      obtain ⟨pos, le⟩ := heads_numeral.mp hj
      have most := add_le_digits_exponent le hk
      exact ⟨.float, _, unsigned?_fraction (by omega), by omega, fun _ ↦ rfl⟩
  · obtain ⟨i, j, hi, hj, rfl⟩ := heads_mul.mp h
    obtain ⟨pos, le⟩ := heads_numeral.mp hi
    obtain ⟨some, most, c, rest, next, hc⟩ := le_exponent hj
    obtain rfl : digits cs = i :=
      run_eq_of_drop le next (by rcases hc with rfl | rfl <;> decide)
    exact ⟨.float, _, unsigned?_power (by omega) next hc (by omega), by omega, fun _ ↦ rfl⟩

theorem reaches_int (h : Heads (unsigned .int) cs n) : Reaches (unsigned? cs) .int n := by
  obtain ⟨pos, le⟩ := heads_numeral.mp h
  unfold unsigned?
  dsimp only
  rw [if_neg (by omega)]
  split
  · next hex =>
    obtain ⟨-, one, more, -⟩ := heads_hexadecimal hex
    exact ⟨.hex, _, rfl, by omega, by omega⟩
  · split
    · exact ⟨.float, _, rfl, by omega, by omega⟩
    · split
      · exact ⟨.int, _, rfl, le, fun _ ↦ rfl⟩
      · exact ⟨.float, _, rfl, by omega, by omega⟩

theorem reaches_hex (h : Heads (unsigned .hex) cs n) : Reaches (unsigned? cs) .hex n := by
  obtain ⟨le, hex, some⟩ := le_hexadecimal h
  exact ⟨.hex, hexadecimal cs, (if_neg some).trans (if_pos hex), le, fun _ ↦ rfl⟩

theorem unsigned?_reaches {r : Rule} (h : Heads (unsigned r) cs n) :
    Reaches (unsigned? cs) r n := by
  cases r with
  | gap | mark _ | string | word => exact absurd h.mem (Language.notMem_zero _)
  | int => exact reaches_int h
  | hex => exact reaches_hex h
  | float => exact reaches_float h

theorem heads_of_number? {r : Rule} (h : number? cs = some (r, n)) :
    Heads (optionalSign * unsigned r) cs n := by
  obtain ⟨⟨r', k⟩, found, h⟩ := Option.map_eq_some_iff.mp h
  cases h
  exact heads_mul.mpr ⟨sign cs, k, heads_sign, heads_of_unsigned? found, rfl⟩

theorem exists_of_heads_unsigned {r : Rule} (h : Heads (unsigned r) cs n) :
    ∃ c rest, cs = c :: rest ∧ (c.isDigit ∨ c = '.') := by
  have whole {l : Language Char} {n : Nat} (h : Heads (numeral * l) cs n) :
      ∃ c rest, cs = c :: rest ∧ (c.isDigit ∨ c = '.') := by
    obtain ⟨i, j, hi, -, -⟩ := heads_mul.mp h
    obtain ⟨pos, le⟩ := heads_numeral.mp hi
    obtain ⟨c, rest, rfl, hc⟩ := exists_of_run_pos (Nat.lt_of_lt_of_le pos le)
    exact ⟨c, rest, rfl, .inl hc⟩
  cases r with
  | gap | mark _ | string | word => exact absurd h.mem (Language.notMem_zero _)
  | int => exact whole (l := 1) (by rwa [mul_one])
  | hex =>
    obtain ⟨c, rest, _, rfl, hc, -⟩ := heads_character_mul.mp h
    exact ⟨c, rest, rfl, .inl (by rw [of_decide_eq_true hc]; rfl)⟩
  | float =>
    rcases heads_add.mp h with h | h
    · rcases heads_add.mp h with h | h
      · exact whole h
      · obtain ⟨c, rest, _, rfl, hc, -⟩ := heads_character_mul.mp h
        exact ⟨c, rest, rfl, .inr (of_decide_eq_true hc)⟩
    · exact whole h

theorem number?_reaches {r : Rule} (h : Heads (optionalSign * unsigned r) cs n) :
    Reaches (number? cs) r n := by
  obtain ⟨i, j, hi, hj, rfl⟩ := heads_mul.mp h
  obtain ⟨c, rest, next, hc⟩ := exists_of_heads_unsigned hj
  have all : sign cs = i := by
    refine sign_eq hi next ?_
    rcases hc with hc | rfl
    exacts [not_isSign_of_isDigit hc, by decide]
  obtain ⟨r', k, found, le, same⟩ := unsigned?_reaches hj
  refine ⟨r', sign cs + k, ?_, by omega, fun h ↦ same (by omega)⟩
  rw [number?, all, found]
  rfl

end number

section quoted

variable {c : Char} {cs : List Char} {n : Nat}

/-- What stands for one character of a string. -/
def quotedCharacter : Language Char :=
  character (fun c ↦ c ≠ '"' ∧ c ≠ '\\') + character (· = '\\') * character (· ≠ '\n')

/-- A string after its opening quote. -/
def quotedTail : Language Char := quotedCharacter∗ * character (· = '"')

theorem quotedTail_eq :
    quotedTail = character (· = '"') + quotedCharacter * quotedTail :=
  calc quotedCharacter∗ * character (· = '"')
    _ = (1 + quotedCharacter * quotedCharacter∗) * character (· = '"') := by
      rw [Language.one_add_self_mul_kstar_eq_kstar]
    _ = character (· = '"') + quotedCharacter * quotedTail := by
      rw [add_mul, one_mul, mul_assoc, quotedTail]

theorem heads_quotedTail :
    Heads quotedTail cs n ↔ ∃ c rest, cs = c :: rest ∧
      (c = '"' ∧ n = 1 ∨
        (c ≠ '"' ∧ c ≠ '\\') ∧ (∃ k, Heads quotedTail rest k ∧ n = k + 1) ∨
        c = '\\' ∧ ∃ d more, rest = d :: more ∧ d ≠ '\n' ∧
          ∃ k, Heads quotedTail more k ∧ n = k + 2) := by
  have first : Heads quotedTail cs n ↔ Heads (character (· = '"') +
      quotedCharacter * quotedTail) cs n := by rw [← quotedTail_eq]
  rw [first, quotedCharacter, add_mul, mul_assoc]
  simp only [heads_add, heads_character, heads_character_mul, decide_eq_true_eq]
  constructor
  · rintro (⟨c, rest, rfl, quote, rfl⟩ | ⟨c, rest, k, rfl, plain, tail, rfl⟩ |
      ⟨c, _, _, rfl, escape, ⟨d, more, k, rfl, other, tail, rfl⟩, rfl⟩)
    · exact ⟨c, rest, rfl, .inl ⟨quote, rfl⟩⟩
    · exact ⟨c, rest, rfl, .inr (.inl ⟨plain, k, tail, Nat.add_comm ..⟩)⟩
    · exact ⟨c, d :: more, rfl, .inr (.inr ⟨escape, d, more, rfl, other, k, tail, by omega⟩)⟩
  · rintro ⟨c, rest, rfl, ⟨quote, rfl⟩ | ⟨plain, k, tail, rfl⟩ |
      ⟨escape, d, more, rfl, other, k, tail, rfl⟩⟩
    · exact .inl ⟨c, rest, rfl, quote, rfl⟩
    · exact .inr (.inl ⟨c, rest, k, rfl, plain, tail, Nat.add_comm ..⟩)
    · exact .inr (.inr ⟨c, _, _, rfl, escape, ⟨d, more, k, rfl, other, tail, rfl⟩, by omega⟩)

theorem quoted?_eq_some_iff : quoted? cs = some n ↔ Heads quotedTail cs n := by
  rw [heads_quotedTail]
  fun_induction quoted? cs generalizing n with
  | case1 => simp
  | case2 cs => simp [@eq_comm _ n]
  | case3 => simp
  | case4 => simp
  | case5 d cs hd _ ih =>
    simp only [← heads_quotedTail] at ih
    simp [ih, hd, @eq_comm _ n]
  | case6 c cs quote escape ih =>
    simp only [← heads_quotedTail] at ih
    simp [ih, quote, escape, @eq_comm _ n]

end quoted

end Lexer

end SceneGraph
