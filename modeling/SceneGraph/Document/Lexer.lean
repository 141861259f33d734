import SceneGraph.Document.Token

namespace SceneGraph.Lexer

inductive Rule where
  | gap
  | mark (m : Mark)
  | int
  | hex
  | float
  | string
  | word
  deriving DecidableEq, Repr

/-- Commas separate like blanks. -/
def isGap (c : Char) : Bool := c = ' ' || c = '\t' || c = '\r' || c = '\n' || c = ','

def isHexDigit (c : Char) : Bool :=
  c.isDigit || 'a' ≤ c && c ≤ 'f' || 'A' ≤ c && c ≤ 'F'

def isWordStart (c : Char) : Bool := c.isAlpha || c = '_'

def isWordPart (c : Char) : Bool := c.isAlphanum || c = '_'

def run (p : Char → Bool) (cs : List Char) : Nat := (cs.takeWhile p).length

def digits (cs : List Char) : Nat := run Char.isDigit cs

def sign : List Char → Nat
  | '+' :: _ | '-' :: _ => 1
  | _ => 0

/-- The length of a power of ten at the head; zero if there is none. -/
def exponent : List Char → Nat
  | c :: cs =>
    if c = 'e' ∨ c = 'E' then
      let n := digits (cs.drop (sign cs))
      if n = 0 then 0 else 1 + sign cs + n
    else 0
  | [] => 0

/-- The length of a hexadecimal numeral without sign; zero if there is none. -/
def hexadecimal : List Char → Nat
  | '0' :: x :: cs =>
    let n := run isHexDigit cs
    if (x = 'x' ∨ x = 'X') ∧ n ≠ 0 then 2 + n else 0
  | _ => 0

def unsigned? (cs : List Char) : Option (Rule × Nat) :=
  let d := digits cs
  if d = 0 then
    match cs with
    | '.' :: rest =>
      let n := digits rest
      if n = 0 then none else some (.float, 1 + n + exponent (rest.drop n))
    | _ => none
  else if hexadecimal cs ≠ 0 then some (.hex, hexadecimal cs)
  else
    match cs.drop d with
    | '.' :: rest =>
      let n := digits rest
      some (.float, d + 1 + n + exponent (rest.drop n))
    | rest =>
      if exponent rest = 0 then some (.int, d) else some (.float, d + exponent rest)

def number? (cs : List Char) : Option (Rule × Nat) :=
  (unsigned? (cs.drop (sign cs))).map fun (rule, n) => (rule, sign cs + n)

/-- The length up to and with the closing quote. A backslash takes the next character with it,
which may not end the line. -/
def quoted? : List Char → Option Nat
  | [] => none
  | c :: cs =>
    if c = '"' then some 1
    else if c = '\\' then
      match cs with
      | [] => none
      | d :: cs => if d = '\n' then none else (quoted? cs).map (· + 2)
    else (quoted? cs).map (· + 1)

/-- The longest lexeme at the head, with its length. -/
def lexeme? : List Char → Option (Rule × Nat)
  | [] => none
  | c :: cs =>
    if isGap c then some (.gap, 1 + run isGap cs)
    else if c = '#' then some (.gap, 1 + run (· ≠ '\n') cs)
    else if c = '"' then (quoted? cs).map fun n => (.string, n + 1)
    else if isWordStart c then some (.word, 1 + run isWordPart cs)
    else
      match number? (c :: cs) with
      | some lexeme => some lexeme
      | none => (Mark.ofChar? c).map fun m => (.mark m, 1)

def digitValue (c : Char) : Nat :=
  if c.isDigit then c.toNat - 48 else if c.toNat < 97 then c.toNat - 55 else c.toNat - 87

def numeralValue (base : Nat) (cs : List Char) : Nat :=
  cs.foldl (fun n c => base * n + digitValue c) 0

def isNegative (cs : List Char) : Bool := cs.head? = some '-'

def signed (negative : Bool) (n : Nat) : Int := if negative then -n else n

/-- Integers have 64 bits. -/
def int? (cs : List Char) : Option Int :=
  let n := signed (isNegative cs) (numeralValue 10 (cs.drop (sign cs)))
  if -0x8000000000000000 ≤ n ∧ n < 0x8000000000000000 then some n else none

/-- The digits of a hexadecimal numeral have to fit by themselves, whatever the sign. -/
def hex? (cs : List Char) : Option Int :=
  let n := numeralValue 16 (cs.drop (sign cs + 2))
  if n < 0x8000000000000000 then some (signed (isNegative cs) n) else none

def floatValue (cs : List Char) : Double :=
  let body := cs.drop (sign cs)
  let whole := body.takeWhile Char.isDigit
  let afterWhole := body.drop whole.length
  let fraction := if afterWhole.head? = some '.' then (afterWhole.drop 1).takeWhile Char.isDigit
    else []
  let power := (body.dropWhile fun c => c ≠ 'e' ∧ c ≠ 'E').drop 1
  let exponent := signed (isNegative power) (numeralValue 10 (power.drop (sign power)))
  .ofDecimal (isNegative cs) (numeralValue 10 (whole ++ fraction)) (exponent - fraction.length)

/-- The characters of a string: a backslash gives way to the character after it. -/
def unescape : List Char → List Char
  | [] => []
  | c :: cs =>
    if c = '\\' then
      match cs with
      | [] => []
      | d :: cs => d :: unescape cs
    else c :: unescape cs

def wordToken (s : String) : Token :=
  match Keyword.ofSpelling? s with
  | some k => .keyword k
  | none => .ident s

/-- The token of a lexeme, none for a gap. An integer out of range has none either, which is the
error. -/
def token (rule : Rule) (cs : List Char) : Except Unit (Option Token) :=
  match rule with
  | .gap => .ok none
  | .mark m => .ok (some (.mark m))
  | .int =>
    match int? cs with
    | some n => .ok (some (.int n))
    | none => .error ()
  | .hex =>
    match hex? cs with
    | some n => .ok (some (.int n))
    | none => .error ()
  | .float => .ok (some (.float (floatValue cs)))
  | .string => .ok (some (.string (String.ofList (unescape (cs.drop 1).dropLast))))
  | .word => .ok (some (wordToken (String.ofList cs)))

def byteLength (cs : List Char) : Nat := (cs.map Char.utf8Size).foldr (· + ·) 0

/-- The tokens of the text from byte `offset` on, or the offset of the first input that is none. -/
def scan (offset : Nat) (cs : List Char) : Except Nat (List Spanned) :=
  match cs with
  | [] => .ok []
  | c :: rest =>
    match lexeme? (c :: rest) with
    | none => .error offset
    | some (rule, n) =>
      let lexeme := (c :: rest).take n
      let stop := offset + byteLength lexeme
      match token rule lexeme with
      | .error () => .error offset
      | .ok t =>
        match scan stop (rest.drop (n - 1)) with
        | .error e => .error e
        | .ok ts =>
          match t with
          | none => .ok ts
          | some t => .ok (⟨t, offset, stop⟩ :: ts)
termination_by cs.length

def tokenize (text : String) : Except Nat (List Spanned) := scan 0 text.toList

end SceneGraph.Lexer
