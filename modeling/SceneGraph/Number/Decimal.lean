import SceneGraph.Number.Binary

namespace SceneGraph

structure Decimal where
  digits : Nat
  exponent : Int
  deriving DecidableEq, Repr

namespace Decimal

def zeros (n : Nat) : List Char := List.replicate n '0'

def numeral (n : Nat) : List Char := Nat.toDigits 10 n

/-- The same number without trailing zeros among its digits; `fuel` bounds their number. -/
def trim : Nat → Decimal → Decimal
  | 0, d => d
  | fuel + 1, d =>
    if d.digits ≠ 0 ∧ d.digits % 10 = 0 then trim fuel ⟨d.digits / 10, d.exponent + 1⟩ else d

/-- The exponent of the power of ten at or below `num / den`. -/
def order (num den : Nat) : Int :=
  if den ≤ num then (numeral (num / den)).length - 1
  else -(numeral ((den - 1) / num)).length

/-- Positional notation: no exponent, a point only before a fraction. -/
def positional (d : Decimal) : List Char :=
  let ds := numeral d.digits
  if 0 ≤ d.exponent then ds ++ zeros d.exponent.toNat
  else
    let places := (-d.exponent).toNat
    if places < ds.length then
      ds.take (ds.length - places) ++ '.' :: ds.drop (ds.length - places)
    else '0' :: '.' :: zeros (places - ds.length) ++ ds

/-- One digit before the point, then the power of ten. -/
def scientific (d : Decimal) : List Char :=
  let ds := numeral d.digits
  let e := d.exponent + (ds.length - 1 : Nat)
  let point := match ds with
    | [] => []
    | [c] => [c]
    | c :: rest => c :: '.' :: rest
  point ++ 'e' :: (toString e).toList

end Decimal

namespace Binary

variable {f : Format}

/-- Four times the ends of the interval of reals that round to `x`, in units of its scale, and
whether the ends belong to it. -/
def interval (x : Binary f) : Nat × Nat × Bool :=
  let n := x.significand
  (if n = 1 <<< f.fraction ∧ f.leastScale < x.scale then 4 * n - 1 else 4 * n - 2, 4 * n + 2,
    n % 2 = 0)

/-- The one of `c` and `c + 1` that stands for `x` with the last place `10 ^ place`: within the
interval of `x`, the nearer one, the larger one on a tie. -/
def onGrid (x : Binary f) (place : Int) : Option Nat :=
  let scale := x.scale - 2
  let unit := Nat.pow 10 (-place).toNat <<< scale.toNat
  let den := Nat.pow 10 place.toNat <<< (-scale).toNat
  let (lo, hi, closed) := x.interval
  let value := 4 * x.significand * unit
  let c := value / den
  let below := lo * unit < c * den ∨ (closed ∧ lo * unit = c * den)
  let above := (c + 1) * den < hi * unit ∨ (closed ∧ (c + 1) * den = hi * unit)
  if below ∧ above then
    some (if 2 * (value % den) < den then c else c + 1)
  else if below then some c
  else if above then some (c + 1)
  else none

def search (x : Binary f) : Nat → Int → Decimal
  | 0, place => ⟨0, place⟩
  | fuel + 1, place =>
    match x.onGrid place with
    | some n => Decimal.trim 400 ⟨n, place⟩
    | none => search x fuel (place - 1)

/-- The decimal of fewest digits that rounds to the magnitude of `x`, of those the nearest. -/
def shortest (x : Binary f) : Decimal :=
  if x.isZero then ⟨0, 0⟩
  else
    let scale := x.scale
    x.search (f.fraction + 2)
      (Decimal.order (x.significand <<< scale.toNat) (1 <<< (-scale).toNat))

/-- The sign and the names of the numbers without digits are common to every notation. -/
def withSign (digits : Decimal → List Char) (x : Binary f) : String :=
  if x.isNaN then "NaN"
  else
    let text := if x.isInfinite then ['i', 'n', 'f'] else digits x.shortest
    String.ofList (if x.negative then '-' :: text else text)

def text (x : Binary f) : String := x.withSign Decimal.positional

instance : ToString (Binary f) := ⟨text⟩

/-- Shortest digits with at least one place after the point, and with a power of ten from
`10 ^ 16` on and below `10 ^ -4`. -/
def explicitText (x : Binary f) : String :=
  x.withSign fun d =>
    let order := d.exponent + ((Decimal.numeral d.digits).length : Int)
    if d.digits ≠ 0 ∧ (order < -3 ∨ 16 < order) then d.scientific
    else if 0 ≤ d.exponent then d.positional ++ ['.', '0']
    else d.positional

end Binary

end SceneGraph
