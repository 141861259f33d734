namespace SceneGraph

/-- The sizes of a binary interchange format: stored fraction bits and exponent bits. -/
structure Format where
  fraction : Nat
  exponent : Nat
  deriving DecidableEq, Repr

namespace Format

def single : Format := ⟨23, 8⟩

def double : Format := ⟨52, 11⟩

variable (f : Format)

def width : Nat := f.exponent + f.fraction + 1

/-- The weight exponent of the last place of the smallest numbers. -/
def leastScale : Int := 2 - ((1 <<< (f.exponent - 1) : Nat) : Int) - f.fraction

/-- The magnitude bits of infinity; every larger magnitude is no number. -/
def infinity : Nat := (1 <<< f.exponent - 1) <<< f.fraction

end Format

/-- A binary floating-point number as its sign bit and the bits below it. -/
structure Binary (f : Format) where
  negative : Bool
  magnitude : Nat
  deriving DecidableEq, Repr

abbrev Single := Binary .single

abbrev Double := Binary .double

namespace Binary

variable {f g : Format}

def ofBits (f : Format) (bits : Nat) : Binary f :=
  ⟨bits >>> (f.width - 1) % 2 = 1, bits % 1 <<< (f.width - 1)⟩

def toBits (x : Binary f) : Nat :=
  (if x.negative then 1 <<< (f.width - 1) else 0) + x.magnitude

def zero : Binary f := ⟨false, 0⟩

def infinity (negative : Bool) : Binary f := ⟨negative, f.infinity⟩

def nan : Binary f := ⟨false, f.infinity + 1 <<< (f.fraction - 1)⟩

def isNaN (x : Binary f) : Bool := f.infinity < x.magnitude

def isInfinite (x : Binary f) : Bool := x.magnitude = f.infinity

def isFinite (x : Binary f) : Bool := x.magnitude < f.infinity

def isZero (x : Binary f) : Bool := x.magnitude = 0

/-- A finite number is its significand times two to its scale, with its sign. -/
def significand (x : Binary f) : Nat :=
  if x.magnitude < 1 <<< f.fraction then x.magnitude
  else x.magnitude % 1 <<< f.fraction + 1 <<< f.fraction

def scale (x : Binary f) : Int :=
  f.leastScale + ((x.magnitude >>> f.fraction - 1 : Nat) : Int)

/-- Numbers are ordered as these integers; a NaN has no place in the order and both zeros share
one. -/
def key? (x : Binary f) : Option Int :=
  if x.isNaN then none else some (if x.negative then -x.magnitude else x.magnitude)

def lt (x y : Binary f) : Bool :=
  match x.key?, y.key? with
  | some a, some b => a < b
  | _, _ => false

def le (x y : Binary f) : Bool :=
  match x.key?, y.key? with
  | some a, some b => a ≤ b
  | _, _ => false

/-- Numeric equality: zeros are equal, a NaN equals nothing. -/
def eqv (x y : Binary f) : Bool :=
  match x.key?, y.key? with
  | some a, some b => a = b
  | _, _ => false

instance : LT (Binary f) := ⟨fun x y => x.lt y⟩

instance : LE (Binary f) := ⟨fun x y => x.le y⟩

instance (x y : Binary f) : Decidable (x < y) := inferInstanceAs (Decidable (x.lt y = true))

instance (x y : Binary f) : Decidable (x ≤ y) := inferInstanceAs (Decidable (x.le y = true))

def floorLog (num den : Nat) : Int :=
  let l : Int := (num.log2 : Int) - den.log2
  if num <<< (-l).toNat < den <<< l.toNat then l - 1 else l

/-- `num / den` rounded to the nearest integer, halves to the even one. -/
def nearest (num den : Nat) : Nat :=
  let q := num / den
  let r := num % den
  if den < 2 * r ∨ (den = 2 * r ∧ q % 2 = 1) then q + 1 else q

/-- The nearest number to `num / den`, ties to the even significand. -/
def ofRatio (negative : Bool) (num den : Nat) : Binary f :=
  if num = 0 then ⟨negative, 0⟩
  else
    let scale := max (floorLog num den - f.fraction) f.leastScale
    let n := nearest (num <<< (-scale).toNat) (den <<< scale.toNat)
    ⟨negative, min ((scale - f.leastScale).toNat <<< f.fraction + n) f.infinity⟩

def ofScaled (negative : Bool) (n : Nat) (scale : Int) : Binary f :=
  ofRatio negative (n <<< scale.toNat) (1 <<< (-scale).toNat)

def ofInt (n : Int) : Binary f := ofRatio (n < 0) n.natAbs 1

/-- The nearest number to `n * 10 ^ exponent`. Far outside the range of the format the power is
not computed. -/
def ofDecimal (negative : Bool) (n : Nat) (exponent : Int) : Binary f :=
  let order := (Nat.toDigits 10 n).length + exponent
  let far : Int := (1 <<< f.exponent + f.fraction : Nat)
  if n = 0 then ⟨negative, 0⟩
  else if far < order then infinity negative
  else if order < -far then ⟨negative, 0⟩
  else ofRatio negative (n * Nat.pow 10 exponent.toNat) (Nat.pow 10 (-exponent).toNat)

instance : OfScientific (Binary f) :=
  ⟨fun n negative exponent => ofDecimal false n (if negative then -exponent else exponent)⟩

instance (n : Nat) : OfNat (Binary f) n := ⟨ofRatio false n 1⟩

def neg (x : Binary f) : Binary f := ⟨!x.negative, x.magnitude⟩

def add (x y : Binary f) : Binary f :=
  if x.isNaN || y.isNaN then nan
  else if x.isInfinite then
    if y.isInfinite && x.negative != y.negative then nan else x
  else if y.isInfinite then y
  else
    let scale := min x.scale y.scale
    let part (z : Binary f) : Int :=
      let n : Int := (z.significand <<< (z.scale - scale).toNat : Nat)
      if z.negative then -n else n
    let sum := part x + part y
    if sum = 0 then ⟨x.negative && y.negative, 0⟩
    else ofScaled (sum < 0) sum.natAbs scale

def sub (x y : Binary f) : Binary f := x.add y.neg

def mul (x y : Binary f) : Binary f :=
  let negative := x.negative != y.negative
  if x.isNaN || y.isNaN then nan
  else if x.isInfinite || y.isInfinite then
    if x.isZero || y.isZero then nan else infinity negative
  else ofScaled negative (x.significand * y.significand) (x.scale + y.scale)

def div (x y : Binary f) : Binary f :=
  let negative := x.negative != y.negative
  if x.isNaN || y.isNaN then nan
  else if x.isInfinite then
    if y.isInfinite then nan else infinity negative
  else if y.isInfinite then ⟨negative, 0⟩
  else if y.isZero then
    if x.isZero then nan else infinity negative
  else
    let scale := x.scale - y.scale
    ofRatio negative (x.significand <<< scale.toNat) (y.significand <<< (-scale).toNat)

/-- The remainder of the division rounded toward zero, exact and with the sign of `x`. -/
def rem (x y : Binary f) : Binary f :=
  if x.isNaN || y.isNaN || x.isInfinite || y.isZero then nan
  else if y.isInfinite then x
  else
    let scale := min x.scale y.scale
    ofScaled x.negative
      (x.significand <<< (x.scale - scale).toNat % y.significand <<< (y.scale - scale).toNat) scale

def floor (x : Binary f) : Binary f :=
  if !x.isFinite || 0 ≤ x.scale then x
  else
    let unit := 1 <<< (-x.scale).toNat
    let q := x.significand / unit
    ofRatio x.negative (if x.negative && x.significand % unit != 0 then q + 1 else q) 1

def convert (g : Format) (x : Binary f) : Binary g :=
  if x.isNaN then nan
  else if x.isInfinite then infinity x.negative
  else ofScaled x.negative x.significand x.scale

instance : Neg (Binary f) := ⟨neg⟩

instance : Add (Binary f) := ⟨add⟩

instance : Sub (Binary f) := ⟨sub⟩

instance : Mul (Binary f) := ⟨mul⟩

instance : Div (Binary f) := ⟨div⟩

instance : Mod (Binary f) := ⟨rem⟩

end Binary

end SceneGraph
