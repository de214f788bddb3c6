/-!
Binary floating point with 53 significant bits, as exact integers. Every finite
value is a whole number of `units`, the unit being `2 ^ -1074`, so each
operation can be computed exactly and then rounded once. The ordinal of a
magnitude numbers the finite magnitudes upwards from zero without gaps, which
makes rounding up across a power of two an ordinary successor. The clauses for
operands that are not finite are the rules for zeros, infinities and
not-a-number.
-/

namespace Reckon

/-- The number of magnitudes between two neighbouring powers of two: `2 ^ 52`. -/
def Magnitude.block : Nat := 1 <<< 52

/-- The number of finite magnitudes. -/
def Magnitude.count : Nat := 2047 * Magnitude.block

/-- A finite magnitude, given by its place among all of them in increasing order. -/
structure Magnitude where
  ordinal : Nat
  ordinal_lt : ordinal < Magnitude.count
deriving DecidableEq

/-- A double: not a number, a signed infinity, or a signed finite magnitude. Both zeros
are finite values of magnitude zero. -/
inductive Double where
  | nan
  | infinity (negative : Bool)
  | finite (negative : Bool) (magnitude : Magnitude)
deriving DecidableEq

namespace Magnitude

def zero : Magnitude := ⟨0, by decide⟩

instance : Inhabited Magnitude := ⟨zero⟩

/-- How many units the magnitude with this ordinal is worth. In the first two blocks the ordinal
counts units; each further block doubles the step. -/
def unitsOf (ordinal : Nat) : Nat :=
  let shift := ordinal / block - 1
  (ordinal - shift * block) <<< shift

def units (m : Magnitude) : Nat := unitsOf m.ordinal

end Magnitude

/-- The integer nearest to `numerator / denominator`; halves go to the even neighbour. -/
def roundHalfEven (numerator denominator : Nat) : Nat :=
  let quotient := numerator / denominator
  let doubled := 2 * (numerator % denominator)
  if doubled < denominator then quotient
  else if denominator < doubled then quotient + 1
  else quotient + quotient % 2

/-- The ordinal nearest to `numerator / denominator` units, were there no largest one. A
quotient of more than 53 bits drops the lowest ones; what the rounding carries over the
top lands on the next ordinal, which is where it belongs. -/
def nearestOrdinal (numerator denominator : Nat) : Nat :=
  let shift := (numerator / denominator).log2 - 52
  shift * Magnitude.block + roundHalfEven numerator (denominator <<< shift)

namespace Double

instance : Inhabited Double := ⟨.nan⟩

/-- How many units make one. -/
def unitsPerOne : Nat := 1 <<< 1074

def zero (negative : Bool) : Double := .finite negative .zero

/-- The double nearest to `numerator / denominator` units; beyond the largest finite
magnitude that is infinity. -/
def ofUnits (negative : Bool) (numerator : Nat) (denominator : Nat := 1) : Double :=
  let ordinal := nearestOrdinal numerator denominator
  if h : ordinal < Magnitude.count then .finite negative ⟨ordinal, h⟩ else .infinity negative

def ofInt (n : Int) : Double := ofUnits (n < 0) (n.natAbs * unitsPerOne)

def one : Double := ofInt 1

def signed (negative : Bool) (size : Nat) : Int := if negative then -(size : Int) else size

/-- Where a double stands on the number line, in units. Infinity stands where the
ordinal after the largest finite one would. -/
def position? : Double → Option Int
  | .nan => none
  | .infinity negative => some (signed negative (Magnitude.unitsOf Magnitude.count))
  | .finite negative m => some (signed negative m.units)

/-- The order of two positions, or nothing when a side is not a number. -/
def compare? (a b : Double) : Option Ordering :=
  match a.position?, b.position? with
  | some x, some y => some (compare x y)
  | _, _ => none

/-- Numeric equality: the two zeros are equal, and nothing equals not-a-number. -/
def equals (a b : Double) : Bool := a.compare? b == some .eq

/-- The integer toward zero, held within the 64-bit range; not-a-number gives `0`. -/
def toInt64 : Double → Int64
  | .nan => 0
  | .infinity negative => if negative then Int64.minValue else Int64.maxValue
  | .finite negative m =>
    let whole := signed negative (m.units / unitsPerOne)
    if whole < Int64.minValue.toInt then Int64.minValue
    else if Int64.maxValue.toInt < whole then Int64.maxValue
    else Int64.ofInt whole

/-- The integer that a finite double without a fractional part is. -/
def integer? : Double → Option Int
  | .finite negative m =>
    if m.units % unitsPerOne = 0 then
      some (signed negative (m.units / unitsPerOne))
    else none
  | _ => none

end Double

end Reckon

namespace Reckon.Double

/-- The opposite sign; the sign of not-a-number is not kept. -/
def neg : Double → Double
  | .nan => .nan
  | .infinity negative => .infinity (!negative)
  | .finite negative m => .finite (!negative) m

@[simp] theorem neg_neg (x : Double) : x.neg.neg = x := by
  cases x <;> simp [neg]

/-- A sum of exactly zero is negative only when both operands are. -/
def add : Double → Double → Double
  | .nan, _ => .nan
  | _, .nan => .nan
  | .infinity a, .infinity b => if a = b then .infinity a else .nan
  | .infinity a, .finite _ _ => .infinity a
  | .finite _ _, .infinity b => .infinity b
  | .finite a x, .finite b y =>
    let sum := signed a x.units + signed b y.units
    ofUnits (if sum = 0 then a && b else sum < 0) sum.natAbs

def sub (a b : Double) : Double := a.add b.neg

/-- The product of two unit counts is a count of squared units. -/
def mul : Double → Double → Double
  | .nan, _ => .nan
  | _, .nan => .nan
  | .infinity a, .infinity b => .infinity (a != b)
  | .infinity a, .finite b y => if y.units = 0 then .nan else .infinity (a != b)
  | .finite a x, .infinity b => if x.units = 0 then .nan else .infinity (a != b)
  | .finite a x, .finite b y => ofUnits (a != b) (x.units * y.units) unitsPerOne

/-- A nonzero dividend over zero is infinite, zero over zero is not a number. -/
def div : Double → Double → Double
  | .nan, _ => .nan
  | _, .nan => .nan
  | .infinity _, .infinity _ => .nan
  | .infinity a, .finite b _ => .infinity (a != b)
  | .finite a _, .infinity b => zero (a != b)
  | .finite a x, .finite b y =>
    if y.units = 0 then (if x.units = 0 then .nan else .infinity (a != b))
    else ofUnits (a != b) (x.units * unitsPerOne) y.units

instance : Neg Double := ⟨neg⟩
instance : Add Double := ⟨add⟩
instance : Sub Double := ⟨sub⟩
instance : Mul Double := ⟨mul⟩
instance : Div Double := ⟨div⟩

end Reckon.Double
