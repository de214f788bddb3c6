import Reckon.Double.Basic
import Reckon.Text.Basic

/-!
Doubles as decimal text. `ofDecimal` rounds a coefficient times a power of ten,
exactly and once. Reading accepts an optional sign, digits with a point on
either side or none, and an optional exponent, or one of the names of the
values that are not finite. The written form is the fewest digits that read back
to the double, always positional and always with a point. With 17 digits some
neighbour on the decimal grid always reads back; the exact decimal expansion
stands behind the search so that the result reads back by construction.
-/

namespace Reckon.Double

/-- The double nearest to `coefficient * 10 ^ exponent`. The two bounds decide without
computing a power that no finite double needs: from `10 ^ 309` on everything is infinite,
and below `10 ^ -324` everything rounds to zero. -/
def ofDecimal (negative : Bool) (coefficient : Nat) (exponent : Int) : Double :=
  let top := (Text.decimalDigits coefficient).length + exponent
  if coefficient = 0 then zero negative
  else if 309 < top then .infinity negative
  else if top ≤ -324 then zero negative
  else ofUnits negative (coefficient * Text.tenTo exponent.toNat * unitsPerOne)
    (Text.tenTo (-exponent).toNat)

/-- An optional sign and what follows it. -/
def splitSign : List Char → Bool × List Char
  | '-' :: rest => (true, rest)
  | '+' :: rest => (false, rest)
  | text => (false, text)

theorem splitSign_unsigned {text : List Char} (hminus : text.head? ≠ some '-')
    (hplus : text.head? ≠ some '+') : splitSign text = (false, text) := by
  unfold splitSign
  split
  · exact absurd rfl hminus
  · exact absurd rfl hplus
  · rfl

/-- The exponent part: nothing, or `e` with an optional sign and at least one digit. -/
def exponentOf? : List Char → Option Int
  | [] => some 0
  | mark :: rest =>
    let (negative, digits) := splitSign rest
    if (mark = 'e' ∨ mark = 'E') ∧ digits ≠ [] ∧ digits.all Char.isDigit then
      some (signed negative (Text.numberOf digits))
    else none

/-- Reads digits with an optional point and exponent; at least one digit must stand
beside the point. -/
def ofPlain? (negative : Bool) (text : List Char) : Option Double := do
  let whole := text.takeWhile Char.isDigit
  let afterWhole := text.dropWhile Char.isDigit
  let (fraction, rest) := match afterWhole with
    | '.' :: more => (more.takeWhile Char.isDigit, more.dropWhile Char.isDigit)
    | other => ([], other)
  if whole = [] ∧ fraction = [] then none
  else
    let exponent ← exponentOf? rest
    return ofDecimal negative (Text.numberOf (whole ++ fraction)) (exponent - fraction.length)

/-- Reads a double; `inf`, `infinity` and `nan` are accepted in any case. -/
def ofText? (text : List Char) : Option Double :=
  let (negative, body) := splitSign text
  match String.ofList (body.map Char.toLower) with
  | "inf" => some (.infinity negative)
  | "infinity" => some (.infinity negative)
  | "nan" => some .nan
  | _ => ofPlain? negative body

end Reckon.Double

namespace Reckon

/-- A natural coefficient times a power of ten. -/
structure Decimal where
  coefficient : Nat
  exponent : Int
deriving DecidableEq

namespace Magnitude

/-- The place of the leading digit: the exponent `k` of the least power of ten above the
magnitude. Multiplying by `10 ^ 324` brings the least positive magnitude above one. -/
def leadingPlace (m : Magnitude) : Int :=
  (Text.decimalDigits (m.units * Text.tenTo 324 / Double.unitsPerOne)).length - 324

/-- Every magnitude is a decimal, since `2 ^ -1074` is `5 ^ 1074 * 10 ^ -1074`. -/
def exactDecimal (m : Magnitude) : Decimal := ⟨m.units * Nat.pow 5 1074, -1074⟩

/-- Whether the double nearest to a decimal has this magnitude. -/
def readsBack (m : Magnitude) (d : Decimal) : Bool :=
  Double.ofDecimal false d.coefficient d.exponent = .finite false m

/-- The multiple of a power of ten that reads back to the magnitude. Only its two neighbours
among those multiples can; of two the nearer is taken, and at equal distance the upper
one. -/
def neighbour? (m : Magnitude) (exponent : Int) : Option Decimal :=
  let numerator := m.units * Text.tenTo (-exponent).toNat
  let denominator := Double.unitsPerOne * Text.tenTo exponent.toNat
  let below : Decimal := ⟨numerator / denominator, exponent⟩
  let above : Decimal := ⟨numerator / denominator + 1, exponent⟩
  let nearestFirst :=
    if 2 * (numerator % denominator) < denominator then [below, above] else [above, below]
  nearestFirst.find? m.readsBack

/-- The decimal with the fewest digits that reads back to the magnitude. -/
def shortestDecimal (m : Magnitude) : Decimal :=
  let place := m.leadingPlace
  ((List.range' 1 17).findSome? fun (length : Nat) =>
    m.neighbour? (place - length)).getD m.exactDecimal

end Magnitude

namespace Decimal

/-- Moves trailing zeros of the digits into the exponent, as long as that is negative. -/
def trimmed : List Char → Nat → List Char × Nat
  | '0' :: rest, places + 1 => trimmed rest places
  | digits, places => (digits, places)

/-- Writes a decimal without exponent, with the zeros that its place needs. The point is
written also when no digit follows it. -/
def positional (d : Decimal) : List Char :=
  let digits := Text.decimalDigits d.coefficient
  if 0 ≤ d.exponent then digits ++ List.replicate d.exponent.toNat '0' ++ ['.']
  else
    let (reversed, places) := trimmed digits.reverse (-d.exponent).toNat
    let digits := reversed.reverse
    let missing := places + 1 - digits.length
    let padded := List.replicate missing '0' ++ digits
    let whole := padded.length - places
    padded.take whole ++ '.' :: padded.drop whole

end Decimal

namespace Double

/-- Writes a double; the sign of a zero is shown, that of not-a-number does not exist. -/
def toText : Double → List Char
  | .nan => "nan".toList
  | .infinity negative => (if negative then "-inf" else "inf").toList
  | .finite negative m =>
    (if negative then ['-'] else []) ++
      if m.units = 0 then "0.".toList else m.shortestDecimal.positional

end Double

end Reckon
