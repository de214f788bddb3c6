import Reckon.Double.Basic
import Reckon.Double.Decimal
import Reckon.Timestamp

/-!
The values that expressions compute with: numbers of two kinds, truth values,
timestamps, and arrays whose elements all have one scalar type. Equality of
values is numeric on doubles, so it is not the equality of the type. Integers
are written in decimal, doubles always with a point, arrays in brackets with a
comma and a space between the elements.
-/

namespace Reckon

/-- The type of the elements of an array. -/
inductive ScalarType where
  | double
  | integer
  | boolean
deriving DecidableEq

/-- The type of a value, as messages name it. -/
inductive ValueType where
  | double
  | integer
  | boolean
  | timestamp
  | array (element : ScalarType)
deriving DecidableEq

/-- The items of an array value; an empty one keeps its element type. -/
inductive Sequence where
  | doubles (items : Array Double)
  | integers (items : Array Int64)
  | booleans (items : Array Bool)
deriving DecidableEq

inductive Value where
  | double (x : Double)
  | integer (n : Int64)
  | boolean (b : Bool)
  | timestamp (t : Timestamp)
  | array (items : Sequence)
deriving DecidableEq

instance : Inhabited Value := ⟨.boolean false⟩

namespace ScalarType

def name : ScalarType → String
  | double => "Double"
  | integer => "Integer"
  | boolean => "Boolean"

end ScalarType

namespace ValueType

def name : ValueType → String
  | double => "Double"
  | integer => "Integer"
  | boolean => "Boolean"
  | timestamp => "Timestamp"
  | array element => "Array[" ++ element.name ++ "]"

end ValueType

namespace Sequence

/-- The type of the elements. -/
def elementType : Sequence → ScalarType
  | doubles _ => .double
  | integers _ => .integer
  | booleans _ => .boolean

def values : Sequence → Array Value
  | doubles items => items.map .double
  | integers items => items.map .integer
  | booleans items => items.map .boolean

def size : Sequence → Nat
  | doubles items => items.size
  | integers items => items.size
  | booleans items => items.size

/-- The element at an index; a negative index names none. -/
def get? (sequence : Sequence) (index : Int64) : Option Value :=
  if 0 ≤ index.toInt then
    match sequence with
    | doubles items => items[index.toInt.toNat]?.map .double
    | integers items => items[index.toInt.toNat]?.map .integer
    | booleans items => items[index.toInt.toNat]?.map .boolean
  else none

/-- Equality element by element; arrays of different element types differ, also empty ones. -/
def equals : Sequence → Sequence → Bool
  | doubles a, doubles b => a.isEqv b Double.equals
  | integers a, integers b => a == b
  | booleans a, booleans b => a == b
  | _, _ => false

end Sequence

namespace Value

def type : Value → ValueType
  | double _ => .double
  | integer _ => .integer
  | boolean _ => .boolean
  | timestamp _ => .timestamp
  | array items => .array items.elementType

def integer? : Value → Option Int64
  | integer n => some n
  | _ => none

def double? : Value → Option Double
  | double x => some x
  | _ => none

/-- A double or an integer as a double; a large integer is rounded. -/
def number? : Value → Option Double
  | double x => some x
  | integer n => some (.ofInt n.toInt)
  | _ => none

def boolean? : Value → Option Bool
  | boolean b => some b
  | _ => none

def timestamp? : Value → Option Timestamp
  | timestamp t => some t
  | _ => none

def array? : Value → Option Sequence
  | array items => some items
  | _ => none

/-- An integer when the double is one that fits in 64 bits, else the double itself. -/
def ofDouble (x : Double) : Value :=
  match x.integer? with
  | some n =>
    if Int64.minValue.toInt ≤ n ∧ n ≤ Int64.maxValue.toInt then integer (Int64.ofInt n)
    else double x
  | none => double x

/-- Equality of values: types must agree, doubles compare as numbers. -/
def equals : Value → Value → Bool
  | double x, double y => x.equals y
  | integer m, integer n => m == n
  | boolean a, boolean b => a == b
  | timestamp s, timestamp t => s == t
  | array a, array b => a.equals b
  | _, _ => false

end Value

def Text.signedDecimal (n : Int) : List Char :=
  (if n < 0 then ['-'] else []) ++ Text.decimalDigits n.natAbs

/-- The two truth values by name. -/
def Text.truth (b : Bool) : List Char := (if b then "true" else "false").toList

namespace Sequence

def itemTexts : Sequence → List (List Char)
  | doubles items => items.toList.map Double.toText
  | integers items => items.toList.map fun n => Text.signedDecimal n.toInt
  | booleans items => items.toList.map Text.truth

def toText (sequence : Sequence) : List Char :=
  '[' :: ", ".toList.intercalate sequence.itemTexts ++ [']']

end Sequence

namespace Value

def toText : Value → List Char
  | double x => x.toText
  | integer n => Text.signedDecimal n.toInt
  | boolean b => Text.truth b
  | timestamp t => t.toText
  | array items => items.toText

instance : ToString Value := ⟨fun v => String.ofList v.toText⟩

end Value

end Reckon
