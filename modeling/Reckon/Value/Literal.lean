import Reckon.Timestamp
import Reckon.Value.Basic

/-!
Values as a host writes them, for instance on a command line: truth values,
integers, doubles, timestamps, and arrays of scalars in brackets. An array that
mixes integers and doubles is an array of doubles.
-/

namespace Reckon

inductive LiteralError where
  | empty
  | unrecognized (text : String)
  | unsupportedElement (item : String)
  | mixedArray
deriving DecidableEq

namespace LiteralError

def message : LiteralError → String
  | empty => "empty value"
  | unrecognized text => "cannot interpret '" ++ text ++ "' as a value"
  | unsupportedElement item => "array elements must be numbers or booleans, found '" ++ item ++ "'"
  | mixedArray => "array mixes booleans and numbers"

end LiteralError

/-- Cuts a text at every comma. -/
def Text.commaSeparated : List Char → List (List Char)
  | [] => [[]]
  | c :: rest =>
    let fields := commaSeparated rest
    if c = ',' then [] :: fields
    else (c :: fields.headD []) :: fields.tail

namespace Value

/-- Reads a truth value, an integer or a double. An integer that does not fit is a double. -/
def scalar? (text : List Char) : Option Value :=
  if text = "true".toList then some (boolean true)
  else if text = "false".toList then some (boolean false)
  else (Text.int64? text).map integer <|> (Double.ofText? text).map double

/-- The text between an opening bracket at the start and a closing one at the end. -/
def bracketed? : List Char → Option (List Char)
  | '[' :: rest => if rest.getLast? = some ']' then some rest.dropLast else none
  | _ => none

/-- Reads the items between commas; empty ones are skipped. -/
def items (inner : List Char) : Except LiteralError (List Value) :=
  ((Text.commaSeparated inner).map Text.trim |>.filter (· ≠ [])).mapM fun item =>
    match scalar? item with
    | some value => .ok value
    | none => .error (.unsupportedElement (String.ofList item))

/-- The array of some scalars: of integers if all are, or of booleans, or of doubles. No
items make an array of integers. -/
def sequence (items : List Value) : Except LiteralError Sequence :=
  if items.all fun v => v.integer?.isSome then .ok (.integers (items.filterMap integer?).toArray)
  else if items.all fun v => v.boolean?.isSome then
    .ok (.booleans (items.filterMap boolean?).toArray)
  else if items.all fun v => v.number?.isSome then
    .ok (.doubles (items.filterMap number?).toArray)
  else .error .mixedArray

/-- Reads a value; white space around it does not count. -/
def ofText (text : List Char) : Except LiteralError Value :=
  let text := Text.trim text
  if text = [] then .error .empty
  else
    match bracketed? text with
    | some inner => do return array (← sequence (← items inner))
    | none =>
      match scalar? text <|> (Timestamp.ofText? text).map timestamp with
      | some value => .ok value
      | none => .error (.unrecognized (String.ofList text))

end Value

end Reckon
