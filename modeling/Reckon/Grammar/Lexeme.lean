import Reckon.Grammar.Rule

/-!
The lexemes of the grammar. Each reader splits a text into the lexeme at its
start and what follows, or says that there is none.
-/

namespace Reckon.Grammar.Lexeme

/-- An exact text. -/
def exactly? (expected : List Char) (text : List Char) : Option (List Char × List Char) :=
  if expected.isPrefixOf text then some (expected, text.drop expected.length) else none

/-- A symbol. A single ampersand is one only when no second follows. -/
def symbol? (s : Symbol) (text : List Char) : Option (List Char × List Char) :=
  match exactly? s.text text with
  | some (lexeme, rest) =>
    if s = .bitwiseAnd ∧ rest.head? = some '&' then none else some (lexeme, rest)
  | none => none

/-- The longest stretch of characters of a class, which may be empty. -/
def longest (member : Char → Bool) (text : List Char) : List Char × List Char :=
  (text.takeWhile member, text.dropWhile member)

/-- An exponent with at least one digit, or nothing. -/
def optionalExponent (text : List Char) : List Char × List Char :=
  match text with
  | mark :: rest =>
    if mark = 'e' ∨ mark = 'E' then
      match rest with
      | sign :: digits =>
        if sign = '+' ∨ sign = '-' then
          match longest Char.isDigit digits with
          | ([], _) => ([], text)
          | (exponent, after) => (mark :: sign :: exponent, after)
        else
          match longest Char.isDigit rest with
          | ([], _) => ([], text)
          | (exponent, after) => (mark :: exponent, after)
      | [] => ([], text)
    else ([], text)
  | [] => ([], [])

/-- A number: digits with an optional point and fraction, or a point and at least one digit,
each with an optional exponent. -/
def number? (text : List Char) : Option (List Char × List Char) :=
  match longest Char.isDigit text with
  | ([], '.' :: rest) =>
    match longest Char.isDigit rest with
    | ([], _) => none
    | (fraction, rest) =>
      let (exponent, rest) := optionalExponent rest
      some ('.' :: fraction ++ exponent, rest)
  | ([], _) => none
  | (whole, '.' :: rest) =>
    let (fraction, rest) := longest Char.isDigit rest
    let (exponent, rest) := optionalExponent rest
    some (whole ++ '.' :: fraction ++ exponent, rest)
  | (whole, rest) =>
    let (exponent, rest) := optionalExponent rest
    some (whole ++ exponent, rest)

def isNameStart (c : Char) : Bool := c.isAlpha || c = '_'

def isNamePart (c : Char) : Bool := c.isAlphanum || c = '_'

/-- A name: an ASCII letter or underscore, then letters, digits and underscores. -/
def identifier? (text : List Char) : Option (List Char × List Char) :=
  match text with
  | c :: rest =>
    if isNameStart c then
      let (more, rest) := longest isNamePart rest
      some (c :: more, rest)
    else none
  | [] => none

def endOfInput? (text : List Char) : Option (List Char × List Char) :=
  if text = [] then some ([], []) else none

def character? (member : Char → Bool) : List Char → Option (List Char × List Char)
  | c :: rest => if member c then some ([c], rest) else none
  | [] => none

end Reckon.Grammar.Lexeme
