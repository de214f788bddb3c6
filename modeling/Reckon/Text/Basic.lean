/-!
Texts as lists of characters. White space is that of Unicode, the grammar of
expressions having a narrower notion of its own; numbers are written in decimal
digits and read from them; places are counted in bytes of the UTF-8 encoding.
-/

namespace Reckon.Text

/-- The ranges of the characters with the property White_Space. -/
def blankRanges : List (Nat × Nat) :=
  [(0x9, 0xD), (0x20, 0x20), (0x85, 0x85), (0xA0, 0xA0), (0x1680, 0x1680), (0x2000, 0x200A),
    (0x2028, 0x2029), (0x202F, 0x202F), (0x205F, 0x205F), (0x3000, 0x3000)]

/-- Whether a code point lies in one of some closed ranges. -/
def inRanges (ranges : List (Nat × Nat)) (code : Nat) : Bool :=
  ranges.any fun (low, high) => low ≤ code && code ≤ high

/-- Whether a character is white space. -/
def isBlank (c : Char) : Bool := inRanges blankRanges c.toNat

def trimStart (text : List Char) : List Char := text.dropWhile isBlank

def trimEnd (text : List Char) : List Char := (text.reverse.dropWhile isBlank).reverse

def trim (text : List Char) : List Char := trimEnd (trimStart text)

def tenTo (exponent : Nat) : Nat := Nat.pow 10 exponent

/-- The decimal digits of a number, the most significant first. -/
def decimalDigits (n : Nat) : List Char := Nat.toDigits 10 n

/-- The digits with zeros in front up to a least width. -/
def padded (width n : Nat) : List Char :=
  let digits := decimalDigits n
  List.replicate (width - digits.length) '0' ++ digits

/-- The number that a list of digits denotes; no digits denote zero. -/
def numberOf (digits : List Char) : Nat := Nat.ofDigitChars 10 digits 0

/-- The digits of a number denote it. -/
theorem numberOf_decimalDigits (n : Nat) : numberOf (decimalDigits n) = n :=
  Nat.ofDigitChars_toDigits (by decide) (by decide)

/-- Reads an optional sign and at least one digit, when the number fits in 64 bits. -/
def int64? (text : List Char) : Option Int64 :=
  match text with
  | '-' :: digits => read digits fun n => -(n : Int)
  | '+' :: digits => read digits fun n => (n : Int)
  | digits => read digits fun n => (n : Int)
where
  read (digits : List Char) (sign : Nat → Int) : Option Int64 :=
    if digits ≠ [] ∧ digits.all Char.isDigit then
      let n := sign (numberOf digits)
      if Int64.minValue.toInt ≤ n ∧ n ≤ Int64.maxValue.toInt then some (Int64.ofInt n) else none
    else none

/-- The length in bytes. -/
def byteLength : List Char → Nat
  | [] => 0
  | c :: rest => c.utf8Size + byteLength rest

/-- What follows the first so many bytes. -/
def dropBytes? : List Char → Nat → Option (List Char)
  | text, 0 => some text
  | [], _ + 1 => none
  | c :: rest, n + 1 => if c.utf8Size ≤ n + 1 then dropBytes? rest (n + 1 - c.utf8Size) else none

/-- The first so many bytes. -/
def takeBytes? : List Char → Nat → Option (List Char)
  | _, 0 => some []
  | [], _ + 1 => none
  | c :: rest, n + 1 =>
    if c.utf8Size ≤ n + 1 then (takeBytes? rest (n + 1 - c.utf8Size)).map (c :: ·) else none

@[simp] theorem byteLength_append (first second : List Char) :
    byteLength (first ++ second) = byteLength first + byteLength second := by
  induction first with
  | nil => simp [byteLength]
  | cons c rest ih => simp [byteLength, ih, Nat.add_assoc]

/-- The first character takes at least one byte of a text and leaves those of the rest. -/
theorem exists_byteLength_cons (c : Char) (rest : List Char) :
    ∃ n, byteLength (c :: rest) = n + 1 ∧ c.utf8Size ≤ n + 1 ∧
      n + 1 - c.utf8Size = byteLength rest := by
  have hpos := c.utf8Size_pos
  refine ⟨c.utf8Size + byteLength rest - 1, ?_⟩
  rw [byteLength]
  omega

/-- Cutting after the bytes of a text gives back what stands behind it. -/
theorem dropBytes?_append (first second : List Char) :
    dropBytes? (first ++ second) (byteLength first) = some second := by
  induction first with
  | nil => cases second <;> rfl
  | cons c rest ih =>
    obtain ⟨n, hlength, hle, hrest⟩ := exists_byteLength_cons c rest
    rw [hlength, List.cons_append, dropBytes?, if_pos hle, hrest]
    exact ih

/-- The bytes of a text before others are the text. -/
theorem takeBytes?_append (first second : List Char) :
    takeBytes? (first ++ second) (byteLength first) = some first := by
  induction first with
  | nil => cases second <;> rfl
  | cons c rest ih =>
    obtain ⟨n, hlength, hle, hrest⟩ := exists_byteLength_cons c rest
    rw [hlength, List.cons_append, takeBytes?, if_pos hle, hrest, ih]
    rfl

end Reckon.Text

namespace Reckon

/-- A stretch of source text: the offset of its first byte and the offset after its last. -/
structure Span where
  start : Nat
  stop : Nat
deriving DecidableEq, Repr

namespace Span

/-- From the start of the first span to the end of the second. -/
def combine (a b : Span) : Span := ⟨a.start, b.stop⟩

/-- The span of a whole text. -/
def whole (source : String) : Span := ⟨0, Text.byteLength source.toList⟩

/-- The text at a span, when its ends lie in order at boundaries of characters. -/
def text? (s : Span) (source : List Char) : Option (List Char) :=
  if s.stop < s.start then none
  else (Text.dropBytes? source s.start).bind fun rest => Text.takeBytes? rest (s.stop - s.start)

/-- The text at a span that starts behind some text and is as long as another. -/
theorem text?_eq_some (before text rest : List Char) :
    text? ⟨Text.byteLength before, Text.byteLength before + Text.byteLength text⟩
      (before ++ (text ++ rest)) = some text := by
  rw [text?, if_neg (Nat.not_lt.mpr (Nat.le_add_right _ _)), Text.dropBytes?_append]
  simp only [Option.bind_some, Nat.add_sub_cancel_left, Text.takeBytes?_append]

end Span

end Reckon
