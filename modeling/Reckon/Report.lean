import Reckon.Source
import Reckon.Text.Basic
import Reckon.Text.Display

/-!
Reports on failures: a heading with the code and the message, and an excerpt of
the source. The excerpt has the lines that a label covers, with a margin of line
numbers, an underline or a bracket for the label, and its message; the span of a
diagnostic is used for it as it is, and its offsets count characters. A line
keeps the terminator that ends it; a text that ends in a terminator has no empty
line after it, and an empty text has one line. The same rows can be written with
their colours, as terminal escapes around each painted piece, or without.
-/

namespace Reckon

/-- A line with its number and the offset of its first character, both from zero. -/
structure SourceLine where
  index : Nat
  start : Nat
  text : List Char
deriving DecidableEq

namespace SourceLine

/-- The characters that end a line, of which a carriage return and a line feed together end
only one. -/
def terminators : List Char :=
  ['\r', '\n', '\x0b', '\x0c', '\u0085', '\u2028', '\u2029']

/-- Cuts a text after each terminator. -/
def cut : List Char → List (List Char)
  | [] => []
  | '\r' :: '\n' :: rest => ['\r', '\n'] :: cut rest
  | c :: rest =>
    if c ∈ terminators then [c] :: cut rest
    else
      match cut rest with
      | [] => [[c]]
      | line :: lines => (c :: line) :: lines

/-- Numbers lines that start at the given place. -/
def number (index start : Nat) : List (List Char) → List SourceLine
  | [] => []
  | text :: rest => ⟨index, start, text⟩ :: number (index + 1) (start + text.length) rest

def all (source : List Char) : List SourceLine :=
  match cut source with
  | [] => [⟨0, 0, []⟩]
  | lines => number 0 0 lines

/-- The line that holds an offset; the end of the text belongs to the last line. -/
def holding? (source : List Char) (offset : Nat) : Option SourceLine :=
  if source.length < offset then none
  else ((all source).filter fun line => line.start ≤ offset).getLast?

/-- The line without white space at its end, which is what a report shows. -/
def shown (line : SourceLine) : List Char := Text.trimEnd line.text

/-- The offset after the line and its terminator. -/
def stop (line : SourceLine) : Nat := line.start + line.text.length

/-- The width of a character in a column. A tab reaches to the next multiple of four; other
white space shows as one space. -/
def width (c : Char) (column : Nat) : Nat :=
  if c = '\t' then 4 - column % 4 else if Text.isBlank c then 1 else Text.columns c

/-- The width of a column of a line; the columns after the text are one wide. -/
def columnWidth (line : SourceLine) (column : Nat) : Nat :=
  match line.shown[column]? with
  | some c => width c column
  | none => 1

end SourceLine

/-- What a painted piece is for, which decides its colour. -/
inductive Paint where
  | heading
  | frame
  | margin
  | label
  | unlabelled
  | help
deriving DecidableEq

/-- A piece of a row, painted or plain. -/
structure Piece where
  paint : Option Paint
  text : List Char
deriving DecidableEq

abbrev Row := List Piece

namespace Paint

/-- The terminal's number for a colour. -/
def code : Paint → String
  | heading => "31"
  | frame => "38;5;246"
  | margin => "38;5;240"
  | label => "38;5;155"
  | unlabelled => "38;5;249"
  | help => "38;5;115"

end Paint

namespace Piece

def plain (text : List Char) : Piece := ⟨none, text⟩

def painted (paint : Paint) (text : List Char) : Piece := ⟨some paint, text⟩

def eachPainted (paint : Paint) (text : List Char) : Row := text.map fun c => painted paint [c]

def spaces (count : Nat) : Piece := plain (List.replicate count ' ')

/-- Writes a piece, with its colour if colours are wanted. -/
def write (colored : Bool) (piece : Piece) : List Char :=
  match colored, piece.paint with
  | true, some paint =>
    '\x1b' :: '[' :: paint.code.toList ++ 'm' :: piece.text ++ ['\x1b', '[', '0', 'm']
  | _, _ => piece.text

end Piece

namespace Row

def write (colored : Bool) (row : Row) : String := String.ofList (row.flatMap (Piece.write colored))

end Row

end Reckon

namespace Reckon.Report

/-- A label on a source: the stretch of characters it covers, the lines on which it starts and
ends, and its message. -/
structure Label where
  start : Nat
  stop : Nat
  first : SourceLine
  last : SourceLine
  message : List Char

namespace Label

/-- The label over a stretch of a source. There is none when the stretch starts or ends beyond
the source; the end of the source itself still counts. -/
def of? (source : List Char) (span : Span) (message : List Char) : Option Label := do
  let first ← SourceLine.holding? source span.start
  let lastOffset := if span.start < span.stop then span.stop - 1 else span.start
  let last ← SourceLine.holding? source lastOffset
  return ⟨span.start, span.stop, first, last, message⟩

def isInline (l : Label) : Bool := l.first.index = l.last.index

def isEmpty (l : Label) : Bool := l.stop ≤ l.start

def covers (l : Label) (offset : Nat) : Bool := l.start ≤ offset && offset < l.stop

def numberWidth (l : Label) : Nat := (Text.decimalDigits (l.last.index + 1)).length

def numbered (l : Label) (line : SourceLine) : Row :=
  let digits := Text.decimalDigits (line.index + 1)
  let filler := List.replicate (l.numberWidth - digits.length) ' '
  [.spaces 1, .painted .frame (filler ++ digits ++ " │".toList), .spaces 1]

/-- The margin of a row without a number, which ends in the given bar. -/
def unnumbered (l : Label) (bar : Char) : Row :=
  [.spaces 1, .painted .margin (List.replicate (l.numberWidth + 1) ' ' ++ [bar]), .spaces 1]

/-- The text of a line, its characters painted by whether the label covers them. White space
shows as spaces. -/
def text (l : Label) (line : SourceLine) : Row :=
  (line.shown.zipIdx).flatMap fun (c, column) =>
    let glyphs :=
      if Text.isBlank c then List.replicate (SourceLine.width c column) ' ' else [c]
    Piece.eachPainted (if l.covers (line.start + column) then .label else .unlabelled) glyphs

/-- One cell of a label's row: a glyph and what continues it over a wide column. A space stays
unpainted. -/
def cell (glyph continuation : Char) (width : Nat) : Row :=
  if glyph = ' ' then [.spaces width]
  else Piece.eachPainted .label ((glyph :: List.replicate (width - 1) continuation).take width)

/-- The column in which the label is joined to its message. -/
def joint (l : Label) : Nat := (l.start + l.stop) / 2 - l.first.start

/-- The row that underlines the label, or marks its place when it covers nothing. -/
def underline (l : Label) : Row :=
  (List.range (l.stop - l.first.start + 2)).flatMap fun column =>
    let width := l.first.columnWidth column
    if column = l.joint then
      if l.isEmpty then cell '│' ' ' width else cell '┬' '─' width
    else if l.covers (l.first.start + column) then cell '─' '─' width
    else cell ' ' ' ' width

def lead (l : Label) : Row :=
  (List.range (l.stop - l.first.start + 2)).flatMap fun column =>
    let width := l.first.columnWidth column
    if column < l.joint then cell ' ' ' ' width
    else if column = l.joint then cell '╰' '─' width
    else cell '─' '─' width

/-- The rows of a label on one line. A label that reaches beyond its line has nothing to show
but a margin. -/
def inlineRows (l : Label) : List Row :=
  if l.first.stop < l.stop then [l.unnumbered '│']
  else
    [ l.numbered l.first ++ l.text l.first,
      l.unnumbered '│' ++ l.underline,
      l.unnumbered '│' ++ l.lead ++ [.spaces 1, .plain l.message] ]

/-- How far the row that closes a bracket reaches: past the last line with its terminator. -/
def reach (l : Label) : Nat :=
  (List.range (l.last.text.length + 2)).foldl (fun reach column =>
    reach + l.last.columnWidth column) 0

/-- The rows of a label over several lines: the first and the last of them joined by a bracket,
with one row for all lines between. -/
def bracketRows (l : Label) : List Row :=
  let between : List Row :=
    if l.first.index + 1 < l.last.index then
      [l.unnumbered '┆' ++ [.painted .label ['┆'], .spaces 3]]
    else []
  [l.numbered l.first ++ Piece.eachPainted .label "╭─▶ ".toList ++ l.text l.first] ++ between ++
    [ l.numbered l.last ++ Piece.eachPainted .label "├─▶ ".toList ++ l.text l.last,
      l.unnumbered '│' ++ [.painted .label ['│'], .spaces (3 + l.reach)],
      l.unnumbered '│' ++ Piece.eachPainted .label ('╰' :: List.replicate (3 + l.reach) '─') ++
        [.spaces 1, .plain l.message] ]

/-- The rows of an excerpt: its heading with line and column, the label, the advice, and the
closing row. -/
def rows (l : Label) (name : List Char) (help : Option (List Char)) : List Row :=
  let place := Text.decimalDigits (l.first.index + 1) ++ ':' ::
    Text.decimalDigits (l.start - l.first.start + 1)
  let frame := Piece.painted .frame
  let margin := Piece.spaces (l.numberWidth + 2)
  let heading : List Row :=
    [ [margin, frame ['╭'], frame ['─'], frame ['['], .plain (' ' :: name ++ ':' :: place ++ [' ']),
        frame [']']],
      [margin, frame ['│']] ]
  let body := if l.isInline then l.inlineRows else l.bracketRows
  let indent : Row := if l.isInline then [] else [.spaces 4]
  let advice : List Row := match help with
    | none => []
    | some text =>
      [ l.unnumbered '│' ++ indent,
        l.unnumbered '│' ++ indent ++ [.painted .help "Help".toList, .plain (": ".toList ++ text)] ]
  heading ++ body ++ advice ++ [[frame (List.replicate (l.numberWidth + 2) '─' ++ ['╯'])]]

end Label

def sourceName : List Char := "<expression>".toList

/-- The rows of the report on a diagnostic about a source text. -/
def ofDiagnostic (d : Diagnostic) (source : List Char) : List Row :=
  let heading : Row :=
    [.painted .heading ('[' :: d.code.toList ++ "] Error:".toList),
      .plain (' ' :: d.message.toList)]
  match Label.of? source d.span d.message.toList with
  | none => [heading]
  | some label => heading :: label.rows sourceName (d.help.map String.toList)

/-- The rows of the report on a failure. One that is about no source text has nothing to show
but its message. -/
def ofFailure (failure : Failure) : List Row :=
  match failure.source? with
  | none => [[.plain ("error: ".toList ++ failure.diagnostic.message.toList)]]
  | some source => ofDiagnostic failure.diagnostic source.toList

/-- The report on a failure as text, each row ended by a line feed. -/
def render (failure : Failure) (colored : Bool) : String :=
  String.join ((ofFailure failure).map fun row => row.write colored ++ "\n")

end Reckon.Report
