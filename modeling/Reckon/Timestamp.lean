import Reckon.Text.Basic

/-!
Timestamps: a proleptic Gregorian date and a time of day to the nanosecond,
without a zone. A second may be followed by a leap second; a time in it counts
the nanoseconds on from those of the second itself, so that ordering field by
field is the order of time. A text shows a leap second by the next number,
which after the last second of a minute is 60. In reading three layouts are
tried: date and time joined by `T`, by white space or by nothing, and a date
alone, which means its midnight. Fields are numbers that white space may
precede; a text must be used up entirely.
-/

namespace Reckon

/-- Whether February has 29 days. -/
def isLeapYear (year : Int) : Bool := year % 4 = 0 && (year % 100 ≠ 0 || year % 400 = 0)

/-- The number of days of a month; the months are numbered from one. -/
def daysInMonth (year : Int) (month : Nat) : Nat :=
  if month = 2 then (if isLeapYear year then 29 else 28)
  else if month ∈ [4, 6, 9, 11] then 30
  else 31

structure Date where
  year : Int
  month : Nat
  day : Nat
  year_range : -262143 ≤ year ∧ year ≤ 262142
  month_range : 1 ≤ month ∧ month ≤ 12
  day_range : 1 ≤ day ∧ day ≤ daysInMonth year month
deriving DecidableEq

/-- A time of day. From 1000000000 nanoseconds on it lies in a leap second after its second. -/
structure TimeOfDay where
  hour : Nat
  minute : Nat
  second : Nat
  nanosecond : Nat
  hour_range : hour ≤ 23
  minute_range : minute ≤ 59
  second_range : second ≤ 59
  nanosecond_range : nanosecond < 2000000000
deriving DecidableEq

structure Timestamp where
  date : Date
  time : TimeOfDay
deriving DecidableEq

namespace Date

/-- The date with these fields, if the calendar has it. -/
def of? (year : Int) (month day : Nat) : Option Date :=
  if hy : -262143 ≤ year ∧ year ≤ 262142 then
    if hm : 1 ≤ month ∧ month ≤ 12 then
      if hd : 1 ≤ day ∧ day ≤ daysInMonth year month then some ⟨year, month, day, hy, hm, hd⟩
      else none
    else none
  else none

/-- Earlier dates come first. -/
def compare (a b : Date) : Ordering :=
  (Ord.compare a.year b.year).then
    ((Ord.compare a.month b.month).then (Ord.compare a.day b.day))

/-- Four digits for the years 0 to 9999; any other year carries its sign. -/
def toText (d : Date) : List Char :=
  let sign := if d.year < 0 then ['-'] else if 9999 < d.year then ['+'] else []
  sign ++ Text.padded 4 d.year.natAbs ++ '-' :: Text.padded 2 d.month ++ '-' :: Text.padded 2 d.day

end Date

namespace TimeOfDay

def midnight : TimeOfDay :=
  ⟨0, 0, 0, 0, by decide, by decide, by decide, by decide⟩

/-- The time with these fields, if a day has it. -/
def of? (hour minute second nanosecond : Nat) : Option TimeOfDay :=
  if hh : hour ≤ 23 then
    if hm : minute ≤ 59 then
      if hs : second ≤ 59 then
        if hn : nanosecond < 2000000000 then
          some ⟨hour, minute, second, nanosecond, hh, hm, hs, hn⟩
        else none
      else none
    else none
  else none

/-- The time that a text shows by these fields, if there is one. Second 60 is the leap second at
the end of a minute. -/
def ofShown? (hour minute second fraction : Nat) : Option TimeOfDay :=
  if fraction < 1000000000 then
    if second = 60 then of? hour minute 59 (1000000000 + fraction)
    else of? hour minute second fraction
  else none

/-- Earlier times come first, a leap second between the seconds around it. -/
def compare (a b : TimeOfDay) : Ordering :=
  (Ord.compare a.hour b.hour).then
    ((Ord.compare a.minute b.minute).then
      ((Ord.compare a.second b.second).then (Ord.compare a.nanosecond b.nanosecond)))

/-- The number that a text gives the second; a leap second has the one after. -/
def shownSecond (t : TimeOfDay) : Nat := t.second + t.nanosecond / 1000000000

/-- The nanoseconds since the beginning of the second that is shown. -/
def shownFraction (t : TimeOfDay) : Nat := t.nanosecond % 1000000000

/-- The fraction of a second in the fewest groups of three digits that show it exactly. -/
def fractionText (nanosecond : Nat) : List Char :=
  if nanosecond = 0 then []
  else if nanosecond % 1000000 = 0 then '.' :: Text.padded 3 (nanosecond / 1000000)
  else if nanosecond % 1000 = 0 then '.' :: Text.padded 6 (nanosecond / 1000)
  else '.' :: Text.padded 9 nanosecond

/-- Two digits for each field, then the fraction. -/
def toText (t : TimeOfDay) : List Char :=
  Text.padded 2 t.hour ++ ':' :: Text.padded 2 t.minute ++ ':' :: Text.padded 2 t.shownSecond ++
    fractionText t.shownFraction

end TimeOfDay

namespace Timestamp

def compare (a b : Timestamp) : Ordering := (a.date.compare b.date).then (a.time.compare b.time)

/-- The date and the time with `T` between them. -/
def toText (t : Timestamp) : List Char := t.date.toText ++ 'T' :: t.time.toText

end Timestamp

end Reckon

namespace Reckon.Timestamp

/-- Between one and `width` digits, read as a number. -/
def digits? (width : Nat) (text : List Char) : Option (Nat × List Char) :=
  let digits := (text.take width).takeWhile Char.isDigit
  if digits = [] then none else some (Text.numberOf digits, text.drop digits.length)

/-- A numeric field of at most `width` digits, which white space may precede. -/
def field? (width : Nat) (text : List Char) : Option (Nat × List Char) :=
  digits? width (Text.trimStart text)

/-- The year: at most four digits, or a sign and any number of them. -/
def year? (text : List Char) : Option (Int × List Char) :=
  match Text.trimStart text with
  | '-' :: rest => (digits? rest.length rest).map fun (n, rest) => (-(n : Int), rest)
  | '+' :: rest => (digits? rest.length rest).map fun (n, rest) => ((n : Int), rest)
  | rest => (digits? 4 rest).map fun (n, rest) => ((n : Int), rest)

def mark? (mark : Char) : List Char → Option (List Char)
  | [] => none
  | c :: rest => if c = mark then some rest else none

/-- Year, month and day with hyphens between them. -/
def date? (text : List Char) : Option (Date × List Char) := do
  let (year, rest) ← year? text
  let rest ← mark? '-' rest
  let (month, rest) ← field? 2 rest
  let rest ← mark? '-' rest
  let (day, rest) ← field? 2 rest
  let date ← Date.of? year month day
  return (date, rest)

/-- A point and at least one digit, in nanoseconds; digits after the ninth are dropped.
No point means zero. -/
def fraction? : List Char → Option (Nat × List Char)
  | '.' :: rest =>
    let digits := rest.takeWhile Char.isDigit
    let kept := digits.take 9
    if digits = [] then none
    else some (Text.numberOf kept * Text.tenTo (9 - kept.length), rest.dropWhile Char.isDigit)
  | rest => some (0, rest)

/-- Hour, minute and second with colons between them, and a fraction. -/
def time? (text : List Char) : Option (TimeOfDay × List Char) := do
  let (hour, rest) ← field? 2 text
  let rest ← mark? ':' rest
  let (minute, rest) ← field? 2 rest
  let rest ← mark? ':' rest
  let (second, rest) ← field? 2 rest
  let (fraction, rest) ← fraction? rest
  let time ← TimeOfDay.ofShown? hour minute second fraction
  return (time, rest)

/-- A date and a time with a separator that the given function consumes. -/
def joined? (separator : List Char → Option (List Char)) (text : List Char) :
    Option Timestamp := do
  let (date, rest) ← date? text
  let rest ← separator rest
  let (time, rest) ← time? rest
  if rest = [] then some ⟨date, time⟩ else none

/-- A date that fills the text. -/
def dateOnly? (text : List Char) : Option Timestamp := do
  let (date, rest) ← date? text
  if rest = [] then some ⟨date, .midnight⟩ else none

/-- Reads a timestamp in the first layout that fits. -/
def ofText? (text : List Char) : Option Timestamp :=
  joined? (mark? 'T') text <|> joined? (fun rest => some (Text.trimStart rest)) text <|>
    dateOnly? text

end Reckon.Timestamp
