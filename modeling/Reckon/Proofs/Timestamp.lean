import Mathlib.Data.Option.Basic
import Reckon.Proofs.Grammar.Lexeme
import Reckon.Proofs.Text.Basic
import Reckon.Timestamp

/-!
Timestamps are read from the texts that they are written as. Every field fills
its width, so the reader takes it whole whatever follows; only the digits of a
year with a sign end where the hyphen stands. A leap second is shown by the
number of the second after it and read as that second, unless it is the last of
its minute and has a number of its own.
-/

namespace Reckon

open Text

namespace Timestamp

variable {n width : Nat} {digits rest : List Char}

theorem trimStart_digits (hne : digits ≠ []) (hdigits : ∀ a ∈ digits, a.isDigit = true)
    (rest : List Char) : trimStart (digits ++ rest) = digits ++ rest := by
  obtain ⟨d, more, rfl⟩ := List.exists_cons_of_ne_nil hne
  refine trimStart_eq_self fun a ha => ?_
  obtain rfl := Option.some.inj ha
  exact Grammar.Lexeme.isBlank_eq_false_of_isWord
    (Grammar.Lexeme.isWord_of_isDigit (hdigits d List.mem_cons_self))

/-- Digits are read up to the width, or up to something else. -/
theorem digits?_append (hne : digits ≠ []) (hdigits : ∀ a ∈ digits, a.isDigit = true)
    (hwidth : digits.length ≤ width)
    (hrest : digits.length = width ∨ ∀ a ∈ rest.head?, a.isDigit = false) :
    digits? width (digits ++ rest) = some (numberOf digits, rest) := by
  have htake : ((digits ++ rest).take width).takeWhile Char.isDigit = digits := by
    rw [List.take_append, List.take_of_length_le hwidth, List.takeWhile_append_of_pos hdigits]
    have hnone : (rest.take (width - digits.length)).takeWhile Char.isDigit = [] := by
      rcases hrest with hfull | hstop
      · rw [hfull, Nat.sub_self, List.take_zero, List.takeWhile_nil]
      · cases rest with
        | nil => simp
        | cons a rest => cases hmore : width - digits.length <;> simp [hstop a rfl]
    rw [hnone, List.append_nil]
  rw [digits?]
  simp only [htake, hne, if_false, List.drop_left]

/-- A field that fills its width is read whole. -/
theorem field?_padded (hwidth : 0 < width) (h : n < tenTo width) (rest : List Char) :
    field? width (padded width n ++ rest) = some (n, rest) := by
  have hdigits : ∀ a ∈ padded width n, a.isDigit = true := fun _ => isDigit_of_mem_padded
  have hlength := length_padded hwidth h
  rw [field?, trimStart_digits (padded_ne_nil width n) hdigits,
    digits?_append (padded_ne_nil width n) hdigits (Nat.le_of_eq hlength) (.inl hlength),
    numberOf_padded]

@[simp] theorem mark?_cons (mark : Char) (rest : List Char) :
    mark? mark (mark :: rest) = some rest := if_pos rfl

/-- The digits of a year are read up to the hyphen behind them, also when there are more than
four. -/
theorem digits?_year (year : Nat) (rest : List Char) :
    digits? (padded 4 year ++ '-' :: rest).length (padded 4 year ++ '-' :: rest) =
      some (year, '-' :: rest) := by
  have hlength : (padded 4 year).length ≤ (padded 4 year ++ '-' :: rest).length := by simp
  rw [digits?_append (padded_ne_nil 4 year) (fun _ => isDigit_of_mem_padded) hlength
    (.inr (by rintro a ⟨⟩; rfl)), numberOf_padded]

theorem year?_minus (text : List Char) :
    year? ('-' :: text) = (digits? text.length text).map fun (n, rest) => (-(n : Int), rest) := rfl

theorem year?_plus (text : List Char) :
    year? ('+' :: text) = (digits? text.length text).map fun (n, rest) => ((n : Int), rest) := rfl

theorem year?_unsigned (hne : digits ≠ []) (hdigits : ∀ a ∈ digits, a.isDigit = true)
    (rest : List Char) :
    year? (digits ++ rest) =
      (field? 4 (digits ++ rest)).map fun (n, rest) => ((n : Int), rest) := by
  have htrim := trimStart_digits hne hdigits rest
  obtain ⟨d, more, rfl⟩ := List.exists_cons_of_ne_nil hne
  have hd := hdigits d List.mem_cons_self
  rw [year?, field?, htrim]
  split
  · next heq =>
    cases heq
    cases hd
  · next heq =>
    cases heq
    cases hd
  · rfl

theorem year?_text (year : Int) (rest : List Char) :
    year? ((if year < 0 then ['-'] else if 9999 < year then ['+'] else []) ++
        padded 4 year.natAbs ++ '-' :: rest) = some (year, '-' :: rest) := by
  rw [List.append_assoc]
  split_ifs with hnegative hlarge
  · have hyear : -(year.natAbs : Int) = year := by omega
    rw [List.singleton_append, year?_minus, digits?_year, Option.map_some]
    simp only [hyear]
  · have hyear : (year.natAbs : Int) = year := by omega
    rw [List.singleton_append, year?_plus, digits?_year, Option.map_some]
    simp only [hyear]
  · have hyear : (year.natAbs : Int) = year := by omega
    have hle : year.natAbs ≤ 9999 := by omega
    rw [List.nil_append, year?_unsigned (padded_ne_nil 4 _) (fun _ => isDigit_of_mem_padded),
      field?_padded (by decide) (Nat.lt_of_le_of_lt hle (by decide)), Option.map_some]
    simp only [hyear]

end Timestamp

theorem Date.of?_self (d : Date) : Date.of? d.year d.month d.day = some d := by
  rw [Date.of?, dif_pos d.year_range, dif_pos d.month_range, dif_pos d.day_range]

theorem daysInMonth_le (year : Int) (month : Nat) : daysInMonth year month ≤ 31 := by
  unfold daysInMonth
  split_ifs <;> decide

namespace Timestamp

theorem date?_toText (d : Date) (rest : List Char) : date? (d.toText ++ rest) = some (d, rest) := by
  have hmonth : d.month < tenTo 2 := Nat.lt_of_le_of_lt d.month_range.2 (by decide)
  have hday : d.day < tenTo 2 :=
    Nat.lt_of_le_of_lt (d.day_range.2.trans (daysInMonth_le _ _)) (by decide)
  have htext : d.toText ++ rest =
      (if d.year < 0 then ['-'] else if 9999 < d.year then ['+'] else []) ++
        padded 4 d.year.natAbs ++ '-' :: (padded 2 d.month ++ '-' :: (padded 2 d.day ++ rest)) := by
    simp [Date.toText]
  rw [htext, date?, year?_text]
  simp only [Option.bind_eq_bind, Option.bind_some, mark?_cons, field?_padded (by decide) hmonth,
    field?_padded (by decide) hday, d.of?_self]
  rfl

theorem fraction?_padded (hwidth : 0 < width) (hle : width ≤ 9) (h : n < tenTo width) :
    fraction? ('.' :: padded width n) = some (n * tenTo (9 - width), []) := by
  have hdigits : ∀ a ∈ padded width n, a.isDigit = true := fun _ => isDigit_of_mem_padded
  have hlength := length_padded hwidth h
  have htake : (padded width n).takeWhile Char.isDigit = padded width n :=
    List.takeWhile_eq_self_iff.mpr hdigits
  have hdrop : (padded width n).dropWhile Char.isDigit = [] :=
    List.dropWhile_eq_nil_iff.mpr hdigits
  have hkept : (padded width n).take 9 = padded width n :=
    List.take_of_length_le (hlength.trans_le hle)
  simp only [fraction?, htake, hdrop, hkept, padded_ne_nil, if_false, numberOf_padded, hlength]

/-- The groups of three digits that are left out are zeros. -/
theorem fraction?_fractionText (h : n < 1000000000) :
    fraction? (TimeOfDay.fractionText n) = some (n, []) := by
  unfold TimeOfDay.fractionText
  split_ifs with hzero hmilli hmicro
  · rw [hzero]
    rfl
  · rw [fraction?_padded (by decide) (by decide) (show _ < 10 ^ 3 by omega)]
    congr 2
    change n / 1000000 * 10 ^ 6 = n
    omega
  · rw [fraction?_padded (by decide) (by decide) (show _ < 10 ^ 6 by omega)]
    congr 2
    change n / 1000 * 10 ^ 3 = n
    omega
  · rw [fraction?_padded (by decide) (by decide) (show _ < 10 ^ 9 by omega)]
    congr 2
    exact Nat.mul_one n

end Timestamp

namespace TimeOfDay

/-- A leap second, if the time is in one, is at the end of its minute. -/
def LeapEndsMinute (t : TimeOfDay) : Prop := 1000000000 ≤ t.nanosecond → t.second = 59

instance (t : TimeOfDay) : Decidable t.LeapEndsMinute :=
  inferInstanceAs (Decidable (_ → _))

/-- The time that is shown in the same way and can be read: in place of a leap second within its
minute the second after it. -/
def settled (t : TimeOfDay) : TimeOfDay :=
  if h : 1000000000 ≤ t.nanosecond ∧ t.second ≠ 59 then
    { t with
      second := t.second + 1
      nanosecond := t.nanosecond - 1000000000
      second_range := by have := t.second_range; omega
      nanosecond_range := by have := t.nanosecond_range; omega }
  else t

theorem settled_eq_self_iff (t : TimeOfDay) : t.settled = t ↔ t.LeapEndsMinute := by
  rw [settled, LeapEndsMinute]
  split_ifs with h
  · obtain ⟨hleap, hsecond⟩ := h
    have hne : t.second + 1 ≠ t.second := Nat.succ_ne_self _
    exact ⟨fun heq => absurd (congrArg second heq) hne, fun hend => absurd (hend hleap) hsecond⟩
  · refine iff_of_true rfl fun hleap => ?_
    by_contra hsecond
    exact h ⟨hleap, hsecond⟩

theorem of?_eq_some (t : TimeOfDay) : of? t.hour t.minute t.second t.nanosecond = some t := by
  rw [of?, dif_pos t.hour_range, dif_pos t.minute_range, dif_pos t.second_range,
    dif_pos t.nanosecond_range]

theorem of?_eq_some_iff {hour minute second nanosecond : Nat} {t : TimeOfDay} :
    of? hour minute second nanosecond = some t ↔
      t.hour = hour ∧ t.minute = minute ∧ t.second = second ∧ t.nanosecond = nanosecond := by
  constructor
  · intro h
    rw [of?] at h
    split_ifs at h
    obtain rfl := Option.some.inj h
    exact ⟨rfl, rfl, rfl, rfl⟩
  · rintro ⟨rfl, rfl, rfl, rfl⟩
    exact t.of?_eq_some

/-- A time is read from the fields it is shown by, up to a leap second within its minute. -/
theorem ofShown?_shown (t : TimeOfDay) :
    ofShown? t.hour t.minute t.shownSecond t.shownFraction = some t.settled := by
  have hsecond := t.second_range
  have hnanosecond := t.nanosecond_range
  rw [ofShown?, shownSecond, shownFraction, if_pos (Nat.mod_lt _ (by decide)), settled]
  split_ifs with hlast hleap hleap
  · omega
  · exact of?_eq_some_iff.mpr ⟨rfl, rfl, by omega, by omega⟩
  · refine of?_eq_some_iff.mpr ⟨rfl, rfl, ?_, ?_⟩
    · change t.second + 1 = t.second + t.nanosecond / 1000000000
      omega
    · change t.nanosecond - 1000000000 = t.nanosecond % 1000000000
      omega
  · exact of?_eq_some_iff.mpr ⟨rfl, rfl, by omega, by omega⟩

/-- Only leap seconds at the end of a minute are read. -/
theorem leapEndsMinute_of_ofShown? {hour minute second fraction : Nat} {t : TimeOfDay}
    (h : ofShown? hour minute second fraction = some t) : t.LeapEndsMinute := by
  intro hleap
  rw [ofShown?] at h
  split_ifs at h with hfraction hlast
  · obtain ⟨-, -, hsecond, -⟩ := of?_eq_some_iff.mp h
    exact hsecond
  · obtain ⟨-, -, -, hnanosecond⟩ := of?_eq_some_iff.mp h
    omega

end TimeOfDay

namespace Timestamp

/-- The timestamp that is shown in the same way and can be read. -/
def settled (t : Timestamp) : Timestamp := ⟨t.date, t.time.settled⟩

theorem settled_eq_self_iff (t : Timestamp) : t.settled = t ↔ t.time.LeapEndsMinute := by
  rw [← t.time.settled_eq_self_iff]
  exact ⟨fun h => congrArg time h, fun h => congrArg (Timestamp.mk t.date) h⟩

theorem time?_toText (t : TimeOfDay) : time? t.toText = some (t.settled, []) := by
  have hhour : t.hour < tenTo 2 := Nat.lt_of_le_of_lt t.hour_range (by decide)
  have hminute : t.minute < tenTo 2 := Nat.lt_of_le_of_lt t.minute_range (by decide)
  have hsecond : t.shownSecond < tenTo 2 := by
    have hrange := t.second_range
    have hnanosecond := t.nanosecond_range
    change t.second + t.nanosecond / 1000000000 < 10 ^ 2
    omega
  have hfraction : t.shownFraction < 1000000000 := Nat.mod_lt _ (by decide)
  have htext : t.toText = padded 2 t.hour ++ ':' :: (padded 2 t.minute ++
      ':' :: (padded 2 t.shownSecond ++ TimeOfDay.fractionText t.shownFraction)) := by
    simp [TimeOfDay.toText]
  rw [htext, time?]
  simp only [Option.bind_eq_bind, Option.bind_some, mark?_cons, field?_padded (by decide) hhour,
    field?_padded (by decide) hminute, field?_padded (by decide) hsecond,
    fraction?_fractionText hfraction, t.ofShown?_shown]
  rfl

/-- Every timestamp is read from its own text, up to a leap second within its minute. -/
theorem ofText?_toText (t : Timestamp) : ofText? t.toText = some t.settled := by
  have hjoined : joined? (mark? 'T') t.toText = some t.settled := by
    rw [toText, joined?, date?_toText]
    simp only [Option.bind_eq_bind, Option.bind_some, mark?_cons, time?_toText, if_true]
    rfl
  rw [ofText?, hjoined]
  rfl

theorem leapEndsMinute_of_time? {text rest : List Char} {t : TimeOfDay}
    (h : time? text = some (t, rest)) : t.LeapEndsMinute := by
  simp only [time?, Option.bind_eq_bind, Option.bind_eq_some_iff] at h
  obtain ⟨_, -, _, -, _, -, _, -, _, -, _, -, time, htime, heq⟩ := h
  obtain ⟨rfl, -⟩ := Prod.mk.inj (Option.some.inj heq)
  exact TimeOfDay.leapEndsMinute_of_ofShown? htime

theorem leapEndsMinute_of_joined? {separator : List Char → Option (List Char)}
    {text : List Char} {t : Timestamp} (h : joined? separator text = some t) :
    t.time.LeapEndsMinute := by
  simp only [joined?, Option.bind_eq_bind, Option.bind_eq_some_iff] at h
  obtain ⟨_, -, _, -, time, htime, heq⟩ := h
  split_ifs at heq
  obtain rfl := Option.some.inj heq
  exact leapEndsMinute_of_time? htime

/-- No text is read as a leap second within a minute. -/
theorem leapEndsMinute_of_ofText? {text : List Char} {t : Timestamp}
    (h : ofText? text = some t) : t.time.LeapEndsMinute := by
  rw [ofText?, Option.orElse_eq_some, Option.orElse_eq_some] at h
  rcases h with hmark | ⟨-, hblank | ⟨-, hdate⟩⟩
  · exact leapEndsMinute_of_joined? hmark
  · exact leapEndsMinute_of_joined? hblank
  · simp only [dateOnly?, Option.bind_eq_bind, Option.bind_eq_some_iff] at hdate
    obtain ⟨_, -, heq⟩ := hdate
    split_ifs at heq
    obtain rfl := Option.some.inj heq
    have hmidnight : TimeOfDay.midnight.LeapEndsMinute := by decide
    exact hmidnight

end Timestamp

end Reckon
