import Reckon.Evaluation.Operators
import Reckon.Proofs.Double.Text
import Reckon.Proofs.Timestamp
import Reckon.Value.Literal

/-!
Values are read back from the texts that they are written as. The texts of the
scalars are free of white space and of commas, so an array falls apart into
them, and the order in which the kinds of scalars are tried takes none for
another.
-/

namespace Reckon

open Text

namespace Text

/-- Whether a character can stand in the text of a scalar. -/
def isPlain (a : Char) : Bool := Grammar.Lexeme.isWord a || ['+', '-', ':'].contains a

/-- A text without white space, brackets and commas. -/
def IsPlain (text : List Char) : Prop := text ≠ [] ∧ ∀ a ∈ text, isPlain a = true

theorem isPlain_of_mem_all {a : Char} {text : List Char} (h : text.all isPlain = true)
    (ha : a ∈ text) : isPlain a = true := List.all_eq_true.mp h a ha

theorem isPlain_of_isDigit {a : Char} (h : a.isDigit = true) : isPlain a = true :=
  Bool.or_eq_true_iff.mpr (.inl (Grammar.Lexeme.isWord_of_isDigit h))

theorem isBlank_eq_false_of_isPlain {a : Char} (h : isPlain a = true) : isBlank a = false := by
  rcases Bool.or_eq_true_iff.mp h with hword | hmark
  · exact Grammar.Lexeme.isBlank_eq_false_of_isWord hword
  · simp only [List.contains_eq_mem, List.mem_cons, List.not_mem_nil, or_false,
      decide_eq_true_eq] at hmark
    rcases hmark with rfl | rfl | rfl <;> decide

namespace IsPlain

variable {text : List Char}

theorem not_mem (h : IsPlain text) {a : Char} (ha : isPlain a = false) : a ∉ text := by
  intro hmem
  rw [h.2 a hmem] at ha
  cases ha

theorem trim_eq (h : IsPlain text) : trim text = text :=
  trim_eq_self fun a ha => isBlank_eq_false_of_isPlain (h.2 a ha)

end IsPlain

theorem isPlain_truth (b : Bool) : IsPlain (truth b) := by
  cases b <;> exact ⟨nofun, fun _ => isPlain_of_mem_all rfl⟩

theorem isPlain_signedDecimal (n : Int) : IsPlain (signedDecimal n) := by
  refine ⟨List.append_ne_nil_of_right_ne_nil _ (decimalDigits_ne_nil _), ?_⟩
  refine List.forall_mem_append.mpr ⟨?_, fun a ha =>
    isPlain_of_isDigit (isDigit_of_mem_decimalDigits ha)⟩
  split_ifs <;> exact fun _ => isPlain_of_mem_all rfl

theorem isPlain_of_mem_padded {a : Char} {width n : Nat} (h : a ∈ padded width n) :
    isPlain a = true :=
  isPlain_of_isDigit (isDigit_of_mem_padded h)

end Text

theorem Double.isPlain_toText (x : Double) : IsPlain x.toText := by
  cases x with
  | nan => exact ⟨nofun, fun _ => isPlain_of_mem_all rfl⟩
  | infinity negative => cases negative <;> exact ⟨nofun, fun _ => isPlain_of_mem_all rfl⟩
  | finite negative m =>
    obtain ⟨whole, fraction, htext, hne, hdigits, -⟩ := exists_finite_toText negative m
    obtain ⟨hwhole, hfraction⟩ := List.forall_mem_append.mp hdigits
    rw [htext]
    refine ⟨by simp, List.forall_mem_append.mpr ⟨?_, List.forall_mem_append.mpr ⟨?_, ?_⟩⟩⟩
    · split_ifs <;> exact fun _ => isPlain_of_mem_all rfl
    · exact fun a ha => isPlain_of_isDigit (hwhole a ha)
    · exact List.forall_mem_cons.mpr ⟨rfl, fun a ha => isPlain_of_isDigit (hfraction a ha)⟩

theorem TimeOfDay.isPlain_of_mem_fractionText {a : Char} {nanosecond : Nat}
    (h : a ∈ fractionText nanosecond) : isPlain a = true := by
  have hdigits : ∀ width n, ∀ a ∈ '.' :: padded width n, isPlain a = true := fun _ _ =>
    List.forall_mem_cons.mpr ⟨by decide, fun _ => isPlain_of_mem_padded⟩
  unfold fractionText at h
  split_ifs at h
  · cases h
  · exact hdigits _ _ a h
  · exact hdigits _ _ a h
  · exact hdigits _ _ a h

theorem TimeOfDay.isPlain_of_mem_toText {a : Char} {t : TimeOfDay} (h : a ∈ t.toText) :
    isPlain a = true := by
  have hpadded : ∀ n, ∀ a ∈ padded 2 n, isPlain a = true := fun _ _ => isPlain_of_mem_padded
  have hcolon : isPlain ':' = true := by decide
  revert a
  simp only [toText, List.forall_mem_append, List.forall_mem_cons]
  exact ⟨⟨⟨hpadded _, hcolon, hpadded _⟩, hcolon, hpadded _⟩, fun _ => isPlain_of_mem_fractionText⟩

theorem Date.isPlain_of_mem_toText {a : Char} {d : Date} (h : a ∈ d.toText) :
    isPlain a = true := by
  have hpadded : ∀ width n, ∀ a ∈ padded width n, isPlain a = true := fun _ _ _ =>
    isPlain_of_mem_padded
  have hhyphen : isPlain '-' = true := by decide
  revert a
  simp only [toText, List.forall_mem_append, List.forall_mem_cons]
  refine ⟨⟨⟨?_, hpadded 4 _⟩, hhyphen, hpadded 2 _⟩, hhyphen, hpadded 2 _⟩
  split_ifs <;> exact fun _ => isPlain_of_mem_all rfl

theorem Timestamp.isPlain_toText (t : Timestamp) : IsPlain t.toText := by
  refine ⟨by simp [toText], List.forall_mem_append.mpr ⟨fun _ => Date.isPlain_of_mem_toText, ?_⟩⟩
  exact List.forall_mem_cons.mpr ⟨by decide, fun _ => TimeOfDay.isPlain_of_mem_toText⟩

theorem Timestamp.colon_mem_toText (t : Timestamp) : ':' ∈ t.toText := by
  simp [toText, TimeOfDay.toText]

namespace Value

variable {text : List Char}

theorem scalar?_truth (b : Bool) : scalar? (truth b) = some (.boolean b) := by
  cases b <;> rfl

/-- A text that is no truth value is read as an integer, and else as a double. -/
theorem scalar?_eq (h : ∀ b, text ≠ truth b) :
    scalar? text = ((int64? text).map integer <|> (Double.ofText? text).map double) := by
  rw [scalar?]
  exact (if_neg (h true)).trans (if_neg (h false))

theorem scalar?_of_int64? {n : Int64} (h : int64? text = some n) :
    scalar? text = some (.integer n) := by
  have hne : ∀ b, text ≠ truth b := by
    rintro b rfl
    cases b <;> cases h
  rw [scalar?_eq hne, h]
  rfl

theorem scalar?_of_ofText? {x : Double} (hinteger : int64? text = none)
    (h : Double.ofText? text = some x) : scalar? text = some (.double x) := by
  have hne : ∀ b, text ≠ truth b := by
    rintro b rfl
    cases b <;> cases h
  rw [scalar?_eq hne, hinteger, h]
  rfl

theorem scalar?_colon (h : ':' ∈ text) : scalar? text = none := by
  have hne : ∀ b, text ≠ truth b := by
    rintro b rfl
    cases b <;> revert h <;> decide
  rw [scalar?_eq hne, int64?_eq_none h rfl (by decide) (by decide), Double.ofText?_colon h]
  rfl

/-- The point in the text of a finite double keeps it from being an integer. -/
theorem int64?_toText (x : Double) : int64? x.toText = none := by
  cases x with
  | nan => rfl
  | infinity negative => cases negative <;> rfl
  | finite negative m =>
    obtain ⟨whole, fraction, htext, -⟩ := Double.exists_finite_toText negative m
    have hpoint : '.' ∈ (Double.finite negative m).toText := by simp [htext]
    exact int64?_eq_none hpoint rfl (by decide) (by decide)

theorem scalar?_double (x : Double) : scalar? x.toText = some (.double x) :=
  scalar?_of_ofText? (int64?_toText x) x.ofText?_toText

theorem scalar?_integer (n : Int64) : scalar? (signedDecimal n.toInt) = some (.integer n) :=
  scalar?_of_int64? (int64?_signedDecimal n)

end Value

namespace Text

variable {field layout : List Char} {texts : List (List Char)}

theorem commaSeparated_eq_singleton (h : ',' ∉ field) : commaSeparated field = [field] := by
  induction field with
  | nil => rfl
  | cons a field ih =>
    rw [List.mem_cons, not_or] at h
    obtain ⟨hne, hfield⟩ := h
    rw [commaSeparated, ih hfield]
    exact if_neg (Ne.symm hne)

/-- The first comma ends the first field. -/
theorem commaSeparated_append (h : ',' ∉ field) (rest : List Char) :
    commaSeparated (field ++ ',' :: rest) = field :: commaSeparated rest := by
  induction field with
  | nil => rfl
  | cons a field ih =>
    rw [List.mem_cons, not_or] at h
    obtain ⟨hne, hfield⟩ := h
    rw [List.cons_append, commaSeparated, ih hfield]
    exact if_neg (Ne.symm hne)

theorem trim_layout_append (hlayout : ∀ a ∈ layout, isBlank a = true) (h : IsPlain field) :
    trim (layout ++ field) = field := by
  have hdrop : trimStart (layout ++ field) = trimStart field :=
    List.dropWhile_append_of_pos hlayout
  rw [trim, hdrop, ← trim, h.trim_eq]

/-- Plain texts with commas and white space between them fall apart into themselves. -/
theorem fields_intercalate (hlayout : ∀ a ∈ layout, isBlank a = true)
    (htexts : ∀ text ∈ texts, IsPlain text) :
    ((commaSeparated (layout ++ ", ".toList.intercalate texts)).map trim).filter (· ≠ []) =
      texts := by
  have hcomma : ∀ layout : List Char, (∀ a ∈ layout, isBlank a = true) → ',' ∉ layout :=
    fun layout hlayout hmem => absurd (hlayout ',' hmem) (by decide)
  induction texts generalizing layout with
  | nil =>
    have hdrop : trimStart layout = [] := List.dropWhile_eq_nil_iff.mpr hlayout
    have htrim : trim layout = [] := by
      rw [trim, hdrop]
      rfl
    rw [List.intercalate_nil, List.append_nil, commaSeparated_eq_singleton (hcomma layout hlayout)]
    simp [htrim]
  | cons text texts ih =>
    obtain ⟨htext, hrest⟩ := List.forall_mem_cons.mp htexts
    have hfield : ',' ∉ layout ++ text := by
      rw [List.mem_append, not_or]
      exact ⟨hcomma layout hlayout, htext.not_mem (by decide)⟩
    have htrim := trim_layout_append hlayout htext
    cases texts with
    | nil =>
      rw [List.intercalate_singleton, commaSeparated_eq_singleton hfield]
      simp [htrim, htext.1]
    | cons next texts =>
      have hjoin : layout ++ ", ".toList.intercalate (text :: next :: texts) =
          (layout ++ text) ++ ',' :: ([' '] ++ ", ".toList.intercalate (next :: texts)) := by
        simp [List.intercalate_cons_cons]
      have hmore := @ih [' '] (List.forall_mem_singleton.mpr rfl) hrest
      rw [hjoin, commaSeparated_append hfield, List.map_cons, htrim,
        List.filter_cons_of_pos (by simpa using htext.1), hmore]

end Text

namespace Sequence

variable {s : Sequence}

theorem itemTexts_eq (s : Sequence) : s.itemTexts = s.values.toList.map Value.toText := by
  cases s with
  | doubles items => rw [values, Array.toList_map, List.map_map]; rfl
  | integers items => rw [values, Array.toList_map, List.map_map]; rfl
  | booleans items => rw [values, Array.toList_map, List.map_map]; rfl

theorem isPlain_of_mem_values {v : Value} (h : v ∈ s.values) : IsPlain v.toText := by
  cases s with
  | doubles items =>
    obtain ⟨x, -, rfl⟩ := Array.mem_map.mp h
    exact x.isPlain_toText
  | integers items =>
    obtain ⟨n, -, rfl⟩ := Array.mem_map.mp h
    exact isPlain_signedDecimal n.toInt
  | booleans items =>
    obtain ⟨b, -, rfl⟩ := Array.mem_map.mp h
    exact isPlain_truth b

theorem scalar?_of_mem_values {v : Value} (h : v ∈ s.values) :
    Value.scalar? v.toText = some v := by
  cases s with
  | doubles items =>
    obtain ⟨x, -, rfl⟩ := Array.mem_map.mp h
    exact Value.scalar?_double x
  | integers items =>
    obtain ⟨n, -, rfl⟩ := Array.mem_map.mp h
    exact Value.scalar?_integer n
  | booleans items =>
    obtain ⟨b, -, rfl⟩ := Array.mem_map.mp h
    exact Value.scalar?_truth b

private theorem mapM_map_toText {f : List Char → Except LiteralError Value} {vs : List Value}
    (h : ∀ v ∈ vs, f v.toText = .ok v) : (vs.map Value.toText).mapM f = .ok vs := by
  induction vs with
  | nil => rfl
  | cons v vs ih =>
    obtain ⟨hv, hvs⟩ := List.forall_mem_cons.mp h
    rw [List.map_cons, List.mapM_cons, hv, ih hvs]
    rfl

/-- The items of an array are read from its text. -/
theorem items_itemTexts (s : Sequence) :
    Value.items (", ".toList.intercalate s.itemTexts) = .ok s.values.toList := by
  have hfields := @fields_intercalate [] s.itemTexts nofun (by
    intro text htext
    rw [itemTexts_eq] at htext
    obtain ⟨v, hv, rfl⟩ := List.mem_map.mp htext
    exact isPlain_of_mem_values (Array.mem_toList_iff.mp hv))
  rw [List.nil_append] at hfields
  rw [Value.items, hfields, itemTexts_eq]
  refine mapM_map_toText fun v hv => ?_
  rw [scalar?_of_mem_values (Array.mem_toList_iff.mp hv)]

/-- Values of one type are the array of them, if there is one to tell the type. -/
theorem sequence_values (hdoubles : s ≠ .doubles #[]) (hbooleans : s ≠ .booleans #[]) :
    Value.sequence s.values.toList = .ok s := by
  cases s with
  | doubles items =>
    rcases items with ⟨_ | ⟨x, xs⟩⟩
    · exact absurd rfl hdoubles
    · simp [values, Value.sequence, Value.integer?, Value.boolean?, Value.number?,
        Function.comp_def]
  | integers items => simp [values, Value.sequence, Value.integer?, Function.comp_def]
  | booleans items =>
    rcases items with ⟨_ | ⟨b, bs⟩⟩
    · exact absurd rfl hbooleans
    · simp [values, Value.sequence, Value.integer?, Value.boolean?, Function.comp_def]

private theorem eq_nil_of_filterMap {α : Type} {f : Value → Option α} {vs : List Value}
    (hall : (vs.all fun v => (f v).isSome) = true) (h : vs.filterMap f = []) : vs = [] := by
  rw [List.eq_nil_iff_forall_not_mem]
  intro v hv
  have hsome := List.all_eq_true.mp hall v hv
  rw [List.filterMap_eq_nil_iff.mp h v hv] at hsome
  cases hsome

/-- No values are an array of integers. -/
theorem ne_of_sequence {vs : List Value} (h : Value.sequence vs = .ok s) :
    s ≠ .doubles #[] ∧ s ≠ .booleans #[] := by
  rw [Value.sequence] at h
  split_ifs at h with hintegers hbooleans hnumbers
  · cases h
    exact ⟨nofun, nofun⟩
  · cases h
    refine ⟨nofun, fun hempty => hintegers ?_⟩
    rw [eq_nil_of_filterMap hbooleans (congrArg Array.toList (Sequence.booleans.inj hempty))]
    rfl
  · cases h
    refine ⟨fun hempty => hintegers ?_, nofun⟩
    rw [eq_nil_of_filterMap hnumbers (congrArg Array.toList (Sequence.doubles.inj hempty))]
    rfl

end Sequence

namespace Value

theorem bracketed?_array (inner : List Char) : bracketed? ('[' :: inner ++ [']']) = some inner := by
  rw [List.cons_append, bracketed?, List.getLast?_concat, if_pos rfl, List.dropLast_concat]

theorem bracketed?_plain {text : List Char} (h : IsPlain text) : bracketed? text = none := by
  unfold bracketed?
  split
  · exact absurd List.mem_cons_self (h.not_mem (by decide))
  · rfl

theorem ofText_array {s : Sequence} (hdoubles : s ≠ .doubles #[]) (hbooleans : s ≠ .booleans #[]) :
    ofText (array s).toText = .ok (array s) := by
  have htrim : trim (array s).toText = (array s).toText := by
    refine trim_eq_self_of_ends ?_ ?_
    · rintro a ⟨⟩
      decide
    · intro a ha
      rw [toText, Sequence.toText, List.getLast?_concat] at ha
      cases ha
      decide
  have hne : (array s).toText ≠ [] := nofun
  have hbracketed : bracketed? (array s).toText = some (", ".toList.intercalate s.itemTexts) :=
    bracketed?_array _
  rw [ofText]
  simp only [htrim, hne, if_false, hbracketed, s.items_itemTexts]
  change (Value.sequence s.values.toList >>= fun s => pure (array s)) = _
  rw [Sequence.sequence_values hdoubles hbooleans]
  rfl

/-- A plain text is read as a scalar or as a timestamp. -/
theorem ofText_plain {text : List Char} {v : Value} (h : IsPlain text)
    (hv : (scalar? text <|> (Timestamp.ofText? text).map timestamp) = some v) :
    ofText text = .ok v := by
  simp only [ofText, h.trim_eq, h.1, if_false, bracketed?_plain h, hv]

theorem ofText_timestamp (t : Timestamp) :
    ofText (timestamp t).toText = .ok (timestamp t.settled) := by
  refine ofText_plain t.isPlain_toText ?_
  rw [toText, scalar?_colon t.colon_mem_toText, t.ofText?_toText]
  rfl

/-- The values whose texts are theirs alone. An empty array of doubles or of truth values looks like
one of integers, and a leap second within a minute like the second after it. -/
structure ReadsBack (v : Value) : Prop where
  doubles : v ≠ .array (.doubles #[])
  booleans : v ≠ .array (.booleans #[])
  leap : ∀ t, v = .timestamp t → t.time.LeapEndsMinute

theorem readsBack_of_ne {v : Value} (hdoubles : v ≠ .array (.doubles #[]))
    (hbooleans : v ≠ .array (.booleans #[])) (htimestamp : ∀ t, v ≠ .timestamp t) : v.ReadsBack :=
  ⟨hdoubles, hbooleans, fun t ht => absurd ht (htimestamp t)⟩

theorem ofText_toText {v : Value} (h : v.ReadsBack) : ofText v.toText = .ok v := by
  cases v with
  | double x =>
    refine ofText_plain x.isPlain_toText ?_
    rw [toText, scalar?_double]
    rfl
  | integer n =>
    refine ofText_plain (isPlain_signedDecimal n.toInt) ?_
    rw [toText, scalar?_integer]
    rfl
  | boolean b =>
    refine ofText_plain (isPlain_truth b) ?_
    rw [toText, scalar?_truth]
    rfl
  | timestamp t => rw [ofText_timestamp, t.settled_eq_self_iff.mpr (h.leap t rfl)]
  | array s =>
    exact ofText_array (fun hs => h.doubles (congrArg array hs)) fun hs =>
      h.booleans (congrArg array hs)

theorem readsBack_of_scalar? {text : List Char} {v : Value} (h : scalar? text = some v) :
    v.ReadsBack := by
  rw [scalar?] at h
  split_ifs at h
  · cases h
    exact readsBack_of_ne nofun nofun fun _ => nofun
  · cases h
    exact readsBack_of_ne nofun nofun fun _ => nofun
  · cases hinteger : int64? text with
    | some n =>
      rw [hinteger] at h
      cases h
      exact readsBack_of_ne nofun nofun fun _ => nofun
    | none =>
      rw [hinteger] at h
      obtain ⟨x, -, rfl⟩ := Option.map_eq_some_iff.mp h
      exact readsBack_of_ne nofun nofun fun _ => nofun

/-- Only such values are read. -/
theorem readsBack_of_ofText {text : List Char} {v : Value} (h : ofText text = .ok v) :
    v.ReadsBack := by
  simp only [ofText] at h
  split at h
  · cases h
  split at h
  · next inner hbracketed =>
    cases hitems : items inner with
    | error error => simp [hitems, bind, Except.bind] at h
    | ok vs =>
      cases hsequence : sequence vs with
      | error error => simp [hitems, hsequence, bind, Except.bind] at h
      | ok s =>
        obtain rfl : array s = v := by
          simpa [hitems, hsequence, bind, Except.bind, pure, Except.pure] using h
        obtain ⟨hdoubles, hbooleans⟩ := Sequence.ne_of_sequence hsequence
        exact readsBack_of_ne (fun heq => hdoubles (array.inj heq))
          (fun heq => hbooleans (array.inj heq)) (by simp)
  · next hbracketed =>
    split at h
    · next value hvalue =>
      cases h
      rcases (Option.orElse_eq_some _ _ _).mp hvalue with hscalar | ⟨-, htimestamp⟩
      · exact readsBack_of_scalar? hscalar
      · obtain ⟨t, ht, rfl⟩ := Option.map_eq_some_iff.mp htimestamp
        refine ⟨by simp, by simp, ?_⟩
        rintro _ ⟨⟩
        exact Timestamp.leapEndsMinute_of_ofText? ht
    · cases h

/-- Literals undo how values are written, for all values whose texts are theirs alone. These are the
values that texts are read as: what a text is read as is read again from the text it is written as,
and no two such values are written alike. A timestamp in a leap second within a minute is read as
the time in the second after it. -/
theorem ofText_undoes_toText :
    (∀ v : Value, ofText v.toText = .ok v ↔
      v ≠ .array (.doubles #[]) ∧ v ≠ .array (.booleans #[]) ∧
        ∀ t, v = .timestamp t → 1000000000 ≤ t.time.nanosecond → t.time.second = 59) ∧
    (∀ t : Timestamp, ofText (timestamp t).toText = .ok (timestamp t.settled)) ∧
    (∀ (text : List Char) (v : Value), ofText text = .ok v → ofText v.toText = .ok v) ∧
    ∀ (text text' : List Char) (v v' : Value), ofText text = .ok v → ofText text' = .ok v' →
      v.toText = v'.toText → v = v' := by
  have hread : ∀ {text : List Char} {v : Value}, ofText text = .ok v → ofText v.toText = .ok v :=
    fun h => ofText_toText (readsBack_of_ofText h)
  refine ⟨fun v => ⟨fun h => ?_, fun h => ?_⟩, ofText_timestamp, fun _ _ => hread, ?_⟩
  · obtain ⟨hdoubles, hbooleans, hleap⟩ := readsBack_of_ofText h
    exact ⟨hdoubles, hbooleans, hleap⟩
  · obtain ⟨hdoubles, hbooleans, hleap⟩ := h
    exact ofText_toText ⟨hdoubles, hbooleans, hleap⟩
  · intro text text' v v' h h' hsame
    have hv := hread h
    rw [hsame, hread h'] at hv
    exact (Except.ok.inj hv).symm

/-- A leap second with a fraction is written with three digits of it, and read again. -/
theorem ofText_leap_second :
    ∃ v, ofText " 2016-12-31T23:59:60.5".toList = .ok v ∧
      v.toText = "2016-12-31T23:59:60.500".toList ∧ ofText v.toText = .ok v := by
  have hcheck : (ofText " 2016-12-31T23:59:60.5".toList).toOption.map toText =
      some "2016-12-31T23:59:60.500".toList := by decide +kernel
  cases h : ofText " 2016-12-31T23:59:60.5".toList with
  | error error =>
    rw [h] at hcheck
    cases hcheck
  | ok v =>
    rw [h] at hcheck
    exact ⟨v, rfl, Option.some.inj hcheck, ofText_undoes_toText.2.2.1 _ v h⟩

/-- A third of a second into a leap second after second 4 of a minute. -/
def leapWithinMinute : Timestamp :=
  ⟨⟨2024, 1, 15, by decide, by decide, by decide⟩,
    ⟨23, 56, 4, 1333333333, by decide, by decide, by decide, by decide⟩⟩

/-- The beginning of the second after that leap second. -/
def secondAfterLeap : Timestamp :=
  ⟨leapWithinMinute.date,
    ⟨23, 56, 5, 0, by decide, by decide, by decide, TimeOfDay.midnight.nanosecond_range⟩⟩

/-- A leap second within a minute is not read from its own text. It comes before the second after
it, and the timestamp that is read does not. -/
theorem not_ofText_leapWithinMinute :
    (timestamp leapWithinMinute).toText = "2024-01-15T23:56:05.333333333".toList ∧
      ofText (timestamp leapWithinMinute).toText ≠ .ok (timestamp leapWithinMinute) ∧
      binary (timestamp leapWithinMinute) "<" (timestamp secondAfterLeap) =
        .ok (.boolean true) ∧
      ∃ t u, ofText "2024-01-15T23:56:05.333333333".toList = .ok t ∧
        ofText "2024-01-15T23:56:05".toList = .ok u ∧ u = timestamp secondAfterLeap ∧
        binary t "<" u = .ok (.boolean false) := by
  have hleap : (timestamp leapWithinMinute).toText =
      "2024-01-15T23:56:05.333333333".toList := by decide +kernel
  have hafter : (timestamp secondAfterLeap).toText = "2024-01-15T23:56:05".toList := by
    decide +kernel
  have hsettled : secondAfterLeap.settled = secondAfterLeap :=
    secondAfterLeap.settled_eq_self_iff.mpr (by decide)
  have hread := ofText_timestamp leapWithinMinute
  have hnext := ofText_timestamp secondAfterLeap
  refine ⟨hleap, ?_, rfl, timestamp leapWithinMinute.settled, timestamp secondAfterLeap, ?_, ?_,
    rfl, rfl⟩
  · intro hself
    rw [hread] at hself
    have hends := leapWithinMinute.settled_eq_self_iff.mp (timestamp.inj (Except.ok.inj hself))
    revert hends
    decide
  · rw [← hleap, hread]
  · rw [← hafter, hnext, hsettled]

end Value

end Reckon
