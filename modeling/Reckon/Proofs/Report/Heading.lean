import Mathlib.Data.List.Nodup
import Reckon.Proofs.Text.Basic
import Reckon.Report

/-!
The place that a report names. Below its first row a report says on which line
and in which column it starts, both counted from one. They are those of the
character whose number is the start of the span, if the source has so many; the
number can be told from them.
-/

namespace Reckon

open Text

namespace SourceLine

variable {source : List Char} {offset offset' : Nat} {line line' : SourceLine}

theorem map_index_number (index start : Nat) (lines : List (List Char)) :
    (number index start lines).map SourceLine.index = List.range' index lines.length := by
  induction lines generalizing index start with
  | nil => rfl
  | cons text lines ih =>
    rw [number, List.map_cons, ih, List.length_cons, List.range'_succ]

/-- The lines of a source, of which the first starts where the source does. -/
theorem exists_all_eq (source : List Char) :
    ∃ text lines, all source = number 0 0 (text :: lines) := by
  unfold all
  cases cut source with
  | nil => exact ⟨[], [], rfl⟩
  | cons text lines => exact ⟨text, lines, rfl⟩

/-- No two lines have the same number. -/
theorem index_injOn (h : line ∈ all source) (h' : line' ∈ all source)
    (hindex : line.index = line'.index) : line = line' := by
  have hnodup : ((all source).map SourceLine.index).Nodup := by
    obtain ⟨text, lines, hall⟩ := exists_all_eq source
    rw [hall, map_index_number]
    exact List.nodup_range'
  exact List.inj_on_of_nodup_map hnodup h h' hindex

theorem mem_all_of_holding? (h : holding? source offset = some line) :
    line ∈ all source ∧ line.start ≤ offset := by
  unfold holding? at h
  split at h
  · cases h
  · obtain ⟨hall, hstart⟩ := List.mem_filter.mp (List.mem_of_getLast? h)
    exact ⟨hall, of_decide_eq_true hstart⟩

/-- Every place in a source is on some line, also its end. -/
theorem exists_holding?_iff :
    (∃ line, holding? source offset = some line) ↔ offset ≤ source.length := by
  unfold holding?
  split
  · next hlt => exact iff_of_false nofun (Nat.not_le.mpr hlt)
  · next hle =>
    refine iff_of_true ?_ (Nat.not_lt.mp hle)
    obtain ⟨text, lines, hall⟩ := exists_all_eq source
    have hmem : ⟨0, 0, text⟩ ∈ (all source).filter fun line => decide (line.start ≤ offset) := by
      rw [hall]
      exact List.mem_filter.mpr ⟨List.mem_cons_self, decide_eq_true (Nat.zero_le offset)⟩
    exact ⟨_, List.getLast?_eq_some_getLast (List.ne_nil_of_mem hmem)⟩

/-- A line and a column belong to one character only. -/
theorem offset_eq_of_holding? (h : holding? source offset = some line)
    (h' : holding? source offset' = some line') (hindex : line.index = line'.index)
    (hcolumn : offset - line.start = offset' - line'.start) : offset = offset' := by
  obtain ⟨hmem, hstart⟩ := mem_all_of_holding? h
  obtain ⟨hmem', hstart'⟩ := mem_all_of_holding? h'
  obtain rfl := index_injOn hmem hmem' hindex
  omega

end SourceLine

namespace Report

variable {failure : Failure} {source : String} {line column : Nat}

/-- The first row of the report on a diagnostic. -/
def headline (d : Diagnostic) : List Char :=
  '[' :: (d.code.toList ++ "] Error:".toList ++ ' ' :: d.message.toList ++ ['\n'])

/-- What a row with a line and a column in it says, and what follows. -/
def placing (margin line column : Nat) (rest : List Char) : List Char :=
  List.replicate margin ' ' ++ '╭' :: '─' :: '[' :: ' ' :: (sourceName ++ ':' ::
    (decimalDigits line ++ ':' :: (decimalDigits column ++ ' ' :: ']' :: '\n' :: rest)))

/-- The report on a failure, written without colours, names a line and a column. -/
def Places (failure : Failure) (line column : Nat) : Prop :=
  ∃ margin rest, (render failure false).toList =
    headline failure.diagnostic ++ placing margin line column rest

/-- Line and column can be read in one way only. -/
theorem placing_inj {margin margin' line' column' : Nat} {rest rest' : List Char}
    (h : placing margin line column rest = placing margin' line' column' rest') :
    line = line' ∧ column = column' := by
  have hspaces : ∀ n, '╭' ∉ List.replicate n ' ' := fun n hmem =>
    absurd (List.eq_of_mem_replicate hmem) (by decide)
  have hdigits : ∀ {a : Char}, a.isDigit = false → ∀ n, a ∉ decimalDigits n := by
    intro a ha n hmem
    rw [isDigit_of_mem_decimalDigits hmem] at ha
    cases ha
  obtain ⟨-, hframe⟩ := append_cons_inj (hspaces _) (hspaces _) h
  simp only [List.cons.injEq, true_and, List.append_cancel_left_eq] at hframe
  obtain ⟨hline, hcolumn⟩ := append_cons_inj (hdigits rfl _) (hdigits rfl _) hframe
  obtain ⟨hcolumn, -⟩ := append_cons_inj (hdigits rfl _) (hdigits rfl _) hcolumn
  exact ⟨decimalDigits_injective hline, decimalDigits_injective hcolumn⟩

/-- A row without its colours. -/
theorem toList_write (row : Row) : (row.write false).toList = row.flatMap Piece.text := by
  have hwrite : Piece.write false = Piece.text := by
    funext piece
    cases piece with
    | mk paint text => cases paint <;> rfl
  rw [Row.write, String.toList_ofList, hwrite]

/-- Rows one below the other. -/
theorem toList_join (rows : List Row) :
    (String.join (rows.map fun row => row.write false ++ "\n")).toList =
      rows.flatMap fun row => row.flatMap Piece.text ++ ['\n'] := by
  induction rows with
  | nil => rfl
  | cons row rows ih =>
    rw [List.map_cons, String.join_cons, String.toList_append, ih, String.toList_append,
      toList_write, List.flatMap_cons]
    rfl

/-- The report on a failure about a source. Without a label it is the first row alone. -/
theorem toList_render (hsource : failure.source? = some source) :
    (render failure false).toList = headline failure.diagnostic ++
      (match Label.of? source.toList failure.diagnostic.span
          failure.diagnostic.message.toList with
        | none => []
        | some label => (label.rows sourceName (failure.diagnostic.help.map String.toList)).flatMap
            fun row => row.flatMap Piece.text ++ ['\n']) := by
  unfold render ofFailure
  rw [hsource]
  dsimp only
  unfold ofDiagnostic
  cases Label.of? source.toList failure.diagnostic.span failure.diagnostic.message.toList with
  | none =>
    rw [toList_join]
    simp [headline, Piece.painted, Piece.plain]
  | some label =>
    rw [toList_join]
    simp [headline, Piece.painted, Piece.plain]

/-- The first row of an excerpt has its line and its column. -/
theorem Label.exists_rows_eq (label : Label) (name : List Char) (help : Option (List Char)) :
    ∃ more, label.rows name help = [.spaces (label.numberWidth + 2), .painted .frame ['╭'],
      .painted .frame ['─'], .painted .frame ['['],
      .plain (' ' :: name ++ ':' :: (decimalDigits (label.first.index + 1) ++
        ':' :: decimalDigits (label.start - label.first.start + 1)) ++ [' ']),
      .painted .frame [']']] :: more :=
  ⟨_, rfl⟩

/-- A stretch that ends behind its first character or within the source has a label if it starts
within the source. -/
theorem Label.exists_of? {source : List Char} {span : Span} {first : SourceLine}
    (hfirst : SourceLine.holding? source span.start = some first)
    (hstop : span.stop ≤ span.start + 1 ∨ span.stop ≤ source.length) (message : List Char) :
    ∃ label, Label.of? source span message = some label ∧ label.first = first ∧
      label.start = span.start := by
  have hstart : span.start ≤ source.length := SourceLine.exists_holding?_iff.mp ⟨first, hfirst⟩
  obtain ⟨last, hlast⟩ : ∃ last, SourceLine.holding? source
      (if span.start < span.stop then span.stop - 1 else span.start) = some last := by
    rw [SourceLine.exists_holding?_iff]
    split <;> omega
  exact ⟨⟨span.start, span.stop, first, last, message⟩, by simp [of?, hfirst, hlast], rfl, rfl⟩

theorem Label.of?_eq_none {source : List Char} {span : Span}
    (h : SourceLine.holding? source span.start = none) (message : List Char) :
    Label.of? source span message = none := by
  simp [of?, h]

/-- The rows of an excerpt start with its line and its column. -/
theorem exists_flatMap_rows (label : Label) (help : Option (List Char)) :
    ∃ margin rest, ((label.rows sourceName help).flatMap fun row =>
        row.flatMap Piece.text ++ ['\n']) =
      placing margin (label.first.index + 1) (label.start - label.first.start + 1) rest := by
  obtain ⟨more, hrows⟩ := label.exists_rows_eq sourceName help
  refine ⟨label.numberWidth + 2, more.flatMap fun row => row.flatMap Piece.text ++ ['\n'], ?_⟩
  rw [hrows]
  simp [placing, Piece.painted, Piece.plain, Piece.spaces]

/-- The place in a report is that of the character whose number is the start of the span. There is
none if the source has fewer characters. -/
theorem places_iff (hsource : failure.source? = some source)
    (hstop : failure.diagnostic.span.stop ≤ failure.diagnostic.span.start + 1 ∨
      failure.diagnostic.span.stop ≤ source.toList.length) :
    Places failure line column ↔ ∃ first,
      SourceLine.holding? source.toList failure.diagnostic.span.start = some first ∧
        line = first.index + 1 ∧ column = failure.diagnostic.span.start - first.start + 1 := by
  have hrender := toList_render hsource
  cases hfirst : SourceLine.holding? source.toList failure.diagnostic.span.start with
  | none =>
    rw [Label.of?_eq_none hfirst] at hrender
    refine iff_of_false ?_ (by rintro ⟨first, ⟨⟩, -⟩)
    rintro ⟨margin, rest, hplace⟩
    rw [hrender] at hplace
    have hnil : [] = placing margin line column rest := List.append_cancel_left hplace
    simp [placing] at hnil
  | some first =>
    obtain ⟨label, hlabel, rfl, hstart⟩ := Label.exists_of? hfirst hstop
      failure.diagnostic.message.toList
    obtain ⟨margin, rest, hrows⟩ :=
      exists_flatMap_rows label (failure.diagnostic.help.map String.toList)
    rw [hlabel] at hrender
    dsimp only at hrender
    rw [hrows, hstart] at hrender
    constructor
    · rintro ⟨margin', rest', hplace⟩
      rw [hrender] at hplace
      obtain ⟨hline, hcolumn⟩ := placing_inj (List.append_cancel_left hplace)
      exact ⟨_, rfl, hline.symm, hcolumn.symm⟩
    · rintro ⟨_, ⟨⟩, rfl, rfl⟩
      exact ⟨margin, rest, hrender⟩

end Report

end Reckon
