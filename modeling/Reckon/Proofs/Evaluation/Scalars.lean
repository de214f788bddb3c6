import Reckon.Proofs.Evaluation.Reproduction
import Reckon.Proofs.Value.Literal

/-!
Scalars as sources. A number of the grammar evaluates to what the reader of
literals makes of its text: an integer where it is digits for one, and else a
double. A minus sign is an operator on the number behind it. So written scalars
evaluate to themselves with one exception: the smallest integer without its sign
is one too many for an integer.
-/

namespace Reckon

open Grammar Text

/-- Every name but those of the truth values keeps its value beside them. -/
theorem Environment.get?_withTruthValues (env : Environment) {name : String}
    (htrue : name ≠ "true") (hfalse : name ≠ "false") :
    env.withTruthValues.get? name = env.get? name := by
  rw [withTruthValues, get?_insert, get?_insert]
  exact (if_neg hfalse.symm).trans (if_neg htrue.symm)

namespace Grammar.Lexeme.IsNumber

variable {text : List Char} {env : Environment} {v : Value}

theorem isPlain (h : IsNumber text) : IsPlain text := by
  obtain ⟨a, more, hhead, -⟩ := h.head
  refine ⟨by rw [hhead]; exact List.cons_ne_nil a more, h.forall_mem ?_ (by decide) (by decide)⟩
  exact fun c hc => Bool.or_eq_true_iff.mpr (.inl hc)

theorem ne_truth (h : IsNumber text) (b : Bool) : text ≠ truth b := by
  obtain ⟨a, more, rfl, -, hstart⟩ := h.head
  intro heq
  cases b <;> cases heq <;> cases hstart

/-- A number has no sign before it, so it is an integer where it is digits for one. -/
theorem int64?_eq_some_iff (h : IsNumber text) {n : Int64} :
    int64? text = some n ↔
      (∀ a ∈ text, a.isDigit = true) ∧ (numberOf text : Int) = n.toInt := by
  obtain ⟨a, more, rfl, hword, -⟩ := h.head
  have hread : int64? (a :: more) = int64?.read (a :: more) fun n => (n : Int) := by
    unfold int64?
    split
    · next heq =>
      cases heq
      cases hword
    · next heq =>
      cases heq
      cases hword
    · rfl
  rw [hread, int64?.read_eq_some_iff]
  exact and_iff_right (List.cons_ne_nil a more)

/-- A number is an integer or a double as a scalar. -/
theorem scalar?_cases (h : IsNumber text) :
    (∃ n, int64? text = some n ∧ Value.scalar? text = some (.integer n)) ∨
      ∃ x, int64? text = none ∧ Value.scalar? text = some (.double x) := by
  cases hinteger : int64? text with
  | some n => exact .inl ⟨n, rfl, Value.scalar?_of_int64? hinteger⟩
  | none =>
    obtain ⟨x, hx⟩ := Option.isSome_iff_exists.mp (Double.isSome_ofText? h)
    exact .inr ⟨x, rfl, Value.scalar?_of_ofText? hinteger hx⟩

/-- The names of the truth values are no numbers. -/
theorem get?_withTruthValues (h : IsNumber text) (env : Environment) :
    env.withTruthValues.get? (String.ofList text) = env.get? (String.ofList text) := by
  have hne : ∀ b, String.ofList text ≠ String.ofList (truth b) := fun b heq =>
    h.ne_truth b (String.ofList_injective heq)
  exact env.get?_withTruthValues (hne true) (hne false)

/-- A number at the end of a text is derived, with its value as a scalar where it is not bound. -/
theorem exists_derives (h : IsNumber text) (hnone : env.get? (String.ofList text) = none)
    (hv : Value.scalar? text = some v) {c : Cursor} (hc : c.rest = text) :
    ∃ tree, Derives .operand c [tree] (c.after text []) ∧
      tree.Gives env.withTruthValues (.ok v) := by
  subst hc
  have hnumber := number?_append h nothing_follows
  rw [List.append_nil] at hnumber
  obtain ⟨v', hvalue, hgives⟩ := gives_number env.withTruthValues hnumber
  have hscalar : (NumberLiteral.ofNumber? hnumber).value? env.withTruthValues =
      Value.scalar? c.rest := by
    rw [NumberLiteral.value?, NumberLiteral.ofNumber?, String.toList_ofList,
      get?_withTruthValues h, hnone, Value.scalar?_eq h.ne_truth]
    rfl
  obtain rfl := Option.some.inj ((hscalar.trans hv).symm.trans hvalue)
  exact ⟨_, .number hnumber, hgives⟩

end Grammar.Lexeme.IsNumber

/-- Whether a number is digits only that stand for a 64-bit integer. -/
def NumberLiteral.FitsInteger (literal : NumberLiteral) : Prop :=
  (∀ a ∈ literal.text.toList, a.isDigit = true) ∧ numberOf literal.text.toList < 2 ^ 63

theorem NumberLiteral.int64?_eq_some_iff (literal : NumberLiteral) {n : Int64} :
    int64? literal.text.toList = some n ↔
      literal.FitsInteger ∧ (numberOf literal.text.toList : Int) = n.toInt := by
  have hlt := n.toInt_lt
  rw [literal.isNumber.int64?_eq_some_iff, FitsInteger, and_assoc]
  exact and_congr_right fun _ => ⟨fun heq => ⟨by omega, heq⟩, fun heq => heq.2⟩

theorem Grammar.Lexeme.isNumber_decimalDigits (n : Nat) : Lexeme.IsNumber (decimalDigits n) := by
  have hnumber := Lexeme.IsNumber.whole (decimalDigits_ne_nil n)
    (fun _ => isDigit_of_mem_decimalDigits) .absent
  rwa [List.append_nil] at hnumber

/-- Digits are read as the integer they stand for. -/
theorem Value.scalar?_decimalDigits {k : Nat} {n : Int64} (h : (k : Int) = n.toInt) :
    scalar? (decimalDigits k) = some (.integer n) := by
  refine scalar?_of_int64? ((Lexeme.isNumber_decimalDigits k).int64?_eq_some_iff.mpr ⟨?_, ?_⟩)
  · exact fun _ => isDigit_of_mem_decimalDigits
  · rw [numberOf_decimalDigits, h]

theorem Double.isNumber_toText (m : Magnitude) :
    Lexeme.IsNumber (Double.finite false m).toText := by
  obtain ⟨whole, fraction, htext, hne, hdigits, -⟩ := Double.exists_finite_toText false m
  obtain ⟨hwhole, hfraction⟩ := List.forall_mem_append.mp hdigits
  have hnumber := Lexeme.IsNumber.pointed (.inl hne) hwhole hfraction .absent
  rw [List.append_nil] at hnumber
  rw [htext]
  exact hnumber

theorem Double.toText_negative (m : Magnitude) :
    (Double.finite true m).toText = '-' :: (Double.finite false m).toText := by
  rw [Double.toText, Double.toText, if_pos rfl, if_neg Bool.false_ne_true, List.nil_append,
    List.singleton_append]

namespace Source

variable {env : Environment} {limit : Nat} {text : List Char} {v w : Value}

/-- An operand that nests within a limit evaluates to the value of its tree. -/
theorem evaluate_of_derives {c stop : Cursor} {tree : ParseTree}
    (h : Derives .operand c [tree] stop) (hpass : c.Passes text stop)
    (hgives : tree.Gives env.withTruthValues (.ok v)) (hfits : Nesting.Fits limit .start text) :
    evaluate (String.ofList text) env limit = .ok v := by
  obtain ⟨t, ht, -, hresult⟩ := h.exists_parse rfl List.nil_suffix hpass hgives hfits
  cases hvalue : Evaluation.evaluate t env with
  | error failure =>
    rw [hvalue] at hresult
    cases hresult
  | ok v' =>
    rw [hvalue] at hresult
    cases hresult
    simp only [evaluate, parse, ht, evaluateTree, hvalue]

/-- A number that is not bound evaluates to itself as a scalar, at every limit. -/
theorem evaluate_number (h : Lexeme.IsNumber text) (hnone : env.get? (String.ofList text) = none)
    (hv : Value.scalar? text = some v) : evaluate (String.ofList text) env limit = .ok v := by
  obtain ⟨tree, hderives, hgives⟩ := h.exists_derives hnone hv (c := .start text) rfl
  have hfits : Nesting.Fits limit .start text :=
    ((Nesting.leads_number h .start).2 limit (Nat.zero_le _)).mpr trivial
  exact evaluate_of_derives hderives (Cursor.passes_after (List.append_nil _).symm) hgives hfits

/-- A minus sign before a number is an operator on its value, and a level of nesting. -/
theorem evaluate_negated (h : Lexeme.IsNumber text)
    (hnone : env.get? (String.ofList text) = none) (hv : Value.scalar? text = some v)
    (hw : v.unary "-" = .ok w) (hlimit : 1 ≤ limit) :
    evaluate (String.ofList ('-' :: text)) env limit = .ok w := by
  let c : Cursor := .start ('-' :: text)
  let d : Cursor := c.after ['-'] text
  have hsymbol : Symbol.unaryAt? c.rest = some (.minus, text) := by
    obtain ⟨a, more, rfl, hword, -⟩ := h.head
    refine Symbol.unaryAt?_eq_some.mpr ⟨by decide, rfl, ?_⟩
    rintro b ⟨⟩ heq
    exact Lexeme.ne_of_isWord hword (by decide) (Option.some.inj heq)
  have hskip : d.skipLayout = d := Cursor.skipLayout_eq_self fun b hb =>
    Lexeme.isLayout_eq_false_of_isInk (h.isInk b (List.mem_of_mem_head? hb))
  obtain ⟨tree, hderives, hgives⟩ := h.exists_derives hnone hv (c := d) rfl
  rw [← hskip] at hderives
  have hpass : c.Passes ('-' :: text) (d.skipLayout.after text []) := by
    rw [hskip]
    have hsign : c.Passes ['-'] d := Cursor.passes_after rfl
    exact hsign.trans (Cursor.passes_after (List.append_nil _).symm)
  have hfits : Nesting.Fits limit .start ('-' :: text) :=
    (((Nesting.leads_unary .neg [] 0 0).behind (Nesting.leads_number h _)).2 limit
      (Nat.zero_le _)).mpr hlimit
  exact evaluate_of_derives (.signed hsymbol hderives) hpass (gives_signed_ok .minus hgives hw)
    hfits

/-- A name evaluates to the value that it is bound to beside the truth values. -/
theorem evaluate_name (hname : Lexeme.identifier? text = some (text, []))
    (hbound : env.withTruthValues.get? (String.ofList text) = some v) :
    evaluate (String.ofList text) env limit = .ok v := by
  have hgives := gives_name env.withTruthValues (.start text) text []
  simp only [Cursor.leafValue, Valued.required, hbound] at hgives
  have hfits : Nesting.Fits limit .start text :=
    ((Nesting.leads_name hname .start).2 limit (Nat.zero_le _)).mpr trivial
  have hderives := Derives.name (c := .start text) hname (Option.some_ne_none _).symm
  exact evaluate_of_derives hderives (Cursor.passes_after (List.append_nil _).symm) hgives hfits

/-- The names of the truth values stand for them in every environment. -/
theorem evaluate_truth (b : Bool) :
    evaluate (String.ofList (truth b)) env limit = .ok (.boolean b) := by
  apply evaluate_name
  · cases b <;> rfl
  · rw [Environment.withTruthValues, Environment.get?_insert, Environment.get?_insert]
    cases b <;> rfl

/-- The reader of literals and evaluation take a number that is not bound for the same scalar. -/
theorem evaluate_and_ofText (h : Lexeme.IsNumber text)
    (hnone : env.get? (String.ofList text) = none) (hv : Value.scalar? text = some v) :
    evaluate (String.ofList text) env limit = .ok v ∧ Value.ofText text = .ok v := by
  refine ⟨evaluate_number h hnone hv, Value.ofText_plain h.isPlain ?_⟩
  rw [hv]
  rfl

/-- A number that is not bound evaluates to what the reader of literals makes of its text. That is
an integer if and only if the number is digits for one, and else a double. -/
theorem evaluate_eq_ofText (literal : NumberLiteral) (env : Environment) (limit : Nat)
    (hnone : env.get? literal.text = none) :
    ∃ v, evaluate literal.text env limit = .ok v ∧ Value.ofText literal.text.toList = .ok v ∧
      (∀ n : Int64, v = .integer n ↔
        literal.FitsInteger ∧ (numberOf literal.text.toList : Int) = n.toInt) ∧
      (¬literal.FitsInteger → ∃ x, v = .double x) := by
  have hread : ∀ {v}, Value.scalar? literal.text.toList = some v →
      evaluate literal.text env limit = .ok v ∧ Value.ofText literal.text.toList = .ok v := by
    intro v hv
    rw [← String.ofList_toList (s := literal.text)] at hnone ⊢
    rw [String.toList_ofList]
    exact evaluate_and_ofText literal.isNumber hnone hv
  rcases literal.isNumber.scalar?_cases with ⟨n, hinteger, hscalar⟩ | ⟨x, hinteger, hscalar⟩
  · obtain ⟨hvalue, htext⟩ := hread hscalar
    refine ⟨_, hvalue, htext, fun n' => ?_, fun hnot => ?_⟩
    · rw [← literal.int64?_eq_some_iff, hinteger, Option.some.injEq, Value.integer.injEq]
    · exact absurd (literal.int64?_eq_some_iff.mp hinteger).1 hnot
  · obtain ⟨hvalue, htext⟩ := hread hscalar
    refine ⟨_, hvalue, htext, fun n' => ?_, fun _ => ⟨x, rfl⟩⟩
    rw [← literal.int64?_eq_some_iff, hinteger]
    exact ⟨nofun, nofun⟩

/-- Zeros in front of the largest integer do not make it a double. -/
theorem evaluate_eq_ofText_zeros :
    Environment.empty.get? "0009223372036854775807" = none ∧
      ∃ v, evaluate "0009223372036854775807" .empty 0 = .ok v ∧
        Value.ofText "0009223372036854775807".toList = .ok v ∧ v = .integer Int64.maxValue := by
  let literal : NumberLiteral := ⟨"0009223372036854775807", by decide⟩
  have hnone : Environment.empty.get? literal.text = none := rfl
  obtain ⟨v, hvalue, htext, hinteger, -⟩ := evaluate_eq_ofText literal .empty 0 hnone
  have hdigits : literal.text.toList.all Char.isDigit = true := by decide
  have hsize : numberOf literal.text.toList < 2 ^ 63 := by decide
  have hnumber : (numberOf literal.text.toList : Int) = Int64.maxValue.toInt := by decide
  exact ⟨hnone, v, hvalue, htext,
    (hinteger Int64.maxValue).mpr ⟨⟨List.all_eq_true.mp hdigits, hsize⟩, hnumber⟩⟩

/-- An integer evaluates to itself, below zero as the negation of its absolute value. -/
theorem evaluate_integer {n : Int64} (hn : n ≠ Int64.minValue) (hlimit : 1 ≤ limit) :
    evaluate (String.ofList (signedDecimal n.toInt)) .empty limit = .ok (.integer n) := by
  rw [signedDecimal]
  split_ifs with hnegative
  · have hmin : n.toInt ≠ -2 ^ 63 := fun h => hn (Int64.toInt_inj.mp h)
    have hbound := n.le_toInt
    have hneg : (-n).toInt = -n.toInt := by
      rw [Int64.toInt_neg]
      exact Int.bmod_eq_of_le (by omega) (by omega)
    have hsize : (n.toInt.natAbs : Int) = (-n).toInt := by omega
    refine evaluate_negated (Lexeme.isNumber_decimalDigits _) rfl
      (Value.scalar?_decimalDigits hsize) ?_ hlimit
    change Except.ok (Value.integer (- -n)) = _
    rw [Int64.neg_neg]
  · exact evaluate_number (Lexeme.isNumber_decimalDigits _) rfl
      (Value.scalar?_decimalDigits (by omega))

/-- The digits of the smallest integer are read as a double before it is negated. -/
theorem evaluate_minValue (hlimit : 1 ≤ limit) :
    evaluate (String.ofList (signedDecimal Int64.minValue.toInt)) .empty limit =
      .ok (.double (.ofInt Int64.minValue.toInt)) := by
  have hdouble : Value.scalar? (decimalDigits Int64.minValue.toInt.natAbs) =
      some (.double (.ofInt (-Int64.minValue.toInt))) := by decide +kernel
  have hnegated : -Double.ofInt (-Int64.minValue.toInt) = .ofInt Int64.minValue.toInt := by
    decide +kernel
  refine evaluate_negated (Lexeme.isNumber_decimalDigits _) rfl hdouble ?_ hlimit
  rw [← hnegated]
  rfl

/-- A finite double evaluates to itself, also a negative zero. -/
theorem evaluate_finite (negative : Bool) (m : Magnitude) (hlimit : 1 ≤ limit) :
    evaluate (String.ofList (Double.finite negative m).toText) .empty limit =
      .ok (.double (.finite negative m)) := by
  have hscalar := Value.scalar?_double (.finite false m)
  cases negative with
  | false => exact evaluate_number (Double.isNumber_toText m) rfl hscalar
  | true =>
    rw [Double.toText_negative]
    exact evaluate_negated (Double.isNumber_toText m) rfl hscalar rfl hlimit

/-- Written scalars evaluate to themselves, but for the smallest integer, which comes out as the
double of the same number. -/
theorem evaluate_toString :
    (∀ n : Int64, evaluate (toString (Value.integer n)) .empty =
      .ok (if n = Int64.minValue then .double (.ofInt n.toInt) else .integer n)) ∧
    (∀ negative m, evaluate (toString (Value.double (.finite negative m))) .empty =
      .ok (.double (.finite negative m))) ∧
    ∀ b, evaluate (toString (Value.boolean b)) .empty = .ok (.boolean b) := by
  have hlimit : 1 ≤ Nesting.defaultLimit := by decide
  refine ⟨fun n => ?_, fun negative m => evaluate_finite negative m hlimit, evaluate_truth⟩
  split_ifs with hn
  · rw [hn]
    exact evaluate_minValue hlimit
  · exact evaluate_integer hn hlimit

/-- The smallest integer does not evaluate to itself. -/
theorem evaluate_toString_minValue :
    evaluate (toString (Value.integer Int64.minValue)) .empty ≠ .ok (.integer Int64.minValue) := by
  have hresult : evaluate (toString (Value.integer Int64.minValue)) .empty = _ :=
    evaluate_minValue (by decide : 1 ≤ Nesting.defaultLimit)
  rw [hresult]
  exact nofun

end Source

end Reckon
