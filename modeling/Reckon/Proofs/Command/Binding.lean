import Reckon.Command.Arguments
import Reckon.Proofs.Evaluation.Scalars

/-!
Bindings are the usable ones. The names that a binding may have are those that
the grammar reads as one name from their first character to their last, so that
an expression of the name alone gives the value that was bound.
-/

namespace Reckon

open Grammar Grammar.Lexeme

variable {text name literal : List Char}

namespace Command

/-- The names of bindings are those that the reader of names takes whole. -/
theorem isName_iff : isName text = true ↔ identifier? text = some (text, []) := by
  constructor
  · intro h
    cases text with
    | nil => cases h
    | cons c more =>
      obtain ⟨hstart, hmore⟩ := Bool.and_eq_true_iff.mp h
      have hname := identifier?_append hstart (List.all_eq_true.mp hmore) nothing_follows
      rwa [List.append_nil] at hname
  · intro h
    obtain ⟨-, c, more, rfl, hstart, hmore⟩ := identifier?_eq_some h
    exact Bool.and_eq_true_iff.mpr ⟨hstart, List.all_eq_true.mpr hmore⟩

end Command

namespace Grammar

/-- The rule of names matches the whole of a text. -/
def NamesWhole (text : List Char) : Prop :=
  run .identifier text =
    .ok [.leaf .identifier ⟨0, Text.byteLength text⟩ (String.ofList text)]

theorem run_identifier :
    run .identifier text = match identifier? text with
      | some (lexeme, _) =>
        .ok [.leaf .identifier ⟨0, 0 + Text.byteLength lexeme⟩ (String.ofList lexeme)]
      | none => .error ⟨0, [.identifier]⟩ := by
  rw [run, ofRule, identifier, token, Cursor.start]
  dsimp only
  cases identifier? text <;> rfl

/-- The rule of names matches a whole text if and only if the reader of names takes it whole. -/
theorem namesWhole_iff : NamesWhole text ↔ identifier? text = some (text, []) := by
  rw [NamesWhole, run_identifier]
  constructor
  · intro h
    cases hname : identifier? text with
    | none =>
      rw [hname] at h
      cases h
    | some found =>
      obtain ⟨lexeme, rest⟩ := found
      simp only [hname, Except.ok.injEq, List.cons.injEq, ParseTree.leaf.injEq] at h
      obtain rfl := String.ofList_injective h.1.2.2
      have htext := (identifier?_eq_some hname).1
      rw [List.self_eq_append_right.mp htext]
  · intro h
    simp only [h, Nat.zero_add]

end Grammar

namespace Command

variable {before : List Char} {n : String} {v : Value}

/-- A text without an equals sign is no binding. -/
theorem exists_split (h : binding text = .ok (n, v)) :
    ∃ before literal, text = before ++ '=' :: literal ∧ '=' ∉ before := by
  cases hrest : text.dropWhile (· ≠ '=') with
  | nil =>
    rw [binding, hrest] at h
    cases h
  | cons a literal =>
    have ha := List.head?_dropWhile_not (fun a => decide (a ≠ '=')) text
    rw [hrest] at ha
    obtain rfl : a = '=' := by simpa using ha
    exact ⟨_, literal, Text.split_iff.mp ⟨rfl, hrest⟩⟩

/-- A text with an equals sign is a binding if a name stands before the first one and a literal
behind it. -/
theorem binding_append (hmem : '=' ∉ before) :
    binding (before ++ '=' :: literal) = .ok (n, v) ↔ n = String.ofList (Text.trim before) ∧
      isName (Text.trim before) = true ∧ Value.ofText literal = .ok v := by
  obtain ⟨hbefore, hrest⟩ := Text.split_iff.mpr ⟨rfl, hmem⟩
  rw [binding, hbefore, hrest]
  dsimp only
  split
  · next hname =>
    cases hvalue : Value.ofText literal with
    | error error => simp
    | ok v' => simp [hname, eq_comm]
  · next hname => simp [hname]

/-- A binding is a name and a literal with the first equals sign between them. White space around
the name does not count; the grammar's rule of names matches all of what is left, and an expression
of just this name has the value of the literal wherever it is bound to it. -/
theorem binding_eq_ok_iff (text : List Char) (n : String) (v : Value) :
    (binding text = .ok (n, v) ↔ ∃ before literal, text = before ++ '=' :: literal ∧
      '=' ∉ before ∧ n = String.ofList (Text.trim before) ∧ NamesWhole n.toList ∧
      Value.ofText literal = .ok v) ∧
    (binding text = .ok (n, v) → n ≠ "true" → n ≠ "false" → ∀ env limit, env.get? n = some v →
      Source.evaluate n env limit = .ok v) := by
  have hiff : binding text = .ok (n, v) ↔ ∃ before literal, text = before ++ '=' :: literal ∧
      '=' ∉ before ∧ n = String.ofList (Text.trim before) ∧ NamesWhole n.toList ∧
      Value.ofText literal = .ok v := by
    constructor
    · intro h
      obtain ⟨before, literal, rfl, hmem⟩ := exists_split h
      obtain ⟨rfl, hname, hvalue⟩ := (binding_append hmem).mp h
      refine ⟨before, literal, rfl, hmem, rfl, ?_, hvalue⟩
      rw [String.toList_ofList]
      exact namesWhole_iff.mpr (isName_iff.mp hname)
    · rintro ⟨before, literal, rfl, hmem, rfl, hname, hvalue⟩
      rw [String.toList_ofList] at hname
      exact (binding_append hmem).mpr ⟨rfl, isName_iff.mpr (namesWhole_iff.mp hname), hvalue⟩
  refine ⟨hiff, fun h htrue hfalse env limit hbound => ?_⟩
  obtain ⟨-, -, -, -, -, hname, -⟩ := hiff.mp h
  rw [← env.get?_withTruthValues htrue hfalse] at hbound
  rw [← String.ofList_toList (s := n)] at hbound ⊢
  exact Source.evaluate_name (namesWhole_iff.mp hname) hbound

/-- White space of Unicode around a name does not count. -/
theorem evaluate_bound_name :
    binding " _x1\u2003= 7 ".toList = .ok ("_x1", .integer 7) ∧ "_x1" ≠ "true" ∧
      "_x1" ≠ "false" ∧
      (Environment.ofList [("_x1", .integer 7)]).get? "_x1" = some (.integer 7) ∧
      Source.evaluate "_x1" (.ofList [("_x1", .integer 7)]) 0 = .ok (.integer 7) := by
  have hbinding : binding " _x1\u2003= 7 ".toList = .ok ("_x1", .integer 7) := by
    decide +kernel
  have hbound : (Environment.ofList [("_x1", .integer 7)]).get? "_x1" = some (.integer 7) := rfl
  have htrue : "_x1" ≠ "true" := by decide
  have hfalse : "_x1" ≠ "false" := by decide
  exact ⟨hbinding, htrue, hfalse, hbound,
    (binding_eq_ok_iff _ _ _).2 hbinding htrue hfalse _ 0 hbound⟩

end Command

end Reckon
