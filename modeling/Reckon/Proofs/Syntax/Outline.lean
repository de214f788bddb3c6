import Reckon.Proofs.Expression.Unambiguous
import Reckon.Proofs.Grammar.Respacing
import Reckon.Proofs.Syntax.Placement
import Reckon.Syntax.Walk

/-!
What the outline of a tree shows. It says nothing of the spans, and the tokens
can be read off it again: no character of a token needs an escape, and no rule
has a quotation mark in its name.
-/

namespace Reckon

/-- The outline of a tree as one text, each line with its end. -/
def SyntaxTree.display (t : SyntaxTree) : String := String.join (t.outline.map (· ++ "\n"))

namespace Text

/-- The stretches of a text between quotation marks; `quote?` is what was read of one so far. -/
def quotations (quote? : Option (List Char)) : List Char → List (List Char)
  | [] => []
  | c :: rest =>
    match quote? with
    | none => if c = '"' then quotations (some []) rest else quotations none rest
    | some quote =>
      if c = '"' then quote :: quotations none rest else quotations (some (quote ++ [c])) rest

theorem quotations_plain {plain : List Char} (h : '"' ∉ plain) (rest : List Char) :
    quotations none (plain ++ rest) = quotations none rest := by
  induction plain with
  | nil => rfl
  | cons c plain ih =>
    obtain ⟨hc, hplain⟩ := List.ne_and_not_mem_of_not_mem_cons h
    rw [List.cons_append, quotations, if_neg hc.symm, ih hplain]

theorem quotations_quote {text : List Char} (h : '"' ∉ text) (quote rest : List Char) :
    quotations (some quote) (text ++ '"' :: rest) = (quote ++ text) :: quotations none rest := by
  induction text generalizing quote with
  | nil => simp [quotations]
  | cons c text ih =>
    obtain ⟨hc, htext⟩ := List.ne_and_not_mem_of_not_mem_cons h
    simp [quotations, hc.symm, ih htext]

/-- Some ranges do not reach into the printable part of ASCII. -/
def areOther (ranges : List (Nat × Nat)) : Bool :=
  ranges.all fun (low, high) => Nat.blt high 32 || Nat.blt 126 low

theorem inRanges_eq_false {ranges : List (Nat × Nat)} {n : Nat}
    (hranges : areOther ranges = true) (hn : 32 ≤ n ∧ n ≤ 126) : inRanges ranges n = false := by
  rw [inRanges, List.any_eq_false]
  intro r hr
  have hr' := List.all_eq_true.mp hranges r hr
  simp only [Nat.blt_eq, Bool.or_eq_true] at hr'
  simp only [Bool.and_eq_true, decide_eq_true_eq, not_and]
  omega

/-- A printable character of ASCII shows as itself. -/
theorem isShown_of_printable {c : Char} (h : 32 ≤ c.toNat ∧ c.toNat ≤ 126) : isShown c = true := by
  have hunprintable : areOther unprintableRanges = true := by decide +kernel
  have hcombining : areOther combiningRanges = true := by decide +kernel
  have hignorable : areOther ignorableRanges = true := by decide +kernel
  simp [isShown, inRanges_eq_false hunprintable h, inRanges_eq_false hcombining h,
    inRanges_eq_false hignorable h]

theorem ne_quote_of_isInk {c : Char} (h : Grammar.Lexeme.isInk c = true) : c ≠ '"' ∧ c ≠ '\\' := by
  constructor <;> rintro rfl <;> cases h

/-- A character of a token stands in quotation marks as itself. -/
theorem escape_of_isInk {c : Char} (h : Grammar.Lexeme.isInk c = true) : escape c = [c] := by
  have hcode := Grammar.Lexeme.toNat_of_isInk h
  have hshown : isShown c = true := isShown_of_printable (by omega)
  obtain ⟨hquote, hbackslash⟩ := ne_quote_of_isInk h
  unfold escape
  split
  · exact absurd rfl hquote
  · exact absurd rfl hbackslash
  · cases h
  · cases h
  · cases h
  · cases h
  · exact if_pos hshown

theorem quoted_of_isInk {text : List Char} (h : ∀ c ∈ text, Grammar.Lexeme.isInk c = true) :
    quoted text = '"' :: (text ++ ['"']) := by
  have hescape : text.flatMap escape = text := by
    induction text with
    | nil => rfl
    | cons c text ih =>
      obtain ⟨hc, htext⟩ := List.forall_mem_cons.mp h
      rw [List.flatMap_cons, escape_of_isInk hc, ih htext]
      rfl
  simp [quoted, hescape]

end Text

theorem Tier.quote_not_mem_name (t : Tier) : '"' ∉ t.name.toList := by
  cases t <;> simp [name]

theorem Symbol.quote_not_mem_name (s : Symbol) : '"' ∉ s.name.toList := by
  cases s <;> simp [name]

theorem Rule.quote_not_mem_name (r : Rule) : '"' ∉ r.name.toList := by
  cases r with
  | tier t => simp [name, t.quote_not_mem_name]
  | repetition t => simp [name, t.quote_not_mem_name]
  | tierOperator t => simp [name, t.quote_not_mem_name]
  | symbol s => simp [name, s.quote_not_mem_name]
  | _ => simp [name]

namespace ParseTree

/-- The start of the line of a rule. -/
def label (indent : Nat) (rule : Rule) : String :=
  String.ofList (List.replicate indent ' ') ++ rule.name

mutual

/-- The lines of a tree in an outline. -/
def lines (indent : Nat) : ParseTree → List String
  | leaf rule _ text => [label indent rule ++ " " ++ String.ofList (Text.quoted text.toList)]
  | branch rule _ children => label indent rule :: linesOf (indent + 2) children

def linesOf (indent : Nat) : List ParseTree → List String
  | [] => []
  | tree :: rest => tree.lines indent ++ linesOf indent rest

end

mutual

theorem lines_bare (indent : Nat) (tree : ParseTree) :
    tree.bare.lines indent = tree.lines indent := by
  cases tree with
  | leaf rule span text => rfl
  | branch rule span children => rw [bare, lines, lines, linesOf_bareAll _ children]

theorem linesOf_bareAll (indent : Nat) (trees : List ParseTree) :
    linesOf indent (bareAll trees) = linesOf indent trees := by
  cases trees with
  | nil => rfl
  | cons tree rest =>
    rw [bareAll, linesOf, linesOf, lines_bare indent tree, linesOf_bareAll indent rest]

end

end ParseTree

namespace EntryTable

variable {t : EntryTable} {id : Place} {rule : Rule} {span : Span}

theorem outline_token {text : String} (h : t.get? id = some ⟨rule, span, .token text⟩)
    (indent : Nat) :
    t.outline id indent =
      [ParseTree.label indent rule ++ " " ++ String.ofList (Text.quoted text.toList)] := by
  rw [outline]
  simp only [h]
  rfl

theorem outline_children {shape : Shape} (h : t.get? id = some ⟨rule, span, shape⟩)
    (hshape : ∀ text, shape ≠ .token text) (indent : Nat) :
    t.outline id indent =
      ParseTree.label indent rule ::
        shape.children.flatMap fun child => t.outline child (indent + 2) := by
  have hchildren : t.children id = shape.children := by
    simp only [children, h]
    rfl
  rw [outline, ← hchildren]
  cases shape with
  | token text => exact absurd rfl (hshape text)
  | node | repetition =>
    simp only [h, List.flatMap_subtype, List.unattach_attach]
    rfl

end EntryTable

namespace ParseTree

variable {t : SyntaxTree} {isNumber : Place → Bool} {counts : Bool}

theorem shape_ne_token (rule : Rule) (ids : List Place) (text : String) :
    shape rule ids ≠ .token text := by
  unfold shape
  split <;> nofun

mutual

/-- The outline of a tree that was lowered is the lines of the tree. -/
theorem outline_eq (tree : ParseTree) {counts : Bool} {id : Place}
    (h : tree.StandsAt t isNumber counts id) (indent : Nat) :
    t.table.outline id indent = tree.lines indent := by
  cases tree with
  | leaf rule span text => exact EntryTable.outline_token h.1 indent
  | branch rule span children =>
    obtain ⟨ids, hid, heven, hchildren⟩ := h
    rw [EntryTable.outline_children hid (shape_ne_token rule ids), children_shape heven, lines,
      flatMap_outline_eq children hchildren]

theorem flatMap_outline_eq (trees : List ParseTree) {counts : Bool} {ids : List Place}
    (h : StandAt t isNumber counts trees ids) (indent : Nat) :
    (ids.flatMap fun id => t.table.outline id indent) = linesOf indent trees := by
  cases trees with
  | nil =>
    obtain rfl : ids = [] := h
    rfl
  | cons tree rest =>
    obtain ⟨id, more, rfl, htree, hrest⟩ := h
    rw [List.flatMap_cons, outline_eq tree htree, flatMap_outline_eq rest hrest, linesOf]

end

/-- Some lines as one text, each with its end. -/
def page (lines : List String) : List Char := lines.flatMap fun line => line.toList ++ ['\n']

theorem quote_not_mem_label (indent : Nat) (rule : Rule) : '"' ∉ (label indent rule).toList := by
  simp [label, rule.quote_not_mem_name]

mutual

/-- The quotations in the lines of a tree are its tokens. -/
theorem quotations_lines (indent : Nat) (tree : ParseTree)
    (h : ∀ text ∈ tree.texts, Grammar.Solid text.toList) (rest : List Char) :
    Text.quotations none (page (tree.lines indent) ++ rest) =
      tree.texts.map String.toList ++ Text.quotations none rest := by
  cases tree with
  | leaf rule span text =>
    obtain ⟨-, hink⟩ := h text (by simp)
    have hplain : '"' ∉ (label indent rule).toList ++ [' '] := by
      simp [quote_not_mem_label]
    have htext : '"' ∉ text.toList := fun hmem => (Text.ne_quote_of_isInk (hink _ hmem)).1 rfl
    have hpage : page ((leaf rule span text).lines indent) ++ rest =
        ((label indent rule).toList ++ [' ']) ++
          '"' :: (text.toList ++ '"' :: (['\n'] ++ rest)) := by
      simp [page, lines, Text.quoted_of_isInk hink]
    rw [hpage, Text.quotations_plain hplain, Text.quotations, if_pos rfl,
      Text.quotations_quote htext, Text.quotations_plain (by decide)]
    simp
  | branch rule span children =>
    have hplain : '"' ∉ (label indent rule).toList ++ ['\n'] := by
      simp [quote_not_mem_label]
    have hpage : page ((branch rule span children).lines indent) ++ rest =
        ((label indent rule).toList ++ ['\n']) ++
          (page (linesOf (indent + 2) children) ++ rest) := by
      simp [page, lines]
    rw [texts_branch] at h ⊢
    rw [hpage, Text.quotations_plain hplain, quotations_linesOf (indent + 2) children h]

theorem quotations_linesOf (indent : Nat) (trees : List ParseTree)
    (h : ∀ text ∈ textsOf trees, Grammar.Solid text.toList) (rest : List Char) :
    Text.quotations none (page (linesOf indent trees) ++ rest) =
      (textsOf trees).map String.toList ++ Text.quotations none rest := by
  cases trees with
  | nil => rfl
  | cons tree trees =>
    rw [textsOf_cons, List.forall_mem_append] at h
    have hpage : page (linesOf indent (tree :: trees)) ++ rest =
        page (tree.lines indent) ++ (page (linesOf indent trees) ++ rest) := by
      simp [page, linesOf]
    rw [hpage, quotations_lines indent tree h.1, quotations_linesOf indent trees h.2, textsOf_cons,
      List.map_append, List.append_assoc]

end

end ParseTree

namespace SyntaxTree.IsOf

variable {t t' : SyntaxTree} {tree tree' : ParseTree} {source source' : String}

theorem display_eq (h : t.IsOf tree source) : t.display.toList = ParseTree.page (tree.lines 0) := by
  have houtline : t.outline = tree.lines 0 := tree.outline_eq (h.standsAt h.countsNumbers) 0
  simp [display, houtline, ParseTree.page, String.toList_join, List.flatMap_map]

end SyntaxTree.IsOf

end Reckon
