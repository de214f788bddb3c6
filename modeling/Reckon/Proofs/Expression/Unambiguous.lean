import Reckon.Proofs.Expression.Denotation
import Reckon.Proofs.Grammar.Settling.Basic

/-!
Tokens determine trees. Two derivations of a part of the grammar whose tokens
say the same, in whatever texts they are, have the same trees but for the spans,
if what follows the tokens does not go on with the part.
-/

namespace Reckon

namespace ParseTree

mutual

/-- A tree without its spans. -/
def bare : ParseTree → ParseTree
  | leaf rule _ text => leaf rule ⟨0, 0⟩ text
  | branch rule _ children => branch rule ⟨0, 0⟩ (bareAll children)

def bareAll : List ParseTree → List ParseTree
  | [] => []
  | tree :: rest => tree.bare :: bareAll rest

end

end ParseTree

namespace Grammar

open ParseTree

@[simp] theorem Cursor.bare_leaf (c : Cursor) (r : Rule) (lexeme rest : List Char) :
    (c.leaf r lexeme rest).bare = .leaf r ⟨0, 0⟩ (String.ofList lexeme) := rfl

@[simp] theorem Cursor.bare_branch (c stop : Cursor) (r : Rule) (children : List ParseTree) :
    (c.branch stop r children).bare = .branch r ⟨0, 0⟩ (bareAll children) := rfl

@[simp] theorem Cursor.bare_atom (c stop : Cursor) (children : List ParseTree) :
    (c.atom stop children).bare =
      .branch .unary ⟨0, 0⟩ [.branch .primary ⟨0, 0⟩ (bareAll children)] := rfl

/-- What follows does not go on with a part: no index, and no operator within its reach. -/
def Part.Ends (p : Part) (more : List String) : Prop := (Category.tiers p.reach).Ends more

theorem Part.ends_closing (p : Part) {token : String} (h : token = "]" ∨ token = ")")
    (more : List String) : p.Ends (token :: more) :=
  Category.ends_closing _ h more

theorem kind_number {text lexeme rest : List Char}
    (h : Lexeme.number? text = some (lexeme, rest)) :
    TokenKind.of (String.ofList lexeme) = .number := (NumberLiteral.ofNumber? h).kind_eq

theorem kind_name {text lexeme rest : List Char}
    (h : Lexeme.identifier? text = some (lexeme, rest)) :
    TokenKind.of (String.ofList lexeme) = .name := (Name.ofIdentifier? h).kind_eq

theorem kind_sign {text rest : List Char} {s : Symbol}
    (h : Symbol.unaryAt? text = some (s, rest)) :
    TokenKind.of (String.ofList s.text) = .symbol := by
  obtain ⟨op, rfl⟩ := exists_unaryOperator h
  exact op.kind_eq

theorem kind_paren : TokenKind.of (String.ofList ['(']) = .paren := rfl

/-- Rows of tokens that are the same start with tokens of the same kind. -/
theorem kind_eq {token token' : String} {tokens tokens' : List String} {kind kind' : TokenKind}
    (h : token :: tokens = token' :: tokens') (hkind : TokenKind.of token = kind)
    (hkind' : TokenKind.of token' = kind') : kind = kind' := by
  rw [← hkind, ← hkind', (List.cons.inj h).1]

theorem sign_eq {text text' rest rest' : List Char} {s s' : Symbol}
    (h : Symbol.unaryAt? text = some (s, rest)) (h' : Symbol.unaryAt? text' = some (s', rest'))
    (htext : String.ofList s.text = String.ofList s'.text) : s = s' := by
  obtain ⟨op, rfl⟩ := exists_unaryOperator h
  obtain ⟨op', rfl⟩ := exists_unaryOperator h'
  rw [UnaryOperator.text_injective htext]

theorem symbol_eq {t : Tier} {s s' : Symbol} (hs : s ∈ t.symbols) (hs' : s' ∈ t.symbols)
    (htext : String.ofList s.text = String.ofList s'.text) : s = s' := by
  obtain ⟨op, rfl, -⟩ := exists_binaryOperator hs
  obtain ⟨op', rfl, -⟩ := exists_binaryOperator hs'
  rw [BinaryOperator.text_injective htext]

theorem Part.Ends.ne_symbol {t : Tier} {tighter : List Tier} {s : Symbol} {more : List String}
    (h : (Part.rounds t tighter).Ends more) (hs : s ∈ t.symbols) (rest : List String) :
    more ≠ String.ofList s.text :: rest := by
  rintro rfl
  obtain ⟨op, rfl, rfl⟩ := exists_binaryOperator hs
  exact (h _ rfl).2 op rfl List.mem_cons_self

namespace Derives

variable {c c' stop stop' : Cursor} {trees trees' : List ParseTree} {more more' : List String}

/-- Rounds, or what follows them, do not go on with the operand before them. -/
theorem ends_before {t : Tier} {tighter : List Tier} (h : Derives (.rounds t tighter) c trees stop)
    (ht : t ∉ tighter) (hmore : (Part.rounds t tighter).Ends more) :
    (Part.tiers tighter).Ends (textsOf trees ++ more) := by
  cases h with
  | done =>
    intro token htoken
    obtain ⟨hbracket, hop⟩ := hmore token htoken
    exact ⟨hbracket, fun op htext hmem => hop op htext (List.mem_cons_of_mem _ hmem)⟩
  | round _ _ hs _ _ =>
    obtain ⟨op, rfl, rfl⟩ := exists_binaryOperator hs
    intro token htoken
    obtain rfl : op.text = token := by simpa [BinaryOperator.text] using htoken
    refine ⟨op.text_ne_bracket.1, ?_⟩
    intro op' htext
    rw [BinaryOperator.text_injective htext]
    exact ht

/-- Derivations of a part with the same tokens, up to where the part ends, have the same trees but
for the spans. -/
theorem unique {p : Part} (h : Derives p c trees stop) (h' : Derives p c' trees' stop')
    (hreach : p.reach.Nodup) (htokens : textsOf trees ++ more = textsOf trees' ++ more')
    (hends : p.Ends more) (hends' : p.Ends more') :
    bareAll trees = bareAll trees' ∧ more = more' := by
  induction h generalizing c' trees' stop' more more' with
  | number hnumber =>
    have hkind := kind_number hnumber
    cases h' with
    | number hnumber' =>
      simp at htokens
      simp [bareAll, htokens]
    | name hname' _ => cases kind_eq htokens hkind (kind_name hname')
    | indexed hname' _ _ _ _ => cases kind_eq htokens hkind (kind_name hname')
    | group _ _ _ => cases kind_eq htokens hkind kind_paren
    | signed hsymbol' _ => cases kind_eq htokens hkind (kind_sign hsymbol')
  | name hname hbare =>
    have hkind := kind_name hname
    cases h' with
    | number hnumber' => cases kind_eq htokens hkind (kind_number hnumber')
    | name hname' hbare' =>
      simp at htokens
      simp [bareAll, htokens]
    | indexed hname' hd' hopen' hindex' hclose' =>
      simp at htokens
      exact absurd rfl (hends _ (by rw [htokens.2]; rfl)).1
    | group _ _ _ => cases kind_eq htokens hkind kind_paren
    | signed hsymbol' _ => cases kind_eq htokens hkind (kind_sign hsymbol')
  | indexed hname hd hopen hindex hclose ih =>
    have hkind := kind_name hname
    cases h' with
    | number hnumber' => cases kind_eq htokens hkind (kind_number hnumber')
    | name hname' hbare' =>
      simp at htokens
      exact absurd rfl (hends' _ (by rw [← htokens.2]; rfl)).1
    | indexed hname' hd' hopen' hindex' hclose' =>
      simp only [textsOf_cons, Cursor.texts_atom, Cursor.texts_leaf, textsOf_nil, List.cons_append,
        List.nil_append, List.append_assoc, List.append_nil, List.cons.injEq, true_and] at htokens
      obtain ⟨htext, hinside⟩ := htokens
      obtain ⟨htree, hclosing⟩ := ih hindex' (by decide) (by simpa using hinside)
        (Part.ends_closing _ (.inl rfl) _) (Part.ends_closing _ (.inl rfl) _)
      obtain ⟨-, hmore⟩ := List.cons.inj hclosing
      simp only [bareAll, List.cons.injEq, and_true] at htree
      simp [bareAll, htext, htree, hmore]
    | group _ _ _ => cases kind_eq htokens hkind kind_paren
    | signed hsymbol' _ => cases kind_eq htokens hkind (kind_sign hsymbol')
  | group hopen hinner hclose ih =>
    cases h' with
    | number hnumber' => cases kind_eq htokens kind_paren (kind_number hnumber')
    | name hname' hbare' => cases kind_eq htokens kind_paren (kind_name hname')
    | indexed hname' hd' hopen' hindex' hclose' =>
      cases kind_eq htokens kind_paren (kind_name hname')
    | group hopen' hinner' hclose' =>
      simp only [textsOf_cons, Cursor.texts_atom, Cursor.texts_leaf, textsOf_nil, List.cons_append,
        List.nil_append, List.append_assoc, List.append_nil, List.cons.injEq, true_and] at htokens
      obtain ⟨htree, hclosing⟩ := ih hinner' (by decide) (by simpa using htokens)
        (Part.ends_closing _ (.inr rfl) _) (Part.ends_closing _ (.inr rfl) _)
      obtain ⟨-, hmore⟩ := List.cons.inj hclosing
      simp only [bareAll, List.cons.injEq, and_true] at htree
      simp [bareAll, htree, hmore]
    | signed hsymbol' _ => cases kind_eq htokens kind_paren (kind_sign hsymbol')
  | signed hsymbol hoperand ih =>
    have hkind := kind_sign hsymbol
    cases h' with
    | number hnumber' => cases kind_eq htokens hkind (kind_number hnumber')
    | name hname' hbare' => cases kind_eq htokens hkind (kind_name hname')
    | indexed hname' hd' hopen' hindex' hclose' => cases kind_eq htokens hkind (kind_name hname')
    | group _ _ _ => cases kind_eq htokens hkind kind_paren
    | signed hsymbol' hoperand' =>
      simp only [textsOf_cons, Cursor.texts_branch, Cursor.texts_leaf, textsOf_nil,
        List.cons_append, List.nil_append, List.append_nil, List.cons.injEq] at htokens
      obtain ⟨htext, hrest⟩ := htokens
      obtain rfl := sign_eq hsymbol hsymbol' htext
      obtain ⟨htree, hmore⟩ := ih hoperand' hreach (by simpa using hrest) hends hends'
      simp only [bareAll, List.cons.injEq, and_true] at htree
      simp [bareAll, htree, hmore]
  | bare hoperand ih =>
    cases h' with
    | bare hoperand' => exact ih hoperand' hreach htokens hends hends'
  | tier hfirst hrounds ihFirst ihRounds =>
    cases h' with
    | tier hfirst' hrounds' =>
      obtain ⟨ht, htighter⟩ := List.nodup_cons.mp hreach
      simp only [textsOf_cons, Cursor.texts_branch, textsOf_nil, List.append_assoc,
        List.append_nil] at htokens
      obtain ⟨htree, hrest⟩ := ihFirst hfirst' htighter (by simpa using htokens)
        (hrounds.ends_before ht hends) (hrounds'.ends_before ht hends')
      obtain ⟨htrees, hmore⟩ := ihRounds hrounds' hreach hrest hends hends'
      simp only [bareAll, List.cons.injEq, and_true] at htree
      simp [bareAll, htree, htrees, hmore]
  | done c =>
    cases h' with
    | done => exact ⟨rfl, by simpa using htokens⟩
    | round hd' hsymbol' hs' hoperand' hrounds' =>
      exact absurd htokens (hends.ne_symbol hs' _)
  | round hd hsymbol hs hoperand hrounds ihOperand ihRounds =>
    cases h' with
    | done =>
      exact absurd htokens.symm (hends'.ne_symbol hs _)
    | round hd' hsymbol' hs' hoperand' hrounds' =>
      obtain ⟨ht, htighter⟩ := List.nodup_cons.mp hreach
      simp only [textsOf_cons, Cursor.texts_branch, Cursor.texts_leaf, textsOf_nil,
        List.cons_append, List.nil_append, List.append_assoc, List.append_nil,
        List.cons.injEq] at htokens
      obtain ⟨htext, hrest⟩ := htokens
      obtain rfl := symbol_eq hs hs' htext
      obtain ⟨htree, hrest'⟩ := ihOperand hoperand' htighter (by simpa using hrest)
        (hrounds.ends_before ht hends) (hrounds'.ends_before ht hends')
      obtain ⟨htrees, hmore⟩ := ihRounds hrounds' hreach hrest' hends hends'
      simp only [bareAll, List.cons.injEq, and_true] at htree
      simp [bareAll, htree, htrees, hmore]
  | expression htiers ih =>
    cases h' with
    | expression htiers' =>
      simp only [textsOf_cons, Cursor.texts_branch, textsOf_nil, List.append_nil] at htokens
      obtain ⟨htree, hmore⟩ := ih htiers' hreach (by simpa using htokens) hends hends'
      simp only [bareAll, List.cons.injEq, and_true] at htree
      simp [bareAll, htree, hmore]

/-- Expressions with the same tokens have the same tree but for the spans. -/
theorem bare_eq {tree tree' : ParseTree} (h : Derives .expression c [tree] stop)
    (h' : Derives .expression c' [tree'] stop') (htexts : tree.texts = tree'.texts) :
    tree.bare = tree'.bare := by
  have hends : Part.expression.Ends [] := nofun
  have htokens : textsOf [tree] ++ [] = textsOf [tree'] ++ [] := by simpa using htexts
  obtain ⟨htrees, -⟩ := h.unique h' (by decide) htokens hends hends
  exact (List.cons.inj htrees).1

end Derives

end Grammar

end Reckon
