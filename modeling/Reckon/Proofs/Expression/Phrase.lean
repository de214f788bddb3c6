import Reckon.Proofs.Expression.Basic

/-!
The grammar on tokens. A phrase is a row of token texts that stands for an
expression; rounds are phrases that go on from an expression to their left. A
row of tokens starts with at most one phrase that what follows it does not go
on with, and stands for one expression.
-/

namespace Reckon

/-- What a phrase is read as: an operand, an operand of some tiers, or the rounds of a tier
behind an expression. -/
inductive Category where
  | operand
  | tiers (ts : List Tier)
  | rounds (t : Tier) (tighter : List Tier) (left : Expr)

/-- The tiers whose operators go on with a phrase. -/
def Category.reach : Category → List Tier
  | operand => []
  | tiers ts => ts
  | rounds t tighter _ => t :: tighter

/-- A row of token texts stands for an expression. -/
inductive Phrase : Category → List String → Expr → Prop
  | number (literal : NumberLiteral) : Phrase .operand [literal.text] (.number literal)
  | name (base : Name) : Phrase .operand [base.text] (.name base)
  | index (base : Name) {ts : List String} {e : Expr} (hindex : Phrase (.tiers Tier.all) ts e) :
      Phrase .operand (base.text :: "[" :: (ts ++ ["]"])) (.index base e)
  | group {ts : List String} {e : Expr} (hinner : Phrase (.tiers Tier.all) ts e) :
      Phrase .operand ("(" :: (ts ++ [")"])) e
  | unary (op : UnaryOperator) {ts : List String} {e : Expr} (hoperand : Phrase .operand ts e) :
      Phrase .operand (op.text :: ts) (.unary op e)
  | bare {ts : List String} {e : Expr} (hoperand : Phrase .operand ts e) : Phrase (.tiers []) ts e
  | tier {t : Tier} {tighter : List Tier} {ts ts' : List String} {l e : Expr}
      (hfirst : Phrase (.tiers tighter) ts l) (hrounds : Phrase (.rounds t tighter l) ts' e) :
      Phrase (.tiers (t :: tighter)) (ts ++ ts') e
  | done {t : Tier} {tighter : List Tier} (l : Expr) : Phrase (.rounds t tighter l) [] l
  | round {tighter : List Tier} (op : BinaryOperator) {ts ts' : List String} {l r e : Expr}
      (hoperand : Phrase (.tiers tighter) ts r)
      (hrounds : Phrase (.rounds op.tier tighter (.binary op l r)) ts' e) :
      Phrase (.rounds op.tier tighter l) (op.text :: (ts ++ ts')) e

/-- What a token before or as an operand is, by its first character. -/
inductive TokenKind where
  | number
  | name
  | paren
  | symbol

def TokenKind.of (token : String) : TokenKind :=
  match token.toList with
  | c :: _ =>
    if Grammar.Lexeme.isNameStart c then name
    else if Grammar.Lexeme.isWord c then number
    else if c = '(' then paren
    else symbol
  | [] => symbol

theorem NumberLiteral.isNumber (literal : NumberLiteral) :
    Grammar.Lexeme.IsNumber literal.text.toList :=
  (Grammar.Lexeme.isNumber_of_number? literal.number?_eq).1

theorem NumberLiteral.ext {first second : NumberLiteral} (h : first.text = second.text) :
    first = second := by
  cases first
  cases second
  cases h
  rfl

theorem Name.ext {first second : Name} (h : first.text = second.text) : first = second := by
  cases first
  cases second
  cases h
  rfl

theorem UnaryOperator.text_injective {op op' : UnaryOperator} (h : op.text = op'.text) :
    op = op' := by
  revert h
  cases op <;> cases op' <;> decide

theorem BinaryOperator.text_injective {op op' : BinaryOperator} (h : op.text = op'.text) :
    op = op' := by
  have hread : ∀ op : BinaryOperator, BinaryOperator.ofText? op.text = some op := by
    intro op
    cases op with
    | arithmetic op => cases op <;> rfl
    | comparison op => cases op <;> rfl
    | bitAnd => rfl
    | logical op => cases op <;> rfl
  have hsame := hread op
  rw [h, hread op'] at hsame
  exact (Option.some.inj hsame).symm

@[simp] theorem NumberLiteral.kind_eq (literal : NumberLiteral) :
    TokenKind.of literal.text = .number := by
  obtain ⟨c, more, htext, hword, hstart⟩ := literal.isNumber.head
  simp [TokenKind.of, htext, hword, hstart]

@[simp] theorem Name.kind_eq (base : Name) : TokenKind.of base.text = .name := by
  obtain ⟨-, c, more, htext, hstart, -⟩ := Grammar.Lexeme.identifier?_eq_some base.identifier?_eq
  simp [TokenKind.of, htext, hstart]

@[simp] theorem UnaryOperator.kind_eq (op : UnaryOperator) : TokenKind.of op.text = .symbol := by
  cases op <;> rfl

@[simp] theorem TokenKind.of_paren : TokenKind.of "(" = .paren := rfl

theorem BinaryOperator.text_ne_bracket (op : BinaryOperator) :
    op.text ≠ "[" ∧ op.text ≠ "]" ∧ op.text ≠ ")" := by
  cases op with
  | arithmetic op => cases op <;> decide
  | comparison op => cases op <;> decide
  | bitAnd => decide
  | logical op => cases op <;> decide

/-- What follows does not go on with a phrase: no index, and no operator within its reach. -/
def Category.Ends (category : Category) (more : List String) : Prop :=
  ∀ token ∈ more.head?,
    token ≠ "[" ∧ ∀ op : BinaryOperator, op.text = token → op.tier ∉ category.reach

theorem Category.ends_closing (category : Category) {token : String}
    (h : token = "]" ∨ token = ")") (more : List String) : category.Ends (token :: more) := by
  rintro _ ⟨⟩
  constructor
  · rcases h with rfl | rfl <;> decide
  · rintro op rfl
    obtain ⟨-, hsquare, hparen⟩ := op.text_ne_bracket
    exact (h.elim hsquare hparen).elim

/-- Rounds, or what follows them, do not go on with the operand before them. -/
theorem Phrase.ends_before {t : Tier} {tighter : List Tier} {l e : Expr} {ts more : List String}
    (h : Phrase (.rounds t tighter l) ts e) (ht : t ∉ tighter)
    (hmore : (Category.rounds t tighter l).Ends more) :
    (Category.tiers tighter).Ends (ts ++ more) := by
  cases h with
  | done =>
    intro token htoken
    obtain ⟨hbracket, hop⟩ := hmore token htoken
    exact ⟨hbracket, fun op htext hmem => hop op htext (List.mem_cons_of_mem _ hmem)⟩
  | round op _ _ =>
    rintro _ ⟨⟩
    refine ⟨op.text_ne_bracket.1, ?_⟩
    intro op' htext
    rw [BinaryOperator.text_injective htext]
    exact ht

/-- A row of tokens starts with one phrase of a category at most, if what follows does not go on
with it, and the phrase stands for one expression. -/
theorem Phrase.unique {category : Category} {ts ts' : List String} {e e' : Expr}
    (h : Phrase category ts e) (h' : Phrase category ts' e') (hreach : category.reach.Nodup)
    {more more' : List String} (htokens : ts ++ more = ts' ++ more') (hends : category.Ends more)
    (hends' : category.Ends more') : ts = ts' ∧ e = e' ∧ more = more' := by
  induction h generalizing ts' e' more more' with
  | number literal =>
    cases h' with
    | number literal' =>
      obtain ⟨htext, hmore⟩ := List.cons.inj htokens
      obtain rfl := NumberLiteral.ext htext
      exact ⟨rfl, rfl, hmore⟩
    | _ => simpa using congrArg TokenKind.of (List.cons.inj htokens).1
  | name base =>
    cases h' with
    | name base' =>
      obtain ⟨htext, hmore⟩ := List.cons.inj htokens
      obtain rfl := Name.ext htext
      exact ⟨rfl, rfl, hmore⟩
    | index base' _ =>
      obtain ⟨-, hmore⟩ := List.cons.inj htokens
      exact absurd rfl (hends _ (congrArg List.head? hmore)).1
    | _ => simpa using congrArg TokenKind.of (List.cons.inj htokens).1
  | @index base ts e hindex ih =>
    cases h' with
    | name base' =>
      obtain ⟨-, hmore⟩ := List.cons.inj htokens
      exact absurd rfl (hends' _ (congrArg List.head? hmore.symm)).1
    | @index base' ts' _ hindex' =>
      obtain ⟨htext, hmore⟩ := List.cons.inj htokens
      obtain rfl := Name.ext htext
      obtain ⟨-, hinside⟩ := List.cons.inj hmore
      simp only [List.append_eq, List.append_assoc] at hinside
      obtain ⟨rfl, rfl, hclose⟩ := ih hindex' (by decide) hinside
        (Category.ends_closing _ (.inl rfl) _) (Category.ends_closing _ (.inl rfl) _)
      exact ⟨rfl, rfl, (List.cons.inj hclose).2⟩
    | _ => simpa using congrArg TokenKind.of (List.cons.inj htokens).1
  | @group ts e hinner ih =>
    cases h' with
    | @group ts' _ hinner' =>
      obtain ⟨-, hinside⟩ := List.cons.inj htokens
      simp only [List.append_eq, List.append_assoc] at hinside
      obtain ⟨rfl, rfl, hclose⟩ := ih hinner' (by decide) hinside
        (Category.ends_closing _ (.inr rfl) _) (Category.ends_closing _ (.inr rfl) _)
      exact ⟨rfl, rfl, (List.cons.inj hclose).2⟩
    | _ => simpa using congrArg TokenKind.of (List.cons.inj htokens).1
  | @unary op ts e hoperand ih =>
    cases h' with
    | @unary op' ts' _ hoperand' =>
      obtain ⟨htext, hmore⟩ := List.cons.inj htokens
      obtain rfl := UnaryOperator.text_injective htext
      obtain ⟨rfl, rfl, hrest⟩ := ih hoperand' hreach hmore hends hends'
      exact ⟨rfl, rfl, hrest⟩
    | _ => simpa using congrArg TokenKind.of (List.cons.inj htokens).1
  | bare hoperand ih =>
    cases h' with
    | bare hoperand' => exact ih hoperand' hreach htokens hends hends'
  | @tier t tighter ts₁ ts₂ l e hfirst hrounds ihFirst ihRounds =>
    cases h' with
    | @tier _ _ ts₁' ts₂' l' _ hfirst' hrounds' =>
      obtain ⟨ht, htighter⟩ := List.nodup_cons.mp hreach
      rw [List.append_assoc, List.append_assoc] at htokens
      obtain ⟨rfl, rfl, hrest⟩ := ihFirst hfirst' htighter htokens
        (hrounds.ends_before ht hends) (hrounds'.ends_before ht hends')
      obtain ⟨rfl, rfl, hmore⟩ := ihRounds hrounds' hreach hrest hends hends'
      exact ⟨rfl, rfl, hmore⟩
  | done l =>
    cases h' with
    | done => exact ⟨rfl, rfl, htokens⟩
    | round op _ _ =>
      exact absurd List.mem_cons_self ((hends op.text (congrArg List.head? htokens)).2 op rfl)
  | @round tighter op ts₁ ts₂ l r e hoperand hrounds ihOperand ihRounds =>
    generalize htier : op.tier = t at h' hends'
    cases h' with
    | done =>
      subst htier
      exact absurd List.mem_cons_self
        ((hends' op.text (congrArg List.head? htokens.symm)).2 op rfl)
    | @round _ op' ts₁' ts₂' _ r' _ hoperand' hrounds' =>
      obtain ⟨htext, hmore⟩ := List.cons.inj htokens
      obtain rfl := BinaryOperator.text_injective htext
      obtain ⟨ht, htighter⟩ := List.nodup_cons.mp hreach
      simp only [List.append_eq, List.append_assoc] at hmore
      obtain ⟨rfl, rfl, hrest⟩ := ihOperand hoperand' htighter hmore
        (hrounds.ends_before ht hends) (hrounds'.ends_before ht hends')
      obtain ⟨rfl, rfl, hmore⟩ := ihRounds hrounds' hreach hrest hends hends'
      exact ⟨rfl, rfl, hmore⟩

end Reckon
