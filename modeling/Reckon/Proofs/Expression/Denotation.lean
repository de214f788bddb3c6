import Reckon.Proofs.Evaluation.Entries
import Reckon.Proofs.Evaluation.Literal
import Reckon.Proofs.Expression.Phrase
import Reckon.Proofs.Syntax.Placement

/-!
What derived trees stand for. The tokens of a derivation are a phrase for one
expression, and wherever the trees stand in a table the recursion finds the
value of that expression, or one of the failures that a source text can have.
-/

namespace Reckon

open Grammar Evaluation ParseTree

theorem Grammar.Lexeme.number?_self {text lexeme rest : List Char}
    (h : number? text = some (lexeme, rest)) : number? lexeme = some (lexeme, []) := by
  have hnumber := number?_append (isNumber_of_number? h).1 nothing_follows
  rwa [List.append_nil] at hnumber

theorem Grammar.Lexeme.identifier?_self {text lexeme rest : List Char}
    (h : identifier? text = some (lexeme, rest)) : identifier? lexeme = some (lexeme, []) := by
  obtain ⟨-, c, more, rfl, hstart, hmore⟩ := identifier?_eq_some h
  have hname := identifier?_append hstart hmore nothing_follows
  rwa [List.append_nil] at hname

def NumberLiteral.ofNumber? {text lexeme rest : List Char}
    (h : Lexeme.number? text = some (lexeme, rest)) : NumberLiteral where
  text := String.ofList lexeme
  number?_eq := by rw [String.toList_ofList, Lexeme.number?_self h]

def Name.ofIdentifier? {text lexeme rest : List Char}
    (h : Lexeme.identifier? text = some (lexeme, rest)) : Name where
  text := String.ofList lexeme
  identifier?_eq := by rw [String.toList_ofList, Lexeme.identifier?_self h]

theorem exists_unaryOperator {text rest : List Char} {s : Symbol}
    (h : Symbol.unaryAt? text = some (s, rest)) : ∃ op : UnaryOperator, op.symbol = s := by
  unfold Symbol.unaryAt? at h
  split at h <;> cases h
  · exact ⟨.increment, rfl⟩
  · exact ⟨.decrement, rfl⟩
  · exact ⟨.plus, rfl⟩
  · exact ⟨.neg, rfl⟩
  · exact ⟨.not, rfl⟩

theorem exists_binaryOperator {t : Tier} {s : Symbol} (h : s ∈ t.symbols) :
    ∃ op : BinaryOperator, op.symbol = s ∧ op.tier = t := by
  cases t <;> simp only [Tier.symbols, List.mem_cons, List.not_mem_nil, or_false] at h
  · exact ⟨.logical .or, h.symm, rfl⟩
  · exact ⟨.logical .and, h.symm, rfl⟩
  · exact ⟨.bitAnd, h.symm, rfl⟩
  · rcases h with rfl | rfl | rfl | rfl
    · exact ⟨.comparison .le, rfl, rfl⟩
    · exact ⟨.comparison .ge, rfl, rfl⟩
    · exact ⟨.comparison .lt, rfl, rfl⟩
    · exact ⟨.comparison .gt, rfl, rfl⟩
  · rcases h with rfl | rfl
    · exact ⟨.arithmetic .add, rfl, rfl⟩
    · exact ⟨.arithmetic .sub, rfl, rfl⟩
  · rcases h with rfl | rfl
    · exact ⟨.arithmetic .mul, rfl, rfl⟩
    · exact ⟨.arithmetic .div, rfl, rfl⟩

variable {t : SyntaxTree} {isNumber : Place → Bool}

/-- Trees stand for one expression, of which their tokens are a phrase. -/
def Denotes (category : Category) (trees : List ParseTree) : Prop :=
  ∃ e, Phrase category (textsOf trees) e ∧
    ∀ {t isNumber counts ids} (env : Environment), StandAt t isNumber counts trees ids →
      ∃ id, ids = [id] ∧ AgreesAt t env isNumber id (e.value? env)

/-- An expression with operators and operands behind it. -/
def Expr.followedBy (l : Expr) (rounds : List (BinaryOperator × Expr)) : Expr :=
  rounds.foldl (fun l round => .binary round.1 l round.2) l

/-- Trees stand for operators with operands, which go on from any expression to their left. -/
def DenotesRounds (tr : Tier) (tighter : List Tier) (trees : List ParseTree) : Prop :=
  ∃ rounds : List (BinaryOperator × Expr),
    (∀ l : Expr, Phrase (.rounds tr tighter l) (textsOf trees) (l.followedBy rounds)) ∧
    ∀ {t isNumber ids} (env : Environment), StandAt t isNumber false trees ids →
      RoundsAt t env isNumber (rounds.map fun round => (round.1.text, round.2.value? env)) ids

/-- The value of an expression with rounds behind it is that of the expression with the operators
applied to it. -/
theorem Expr.value?_followedBy (env : Environment) (l : Expr)
    (rounds : List (BinaryOperator × Expr)) :
    (l.followedBy rounds).value? env = (l.value? env).bind
      (foldRounds · (rounds.map fun round => (round.1.text, round.2.value? env))) := by
  induction rounds generalizing l with
  | nil => cases h : l.value? env <;> simp [followedBy, foldRounds, h]
  | cons round rounds ih =>
    obtain ⟨op, r⟩ := round
    have hnext := ih (.binary op l r)
    simp only [followedBy, List.foldl_cons] at hnext ⊢
    rw [hnext, value?]
    cases l.value? env with
    | none => rfl
    | some v =>
      cases hr : r.value? env with
      | none => simp [foldRounds, hr]
      | some w => cases hbinary : v.binary op.text w <;> simp [foldRounds, hr, hbinary]

section operand

variable {c d e stop : Cursor} {lexeme rest inner outer : List Char} {tree : ParseTree}

/-- A number has a value as a token, whether it is bound to one or not. -/
theorem NumberLiteral.exists_value? (literal : NumberLiteral) (env : Environment) (e : Entry) :
    ∃ v, literal.value? env = some v ∧
      Evaluation.token env true e literal.text = .ok (some v) := by
  have htrim : Text.trim literal.text.toList = literal.text.toList :=
    Text.trim_eq_self literal.isNumber.isBlank_eq_false
  obtain ⟨x, hx⟩ := Option.isSome_iff_exists.mp (Double.isSome_ofText? literal.isNumber)
  rw [Evaluation.token, value?]
  cases env.get? literal.text with
  | some v => exact ⟨v, rfl, rfl⟩
  | none =>
    cases hint : Text.int64? literal.text.toList with
    | some n => exact ⟨.integer n, rfl, by simp [htrim, hint]⟩
    | none => exact ⟨.double x, by simp [hx], by simp [htrim, hint, hx]⟩

theorem agreesAt_literal (env : Environment) {id : Place} {rule : Rule} {span : Span}
    (literal : NumberLiteral) (h : t.get? id = some ⟨rule, span, .token literal.text⟩)
    (hid : isNumber id = true) : AgreesAt t env isNumber id (literal.value? env) := by
  obtain ⟨v, hv, htoken⟩ := literal.exists_value? env ⟨rule, span, .token literal.text⟩
  rw [AgreesAt, recursive_token h, hid, hv, htoken]
  rfl

theorem denotes_number (h : Lexeme.number? c.rest = some (lexeme, rest)) :
    Denotes .operand [c.atom (c.after lexeme rest)
      [c.branch (c.after lexeme rest) .number [c.leaf .numberLiteral lexeme rest]]] := by
  refine ⟨.number (.ofNumber? h), Phrase.number (.ofNumber? h), ?_⟩
  intro t isNumber counts ids env hstand
  obtain ⟨id, _, p, _, cs, rfl, hid, hp, hcs⟩ := exists_of_standAt_atom hstand
  obtain ⟨n, _, rfl, ⟨ls, hn, -, x, _, rfl, ⟨hx, hcounts⟩, rfl⟩, rfl⟩ := hcs
  have hliteral := agreesAt_literal env (.ofNumber? h) hx hcounts
  exact ⟨id, rfl, agreesAt_single hid nofun (agreesAt_single hp nofun
    (agreesAt_single hn nofun hliteral))⟩

theorem denotes_name (h : Lexeme.identifier? c.rest = some (lexeme, rest)) :
    Denotes .operand [c.atom (c.after lexeme rest) [c.leaf .identifier lexeme rest]] := by
  refine ⟨.name (.ofIdentifier? h), Phrase.name (.ofIdentifier? h), ?_⟩
  intro t isNumber counts ids env hstand
  obtain ⟨id, _, p, _, cs, rfl, hid, hp, x, _, rfl, ⟨hx, hword⟩, rfl⟩ :=
    exists_of_standAt_atom hstand
  exact ⟨id, rfl, agreesAt_single hid nofun (agreesAt_name hp hx hword)⟩

theorem denotes_index (h : Lexeme.identifier? c.rest = some (lexeme, rest))
    (hindex : Denotes (.tiers Tier.all) [tree]) :
    Denotes .operand [c.atom stop [c.leaf .identifier lexeme rest, d.leaf .openBracket ['['] inner,
      tree, e.leaf .closeBracket [']'] outer]] := by
  obtain ⟨i, hphrase, hvalue⟩ := hindex
  refine ⟨.index (.ofIdentifier? h) i, ?_, ?_⟩
  · simpa [Name.ofIdentifier?] using Phrase.index (.ofIdentifier? h) hphrase
  · intro t isNumber counts ids env hstand
    obtain ⟨id, _, p, _, cs, rfl, hid, hp, hcs⟩ := exists_of_standAt_atom hstand
    obtain ⟨b, _, rfl, ⟨hb, hword⟩, o, _, rfl, ⟨ho, howord⟩, x, _, rfl, hx, k, _, rfl,
      ⟨hk, hkword⟩, rfl⟩ := hcs
    obtain ⟨x', hsame, hagrees⟩ := hvalue env ⟨x, [], rfl, hx, rfl⟩
    obtain rfl := List.singleton_inj.mp hsame
    exact ⟨id, rfl, agreesAt_single hid nofun (agreesAt_index hp hb hword
      (recursive_word ho howord) (recursive_word hk hkword) hagrees)⟩

theorem denotes_group (hinner : Denotes (.tiers Tier.all) [tree]) :
    Denotes .operand [c.atom stop [d.leaf .openParen ['('] inner, tree,
      e.leaf .closeParen [')'] outer]] := by
  obtain ⟨x, hphrase, hvalue⟩ := hinner
  refine ⟨x, ?_, ?_⟩
  · simpa using Phrase.group hphrase
  · intro t isNumber counts ids env hstand
    obtain ⟨id, _, p, _, cs, rfl, hid, hp, hcs⟩ := exists_of_standAt_atom hstand
    obtain ⟨o, _, rfl, ⟨ho, howord⟩, x, _, rfl, hx, k, _, rfl, ⟨hk, hkword⟩, rfl⟩ := hcs
    obtain ⟨x', hsame, hagrees⟩ := hvalue env ⟨x, [], rfl, hx, rfl⟩
    obtain rfl := List.singleton_inj.mp hsame
    exact ⟨id, rfl, agreesAt_single hid nofun (agreesAt_group hp
      (recursive_word ho howord) (recursive_word hk hkword) hagrees)⟩

theorem denotes_signed {op : UnaryOperator} (hoperand : Denotes .operand [tree]) :
    Denotes .operand [c.branch stop .unary
      [c.branch d .unaryOperator [c.leaf (.symbol op.symbol) op.symbol.text rest], tree]] := by
  obtain ⟨x, hphrase, hvalue⟩ := hoperand
  refine ⟨.unary op x, ?_, ?_⟩
  · simpa [UnaryOperator.text] using Phrase.unary op hphrase
  · intro t isNumber counts ids env hstand
    obtain ⟨id, _, rfl, ⟨cs, hid, -, o, _, rfl, ho, y, _, rfl, hy, rfl⟩, rfl⟩ := hstand
    obtain ⟨_, token, _, hoperator, htoken, hword⟩ := exists_of_standAt_operator rfl ho
    obtain ⟨y', hsame, hagrees⟩ := hvalue env ⟨y, [], rfl, hy, rfl⟩
    obtain rfl := List.singleton_inj.mp hsame
    exact ⟨id, rfl, agreesAt_unary hid hoperator htoken hword hagrees⟩

end operand

/-- An entry over a single tree stands for what the tree stands for. -/
theorem denotes_expression {c stop : Cursor} {category : Category} {tree : ParseTree}
    (h : Denotes category [tree]) : Denotes category [c.branch stop .expression [tree]] := by
  obtain ⟨e, hphrase, hvalue⟩ := h
  refine ⟨e, by simpa using hphrase, ?_⟩
  intro t isNumber counts ids env hstand
  obtain ⟨id, _, rfl, ⟨cs, hid, -, x, _, rfl, hx, rfl⟩, rfl⟩ := hstand
  obtain ⟨x', hsame, hagrees⟩ := hvalue env ⟨x, [], rfl, hx, rfl⟩
  obtain rfl := List.singleton_inj.mp hsame
  exact ⟨id, rfl, agreesAt_single hid nofun hagrees⟩

section tiers

variable {c d stop stop' : Cursor} {tr : Tier} {tighter : List Tier} {tree : ParseTree}
  {trees : List ParseTree}

theorem denotes_tier (hfirst : Denotes (.tiers tighter) [tree])
    (hrounds : DenotesRounds tr tighter trees) :
    Denotes (.tiers (tr :: tighter))
      [c.branch stop (.tier tr) [tree, d.branch stop' (.repetition tr) trees]] := by
  obtain ⟨l, hphrase, hvalue⟩ := hfirst
  obtain ⟨rounds, hphrases, hvalues⟩ := hrounds
  refine ⟨l.followedBy rounds, ?_, ?_⟩
  · simpa using Phrase.tier hphrase (hphrases l)
  · intro t isNumber counts ids env hstand
    obtain ⟨id, _, rfl, ⟨cs, hid, -, x, _, rfl, hx, many, _, rfl, ⟨ids, hmany, heven, hids⟩, rfl⟩,
      rfl⟩ := hstand
    obtain ⟨x', hsame, hagrees⟩ := hvalue env ⟨x, [], rfl, hx, rfl⟩
    obtain rfl := List.singleton_inj.mp hsame
    have hchildren := children_shape heven
    have hat := hvalues env hids
    rw [← hchildren] at hat
    rw [Expr.value?_followedBy]
    exact ⟨id, rfl, agreesAt_tier hid hmany hat hagrees⟩

theorem denotesRounds_nil : DenotesRounds tr tighter [] :=
  ⟨[], fun l => Phrase.done l, fun _ hstand => hstand⟩

theorem denotesRounds_cons {op : BinaryOperator} {rest : List Char}
    (hoperand : Denotes (.tiers tighter) [tree]) (hrounds : DenotesRounds op.tier tighter trees) :
    DenotesRounds op.tier tighter
      ([d.branch stop (.tierOperator op.tier) [d.leaf (.symbol op.symbol) op.symbol.text rest],
        tree] ++ trees) := by
  obtain ⟨r, hphrase, hvalue⟩ := hoperand
  obtain ⟨rounds, hphrases, hvalues⟩ := hrounds
  refine ⟨(op, r) :: rounds, ?_, ?_⟩
  · intro l
    have hround := Phrase.round op hphrase (hphrases (.binary op l r))
    simpa [BinaryOperator.text, Expr.followedBy] using hround
  · intro t isNumber ids env hstand
    obtain ⟨o, _, rfl, ho, x, more, rfl, hx, hmore⟩ := hstand
    obtain ⟨_, token, _, hoperator, htoken, hword⟩ := exists_of_standAt_operator rfl ho
    obtain ⟨x', hsame, hagrees⟩ := hvalue env ⟨x, [], rfl, hx, rfl⟩
    obtain rfl := List.singleton_inj.mp hsame
    exact ⟨o, x, more, rfl, recursive_operator hoperator rfl (recursive_word htoken hword),
      symbolOf_eq hoperator rfl htoken, hagrees, hvalues env hmore⟩

end tiers

/-- What the trees of a part of the grammar stand for. -/
def Grammar.Part.Denotes : Part → List ParseTree → Prop
  | operand => Reckon.Denotes .operand
  | tiers ts => Reckon.Denotes (.tiers ts)
  | rounds tr tighter => DenotesRounds tr tighter
  | expression => Reckon.Denotes (.tiers Tier.all)

/-- The trees of a derivation stand for what its part of the grammar is about. -/
theorem Grammar.Derives.denotes {p : Part} {c stop : Cursor} {trees : List ParseTree}
    (h : Derives p c trees stop) : p.Denotes trees := by
  induction h with
  | number hnumber => exact denotes_number hnumber
  | name hname _ => exact denotes_name hname
  | indexed hname _ _ _ _ ih => exact denotes_index hname ih
  | group _ _ _ ih => exact denotes_group ih
  | signed hsymbol _ ih =>
    obtain ⟨op, rfl⟩ := exists_unaryOperator hsymbol
    exact denotes_signed ih
  | bare _ ih =>
    obtain ⟨e, hphrase, hvalue⟩ := ih
    exact ⟨e, .bare hphrase, hvalue⟩
  | tier _ _ ihFirst ihRounds => exact denotes_tier ihFirst ihRounds
  | done => exact denotesRounds_nil
  | round _ _ hs _ _ ihOperand ihRounds =>
    obtain ⟨op, rfl, rfl⟩ := exists_binaryOperator hs
    exact denotesRounds_cons ihOperand ihRounds
  | expression _ ih => exact denotes_expression ih

end Reckon
