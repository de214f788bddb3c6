import Reckon.Proofs.Evaluation.Results
import Reckon.Proofs.Syntax.Tokens
import Reckon.Source

/-!
Which bindings an evaluation can feel. Every token is looked up when a tree is
walked, those of operators and brackets too, but only the values of names and
numbers are ever read. Environments that bind these alike give the same result.
-/

namespace Reckon

open Grammar ParseTree

/-- The name whose binding an entry reads. The names of the truth values have theirs from
elsewhere. -/
def Entry.lookup? (e : Entry) : Option String :=
  match e.rule, e.shape with
  | .identifier, .token name => if name = "true" ∨ name = "false" then none else some name
  | .numberLiteral, .token literal => some literal
  | _, _ => none

/-- The names and the numbers of a tree in the order of the walk, truth values left out. -/
def SyntaxTree.lookups (t : SyntaxTree) : List String :=
  t.postOrder.toList.filterMap fun id => (t.get? id).bind Entry.lookup?

theorem SyntaxTree.IsOf.mem_lookups_iff {t : SyntaxTree} {tree : ParseTree} {source name : String}
    (h : t.IsOf tree source) :
    name ∈ t.lookups ↔ ∃ token ∈ tree.leaves, token.2.2 = name ∧
      (token.1 = .identifier ∧ name ≠ "true" ∧ name ≠ "false" ∨ token.1 = .numberLiteral) := by
  have hlookup : ∀ token : Token, Entry.lookup? ⟨token.1, token.2.1, .token token.2.2⟩ = some name ↔
      token.2.2 = name ∧
        (token.1 = .identifier ∧ name ≠ "true" ∧ name ≠ "false" ∨ token.1 = .numberLiteral) := by
    rintro ⟨rule, span, text⟩
    cases rule <;> simp [Entry.lookup?]
    grind
  rw [lookups, h.filterMap_tokens (f := Entry.lookup?), List.mem_filterMap]
  · simp only [hlookup]
  · rintro ⟨rule, span, shape⟩ he
    cases shape <;> cases rule <;> first | rfl | cases he

/-- A part has the same results in two environments. -/
def Grammar.Part.AlikeIn (env env' : Environment) (trees : List ParseTree) : Part → Prop
  | rounds _ _ => groups env trees = groups env' trees
  | _ => ∃ tree r, trees = [tree] ∧ tree.Gives env r ∧ tree.Gives env' r

theorem Grammar.Cursor.leafValue_congr {env env' : Environment} {c : Cursor} {rule : Rule}
    {lexeme rest : List Char}
    (h : env.get? (String.ofList lexeme) = env'.get? (String.ofList lexeme)) :
    c.leafValue env rule lexeme rest = c.leafValue env' rule lexeme rest := by
  rw [leafValue, h, leafValue]

/-- Two environments bind the names and the numbers among some tokens alike. -/
def AgreeOn (env env' : Environment) (tokens : List Token) : Prop :=
  ∀ token ∈ tokens, token.1 = .identifier ∨ token.1 = .numberLiteral →
    env.get? token.2.2 = env'.get? token.2.2

section agreeOn

variable {env env' : Environment} {c : Cursor} {lexeme rest : List Char}

@[simp] theorem agreeOn_nil : AgreeOn env env' [] := nofun

@[simp] theorem agreeOn_cons {token : Token} {tokens : List Token} :
    AgreeOn env env' (token :: tokens) ↔
      (token.1 = .identifier ∨ token.1 = .numberLiteral →
        env.get? token.2.2 = env'.get? token.2.2) ∧ AgreeOn env env' tokens :=
  List.forall_mem_cons

@[simp] theorem agreeOn_append {tokens more : List Token} :
    AgreeOn env env' (tokens ++ more) ↔ AgreeOn env env' tokens ∧ AgreeOn env env' more :=
  List.forall_mem_append

end agreeOn

/-- Environments that bind the names and numbers of a derived part alike give it the same
results: the other tokens are looked up as well, but only the symbol of an operator is asked for,
and nothing of a bracket. -/
theorem Grammar.Derives.alikeIn {p : Part} {c stop : Cursor} {trees : List ParseTree}
    (h : Derives p c trees stop) {env env' : Environment}
    (hagree : AgreeOn env env' (leavesOf trees)) : p.AlikeIn env env' trees := by
  induction h with
  | @number c lexeme rest hnumber =>
    have hbound : env.get? (String.ofList lexeme) = env'.get? (String.ofList lexeme) := by
      simpa [Cursor.token] using hagree
    obtain ⟨v, hv, hgives⟩ := gives_number env hnumber
    obtain ⟨v', hv', hgives'⟩ := gives_number env' hnumber
    have hvalue : (NumberLiteral.ofNumber? hnumber).value? env =
        (NumberLiteral.ofNumber? hnumber).value? env' := congrArg (· <|> _) hbound
    obtain rfl := Option.some.inj ((hv.symm.trans hvalue).trans hv')
    exact ⟨_, _, rfl, hgives, hgives'⟩
  | @name c lexeme rest hname hbare =>
    have hbound : env.get? (String.ofList lexeme) = env'.get? (String.ofList lexeme) := by
      simpa [Cursor.token] using hagree
    refine ⟨_, _, rfl, gives_name env c lexeme rest, ?_⟩
    rw [Cursor.leafValue_congr hbound]
    exact gives_name env' c lexeme rest
  | @indexed c d e lexeme rest inner outer index hname hd hopen hindex hclose ih =>
    obtain ⟨hbound, hinner⟩ : env.get? (String.ofList lexeme) = env'.get? (String.ofList lexeme) ∧
        AgreeOn env env' index.leaves := by
      simpa [Cursor.token] using hagree
    obtain ⟨index', r, heq, hgives, hgives'⟩ := ih (by simpa using hinner)
    obtain rfl := List.singleton_inj.mp heq
    refine ⟨_, _, rfl, gives_indexed hgives, ?_⟩
    rw [Cursor.leafValue_congr hbound]
    exact gives_indexed hgives'
  | group hopen hinner hclose ih =>
    obtain ⟨tree', r, heq, hgives, hgives'⟩ := ih (by simpa [Cursor.token] using hagree)
    obtain rfl := List.singleton_inj.mp heq
    exact ⟨_, _, rfl, gives_group hgives, gives_group hgives'⟩
  | @signed c stop s rest tree hsymbol hoperand ih =>
    obtain ⟨tree', r, heq, hgives, hgives'⟩ := ih (by simpa [Cursor.token] using hagree)
    obtain rfl := List.singleton_inj.mp heq
    exact ⟨_, _, rfl, gives_signed s hgives, gives_signed s hgives'⟩
  | bare hoperand ih => exact ih hagree
  | @tier c d stop t tighter tree trees hfirst hrounds ihFirst ihRounds =>
    obtain ⟨hleft, hright⟩ : AgreeOn env env' tree.leaves ∧ AgreeOn env env' (leavesOf trees) := by
      simpa using hagree
    obtain ⟨tree', r, heq, hgives, hgives'⟩ := ihFirst (by simpa using hleft)
    obtain rfl := List.singleton_inj.mp heq
    have hgroups : groups env trees = groups env' trees := ihRounds hright
    refine ⟨_, _, rfl, gives_tier hgives, ?_⟩
    rw [hgroups]
    exact gives_tier hgives'
  | done c => exact rfl
  | @round c d e stop t tighter s rest tree trees hd hsymbol hs hoperand hrounds ihOperand
      ihRounds =>
    obtain ⟨hleft, hright⟩ : AgreeOn env env' tree.leaves ∧ AgreeOn env env' (leavesOf trees) := by
      simpa [Cursor.token] using hagree
    obtain ⟨tree', r, heq, hgives, hgives'⟩ := ihOperand (by simpa using hleft)
    obtain rfl := List.singleton_inj.mp heq
    have hgroups : groups env trees = groups env' trees := ihRounds hright
    change groups env _ = groups env' _
    rw [groups_round s hgives, groups_round s hgives', hgroups]
  | expression htiers ih =>
    obtain ⟨tree', r, heq, hgives, hgives'⟩ := ih (by simpa using hagree)
    obtain rfl := List.singleton_inj.mp heq
    exact ⟨_, r, rfl, gives_single (.inl rfl) hgives, gives_single (.inl rfl) hgives'⟩

/-- Whether a text is a number of the grammar, or a name of it that is no truth value. -/
def IsReadable (name : String) : Prop :=
  Lexeme.identifier? name.toList = some (name.toList, []) ∧ name ≠ "true" ∧ name ≠ "false" ∨
    Lexeme.number? name.toList = some (name.toList, [])

instance : DecidablePred IsReadable := fun _ => instDecidableOr

/-- The tokens of names and numbers are that. -/
theorem Grammar.Reaches.words {s s' : Scanner} {tokens : List Token} (h : Reaches s tokens s') :
    ∀ token ∈ tokens,
      (token.1 = .identifier →
        Lexeme.identifier? token.2.2.toList = some (token.2.2.toList, [])) ∧
      (token.1 = .numberLiteral →
        Lexeme.number? token.2.2.toList = some (token.2.2.toList, [])) := by
  induction h with
  | refl => nofun
  | step hstep _ ih =>
    refine List.forall_mem_append.mpr ⟨?_, ih⟩
    cases hstep with
    | number _ hnumber => simpa [Cursor.token] using Lexeme.number?_self hnumber
    | name _ hname => simpa [Cursor.token] using Lexeme.identifier?_self hname
    | indexed _ hname => simpa [Cursor.token] using Lexeme.identifier?_self hname
    | closing bracket => cases bracket <;> simp [Cursor.token, Bracket.closingRule]
    | _ => simp [Cursor.token]

namespace SyntaxTree.IsOf

variable {t : SyntaxTree} {tree : ParseTree} {source : String}

/-- A tree that was read has the same result in environments that bind its names and numbers
alike. -/
theorem evaluate_congr (h : t.IsOf tree source) {env env' : Environment}
    (hagree : ∀ name ∈ t.lookups, env.get? name = env'.get? name) :
    Evaluation.evaluate t env = Evaluation.evaluate t env' := by
  have hall : AgreeOn env.withTruthValues env'.withTruthValues (leavesOf [tree]) := by
    intro token htoken hread
    rw [leavesOf_cons, leavesOf_nil, List.append_nil] at htoken
    simp only [Environment.withTruthValues, Environment.get?_insert]
    split
    · rfl
    · next hfalse =>
      split
      · rfl
      · next htrue =>
        refine hagree _ (h.mem_lookups_iff.mpr ⟨token, htoken, rfl, ?_⟩)
        exact hread.imp_left fun hname => ⟨hname, Ne.symm htrue, Ne.symm hfalse⟩
  obtain ⟨stop, hderives, -⟩ := h.derives
  obtain ⟨tree', r, heq, hgives, hgives'⟩ := hderives.alikeIn hall
  obtain rfl := List.singleton_inj.mp heq
  rw [h.evaluate_eq, h.evaluate_eq, hgives.evaluate_eq, hgives'.evaluate_eq]

theorem isReadable (h : t.IsOf tree source) {name : String} (hname : name ∈ t.lookups) :
    IsReadable name := by
  obtain ⟨d, hreaches, -⟩ := h.readsThrough
  obtain ⟨token, htoken, rfl, hrule⟩ := h.mem_lookups_iff.mp hname
  obtain ⟨hword, hnumber⟩ := hreaches.words token htoken
  exact hrule.imp (fun ⟨hrule, hne⟩ => ⟨hword hrule, hne⟩) hnumber

end SyntaxTree.IsOf

namespace Source

/-- The result of a source depends on the environment by the names and the numbers in it alone. -/
theorem evaluate_congr {source : String} {limit : Nat} {env env' : Environment}
    (hagree : ∀ t, SyntaxTree.parse source limit = .ok t →
      ∀ name ∈ t.lookups, env.get? name = env'.get? name) :
    evaluate source env limit = evaluate source env' limit := by
  cases ht : SyntaxTree.parse source limit with
  | error error => simp only [evaluate, parse, ht]
  | ok t =>
    obtain ⟨tree, hof⟩ := SyntaxTree.isOf_of_parse ht
    have heq := hof.evaluate_congr (hagree t ht)
    simp only [evaluate, parse, ht, evaluateTree, heq]

theorem evaluate_insert {source name : String} {limit : Nat}
    (hname : ∀ t, SyntaxTree.parse source limit = .ok t → name ∉ t.lookups) (env : Environment)
    (v : Value) : evaluate source (env.insert name v) limit = evaluate source env limit := by
  refine evaluate_congr fun t ht other hother => ?_
  rw [Environment.get?_insert, if_neg]
  rintro rfl
  exact hname t ht hother

/-- Environments that bind the names of a source alike, truth values left out, and its numbers,
give it the same result within every limit. To bind any other name changes nothing; so no source
feels what a truth value, an operator or a bracket is bound to, or any text that is neither a
name nor a number. -/
theorem lookups_determine :
    (∀ (source : String) (limit : Nat) (env env' : Environment),
      (∀ t, SyntaxTree.parse source limit = .ok t →
        ∀ name ∈ t.lookups, env.get? name = env'.get? name) →
      evaluate source env limit = evaluate source env' limit) ∧
    (∀ (source : String) (limit : Nat) (t : SyntaxTree), SyntaxTree.parse source limit = .ok t →
      ∀ name, name ∉ t.lookups → ∀ env v,
        evaluate source (env.insert name v) limit = evaluate source env limit) ∧
    (∀ name, ¬IsReadable name → ∀ source limit env v,
      evaluate source (env.insert name v) limit = evaluate source env limit) ∧
    (∀ name ∈ ["true", "false", "(", ")", "[", "]"], ¬IsReadable name) ∧
    ∀ s : Symbol, ¬IsReadable (String.ofList s.text) := by
  refine ⟨fun _ _ _ _ => evaluate_congr, ?_, ?_, by decide, by intro s; cases s <;> decide⟩
  · intro source limit t ht name hname env v
    refine evaluate_insert (fun t' ht' => ?_) env v
    obtain rfl := Except.ok.inj (ht.symm.trans ht')
    exact hname
  · intro name hname source limit env v
    refine evaluate_insert (fun t ht hmem => ?_) env v
    obtain ⟨tree, hof⟩ := SyntaxTree.isOf_of_parse ht
    exact hname (hof.isReadable hmem)

/-- What stands at the sign and at the brackets is looked up, and not read. -/
theorem evaluate_ignores_brackets :
    ∃ t, SyntaxTree.parse "-(f[1])" 3 = .ok t ∧ t.lookups = ["f", "1"] ∧
      evaluate "-(f[1])" (.ofList [("f", .array (.integers #[4, 5])), ("-", .boolean true),
          ("(", .integer 1), ("]", .integer 2)]) 3 =
        evaluate "-(f[1])" (.ofList [("f", .array (.integers #[4, 5])), ("[", .integer 3)]) 3 := by
  have hcheck : (SyntaxTree.parse "-(f[1])" 3).toOption.map SyntaxTree.lookups =
      some ["f", "1"] := by decide +kernel
  cases ht : SyntaxTree.parse "-(f[1])" 3 with
  | error error =>
    rw [ht] at hcheck
    cases hcheck
  | ok t =>
    rw [ht] at hcheck
    have hlookups := Option.some.inj hcheck
    refine ⟨t, rfl, hlookups, lookups_determine.1 _ _ _ _ fun t' ht' name hname => ?_⟩
    obtain rfl := Except.ok.inj (ht.symm.trans ht')
    rw [hlookups] at hname
    simp only [List.mem_cons, List.not_mem_nil, or_false] at hname
    rcases hname with rfl | rfl <;> simp [Environment.ofList, Environment.insertAll,
      Environment.get?_insert]

end Source

end Reckon
