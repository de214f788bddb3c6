import Reckon.Proofs.Expression.Phrase

/-!
How expressions are written. Parentheses stand at least where an operand would
be read otherwise: on the left of an operator around an operator that binds
looser, on the right around one that does not bind tighter, and behind a sign
or a negation around any operator between operands. More of them may stand
around every part of an expression. However an expression is written, it is a
phrase for itself.
-/

namespace Reckon

def Tier.tightness : Tier → Nat
  | logicalOr => 0
  | logicalAnd => 1
  | bitwiseAnd => 2
  | relational => 3
  | additive => 4
  | multiplicative => 5

/-- Where a part of an expression stands: alone, as the whole or in brackets; to the left or right
of an operator; or behind an operator before its operand. -/
inductive Slot where
  | alone
  | leftOf (t : Tier)
  | rightOf (t : Tier)
  | behindUnary

namespace Slot

/-- Whether an operator of a tier may stand in a slot without parentheses around it. -/
def admits : Slot → Tier → Bool
  | alone, _ => true
  | leftOf u, t => u.tightness ≤ t.tightness
  | rightOf u, t => u.tightness < t.tightness
  | behindUnary, _ => false

def tiers (slot : Slot) : List Tier := Tier.all.filter slot.admits

theorem tiers_leftOf (t : Tier) : (leftOf t).tiers = t :: (rightOf t).tiers := by
  cases t <;> rfl

/-- A slot that admits a tier admits all that bind tighter. -/
theorem tiers_suffix {slot : Slot} {t : Tier} (h : slot.admits t = true) :
    (leftOf t).tiers <:+ slot.tiers := by
  revert h
  cases slot with
  | alone => cases t <;> decide
  | leftOf u => cases u <;> cases t <;> decide
  | rightOf u => cases u <;> cases t <;> decide
  | behindUnary => nofun

end Slot

/-- A row of token texts is a way to write an expression in a slot. -/
inductive Renders : Slot → Expr → List String → Prop
  | number {slot : Slot} (literal : NumberLiteral) : Renders slot (.number literal) [literal.text]
  | name {slot : Slot} (base : Name) : Renders slot (.name base) [base.text]
  | index {slot : Slot} (base : Name) {e : Expr} {ts : List String} (hindex : Renders .alone e ts) :
      Renders slot (.index base e) (base.text :: "[" :: (ts ++ ["]"]))
  | unary {slot : Slot} (op : UnaryOperator) {e : Expr} {ts : List String}
      (hoperand : Renders .behindUnary e ts) : Renders slot (.unary op e) (op.text :: ts)
  | binary {slot : Slot} (op : BinaryOperator) {l r : Expr} {ls rs : List String}
      (hslot : slot.admits op.tier = true) (hleft : Renders (.leftOf op.tier) l ls)
      (hright : Renders (.rightOf op.tier) r rs) :
      Renders slot (.binary op l r) (ls ++ op.text :: rs)
  | group {slot : Slot} {e : Expr} {ts : List String} (hinner : Renders .alone e ts) :
      Renders slot e ("(" :: (ts ++ [")"]))

namespace Phrase

/-- An operand of some tiers is one of any looser tiers as well. -/
theorem widen {tighter : List Tier} {ts : List String} {e : Expr}
    (h : Phrase (.tiers tighter) ts e) (looser : List Tier) :
    Phrase (.tiers (looser ++ tighter)) ts e := by
  induction looser with
  | nil => exact h
  | cons t looser ih =>
    have htier := tier ih (done (t := t) e)
    rwa [List.append_nil] at htier

theorem widen_of_suffix {tighter wider : List Tier} {ts : List String} {e : Expr}
    (h : Phrase (.tiers tighter) ts e) (hsuffix : tighter <:+ wider) :
    Phrase (.tiers wider) ts e := by
  obtain ⟨looser, rfl⟩ := hsuffix
  exact h.widen looser

theorem tiers_of_operand {ts : List String} {e : Expr} (h : Phrase .operand ts e)
    (tighter : List Tier) : Phrase (.tiers tighter) ts e :=
  (bare h).widen_of_suffix List.nil_suffix

/-- One more round goes on from where the rounds before it end. -/
theorem rounds_concat {op : BinaryOperator} {t : Tier} {tighter : List Tier} {l e r : Expr}
    {ts ts' : List String} (ht : op.tier = t) (h : Phrase (.rounds t tighter l) ts e)
    (hoperand : Phrase (.tiers tighter) ts' r) :
    Phrase (.rounds t tighter l) (ts ++ op.text :: ts') (.binary op e r) := by
  generalize hcategory : Category.rounds t tighter l = category at h
  induction h generalizing l with
  | done e =>
    cases hcategory
    subst ht
    have hround := round op hoperand (done (.binary op e r))
    rwa [List.append_nil] at hround
  | round op' hoperand' _ _ ih =>
    cases hcategory
    have hround := round op' hoperand' (ih rfl)
    rwa [← List.append_assoc] at hround
  | _ => cases hcategory

/-- An operator takes as its left operand all that is written before it in its tier. -/
theorem binary {op : BinaryOperator} {tighter : List Tier} {l r : Expr} {ls rs : List String}
    (hleft : Phrase (.tiers (op.tier :: tighter)) ls l) (hright : Phrase (.tiers tighter) rs r) :
    Phrase (.tiers (op.tier :: tighter)) (ls ++ op.text :: rs) (.binary op l r) := by
  cases hleft with
  | tier hfirst hrounds =>
    rw [List.append_assoc]
    exact tier hfirst (hrounds.rounds_concat rfl hright)

end Phrase

/-- However an expression is written in a slot, it is a phrase for itself within the tiers that the
slot admits. -/
theorem Renders.phrase {slot : Slot} {e : Expr} {ts : List String} (h : Renders slot e ts) :
    Phrase (.tiers slot.tiers) ts e := by
  induction h with
  | number literal => exact (Phrase.number literal).tiers_of_operand _
  | name base => exact (Phrase.name base).tiers_of_operand _
  | index base _ ih => exact (Phrase.index base ih).tiers_of_operand _
  | unary op _ ih =>
    cases ih with
    | bare hoperand => exact (Phrase.unary op hoperand).tiers_of_operand _
  | binary op hslot _ _ ihLeft ihRight =>
    rw [Slot.tiers_leftOf] at ihLeft
    have hbinary := Phrase.binary ihLeft ihRight
    rw [← Slot.tiers_leftOf] at hbinary
    exact hbinary.widen_of_suffix (Slot.tiers_suffix hslot)
  | group _ ih => exact (Phrase.group ih).tiers_of_operand _

end Reckon
