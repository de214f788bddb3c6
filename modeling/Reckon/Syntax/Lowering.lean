import Reckon.Grammar.ParseTree
import Reckon.Syntax.Tree

/-!
From the tree of matched rules to a syntax tree. The lowering keeps its own
stacks, of steps to take and of entries built but not yet owned by a parent,
and builds children before parents. A repetition takes its children two by two.
-/

namespace Reckon

/-- Groups a row of children two by two; an odd one out fails. -/
def OperatorGroup.ofChildren? : List Place → Option (List OperatorGroup)
  | [] => some []
  | [_] => none
  | operator :: operand :: rest => (ofChildren? rest).map (⟨operator, operand⟩ :: ·)

theorem OperatorGroup.children_of_ofChildren? {ids : List Place}
    {groups : List OperatorGroup} (h : ofChildren? ids = some groups) :
    (Shape.repetition groups).children = ids := by
  fun_induction ofChildren? ids generalizing groups with
  | case1 => cases h; rfl
  | case2 => cases h
  | case3 operator operand rest ih =>
    obtain ⟨more, hmore, rfl⟩ := Option.map_eq_some_iff.mp h
    simpa [Shape.children] using ih hmore

/-- The table so far and the entries without a parent yet, the latest first. -/
structure Lowering where
  table : EntryTable
  built : List Place
  built_lt : ∀ id ∈ built, id < table.size

namespace Lowering

/-- One step of the work: to take up a matched rule, or to make its entry from the last
`count` entries built. -/
inductive Step where
  | enter (tree : ParseTree)
  | leave (rule : Rule) (span : Span) (count : Nat)

/-- A repetition whose children do not pair up. -/
structure Fault where
  span : Span

def start : Lowering := ⟨.empty, [], fun _ h => absurd h List.not_mem_nil⟩

/-- Adds an entry that owns the last `count` entries built. -/
def own (s : Lowering) (e : Entry) (count : Nat) (h : ∀ child ∈ e.children, child ∈ s.built) :
    Lowering :=
  have child_lt : ∀ child ∈ e.children, child < s.table.size :=
    fun child hchild => s.built_lt child (h child hchild)
  have built_lt :
      ∀ id ∈ s.table.size :: s.built.drop count, id < (s.table.push e child_lt).size := by
    intro id hid
    rw [EntryTable.size_push]
    rcases List.mem_cons.mp hid with rfl | hid
    · exact Nat.lt_succ_self _
    · exact Nat.lt_succ_of_lt (s.built_lt id (List.mem_of_mem_drop hid))
  let built := s.table.size :: s.built.drop count
  ⟨s.table.push e child_lt, built, built_lt⟩

def token (s : Lowering) (rule : Rule) (span : Span) (text : String) : Lowering :=
  s.own ⟨rule, span, .token text⟩ 0 fun _ h => absurd h List.not_mem_nil

/-- Makes the entry of a matched rule from the last `count` entries built. -/
def leave (s : Lowering) (rule : Rule) (span : Span) (count : Nat) : Except Fault Lowering :=
  have owned : ∀ id ∈ (s.built.take count).reverse, id ∈ s.built :=
    fun _ h => List.mem_of_mem_take (List.mem_reverse.mp h)
  if rule.role = .repetition then
    match h : OperatorGroup.ofChildren? (s.built.take count).reverse with
    | some groups =>
      .ok (s.own ⟨rule, span, .repetition groups⟩ count fun child hchild =>
        owned child (OperatorGroup.children_of_ofChildren? h ▸ hchild))
    | none => .error ⟨span⟩
  else .ok (s.own ⟨rule, span, .node (s.built.take count).reverse⟩ count owned)

mutual

/-- The number of steps that a matched rule stands for. -/
def stepsOf : ParseTree → Nat
  | .leaf _ _ _ => 1
  | .branch _ _ children => 2 + stepsOfAll children

def stepsOfAll : List ParseTree → Nat
  | [] => 0
  | tree :: rest => stepsOf tree + stepsOfAll rest

end

/-- The number of steps that a stack of steps stands for. -/
def stackSteps : List Step → Nat
  | [] => 0
  | .enter tree :: steps => stepsOf tree + stackSteps steps
  | .leave _ _ _ :: steps => 1 + stackSteps steps

/-- The steps that take up some matched rules in order, before other steps. -/
def enterAll (trees : List ParseTree) (steps : List Step) : List Step :=
  trees.map .enter ++ steps

theorem stackSteps_enterAll (trees : List ParseTree) (steps : List Step) :
    stackSteps (enterAll trees steps) = stepsOfAll trees + stackSteps steps := by
  induction trees with
  | nil => simp [enterAll, stepsOfAll]
  | cons tree rest ih =>
    simp only [enterAll, List.map_cons, List.cons_append, stackSteps, stepsOfAll] at ih ⊢
    omega

/-- Takes all steps of a stack. -/
def run (s : Lowering) : List Step → Except Fault Lowering
  | [] => .ok s
  | .enter (.leaf rule span text) :: steps => (s.token rule span text).run steps
  | .enter (.branch rule span children) :: steps =>
    s.run (enterAll children (.leave rule span children.length :: steps))
  | .leave rule span count :: steps =>
    match s.leave rule span count with
    | .error fault => .error fault
    | .ok s => s.run steps
termination_by steps => stackSteps steps
decreasing_by
  · simp only [stackSteps, stepsOf]
    omega
  · simp only [stackSteps_enterAll, stackSteps, stepsOf]
    omega
  · simp only [stackSteps]
    omega

end Lowering

/-- The syntax tree of a matched rule. The root is the entry built last; there always is
one, and the table's first place stands in where there is none. -/
def SyntaxTree.ofParseTree (source : String) (tree : ParseTree) :
    Except Lowering.Fault SyntaxTree :=
  match Lowering.start.run [.enter tree] with
  | .error fault => .error fault
  | .ok s => .ok ⟨source, s.table, s.built.headD 0⟩

end Reckon
