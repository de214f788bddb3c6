import Reckon.Proofs.Grammar.Settling.Text
import Reckon.Proofs.Syntax.Layout
import Reckon.Syntax.Parse

/-!
Which texts are read. Within the nesting limit a text is read into a tree just
when the scan of it comes to its end, and the place named by the failure is the
one where the scan sticks. The tree is the lowering of a derivation that covers
the text from its first token to its last.
-/

namespace Reckon

open Grammar

/-- A syntax tree is the lowering of a derived expression that takes up the whole source. -/
structure SyntaxTree.IsOf (t : SyntaxTree) (tree : ParseTree) (source : String) : Prop where
  derives : ∃ stop, Derives .expression (Cursor.start source.toList).skipLayout [tree] stop ∧
    stop.skipLayout.rest = []
  scan_eq : (Scanner.start source.toList).run = ⟨tree.texts, none⟩
  source_eq : t.source = source
  entries_eq : t.table.entries.toList = tree.entries 0
  root_eq : t.root = tree.descendants

namespace SyntaxTree

variable {source : String} {limit nesting : Nat}

/-- What the grammar matches is an expression and the end of the text, and the expression can be
lowered. -/
theorem exists_whole_of_run {trees : List ParseTree}
    (h : Grammar.run .main source.toList = .ok trees) :
    ∃ tree stop t, trees = [(Cursor.start source.toList).whole stop tree] ∧
      expression? trees = some tree ∧ ofParseTree source tree = .ok t ∧ t.IsOf tree source := by
  rcases run_main source.toList with ⟨tree, stop, hrun, hderives, hend, hscan⟩ |
    ⟨place, failed, hrun, -⟩
  · obtain rfl := Except.ok.inj (h.symm.trans hrun)
    obtain ⟨⟨hpaired, -⟩, -⟩ := hderives.paired
    obtain ⟨t, ht, hsource, hentries, hroot⟩ := ofParseTree_eq_ok source hpaired
    have htree : tree.rule = .expression := by
      cases hderives
      rfl
    refine ⟨tree, _, t, rfl, ?_, ht, ⟨⟨stop, hderives, hend⟩, hscan, hsource, hentries, hroot⟩⟩
    simp [expression?, Cursor.whole, Cursor.branch, ParseTree.children, htree]
  · rw [h] at hrun
    cases hrun

/-- What the grammar matches holds an expression, which can be lowered. -/
theorem exists_ofParseTree_of_run {trees : List ParseTree}
    (h : Grammar.run .main source.toList = .ok trees) :
    ∃ tree t, expression? trees = some tree ∧ ofParseTree source tree = .ok t ∧
      t.IsOf tree source := by
  obtain ⟨tree, -, t, -, hexpression, ht, hof⟩ := exists_whole_of_run h
  exact ⟨tree, t, hexpression, ht, hof⟩

/-- A text within the nesting limit is read, or the failure names the place where the scan of the
text sticks, and what the rules that fail there stand for. -/
theorem parse_or_sticks (h : Nesting.deepest limit source.toList = .ok nesting) :
    (∃ t tree, parse source limit = .ok t ∧ t.IsOf tree source) ∨
      ∃ found place failed,
        parse source limit = .error
          ⟨.unexpected (Expectation.ofRules (Rule.all.filter fun r => failed.contains r)) found,
            ⟨place, place⟩⟩ ∧
        Sticks (.start source.toList) place failed := by
  rcases run_main source.toList with ⟨_, _, hrun, -⟩ | ⟨place, failed, hrun, hsticks⟩
  · obtain ⟨tree, t, hexpression, ht, hof⟩ := exists_ofParseTree_of_run hrun
    exact .inl ⟨t, tree, by simp only [parse, h, hrun, hexpression, ht], hof⟩
  · refine .inr ⟨.startingAt source.toList place, place, failed, ?_, hsticks⟩
    simp only [parse, h, hrun, SyntaxError.ofMismatch, SyntaxError.ofObstacle]

/-- A text within the nesting limit is read, or the failure names the place where the scan of the
text sticks. -/
theorem parse_cases (h : Nesting.deepest limit source.toList = .ok nesting) :
    (∃ t tree, parse source limit = .ok t ∧ t.IsOf tree source) ∨
      ∃ expected found place,
        parse source limit = .error ⟨.unexpected expected found, ⟨place, place⟩⟩ ∧
          (Scanner.start source.toList).run.stuckAt? = some place := by
  refine (parse_or_sticks h).imp_right ?_
  rintro ⟨found, place, failed, hparse, hsticks⟩
  exact ⟨_, found, place, hparse, hsticks.stuckAt?⟩

/-- Every tree that is read comes from a derivation. -/
theorem isOf_of_parse {t : SyntaxTree} (h : parse source limit = .ok t) :
    ∃ tree, t.IsOf tree source := by
  cases hnesting : Nesting.deepest limit source.toList with
  | error excess => simp [parse, hnesting] at h
  | ok nesting =>
    rcases parse_cases hnesting with ⟨t', tree, ht', hof⟩ | ⟨expected, found, place, hfail, -⟩
    · rw [h] at ht'
      cases ht'
      exact ⟨tree, hof⟩
    · rw [h] at hfail
      cases hfail

/-- Whether a text is read depends on the limit only through its nesting. -/
theorem parse_of_deepest {t : SyntaxTree} {limit' : Nat} (h : parse source limit = .ok t)
    (hnesting : Nesting.deepest limit' source.toList = .ok nesting) :
    parse source limit' = .ok t := by
  cases hn : Nesting.deepest limit source.toList with
  | error excess => simp [parse, hn] at h
  | ok nesting' =>
    simp only [parse, hn, hnesting] at h ⊢
    cases hrun : Grammar.run .main source.toList with
    | error mismatch => simp [hrun] at h
    | ok trees =>
      rw [hrun] at h
      exact h

theorem exists_deepest_of_parse {t : SyntaxTree} (h : parse source limit = .ok t) :
    ∃ nesting, Nesting.deepest limit source.toList = .ok nesting := by
  cases hn : Nesting.deepest limit source.toList with
  | error excess => simp [parse, hn] at h
  | ok nesting => exact ⟨nesting, rfl⟩

/-- The reader accepts just the texts that one scan from left to right accepts, and where it
rejects a text it names the place where the scan sticks. -/
theorem parse_iff_scan (h : Nesting.deepest limit source.toList = .ok nesting) :
    ((∃ t, parse source limit = .ok t) ↔ (Scanner.start source.toList).run.stuckAt? = none) ∧
      ∀ place, (Scanner.start source.toList).run.stuckAt? = some place →
        ∃ expected found,
          parse source limit = .error ⟨.unexpected expected found, ⟨place, place⟩⟩ := by
  rcases parse_cases h with ⟨t, tree, hparse, hof⟩ | ⟨expected, found, place, hparse, hscan⟩
  · have hscan := congrArg Scan.stuckAt? hof.scan_eq
    refine ⟨⟨fun _ => hscan, fun _ => ⟨t, hparse⟩⟩, ?_⟩
    intro place hplace
    rw [hscan] at hplace
    cases hplace
  · constructor
    · constructor
      · rintro ⟨t, ht⟩
        rw [hparse] at ht
        cases ht
      · intro hnone
        rw [hscan] at hnone
        cases hnone
    · intro place' hplace
      rw [hscan] at hplace
      cases hplace
      exact ⟨expected, found, hparse⟩

theorem parse_sticks_behind_name :
    ∃ expected found, parse "a $" 3 = .error ⟨.unexpected expected found, ⟨2, 2⟩⟩ := by
  have hnesting : Nesting.deepest 3 "a $".toList = .ok 0 := by decide
  have hname : (Scanner.start "a $".toList).next? =
      some (["a"], ⟨.operator, [], ⟨" $".toList, 1⟩⟩) := by rfl
  have hstuck : Scanner.next? ⟨.operator, [], ⟨" $".toList, 1⟩⟩ = none := by rfl
  have hscan : (Scanner.start "a $".toList).run.stuckAt? = some 2 := by
    rw [Scanner.run_of_next? hname, Scanner.run_of_next?_eq_none hstuck]
    rfl
  exact (parse_iff_scan hnesting).2 2 hscan

end SyntaxTree

end Reckon
