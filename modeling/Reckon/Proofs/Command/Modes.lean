import Reckon.Command.Run
import Reckon.Proofs.Command.Binding
import Reckon.Proofs.Text.Basic
import Reckon.Proofs.Syntax.Outline

/-!
The ways to run the command. To give it lines as input is to give it each of
them as its one expression, and to write what the runs write one after the
other. Where trees are asked for, the text is read and its tree evaluated apart
from the plain evaluation; all the same the values and the reports are the same
ones, with the tree before them.
-/

namespace Reckon.Command

/-- A valid binding on the command line, attached to its option or as the next argument. -/
structure BindingArgument where
  text : String
  attached : Bool
  binding : String × Value
  reads : Command.binding text.toList = .ok binding

namespace BindingArgument

def arguments (b : BindingArgument) : List String :=
  if b.attached then ["--var=" ++ b.text] else ["--var", b.text]

end BindingArgument

/-- The arguments that give some bindings, and between them ask for trees if that is wanted. -/
def arguments (before behind : List BindingArgument) (debugTree : Bool) : List String :=
  before.flatMap BindingArgument.arguments ++ (if debugTree then ["--debug-tree"] else []) ++
    behind.flatMap BindingArgument.arguments

/-- A line of input with its end: a line feed, or a carriage return and a line feed. It has no line
feed in it, and no carriage return at its end, which would belong to the end of the line. -/
structure Line where
  text : String
  returns : Bool
  no_lineFeed : '\n' ∉ text.toList
  no_return : text.toList.getLast? ≠ some '\r'

def Line.written (line : Line) : String := line.text ++ if line.returns then "\r\n" else "\n"

/-- No binding starts with a hyphen, so none is taken for an option. -/
theorem head?_ne_hyphen {text : List Char} {b : String × Value} (h : binding text = .ok b) :
    text.head? ≠ some '-' := by
  obtain ⟨n, v⟩ := b
  obtain ⟨before, literal, rfl, hmem⟩ := exists_split h
  obtain ⟨-, hname, -⟩ := (binding_append hmem).mp h
  cases before with
  | nil => simp
  | cons a before =>
    rw [List.cons_append, List.head?_cons, Option.some_inj.ne]
    rintro rfl
    have hhyphen : '-' ∈ Text.trim ('-' :: before) := Text.mem_trim List.mem_cons_self (by decide)
    cases htrim : Text.trim ('-' :: before) with
    | nil =>
      rw [htrim] at hhyphen
      cases hhyphen
    | cons c more =>
      rw [htrim] at hname hhyphen
      obtain ⟨hstart, hmore⟩ := Bool.and_eq_true_iff.mp hname
      rcases List.mem_cons.mp hhyphen with rfl | hmem
      · revert hstart
        decide
      · have hpart := List.all_eq_true.mp hmore '-' hmem
        revert hpart
        decide

namespace Reading

variable {s s' s'' : Reading} {bindings : List (String × Value)} {debugTree : Bool}
  {only : Bool} {argument : String} {args args' : List String}

/-- A reading takes up some arguments and becomes another. -/
def Takes (s : Reading) (args : List String) (s' : Reading) : Prop :=
  args.foldlM take s = .ok s'

theorem Takes.nil (s : Reading) : s.Takes [] s := rfl

theorem Takes.cons (h : s.take argument = .ok s') (h' : s'.Takes args s'') :
    s.Takes (argument :: args) s'' := by
  rw [Takes, List.foldlM_cons, h]
  exact h'

theorem Takes.append (h : s.Takes args s') (h' : s'.Takes args' s'') :
    s.Takes (args ++ args') s'' := by
  rw [Takes, List.foldlM_append, h]
  exact h'

/-- These bindings and this flag are settled, and nothing else. -/
def settled (bindings : List (String × Value)) (debugTree only : Bool) : Reading :=
  ⟨⟨bindings, .default, debugTree, none⟩, false, none, only⟩

/-- Behind them the option for a binding has been given, and perhaps its value. -/
def waiting (bindings : List (String × Value)) (debugTree only : Bool) (value : Option String) :
    Reading :=
  { settled bindings debugTree only with outstanding := some (.option .var value) }

/-- These bindings and this flag have been given; the last binding may be outstanding. -/
inductive Stands : Reading → List (String × Value) → Bool → Bool → Prop
  | complete (bindings : List (String × Value)) (debugTree only : Bool) :
      Stands (settled bindings debugTree only) bindings debugTree only
  | pending (bindings : List (String × Value)) (debugTree only : Bool) (b : BindingArgument) :
      Stands (waiting bindings debugTree only (some b.text)) (bindings ++ [b.binding]) debugTree
        only

theorem assign_binding (bindings : List (String × Value)) (debugTree only : Bool)
    (b : BindingArgument) :
    (settled bindings debugTree only).assign .var b.text =
      .ok (settled (bindings ++ [b.binding]) debugTree only) := by
  simp only [assign, b.reads]
  rfl

theorem Stands.settle_eq (h : s.Stands bindings debugTree only) :
    s.settle = .ok (settled bindings debugTree only) := by
  cases h with
  | complete => rfl
  | pending bindings debugTree only b => exact assign_binding bindings debugTree only b

theorem Stands.expressionsOnly_eq (h : s.Stands bindings debugTree only) :
    s.expressionsOnly = only := by
  cases h <;> rfl

theorem Stands.hasExpression_eq (h : s.Stands bindings debugTree only) :
    s.hasExpression = false := by
  cases h <;> rfl

theorem take_eq_takeWord (hs : s.expressionsOnly = false)
    (h : argument.toList.head? ≠ some '-') : s.take argument = s.takeWord argument := by
  rw [take, hs]
  cases hlist : argument.toList with
  | nil => rfl
  | cons c rest =>
    rw [hlist, List.head?_cons, Option.some_inj.ne] at h
    simp [h]

theorem take_attached (hs : s.expressionsOnly = false) (value : String) :
    s.take ("--var=" ++ value) = s.takeValueOption .var (some value) := by
  have hlist : ("--var=" ++ value).toList =
      '-' :: '-' :: 'v' :: 'a' :: 'r' :: '=' :: value.toList := String.toList_append
  simp [take, hs, hlist, takeOption]

/-- The option for a binding, given apart from its value. -/
theorem take_var (h : s.Stands bindings debugTree false) :
    s.take "--var" = .ok (waiting bindings debugTree false none) := by
  have htake : s.take "--var" = s.takeValueOption .var none := by
    rw [take, h.expressionsOnly_eq]
    rfl
  rw [htake, takeValueOption, h.settle_eq]
  rfl

theorem take_value (bindings : List (String × Value)) (debugTree : Bool) (b : BindingArgument) :
    (waiting bindings debugTree false none).take b.text =
      .ok (waiting bindings debugTree false (some b.text)) := by
  rw [take_eq_takeWord rfl (head?_ne_hyphen b.reads)]
  rfl

/-- The arguments of a binding add it to those that were given. -/
theorem exists_takes_binding (h : s.Stands bindings debugTree false) (b : BindingArgument) :
    ∃ s', s.Takes b.arguments s' ∧ s'.Stands (bindings ++ [b.binding]) debugTree false := by
  rw [BindingArgument.arguments]
  by_cases hattached : b.attached = true
  · refine ⟨_, ?_, .complete _ _ _⟩
    rw [if_pos hattached]
    apply Takes.cons _ (.nil _)
    rw [take_attached h.expressionsOnly_eq, takeValueOption, h.settle_eq]
    exact assign_binding bindings debugTree false b
  · refine ⟨_, ?_, .pending bindings debugTree false b⟩
    rw [if_neg hattached]
    exact .cons (take_var h) (.cons (take_value bindings debugTree b) (.nil _))

theorem exists_takes_bindings (h : s.Stands bindings debugTree false)
    (bs : List BindingArgument) :
    ∃ s', s.Takes (bs.flatMap BindingArgument.arguments) s' ∧
      s'.Stands (bindings ++ bs.map BindingArgument.binding) debugTree false := by
  induction bs generalizing s bindings with
  | nil =>
    refine ⟨s, .nil s, ?_⟩
    rwa [List.map_nil, List.append_nil]
  | cons b bs ih =>
    obtain ⟨s₁, hfirst, hstands₁⟩ := exists_takes_binding h b
    obtain ⟨s₂, hrest, hstands₂⟩ := ih hstands₁
    refine ⟨s₂, ?_, ?_⟩
    · rw [List.flatMap_cons]
      exact hfirst.append hrest
    · rwa [List.append_assoc, List.singleton_append, ← List.map_cons] at hstands₂

theorem exists_takes_debugTree (h : s.Stands bindings false false) (debugTree : Bool) :
    ∃ s', s.Takes (if debugTree then ["--debug-tree"] else []) s' ∧
      s'.Stands bindings debugTree false := by
  cases debugTree with
  | false => exact ⟨s, .nil s, h⟩
  | true =>
    have htake : s.take "--debug-tree" = s.takeFlag none askTree := by
      rw [take, h.expressionsOnly_eq]
      rfl
    refine ⟨_, .cons ?_ (.nil _), .complete bindings true false⟩
    rw [htake, takeFlag, h.settle_eq]
    rfl

theorem exists_takes_arguments (before behind : List BindingArgument) (debugTree : Bool) :
    ∃ s, start.Takes (arguments before behind debugTree) s ∧
      s.Stands ((before ++ behind).map BindingArgument.binding) debugTree false := by
  obtain ⟨s₁, hbefore, hstands₁⟩ := exists_takes_bindings (.complete [] false false) before
  obtain ⟨s₂, hflag, hstands₂⟩ := exists_takes_debugTree hstands₁ debugTree
  obtain ⟨s₃, hbehind, hstands₃⟩ := exists_takes_bindings hstands₂ behind
  refine ⟨s₃, (hbefore.append hflag).append hbehind, ?_⟩
  rwa [List.map_append]

theorem exists_take_separator (h : s.Stands bindings debugTree false) :
    ∃ s', s.take "--" = .ok s' ∧ s'.Stands bindings debugTree true := by
  have htake : s.take "--" = .ok { s with expressionsOnly := true } := by
    rw [take, h.expressionsOnly_eq]
    rfl
  refine ⟨_, htake, ?_⟩
  cases h with
  | complete => exact .complete bindings debugTree true
  | pending bindings debugTree only b => exact .pending bindings debugTree true b

/-- Behind a lone `--` any argument is the expression. -/
theorem exists_takes_expression (h : s.Stands bindings debugTree false) (text : String) :
    ∃ s' s'', s.Takes ["--", text] s' ∧ s'.settle = .ok s'' ∧
      s''.options = ⟨bindings, .default, debugTree, some text⟩ := by
  obtain ⟨s₁, hseparator, hstands₁⟩ := exists_take_separator h
  have htake : s₁.take text = .ok { settled bindings debugTree true with
      outstanding := some (.expression text) } := by
    rw [take, if_pos hstands₁.expressionsOnly_eq, takeExpression, hstands₁.hasExpression_eq,
      hstands₁.settle_eq]
    rfl
  exact ⟨_, _, .cons hseparator (.cons htake (.nil _)), rfl, rfl⟩

end Reading

theorem Options.ofArguments_eq {args : List String} {s s' : Reading}
    (h : Reading.start.Takes args s) (hsettle : s.settle = .ok s') :
    ofArguments args = .ok s'.options := by
  have hfold : args.foldlM Reading.take Reading.start = .ok s := h
  rw [ofArguments, hfold]
  change (s.settle >>= fun s => .ok s.options) = _
  rw [hsettle]
  rfl

variable (before behind : List BindingArgument) (debugTree : Bool)

theorem ofArguments_arguments :
    Options.ofArguments (arguments before behind debugTree) =
      .ok ⟨(before ++ behind).map BindingArgument.binding, .default, debugTree, none⟩ := by
  obtain ⟨s, htakes, hstands⟩ := Reading.exists_takes_arguments before behind debugTree
  exact Options.ofArguments_eq htakes hstands.settle_eq

theorem ofArguments_expression (text : String) :
    Options.ofArguments (arguments before behind debugTree ++ ["--", text]) =
      .ok ⟨(before ++ behind).map BindingArgument.binding, .default, debugTree, some text⟩ := by
  obtain ⟨s, htakes, hstands⟩ := Reading.exists_takes_arguments before behind debugTree
  obtain ⟨s', s'', htakes', hsettle, hoptions⟩ := Reading.exists_takes_expression hstands text
  rw [Options.ofArguments_eq (htakes.append htakes') hsettle, hoptions]

theorem run_eq {args : List String} {options : Options} (h : Options.ofArguments args = .ok options)
    (input : String) : run args input = options.run input := by
  rw [run, h]

theorem inputLines_eq (input : List Char) : inputLines input = inputLines.lines [] input := by
  cases input <;> rfl

theorem lines_cons {c : Char} (h : c ≠ '\n') (line rest : List Char) :
    inputLines.lines line (c :: rest) = inputLines.lines (c :: line) rest := by
  rw [inputLines.lines]
  exact h

/-- What is no line feed goes on with the line. -/
theorem lines_append {text : List Char} (h : '\n' ∉ text) (line rest : List Char) :
    inputLines.lines line (text ++ rest) = inputLines.lines (text.reverse ++ line) rest := by
  induction text generalizing line with
  | nil => rfl
  | cons c text ih =>
    obtain ⟨hc, htext⟩ := List.ne_and_not_mem_of_not_mem_cons h
    rw [List.cons_append, lines_cons (Ne.symm hc), ih htext,
      List.reverse_cons, List.append_assoc, List.singleton_append]

/-- A line feed ends a line, and takes a carriage return before it along. -/
theorem lines_lineFeed (line rest : List Char) :
    inputLines.lines line ('\n' :: rest) =
      (if line.head? = some '\r' then line.tail else line).reverse :: inputLines.lines [] rest :=
  rfl

theorem lines_written (line : Line) (rest : List Char) :
    inputLines.lines [] (line.written.toList ++ rest) =
      line.text.toList :: inputLines.lines [] rest := by
  rw [Line.written, String.toList_append, List.append_assoc, lines_append line.no_lineFeed,
    List.append_nil]
  by_cases hreturns : line.returns = true
  · have hend : "\r\n".toList ++ rest = ['\r'] ++ '\n' :: rest := rfl
    rw [if_pos hreturns, hend, lines_append (by decide), lines_lineFeed]
    simp
  · have hend : "\n".toList ++ rest = '\n' :: rest := rfl
    rw [if_neg hreturns, hend, lines_lineFeed, if_neg, List.reverse_reverse]
    rw [List.head?_reverse]
    exact line.no_return

theorem inputLines_written (lines : List Line) :
    (inputLines (String.join (lines.map Line.written)).toList).map String.ofList =
      lines.map Line.text := by
  rw [inputLines_eq, String.toList_join]
  induction lines with
  | nil => rfl
  | cons line lines ih =>
    rw [List.map_cons, List.flatMap_cons, lines_written, List.map_cons, List.map_cons, ih,
      String.ofList_toList]

/-- What is shown of the tree of a text: nothing of a blank one or one that is not read at the
default limit, else a heading, the tree and an empty line. -/
def shownTree (text : String) : String :=
  if Text.trim text.toList = [] then ""
  else
    match SyntaxTree.parse text with
    | .error _ => ""
    | .ok tree => "=== Parse Tree ===\n" ++ tree.display ++ "\n"

theorem treeText_eq (tree : SyntaxTree) :
    treeText tree = "=== Parse Tree ===\n" ++ tree.display ++ "\n" := by
  simp [treeText, SyntaxTree.display, String.append_assoc]

/-- The tree is shown before the reply that is given without it. -/
theorem reply_true (env : Environment) (text : String) :
    reply true env text =
      (shownTree text ++ (reply false env text).1, (reply false env text).2) := by
  rw [reply, reply, shownTree]
  by_cases hblank : Text.trim text.toList = []
  · simp only [if_pos hblank]
    rfl
  · simp only [if_neg hblank, if_true, Bool.false_eq_true, if_false]
    rw [Source.evaluate, Source.parse]
    cases hparse : SyntaxTree.parse text with
    | error error => simp only [String.empty_append]; rfl
    | ok tree =>
      obtain ⟨_, hof⟩ := SyntaxTree.isOf_of_parse hparse
      simp only [Source.evaluateTree, hof.source_eq, treeText_eq]
      cases Evaluation.evaluate tree env <;> rfl

/-- What the command writes for a text as its one expression, whatever its input is. -/
theorem run_expression (text input : String) :
    run (arguments before behind debugTree ++ ["--", text]) input =
      ⟨0, (reply debugTree (.ofList ((before ++ behind).map BindingArgument.binding)) text).1,
        (reply debugTree (.ofList ((before ++ behind).map BindingArgument.binding)) text).2⟩ := by
  rw [run_eq (ofArguments_expression before behind debugTree text)]
  simp [Options.run, Options.texts]

theorem run_input (lines : List Line) :
    run (arguments before behind debugTree) (String.join (lines.map Line.written)) =
      ⟨0, String.join (lines.map fun line =>
          (reply debugTree (.ofList ((before ++ behind).map BindingArgument.binding)) line.text).1),
        String.join (lines.map fun line =>
          (reply debugTree (.ofList ((before ++ behind).map BindingArgument.binding))
            line.text).2)⟩ := by
  rw [run_eq (ofArguments_arguments before behind debugTree)]
  simp only [Options.run, Options.texts, inputLines_written, List.map_map]
  rfl

/-- Lines as input are evaluated as they are one by one, each as the expression behind `--`: the
command writes what those runs write, in order, and ends well. To ask for trees changes no report,
and the output only by the tree of each line that has one, before the plain output of the line. -/
theorem run_lines (lines : List Line) (unread : String) :
    run (arguments before behind debugTree) (String.join (lines.map Line.written)) =
        ⟨0, String.join (lines.map fun line =>
            (run (arguments before behind debugTree ++ ["--", line.text]) unread).output),
          String.join (lines.map fun line =>
            (run (arguments before behind debugTree ++ ["--", line.text]) unread).errors)⟩ ∧
      (run (arguments before behind true) (String.join (lines.map Line.written))).errors =
        (run (arguments before behind false) (String.join (lines.map Line.written))).errors ∧
      (run (arguments before behind true) (String.join (lines.map Line.written))).output =
        String.join (lines.map fun line => shownTree line.text ++
          (run (arguments before behind false ++ ["--", line.text]) unread).output) := by
  refine ⟨?lines, ?reports, ?trees⟩
  case lines =>
    rw [run_input]
    simp only [run_expression]
  case reports =>
    rw [run_input, run_input]
    simp only [reply_true]
  case trees =>
    rw [run_input]
    simp only [reply_true, run_expression]

/-- A value, a blank line and a failure, with both ends of lines and the tree of the first. -/
theorem run_mixed_lines :
    run ["--var=x=1", "--debug-tree"] "x+1\r\n\t\nx+\n" =
      ⟨0, String.join (["x+1", "\t", "x+"].map fun text =>
          (run ["--var=x=1", "--debug-tree", "--", text] "y").output),
        String.join (["x+1", "\t", "x+"].map fun text =>
          (run ["--var=x=1", "--debug-tree", "--", text] "y").errors)⟩ := by
  have hbinding : binding "x=1".toList = .ok ("x", .integer 1) := by decide +kernel
  exact (run_lines [⟨"x=1", true, _, hbinding⟩] [] true
    [⟨"x+1", true, by decide, by decide⟩, ⟨"\t", false, by decide, by decide⟩,
      ⟨"x+", false, by decide, by decide⟩] "y").1

end Reckon.Command
