import ScriptSharp.Directive.Symbols
import ScriptSharp.Proofs.Text.Splitting
import ScriptSharp.Source.File

/-!
# Conditions of texts put together

From one line to the next a scan carries the number of the line, and whether the line begins inside
a block comment; strings and line comments end with their line. So a text may be cut behind any line
feed that is outside of block comments. The conditions of the whole text are those of both pieces,
where the lines of the second piece are counted on from the first: `collect_distributes`.
-/

namespace ScriptSharp

namespace Text

/-- A text that is cut behind a line feed has the lines of both pieces. -/
theorem lines_append_lines (front rest : List Char) :
    lines (front ++ '\n' :: rest) = lines (front ++ ['\n']) ++ lines rest := by
  induction front using lineInduct with
  | last piece plain =>
    rw [lines_append plain, lines_append plain, lines_nil, List.singleton_append]
  | next piece later plain inductionHypothesis =>
    rw [List.append_assoc, List.append_assoc, List.cons_append, List.cons_append,
      lines_append plain, lines_append plain, inductionHypothesis, List.cons_append]

/-- A text that ends in a line feed has as many lines as line feeds. -/
theorem length_lines (front : List Char) :
    (lines (front ++ ['\n'])).length = (front ++ ['\n']).count '\n' := by
  induction front using lineInduct with
  | last piece plain =>
    rw [lines_append plain, List.count_append, List.count_eq_zero.2 plain]
    rfl
  | next piece later plain inductionHypothesis =>
    have none : piece.count '\n' = 0 := List.count_eq_zero.2 plain
    rw [List.append_assoc, List.cons_append, lines_append plain, List.length_cons,
      inductionHypothesis]
    simp [none]

end Text

/-! ## Directives -/

namespace Directive

/-- The directive, `count` lines further down. -/
def moved (count : Nat) (directive : Directive) : Directive :=
  { directive with line := directive.line + count }

/-- What the scan carries over to the next line: whether that line begins in a block comment. -/
def carry (inComment : Bool) (line : List Char) : Bool :=
  if inComment then endsInComment .comment line
  else if (ofLine? 0 line).isSome then false
  else endsInComment .code line

/-- A line that moves down has its directive further down. -/
theorem ofLine?_moved (number count : Nat) (line : List Char) :
    ofLine? (number + count) line = (ofLine? number line).map (moved count) := by
  rw [ofLine?, ofLine?]
  split <;> rfl

/-- One step of the scan. -/
theorem ofLines_carry (number : Nat) (inComment : Bool) (line : List Char)
    (rest : List (List Char)) : ofLines number inComment (line :: rest) =
      (if inComment then [] else (ofLine? number line).toList) ++
        ofLines (number + 1) (carry inComment line) rest := by
  cases inComment with
  | true => rfl
  | false =>
    have anywhere := ofLine?_moved 0 number line
    rw [Nat.zero_add] at anywhere
    cases found : ofLine? 0 line with
    | none =>
      rw [found, Option.map_none] at anywhere
      simp [ofLines, carry, found, anywhere]
    | some directive =>
      rw [found, Option.map_some] at anywhere
      simp [ofLines, carry, found, anywhere]

/-- The scan of further lines goes on with the number and the state that it has arrived at. -/
theorem ofLines_append (number : Nat) (inComment : Bool) (front rest : List (List Char)) :
    ofLines number inComment (front ++ rest) =
      ofLines number inComment front ++
        ofLines (number + front.length) (front.foldl carry inComment) rest := by
  induction front generalizing number inComment with
  | nil => rfl
  | cons line front inductionHypothesis =>
    rw [List.cons_append, ofLines_carry, ofLines_carry, inductionHypothesis, List.append_assoc,
      List.foldl_cons, List.length_cons, Nat.add_assoc, Nat.add_comm 1]

/-- Lines that stand further down give the same directives further down. -/
theorem ofLines_moved (number count : Nat) (inComment : Bool) (lines : List (List Char)) :
    ofLines (number + count) inComment lines =
      (ofLines number inComment lines).map (moved count) := by
  induction lines generalizing number inComment with
  | nil => rfl
  | cons line lines inductionHypothesis =>
    rw [ofLines_carry, ofLines_carry, List.map_append, ← inductionHypothesis, ofLine?_moved,
      Nat.add_right_comm]
    cases inComment with
    | true => rfl
    | false => cases ofLine? number line <;> rfl

/-- Scanning the text ends inside a block comment. -/
def endsInside (text : String) : Bool :=
  (Text.lines text.toList).foldl carry false

/-- The directives of a text that is cut behind a line feed outside of block comments. -/
theorem scan_append {front rest : String} (outside : endsInside (front ++ "\n") = false) :
    scan (front ++ "\n" ++ rest) = scan (front ++ "\n") ++
      (scan rest).map (moved ((front ++ "\n").toList.count '\n')) := by
  have ending : (front ++ "\n").toList = front.toList ++ ['\n'] := String.toList_append
  have cut : Text.lines (front ++ "\n" ++ rest).toList =
      Text.lines (front ++ "\n").toList ++ Text.lines rest.toList := by
    rw [String.toList_append, ending, List.append_assoc, List.singleton_append]
    exact Text.lines_append_lines front.toList rest.toList
  have counted : (Text.lines (front ++ "\n").toList).length =
      (front ++ "\n").toList.count '\n' := by
    rw [ending]
    exact Text.length_lines front.toList
  rw [scan, scan, scan, cut, ofLines_append, ← endsInside, outside, counted, ofLines_moved]

end Directive

/-! ## Conditions -/

namespace SymbolReference

/-- The condition, `count` lines further down. -/
def moved (count : Nat) (reference : SymbolReference) : SymbolReference :=
  { reference with line := reference.line + count }

/-- The conditions of a text that is cut behind a line feed outside of block comments. -/
theorem collect_append (fileName : String) {front rest : String}
    (outside : Directive.endsInside (front ++ "\n") = false) :
    collect fileName (front ++ "\n" ++ rest) = collect fileName (front ++ "\n") ++
      (collect fileName rest).map (moved ((front ++ "\n").toList.count '\n')) := by
  have kept (count : Nat) :
      (fun directive : Directive => directive.kind.carriesExpression) ∘ Directive.moved count =
        fun directive => directive.kind.carriesExpression := rfl
  rw [collect, Directive.scan_append outside, List.filter_append, List.map_append, List.filter_map,
    kept]
  simp only [collect, List.map_map]
  rfl

/-- Adds the conditions of files one after the other, and says how many each of them has. -/
def collectEach (references : List SymbolReference) :
    List SourceFile → List Nat × List SymbolReference
  | [] => ([], references)
  | file :: rest =>
    let (count, references) := collectInto references file.name file.contents
    let (counts, references) := collectEach references rest
    (count :: counts, references)

/-- Collecting from files puts their conditions one behind the other, and counts them for each. -/
theorem collectEach_eq (references : List SymbolReference) (files : List SourceFile) :
    collectEach references files =
      (files.map fun file => (collect file.name file.contents).length,
        references ++ files.flatMap fun file => collect file.name file.contents) := by
  induction files generalizing references with
  | nil => simp [collectEach]
  | cons file files inductionHypothesis =>
    simp [collectEach, collectInto, inductionHypothesis]

/-- The conditions of a text come from its two pieces, where it is cut behind a line feed outside of
block comments, and those of a batch come from its files, in order. Every file adds as many as it
has by itself. -/
theorem collect_distributes (fileName : String) {front rest : String}
    (outside : Directive.endsInside (front ++ "\n") = false) :
    collect fileName (front ++ "\n" ++ rest) = collect fileName (front ++ "\n") ++
        (collect fileName rest).map (moved ((front ++ "\n").toList.count '\n')) ∧
      ∀ references files, collectEach references files =
        (files.map fun file => (collect file.name file.contents).length,
          references ++ files.flatMap fun file => collect file.name file.contents) :=
  ⟨collect_append fileName outside, collectEach_eq⟩

/-- The second piece would hide its condition in the comment of the first one, if that were open. -/
theorem collect_distributes_reopened :
    Directive.endsInside ("#if A\n/* #if B\n*/ var s = \"/*\"; // /*" ++ "\n") = false ∧
      collect "reopened.js" ("#if A\n/* #if B\n*/ var s = \"/*\"; // /*" ++ "\n" ++ "x\n#elif C") =
        [⟨"reopened.js", 1, "A"⟩, ⟨"reopened.js", 5, "C"⟩] := by
  have outside :
      Directive.endsInside ("#if A\n/* #if B\n*/ var s = \"/*\"; // /*" ++ "\n") = false := by
    decide +kernel
  refine ⟨outside, ?_⟩
  rw [(collect_distributes "reopened.js" outside).1]
  decide +kernel

end SymbolReference

end ScriptSharp
