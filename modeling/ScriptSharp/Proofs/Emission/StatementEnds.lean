import ScriptSharp.Proofs.Emission.LineEnds
import ScriptSharp.Proofs.Reading.Statements

/-!
# Line ends of statements

The code of an expression and the lines of a statement end their lines where `Break.ofExpr` and
`Break.ofStmt` say: `Printer.lineEnds_expr` and `Printer.lineEnds_stmt`. Emission adds nothing that
ends a line besides the line feeds behind the lines, so every case adds up the line ends of the
parts.
-/

namespace ScriptSharp.Emit

open Node

/-! ## Code -/

section Code

variable {code : Code}

/-- Parentheses add no line end. -/
theorem lineEnds_parenthesized : lineEnds code.parenthesized.characters =
    lineEnds code.characters := by
  rw [Code.characters_parenthesized]
  simp [isLineEnd]

/-- The parentheses around an operand add no line end. -/
theorem lineEnds_enclose (least : Precedence) (operand : Expr) :
    lineEnds (enclose least operand code).characters = lineEnds code.characters := by
  rw [enclose]
  split
  · exact lineEnds_parenthesized
  · rfl

/-- The parentheses behind a sign add no line end. -/
theorem lineEnds_encloseSigned (operand : Expr) :
    lineEnds (encloseSigned operand code).characters = lineEnds code.characters := by
  simp only [encloseSigned]
  split
  · rw [lineEnds_parenthesized, lineEnds_enclose]
  · rw [lineEnds_enclose]

/-- The keyword in front of an argument adds no line end. -/
theorem lineEnds_withModifier (signature : Option Signature) (index : Nat) :
    lineEnds (withModifier signature index code).characters = lineEnds code.characters := by
  rw [withModifier]
  split
  case h_1 keyword found =>
    obtain ⟨modifier, -, isKeyword⟩ := Option.bind_eq_some_iff.1 found
    cases modifier <;> cases isKeyword <;> simp [Token.text, isLineEnd]
  case h_2 => rfl

/-- Codes with commas between them have the line ends of each. -/
theorem lineEnds_commaSeparated (codes : List Code) :
    lineEnds (Code.commaSeparated codes).characters =
      codes.flatMap fun code => lineEnds code.characters := by
  induction codes with
  | nil => rfl
  | cons first rest inductionHypothesis =>
    cases rest with
    | nil => simp [Code.commaSeparated]
    | cons second rest =>
      rw [List.flatMap_cons, ← inductionHypothesis]
      simp [Code.commaSeparated, Token.text, isLineEnd]

/-- The operators between operands have no line end. -/
theorem smooth_binary (op : BinaryOp) : Smooth op.symbol.toList := by
  cases op <;> decide

/-- The operators on one operand have no line end. -/
theorem smooth_unary (op : UnaryOp) : Smooth op.symbol.toList := by
  cases op <;> decide

/-- The signs of assignments have no line end. -/
theorem smooth_assign (op : Option BinaryOp) : Smooth (assignSymbol op).toList := by
  cases op with
  | none => decide
  | some op => cases op <;> decide

/-- Empty dimensions have no line end. -/
theorem smooth_dimensions (count : Nat) :
    Smooth (Code.characters (List.replicate count [Token.symbol "[", .symbol "]"]).flatten) := by
  induction count with
  | zero => rfl
  | succ count inductionHypothesis =>
    rw [List.replicate_succ, List.flatten_cons, Code.characters_append, smooth_append]
    exact ⟨by decide, inductionHypothesis⟩

/-- An operator with blanks around it. -/
theorem lineEnds_operator {left right : Code} {symbol : String} (smooth : Smooth symbol.toList) :
    lineEnds (Code.characters (left ++ [.space, .symbol symbol, .space] ++ right)) =
      lineEnds left.characters ++ lineEnds right.characters := by
  have ofSymbol : lineEnds symbol.toList = [] := smooth
  simp [Token.text, isLineEnd, ofSymbol]

end Code

/-! ## Lines -/

/-- The line ends of lines, where a line feed stands behind each of them. -/
def Line.ends (lines : List Line) : List Char :=
  lines.flatMap fun line => lineEnds line.text.toList ++ ['\n']

section Lines

variable {line : Line} {lines others : List Line}

@[simp]
theorem Line.ends_nil : Line.ends [] = [] := rfl

/-- A line has the line ends of its text and one behind it. -/
@[simp]
theorem Line.ends_cons :
    Line.ends (line :: lines) = lineEnds line.text.toList ++ '\n' :: Line.ends lines := by
  simp [Line.ends]

/-- Lines in a row have the line ends of both parts. -/
@[simp]
theorem Line.ends_append : Line.ends (lines ++ others) = Line.ends lines ++ Line.ends others :=
  List.flatMap_append

/-- Braces add one line in front of their lines and one behind them. -/
@[simp]
theorem Line.ends_braced (depth : Nat) :
    Line.ends (braced depth lines) = '\n' :: (Line.ends lines ++ ['\n']) := by
  simp [braced, isLineEnd]

/-- Indentation has no line end. -/
theorem smooth_indentation (width depth : Nat) :
    Smooth (Line.indentation width depth).toList := by
  rw [Line.indentation, String.toList_ofList, smooth_iff]
  intro character member
  rw [List.eq_of_mem_replicate member]
  rfl

/-- A line has the line ends of its text, however deep it stands. -/
theorem lineEnds_render (width : Nat) (line : Line) :
    lineEnds (line.render width).toList = lineEnds line.text.toList := by
  rw [Line.render, String.toList_append, lineEnds_append, smooth_indentation, List.nil_append]

/-- The lines between the braces of a function literal. -/
theorem lineEnds_body (width depth : Nat) (lines : List Line) :
    lineEnds ("\x7b\n" ++ String.join (lines.map fun line => line.render width ++ "\n") ++
      Line.indentation width depth ++ "\x7d").toList = '\n' :: Line.ends lines := by
  have inside : lineEnds (String.join (lines.map fun line => line.render width ++ "\n")).toList =
      Line.ends lines := by
    induction lines with
    | nil => rfl
    | cons line lines inductionHypothesis =>
      rw [List.map_cons, String.join_cons, String.toList_append, lineEnds_append,
        inductionHypothesis, String.toList_append, lineEnds_append, lineEnds_render]
      simp [isLineEnd]
  have indented : lineEnds (Line.indentation width depth).toList = [] :=
    smooth_indentation width depth
  simp only [String.toList_append, lineEnds_append, inside, indented]
  simp [isLineEnd]

end Lines

/-! ## Pieces that are emitted one by one -/

/-- What results of a step hold of characters is what the items hold of breaks, item by item. -/
theorem flatMap_mapM {α β : Type} {step : α → Except Fault β} {measure : β → List Char}
    {breaks : α → List Break} {items : List α} {results : List β}
    (each : ∀ item ∈ items, ∀ result, step item = .ok result →
      measure result = Break.characters (breaks item))
    (emitted : items.mapM step = .ok results) :
    results.flatMap measure = Break.characters (items.flatMap breaks) := by
  induction items generalizing results with
  | nil =>
    obtain rfl := Except.ok.inj emitted
    rfl
  | cons first rest inductionHypothesis =>
    obtain ⟨ofFirst, ofRest⟩ := List.forall_mem_cons.1 each
    simp only [List.mapM_cons, bind_eq_ok, pure_eq_ok] at emitted
    obtain ⟨result, emittedFirst, others, emittedRest, rfl⟩ := emitted
    rw [List.flatMap_cons, ofFirst result emittedFirst, inductionHypothesis ofRest emittedRest,
      List.flatMap_cons, Break.characters_append]

/-- A declaration has the line ends of its initializer. -/
theorem lineEnds_declarationText {ty : String} {name : Ident} (smooth : Smooth ty.toList)
    (smoothName : Smooth name.name.toList) (init : Option String) :
    lineEnds (declarationText ty name init).toList =
      lineEnds (init.getD "").toList := by
  have ofType : lineEnds ty.toList = [] := smooth
  have ofName : lineEnds name.render.toList = [] := smooth_render smoothName
  cases init <;> simp [declarationText, ofType, ofName, isLineEnd]

/-! ## Expressions -/

namespace Printer

variable {printer : Printer} {code : Code}

/-- The code of a type has no line end. -/
theorem smooth_typeCode {ty : Ty} (smooth : SmoothTypes printer.names ty.handles)
    (emitted : printer.typeCode ty = .ok code) : lineEnds code.characters = [] := by
  simp only [typeCode, bind_eq_ok, pure_eq_ok] at emitted
  obtain ⟨text, rendered, rfl⟩ := emitted
  have spelled : Code.characters [.typeName text] = text.toList := by simp [Token.text]
  rw [spelled]
  exact smooth_type ty text smooth rendered

/-- The code of type arguments has no line end. -/
theorem smooth_typeArgsCode {types : List Ty}
    (smooth : SmoothTypes printer.names (Ty.handlesAll types))
    (emitted : printer.typeArgsCode types = .ok code) : lineEnds code.characters = [] := by
  simp only [typeArgsCode, bind_eq_ok] at emitted
  obtain ⟨texts, rendered, emitted⟩ := emitted
  have each : lineEnds (", ".intercalate texts).toList = [] :=
    smooth_list (smooth_types types texts smooth rendered)
  split at emitted
  · obtain rfl := pure_eq_ok.1 emitted
    rfl
  · obtain rfl := pure_eq_ok.1 emitted
    simp only [List.cons_append, Code.characters_cons, Code.characters_append,
      characters_typeNames, lineEnds_append, each]
    simp [Token.text, isLineEnd]

/-- The code of a parameter of a lambda has no line end. -/
theorem smooth_lambdaParamCode {param : LambdaParam} (smoothName : Smooth param.name.name.toList)
    (smoothType : ∀ ty ∈ param.ty, SmoothTypes printer.names ty.handles)
    (emitted : printer.lambdaParamCode param = .ok code) : lineEnds code.characters = [] := by
  have ofName : lineEnds param.name.render.toList = [] := smooth_render smoothName
  rw [lambdaParamCode] at emitted
  split at emitted
  case h_1 ty typed =>
    simp only [bind_eq_ok, pure_eq_ok] at emitted
    obtain ⟨typeText, emittedType, rfl⟩ := emitted
    have ofType := smooth_typeCode (smoothType ty typed) emittedType
    simp [Token.text, isLineEnd, ofType, ofName]
  case h_2 =>
    obtain rfl := Except.ok.inj emitted
    simp [Token.text, ofName]

/-- The parameters of a function literal. -/
theorem smooth_lambdaParams {params : List LambdaParam} {codes : List Code}
    (smoothNames : ∀ ident ∈ params.map (·.name), Smooth ident.name.toList)
    (smoothTypes : SmoothTypes printer.names (Ty.handlesAll (params.filterMap (·.ty))))
    (emitted : params.mapM printer.lambdaParamCode = .ok codes) :
    lineEnds (Code.commaSeparated codes).characters = [] := by
  have each : ∀ param ∈ params, ∀ code, printer.lambdaParamCode param = .ok code →
      lineEnds code.characters = Break.characters [] := by
    intro param member code emittedParam
    refine smooth_lambdaParamCode (smoothNames _ (List.mem_map_of_mem member)) ?_ emittedParam
    intro ty typed
    exact smoothTypes_handlesAll.1 smoothTypes ty (List.mem_filterMap.2 ⟨param, member, typed⟩)
  rw [lineEnds_commaSeparated, flatMap_mapM each emitted, List.flatMap_eq_nil_iff.2 fun _ _ => rfl,
    Break.characters_nil]

/-- An `else` branch that is not one `if` statement. -/
theorem lineEnds_else {depth : Nat} {body : List Stmt} {lines : List Line}
    (several : ∀ condition thenBody elseBody, body ≠ [.branch condition thenBody elseBody])
    (emitted : printer.elseLines depth (some body) = .ok lines)
    (inside : ∀ lines, printer.stmts (depth + 1) body = .ok lines →
      Line.ends lines = Break.characters (Break.ofStmts body)) :
    Line.ends lines = Break.characters (Break.ofElse (some body)) := by
  have separate : Break.continuesChain body = false := by
    rw [Break.continuesChain]
    exact several
  rw [elseLines_of_not_branch printer several] at emitted
  simp only [bind_eq_ok, pure_eq_ok] at emitted
  obtain ⟨bodyLines, emittedBody, rfl⟩ := emitted
  simp [isLineEnd, inside bodyLines emittedBody, Break.ofElse, separate, Break.block]

mutual
/-- The code of an expression ends lines where the expression has breaks. -/
theorem lineEnds_expr (depth : Nat) : (expr : Expr) → (code : Code) →
    Throughout (Unbroken printer.names) (.expr expr) → printer.expr depth expr = .ok code →
      lineEnds code.characters = Break.characters (Break.ofExpr expr)
  | .literal _ value, _, _, emitted => by
    simp only [Printer.expr, pure_eq_ok] at emitted
    subst emitted
    exact lineEnds_literalCode value
  | .ident _ name _, _, unbroken, emitted => by
    simp only [Printer.expr, pure_eq_ok] at emitted
    subst emitted
    have smooth : Smooth name.render.toList :=
      smooth_render (unbroken.here.idents name (.head _))
    rw [Code.characters_cons, Code.characters_nil, List.append_nil]
    exact smooth
  | .selfRef _, _, _, emitted | .superRef _, _, _, emitted => by
    simp only [Printer.expr, pure_eq_ok] at emitted
    subst emitted
    simp [Token.text, isLineEnd, Break.ofExpr]
  | .typeRef _ named, _, unbroken, emitted => by
    rw [Printer.expr] at emitted
    exact smooth_typeCode unbroken.here.types emitted
  | .member _ target name _, _, unbroken, emitted => by
    simp only [Printer.expr, bind_eq_ok, pure_eq_ok] at emitted
    obtain ⟨targetCode, emittedTarget, rfl⟩ := emitted
    have ofTarget := lineEnds_expr depth target targetCode (unbroken.inside (.head _)) emittedTarget
    have ofName : lineEnds name.render.toList = [] :=
      smooth_render (unbroken.here.idents name (.head _))
    rw [Code.characters_append, lineEnds_append, lineEnds_enclose, ofTarget]
    simp [Token.text, isLineEnd, ofName, Break.ofExpr]
  | .invoke _ callee typeArgs args signature, _, unbroken, emitted => by
    simp only [Printer.expr, bind_eq_ok, pure_eq_ok] at emitted
    obtain ⟨calleeCode, emittedCallee, typesCode, emittedTypes, codes, emittedArgs, rfl⟩ := emitted
    have ofCallee := lineEnds_expr depth callee calleeCode (unbroken.inside (.head _)) emittedCallee
    have ofTypes := smooth_typeArgsCode unbroken.here.types emittedTypes
    have ofArgs := lineEnds_args depth args codes
      (fun arg member => unbroken.inside (.tail _ (mem_values member))) emittedArgs
    simp only [Code.characters_append, lineEnds_append, lineEnds_enclose, lineEnds_parenthesized,
      lineEnds_commaSeparated, ofCallee, ofTypes, ofArgs, List.append_nil]
    rw [Break.ofExpr, Break.characters_append]
  | .index _ target indices, _, unbroken, emitted => by
    simp only [Printer.expr, bind_eq_ok, pure_eq_ok] at emitted
    obtain ⟨targetCode, emittedTarget, codes, emittedIndices, rfl⟩ := emitted
    have ofTarget := lineEnds_expr depth target targetCode (unbroken.inside (.head _)) emittedTarget
    have ofIndices := lineEnds_args depth indices codes
      (fun index member => unbroken.inside (.tail _ (mem_values member))) emittedIndices
    simp [Token.text, isLineEnd, lineEnds_enclose, lineEnds_commaSeparated, ofTarget, ofIndices,
      Break.ofExpr]
  | .binary _ op left right, _, unbroken, emitted => by
    simp only [Printer.expr, bind_eq_ok, pure_eq_ok] at emitted
    obtain ⟨leftCode, emittedLeft, rightCode, emittedRight, rfl⟩ := emitted
    have ofLeft := lineEnds_expr depth left leftCode (unbroken.inside (.head _)) emittedLeft
    have ofRight :=
      lineEnds_expr depth right rightCode (unbroken.inside (.tail _ (.head _))) emittedRight
    rw [lineEnds_operator (smooth_binary op), lineEnds_enclose, lineEnds_enclose, ofLeft, ofRight,
      Break.ofExpr, Break.characters_append]
  | .unary _ op operand, _, unbroken, emitted => by
    simp only [Printer.expr, bind_eq_ok] at emitted
    obtain ⟨inner, emittedOperand, emitted⟩ := emitted
    have ofOperand := lineEnds_expr depth operand inner (unbroken.inside (.head _)) emittedOperand
    have ofSymbol : lineEnds op.symbol.toList = [] := smooth_unary op
    split at emitted
    · obtain rfl := pure_eq_ok.1 emitted
      simp [Token.text, lineEnds_enclose, ofOperand, ofSymbol, Break.ofExpr]
    · obtain rfl := pure_eq_ok.1 emitted
      simp [Token.text, lineEnds_encloseSigned, ofOperand, ofSymbol, Break.ofExpr]
  | .ternary _ condition thenValue elseValue, _, unbroken, emitted => by
    simp only [Printer.expr, bind_eq_ok, pure_eq_ok] at emitted
    obtain ⟨conditionCode, emittedCondition, thenCode, emittedThen, elseCode, emittedElse, rfl⟩ :=
      emitted
    have ofCondition :=
      lineEnds_expr depth condition conditionCode (unbroken.inside (.head _)) emittedCondition
    have ofThen :=
      lineEnds_expr depth thenValue thenCode (unbroken.inside (.tail _ (.head _))) emittedThen
    have ofElse := lineEnds_expr depth elseValue elseCode
      (unbroken.inside (.tail _ (.tail _ (.head _)))) emittedElse
    have question : Smooth "?".toList := by decide
    have colon : Smooth ":".toList := by decide
    rw [lineEnds_operator colon, lineEnds_operator question, lineEnds_enclose, lineEnds_enclose,
      lineEnds_enclose, ofCondition, ofThen, ofElse, Break.ofExpr, Break.characters_append,
      Break.characters_append, List.append_assoc]
  | .cast _ operand target _, _, unbroken, emitted => by
    simp only [Printer.expr, bind_eq_ok, pure_eq_ok] at emitted
    obtain ⟨targetCode, emittedTarget, inner, emittedOperand, rfl⟩ := emitted
    have ofTarget := smooth_typeCode unbroken.here.types emittedTarget
    have ofOperand := lineEnds_expr depth operand inner (unbroken.inside (.head _)) emittedOperand
    simp [Token.text, isLineEnd, lineEnds_parenthesized, lineEnds_encloseSigned, ofTarget,
      ofOperand, Break.ofExpr]
  | .tryCast _ operand target, _, unbroken, emitted => by
    simp only [Printer.expr, bind_eq_ok, pure_eq_ok] at emitted
    obtain ⟨inner, emittedOperand, targetCode, emittedTarget, rfl⟩ := emitted
    have ofOperand := lineEnds_expr depth operand inner (unbroken.inside (.head _)) emittedOperand
    have ofTarget := smooth_typeCode unbroken.here.types emittedTarget
    simp [Token.text, isLineEnd, lineEnds_enclose, ofTarget, ofOperand, Break.ofExpr]
  | .typeOf _ named, _, unbroken, emitted | .defaultOf _ named, _, unbroken, emitted => by
    simp only [Printer.expr, bind_eq_ok, pure_eq_ok] at emitted
    obtain ⟨inner, emittedType, rfl⟩ := emitted
    have ofType := smooth_typeCode unbroken.here.types emittedType
    simp [Token.text, isLineEnd, lineEnds_parenthesized, ofType, Break.ofExpr]
  | .construct _ constructed args signature, _, unbroken, emitted => by
    simp only [Printer.expr, bind_eq_ok, pure_eq_ok] at emitted
    obtain ⟨typeText, emittedType, codes, emittedArgs, rfl⟩ := emitted
    have ofType := smooth_typeCode unbroken.here.types emittedType
    have ofArgs := lineEnds_args depth args codes
      (fun arg member => unbroken.inside (mem_values member)) emittedArgs
    simp [Token.text, isLineEnd, lineEnds_parenthesized, lineEnds_commaSeparated, ofType, ofArgs,
      Break.ofExpr]
  | .newArray _ element size, _, unbroken, emitted => by
    simp only [Printer.expr, bind_eq_ok, pure_eq_ok] at emitted
    obtain ⟨innermost, emittedType, inner, emittedSize, rfl⟩ := emitted
    have smooth : SmoothTypes printer.names (innermostElement element).1.handles := by
      rw [handles_innermostElement]
      exact unbroken.here.types
    have ofType := smooth_typeCode smooth emittedType
    have ofSize := lineEnds_expr depth size inner (unbroken.inside (.head _)) emittedSize
    have ofDimensions : lineEnds (Code.characters (List.replicate (innermostElement element).2
        [Token.symbol "[", .symbol "]"]).flatten) = [] := smooth_dimensions _
    simp only [Code.characters_append, Code.characters_cons, lineEnds_append, ofType, ofSize,
      ofDimensions]
    simp [Token.text, isLineEnd, Break.ofExpr]
  | .lambda _ params _ body, _, unbroken, emitted => by
    simp only [Printer.expr, bind_eq_ok, pure_eq_ok] at emitted
    obtain ⟨codes, emittedParams, bodyCode, emittedBody, rfl⟩ := emitted
    have ofParams :=
      smooth_lambdaParams unbroken.here.idents unbroken.here.types emittedParams
    have ofBody := lineEnds_lambdaBody depth body bodyCode (fun _ => unbroken.inside) emittedBody
    simp [Token.text, isLineEnd, lineEnds_parenthesized, ofParams, ofBody, Break.ofExpr]
  | .array _ element items, _, unbroken, emitted => by
    simp only [Printer.expr, bind_eq_ok] at emitted
    obtain ⟨codes, emittedItems, typeText, emittedType, emitted⟩ := emitted
    have ofType := smooth_typeCode unbroken.here.types emittedType
    have ofItems := lineEnds_args depth items codes
      (fun item member => unbroken.inside (mem_values member)) emittedItems
    rw [← lineEnds_commaSeparated] at ofItems
    split at emitted
    case isTrue missing =>
      obtain rfl := pure_eq_ok.1 emitted
      have nothing : (Code.commaSeparated codes).characters = [] := by
        rw [Code.characters, String.isEmpty_iff.1 missing]
        rfl
      rw [nothing] at ofItems
      simpa [Token.text, isLineEnd, ofType, Break.ofExpr] using ofItems
    case isFalse =>
      obtain rfl := pure_eq_ok.1 emitted
      simp [Token.text, isLineEnd, ofType, ofItems, Break.ofExpr]
  | .map _ entries, _, unbroken, emitted => by
    simp only [Printer.expr, bind_eq_ok] at emitted
    obtain ⟨hashtable, rendered, codes, emittedEntries, emitted⟩ := emitted
    have ofType : lineEnds hashtable.toList = [] := smooth_named unbroken.here.types rendered
    have ofEntries := lineEnds_entries depth entries codes
      (fun entry member => ⟨unbroken.inside (mem_entries member (.head _)),
        unbroken.inside (mem_entries member (.tail _ (.head _)))⟩) emittedEntries
    split at emitted
    case isTrue missing =>
      obtain rfl := pure_eq_ok.1 emitted
      rw [List.isEmpty_iff.1 missing] at ofEntries
      simpa [Token.text, isLineEnd, ofType, Break.ofExpr] using ofEntries
    case isFalse =>
      obtain rfl := pure_eq_ok.1 emitted
      simp [Token.text, isLineEnd, lineEnds_commaSeparated, ofType, ofEntries, Break.ofExpr]
  | .assign _ op target value, _, unbroken, emitted => by
    simp only [Printer.expr, bind_eq_ok, pure_eq_ok] at emitted
    obtain ⟨targetCode, emittedTarget, valueCode, emittedValue, rfl⟩ := emitted
    have ofTarget := lineEnds_expr depth target targetCode (unbroken.inside (.head _)) emittedTarget
    have ofValue :=
      lineEnds_expr depth value valueCode (unbroken.inside (.tail _ (.head _))) emittedValue
    rw [lineEnds_operator (smooth_assign op), lineEnds_enclose, ofTarget, ofValue, Break.ofExpr,
      Break.characters_append]
  | .paren _ inner, _, unbroken, emitted => by
    rw [Printer.expr] at emitted
    exact lineEnds_expr depth inner _ (unbroken.inside (.head _)) emitted

/-- The same is true of arguments, each with its own line ends. -/
theorem lineEnds_args (depth : Nat) {signature : Option Signature} {index : Nat} :
    (args : List Expr) → (codes : List Code) →
      (∀ arg ∈ args, Throughout (Unbroken printer.names) (.expr arg)) →
        printer.args depth signature index args = .ok codes →
          (codes.flatMap fun code => lineEnds code.characters) =
            Break.characters (Break.ofExprs args)
  | [], _, _, emitted => by
    simp only [Printer.args, pure_eq_ok] at emitted
    subst emitted
    rfl
  | first :: rest, _, unbroken, emitted => by
    simp only [Printer.args, bind_eq_ok, pure_eq_ok] at emitted
    obtain ⟨code, emittedFirst, codes, emittedRest, rfl⟩ := emitted
    obtain ⟨unbrokenFirst, unbrokenRest⟩ := List.forall_mem_cons.1 unbroken
    have ofFirst := lineEnds_expr depth first code unbrokenFirst emittedFirst
    have ofRest := lineEnds_args depth rest codes unbrokenRest emittedRest
    rw [List.flatMap_cons, lineEnds_withModifier, ofFirst, ofRest, Break.ofExprs,
      Break.characters_append]

/-- The same is true of entries, keys and values in turn. -/
theorem lineEnds_entries (depth : Nat) : (entries : List (Expr × Expr)) → (codes : List Code) →
    (∀ entry ∈ entries, Throughout (Unbroken printer.names) (.expr entry.1) ∧
      Throughout (Unbroken printer.names) (.expr entry.2)) →
      printer.entries depth entries = .ok codes →
        (codes.flatMap fun code => lineEnds code.characters) =
          Break.characters (Break.ofEntries entries)
  | [], _, _, emitted => by
    simp only [Printer.entries, pure_eq_ok] at emitted
    subst emitted
    rfl
  | (key, value) :: rest, _, unbroken, emitted => by
    simp only [Printer.entries, bind_eq_ok, pure_eq_ok] at emitted
    obtain ⟨keyCode, emittedKey, valueCode, emittedValue, codes, emittedRest, rfl⟩ := emitted
    obtain ⟨⟨unbrokenKey, unbrokenValue⟩, unbrokenRest⟩ := List.forall_mem_cons.1 unbroken
    have ofKey := lineEnds_expr depth key keyCode unbrokenKey emittedKey
    have ofValue := lineEnds_expr depth value valueCode unbrokenValue emittedValue
    have ofRest := lineEnds_entries depth rest codes unbrokenRest emittedRest
    simp [Token.text, isLineEnd, ofKey, ofValue, ofRest, Break.ofEntries]

/-- The same is true of the body of a lambda. -/
theorem lineEnds_lambdaBody (depth : Nat) : (body : LambdaBody) → (code : Code) →
    (∀ node ∈ body.parts.map (·.2), Throughout (Unbroken printer.names) node) →
      printer.lambdaBody depth body = .ok code →
        lineEnds code.characters = Break.characters (Break.ofBody body)
  | .expr value, _, unbroken, emitted => by
    rw [Printer.lambdaBody] at emitted
    exact lineEnds_expr depth value _ (unbroken _ (.head _)) emitted
  | .block body, _, unbroken, emitted => by
    simp only [Printer.lambdaBody, bind_eq_ok, pure_eq_ok] at emitted
    obtain ⟨lines, emittedBody, rfl⟩ := emitted
    have ofBody := lineEnds_stmts (depth + 1) body lines
      (fun stmt member => unbroken _ (mem_stmts member)) emittedBody
    rw [Code.characters_cons, Code.characters_nil, List.append_nil, Token.text, lineEnds_body,
      ofBody]
    rfl

/-- The same is true of an expression that may be absent. -/
theorem lineEnds_optional (depth : Nat) : (value : Option Expr) → (text : Option String) →
    (∀ expr ∈ value, Throughout (Unbroken printer.names) (.expr expr)) →
      printer.optional depth value = .ok text →
        lineEnds (text.getD "").toList = Break.characters (Break.ofOptional value)
  | none, _, _, emitted => by
    simp only [Printer.optional, pure_eq_ok] at emitted
    subst emitted
    rfl
  | some expr, _, unbroken, emitted => by
    simp only [Printer.optional, bind_eq_ok, pure_eq_ok] at emitted
    obtain ⟨code, emittedExpr, rfl⟩ := emitted
    exact lineEnds_expr depth expr code (unbroken expr rfl) emittedExpr

/-- The lines of a statement end where it has breaks. -/
theorem lineEnds_stmt (depth : Nat) : (stmt : Stmt) → (lines : List Line) →
    Throughout (Unbroken printer.names) (.stmt stmt) → printer.stmt depth stmt = .ok lines →
      Line.ends lines = Break.characters (Break.ofStmt stmt)
  | .expr value, _, unbroken, emitted => by
    simp only [Printer.stmt, bind_eq_ok, pure_eq_ok] at emitted
    obtain ⟨code, emittedValue, rfl⟩ := emitted
    have ofValue : lineEnds code.text.toList = Break.characters (Break.ofExpr value) :=
      lineEnds_expr depth value code (unbroken.inside (.head _)) emittedValue
    simp [isLineEnd, ofValue, Break.ofStmt]
  | .declare name declared ty init _, _, unbroken, emitted => by
    simp only [Printer.stmt, bind_eq_ok, pure_eq_ok] at emitted
    obtain ⟨typeText, rendered, initText, emittedInit, rfl⟩ := emitted
    have ofInit := lineEnds_optional depth init initText
      (throughout_optional unbroken fun _ => mem_values) emittedInit
    have smooth := smooth_type _ typeText unbroken.here.types rendered
    have ofDeclaration := lineEnds_declarationText smooth
      (unbroken.here.idents name (.head _)) initText
    rw [ofInit] at ofDeclaration
    simp [isLineEnd, ofDeclaration, Break.ofStmt]
  | .branch condition thenBody elseBody, _, unbroken, emitted => by
    simp only [Printer.stmt, bind_eq_ok, pure_eq_ok] at emitted
    obtain ⟨code, emittedCondition, thenLines, emittedThen, elseLines, emittedElse, rfl⟩ := emitted
    obtain ⟨unbrokenCondition, unbrokenThen, unbrokenElse⟩ :=
      forall_parts_branch fun _ => unbroken.inside
    have ofCondition : lineEnds code.text.toList = Break.characters (Break.ofExpr condition) :=
      lineEnds_expr depth condition code unbrokenCondition emittedCondition
    have ofThen := lineEnds_stmts (depth + 1) thenBody thenLines unbrokenThen emittedThen
    have ofElse := lineEnds_elseLines depth elseBody elseLines unbrokenElse emittedElse
    simp [isLineEnd, ofCondition, ofThen, ofElse, Break.ofStmt, Break.block]
  | .whileLoop condition body, _, unbroken, emitted => by
    simp only [Printer.stmt, bind_eq_ok, pure_eq_ok] at emitted
    obtain ⟨code, emittedCondition, bodyLines, emittedBody, rfl⟩ := emitted
    have ofCondition : lineEnds code.text.toList = Break.characters (Break.ofExpr condition) :=
      lineEnds_expr depth condition code (unbroken.inside (.head _)) emittedCondition
    have ofBody := lineEnds_stmts (depth + 1) body bodyLines
      (fun _ member => unbroken.inside (.tail _ (mem_stmts member))) emittedBody
    simp [isLineEnd, ofCondition, ofBody, Break.ofStmt, Break.block]
  | .forLoop init condition step body, _, unbroken, emitted => by
    simp only [Printer.stmt, bind_eq_ok, pure_eq_ok] at emitted
    obtain ⟨texts, emittedInit, text, emittedCondition, codes, emittedStep, bodyLines, emittedBody,
      rfl⟩ := emitted
    obtain ⟨unbrokenInit, unbrokenCondition, unbrokenStep, unbrokenBody⟩ :=
      forall_parts_forLoop fun _ => unbroken.inside
    have ofInit := lineEnds_initializers depth init texts unbrokenInit emittedInit
    have ofCondition := lineEnds_optional depth condition text unbrokenCondition emittedCondition
    have ofStep := lineEnds_args depth step codes unbrokenStep emittedStep
    have ofStepText : lineEnds (Code.commaSeparated codes).text.toList =
        Break.characters (Break.ofExprs step) := (lineEnds_commaSeparated codes).trans ofStep
    have ofBody := lineEnds_stmts (depth + 1) body bodyLines unbrokenBody emittedBody
    rw [← lineEnds_list] at ofInit
    simp only [Line.ends_cons, Line.ends_braced, String.toList_append, lineEnds_append, ofInit,
      ofCondition, ofStepText, ofBody]
    simp [isLineEnd, Break.ofStmt, Break.block]
  | .forEach item itemTy source body, _, unbroken, emitted => by
    simp only [Printer.stmt, bind_eq_ok, pure_eq_ok] at emitted
    obtain ⟨typeText, rendered, code, emittedSource, bodyLines, emittedBody, rfl⟩ := emitted
    have ofType : lineEnds typeText.toList = [] :=
      smooth_type itemTy typeText unbroken.here.types rendered
    have ofItem : lineEnds item.render.toList = [] :=
      smooth_render (unbroken.here.idents item (.head _))
    have ofSource : lineEnds code.text.toList = Break.characters (Break.ofExpr source) :=
      lineEnds_expr depth source code (unbroken.inside (.head _)) emittedSource
    have ofBody := lineEnds_stmts (depth + 1) body bodyLines
      (fun _ member => unbroken.inside (.tail _ (mem_stmts member))) emittedBody
    simp [isLineEnd, ofType, ofItem, ofSource, ofBody, Break.ofStmt, Break.block]
  | .ret value _, _, unbroken, emitted => by
    simp only [Printer.stmt, bind_eq_ok, pure_eq_ok] at emitted
    obtain ⟨text, emittedValue, rfl⟩ := emitted
    have ofValue := lineEnds_optional depth value text
      (throughout_optional unbroken fun _ => mem_values) emittedValue
    cases text with
    | none => simpa [isLineEnd, Break.ofStmt] using ofValue
    | some text => simpa [isLineEnd, Break.ofStmt] using ofValue
  | .throw value, _, unbroken, emitted => by
    simp only [Printer.stmt, bind_eq_ok, pure_eq_ok] at emitted
    obtain ⟨code, emittedValue, rfl⟩ := emitted
    have ofValue : lineEnds code.text.toList = Break.characters (Break.ofExpr value) :=
      lineEnds_expr depth value code (unbroken.inside (.head _)) emittedValue
    simp [isLineEnd, ofValue, Break.ofStmt]
  | .breakLoop, _, _, emitted | .continueLoop, _, _, emitted => by
    simp only [Printer.stmt, pure_eq_ok] at emitted
    subst emitted
    simp [isLineEnd, Break.ofStmt]
  | .block body, _, unbroken, emitted => by
    simp only [Printer.stmt, bind_eq_ok, pure_eq_ok] at emitted
    obtain ⟨bodyLines, emittedBody, rfl⟩ := emitted
    have ofBody := lineEnds_stmts (depth + 1) body bodyLines
      (fun _ member => unbroken.inside (mem_stmts member)) emittedBody
    simp [ofBody, Break.ofStmt, Break.block]

/-- The same is true of statements in a row. -/
theorem lineEnds_stmts (depth : Nat) : (stmts : List Stmt) → (lines : List Line) →
    (∀ stmt ∈ stmts, Throughout (Unbroken printer.names) (.stmt stmt)) →
      printer.stmts depth stmts = .ok lines →
        Line.ends lines = Break.characters (Break.ofStmts stmts)
  | [], _, _, emitted => by
    simp only [Printer.stmts, pure_eq_ok] at emitted
    subst emitted
    rfl
  | first :: rest, _, unbroken, emitted => by
    simp only [Printer.stmts, bind_eq_ok, pure_eq_ok] at emitted
    obtain ⟨firstLines, emittedFirst, restLines, emittedRest, rfl⟩ := emitted
    obtain ⟨unbrokenFirst, unbrokenRest⟩ := List.forall_mem_cons.1 unbroken
    have ofFirst := lineEnds_stmt depth first firstLines unbrokenFirst emittedFirst
    have ofRest := lineEnds_stmts depth rest restLines unbrokenRest emittedRest
    rw [Line.ends_append, ofFirst, ofRest, Break.ofStmts, Break.characters_append]

/-- The same is true of an `else` part. -/
theorem lineEnds_elseLines (depth : Nat) : (elseBody : Option (List Stmt)) → (lines : List Line) →
    (∀ stmt ∈ elseBody.getD [], Throughout (Unbroken printer.names) (.stmt stmt)) →
      printer.elseLines depth elseBody = .ok lines →
        Line.ends lines = Break.characters (Break.ofElse elseBody)
  | none, _, _, emitted => by
    simp only [Printer.elseLines, pure_eq_ok] at emitted
    subst emitted
    rfl
  | some [.branch condition thenBody elseBody], _, unbroken, emitted => by
    simp only [Printer.elseLines, bind_eq_ok, pure_eq_ok] at emitted
    obtain ⟨code, emittedCondition, thenLines, emittedThen, elseLines, emittedElse, rfl⟩ := emitted
    obtain ⟨unbrokenCondition, unbrokenThen, unbrokenElse⟩ :=
      forall_parts_branch fun _ => (unbroken _ (.head _)).inside
    have ofCondition : lineEnds code.text.toList = Break.characters (Break.ofExpr condition) :=
      lineEnds_expr depth condition code unbrokenCondition emittedCondition
    have ofThen := lineEnds_stmts (depth + 1) thenBody thenLines unbrokenThen emittedThen
    have ofElse := lineEnds_elseLines depth elseBody elseLines unbrokenElse emittedElse
    simp [isLineEnd, ofCondition, ofThen, ofElse, Break.ofElse, Break.continuesChain,
      Break.ofStmts, Break.ofStmt, Break.block]
  -- Every other branch stands between braces of its own.
  | some [], _, unbroken, emitted | some [.expr ..], _, unbroken, emitted
  | some [.declare ..], _, unbroken, emitted | some [.whileLoop ..], _, unbroken, emitted
  | some [.forLoop ..], _, unbroken, emitted | some [.forEach ..], _, unbroken, emitted
  | some [.ret ..], _, unbroken, emitted | some [.throw ..], _, unbroken, emitted
  | some [.breakLoop], _, unbroken, emitted | some [.continueLoop], _, unbroken, emitted
  | some [.block ..], _, unbroken, emitted | some (_ :: _ :: _), _, unbroken, emitted =>
    lineEnds_else nofun emitted fun lines emittedBody =>
      lineEnds_stmts (depth + 1) _ lines unbroken emittedBody

/-- The same is true of the initializers of a loop, which stand on the line of its head. -/
theorem lineEnds_initializers (depth : Nat) : (stmts : List Stmt) → (texts : List String) →
    (∀ stmt ∈ stmts, Throughout (Unbroken printer.names) (.stmt stmt)) →
      printer.initializers depth stmts = .ok texts →
        (texts.flatMap fun text => lineEnds text.toList) =
          Break.characters (Break.ofInitializers stmts)
  | [], _, _, emitted => by
    simp only [Printer.initializers, pure_eq_ok] at emitted
    subst emitted
    rfl
  | .declare name declared ty init _ :: rest, _, unbroken, emitted => by
    simp only [Printer.initializers, bind_eq_ok, pure_eq_ok] at emitted
    obtain ⟨typeText, rendered, initText, emittedInit, texts, emittedRest, rfl⟩ := emitted
    obtain ⟨unbrokenFirst, unbrokenRest⟩ := List.forall_mem_cons.1 unbroken
    have ofInit := lineEnds_optional depth init initText
      (throughout_optional unbrokenFirst fun _ => mem_values) emittedInit
    have smooth := smooth_type _ typeText unbrokenFirst.here.types rendered
    have ofDeclaration := lineEnds_declarationText smooth
      (unbrokenFirst.here.idents name (.head _)) initText
    have ofRest := lineEnds_initializers depth rest texts unbrokenRest emittedRest
    rw [List.flatMap_cons, ofDeclaration, ofInit, ofRest, Break.ofInitializers,
      Break.characters_append]
  | .expr value :: rest, _, unbroken, emitted => by
    simp only [Printer.initializers, bind_eq_ok, pure_eq_ok] at emitted
    obtain ⟨code, emittedValue, texts, emittedRest, rfl⟩ := emitted
    obtain ⟨unbrokenFirst, unbrokenRest⟩ := List.forall_mem_cons.1 unbroken
    have ofValue : lineEnds code.text.toList = Break.characters (Break.ofExpr value) :=
      lineEnds_expr depth value code (unbrokenFirst.inside (.head _)) emittedValue
    have ofRest := lineEnds_initializers depth rest texts unbrokenRest emittedRest
    rw [List.flatMap_cons, ofValue, ofRest, Break.ofInitializers, Break.characters_append]
end

end Printer

end ScriptSharp.Emit
