import ScriptSharp.Proofs.Reading.Commas
import ScriptSharp.Proofs.Reading.Expressions
import ScriptSharp.Proofs.Reading.Spellings

/-!
# Emitted expressions in a list

What every emitted expression has in common where it stands among others, whatever it is made of.
It closes its brackets and has no commas outside of them but those of type arguments
(`Printer.unseparated_expr`). It begins with a keyword or a symbol, or with a name or type that
stands alone or in front of an operator (`Printer.led_or_assigns`).
-/

namespace ScriptSharp.Emit

open Code

/-! ## Emitted expressions between commas -/

/-- An operand is one item with parentheses and without them. -/
theorem unseparated_enclose {least : Precedence} {operand : Expr} {code : Code}
    (unseparated : Unseparated code.words) : Unseparated (enclose least operand code).words := by
  rw [enclose]
  split
  · exact .parenthesized unseparated.balanced
  · exact unseparated

/-- An operand behind a sign is one item with parentheses and without them. -/
theorem unseparated_encloseSigned {operand : Expr} {code : Code}
    (unseparated : Unseparated code.words) : Unseparated (encloseSigned operand code).words := by
  simp only [encloseSigned]
  split
  · exact .parenthesized (unseparated_enclose unseparated).balanced
  · exact unseparated_enclose unseparated

/-- The keyword in front of an argument separates nothing. -/
theorem unseparated_withModifier {signature : Option Signature} {index : Nat} {code : Code}
    (unseparated : Unseparated code.words) :
    Unseparated (withModifier signature index code).words := by
  rw [withModifier]
  split
  · exact .cons rfl (by simp) unseparated
  · exact unseparated

/-- The operators between operands separate nothing. -/
theorem unseparated_binary (op : BinaryOp) : Unseparated [.symbol op.symbol] := by
  cases op <;> exact unseparated_token rfl (by decide)

/-- The operators on one operand separate nothing. -/
theorem unseparated_unary (op : UnaryOp) : Unseparated [.symbol op.symbol] := by
  cases op <;> exact unseparated_token rfl (by decide)

/-- The signs of assignments separate nothing. -/
theorem unseparated_assign (op : Option BinaryOp) : Unseparated [.symbol (assignSymbol op)] := by
  cases op with
  | none => exact unseparated_token rfl (by decide)
  | some op => cases op <;> exact unseparated_token rfl (by decide)

/-- Items with commas between them are balanced, so brackets make one item of them. -/
theorem balanced_commaSeparated {codes : List Code}
    (each : ∀ code ∈ codes, Unseparated code.words) : Balanced (commaSeparated codes).words := by
  rw [Spelled.words_commaSeparated]
  exact balanced_separated (List.forall_mem_map.2 fun code member => (each code member).balanced)

/-- Items between braces are one item. -/
theorem unseparated_braces {code : Code} (balanced : Balanced code.words) :
    Unseparated (Code.words (.symbol "\x7b" :: .space :: code ++ [.space, .symbol "\x7d"])) := by
  rw [words_append]
  exact .brackets balanced rfl rfl

namespace Printer

variable {printer : Printer} {depth : Nat}

/-- The code of a type is one item. -/
theorem unseparated_typeCode {ty : Ty} {code : Code} (emitted : printer.typeCode ty = .ok code) :
    Unseparated code.words := by
  simp only [typeCode, bind_eq_ok, pure_eq_ok] at emitted
  obtain ⟨text, -, rfl⟩ := emitted
  exact unseparated_token rfl (by simp)

/-- The code of type arguments is one item. -/
theorem unseparated_typeArgsCode {types : List Ty} {code : Code}
    (emitted : printer.typeArgsCode types = .ok code) : Unseparated code.words := by
  simp only [typeArgsCode, bind_eq_ok] at emitted
  obtain ⟨texts, -, emitted⟩ := emitted
  split at emitted
  · obtain rfl := pure_eq_ok.1 emitted
    exact unseparated_nil
  · obtain rfl := pure_eq_ok.1 emitted
    have spelled : Code.words (.symbol "<" ::
        commaSeparated (texts.map fun text => [.typeName text]) ++ [.symbol ">"]) =
          .symbol "<" :: typesThenEnd texts := by
      rw [words_append, words_symbol, Spelled.words_commaSeparated, List.map_map]
      rfl
    rw [spelled]
    exact unseparated_typeArgs texts

/-- The parameters of a lambda are one item each. -/
theorem unseparated_lambdaParams {params : List LambdaParam} {codes : List Code}
    (emitted : params.mapM printer.lambdaParamCode = .ok codes) :
    ∀ code ∈ codes, Unseparated code.words := by
  induction params generalizing codes with
  | nil =>
    simp only [List.mapM_nil, pure_eq_ok] at emitted
    subst emitted
    simp
  | cons first rest inductionHypothesis =>
    simp only [List.mapM_cons, bind_eq_ok, pure_eq_ok] at emitted
    obtain ⟨code, emittedFirst, others, emittedRest, rfl⟩ := emitted
    refine List.forall_mem_cons.2 ⟨?_, inductionHypothesis emittedRest⟩
    rw [lambdaParamCode] at emittedFirst
    split at emittedFirst
    · simp only [bind_eq_ok, pure_eq_ok] at emittedFirst
      obtain ⟨typeCode, emittedType, rfl⟩ := emittedFirst
      rw [words_append]
      exact (unseparated_typeCode emittedType).append (unseparated_token rfl (by simp))
    · cases emittedFirst
      exact unseparated_token rfl (by simp)

/-- Empty dimensions separate nothing. -/
theorem unseparated_dimensions (count : Nat) :
    Unseparated (Code.words (List.replicate count [Token.symbol "[", .symbol "]"]).flatten) := by
  induction count with
  | zero => exact unseparated_nil
  | succ count inductionHypothesis =>
    rw [List.replicate_succ, List.flatten_cons, words_append]
    exact (Unseparated.brackets balanced_nil rfl rfl).append inductionHypothesis

mutual
/-- An emitted expression is one item of a list. -/
theorem unseparated_expr : (expr : Expr) → (code : Code) →
    printer.expr depth expr = .ok code → Unseparated code.words
  | .literal _ value, _, emitted => by
    simp only [Printer.expr, pure_eq_ok] at emitted
    subst emitted
    rw [literalCode]
    split
    · exact .cons rfl (by decide) (unseparated_token rfl (by simp))
    · exact unseparated_token rfl (by simp)
  | .ident .., _, emitted | .selfRef _, _, emitted | .superRef _, _, emitted => by
    simp only [Printer.expr, pure_eq_ok] at emitted
    subst emitted
    exact unseparated_token rfl (by simp)
  | .typeRef _ named, _, emitted => by
    rw [Printer.expr] at emitted
    exact unseparated_typeCode emitted
  | .member _ target name _, _, emitted => by
    simp only [Printer.expr, bind_eq_ok, pure_eq_ok] at emitted
    obtain ⟨targetCode, emittedTarget, rfl⟩ := emitted
    have ofTarget := unseparated_expr target targetCode emittedTarget
    rw [words_append]
    exact (unseparated_enclose ofTarget).append
      (.cons rfl (by decide) (unseparated_token rfl (by simp)))
  | .invoke _ callee typeArgs args signature, _, emitted => by
    simp only [Printer.expr, bind_eq_ok, pure_eq_ok] at emitted
    obtain ⟨calleeCode, emittedCallee, typesCode, emittedTypes, codes, emittedArgs, rfl⟩ := emitted
    have ofCallee := unseparated_expr callee calleeCode emittedCallee
    have ofArgs := balanced_commaSeparated (unseparated_args signature 0 args codes emittedArgs)
    rw [words_append, words_append]
    exact ((unseparated_enclose ofCallee).append (unseparated_typeArgsCode emittedTypes)).append
      (.parenthesized ofArgs)
  | .index _ target indices, _, emitted => by
    simp only [Printer.expr, bind_eq_ok, pure_eq_ok] at emitted
    obtain ⟨targetCode, emittedTarget, codes, emittedIndices, rfl⟩ := emitted
    have ofTarget := unseparated_expr target targetCode emittedTarget
    have ofIndices := balanced_commaSeparated (unseparated_args none 0 indices codes emittedIndices)
    rw [words_append, List.cons_append, words_symbol, words_append]
    exact (unseparated_enclose ofTarget).append (.brackets ofIndices rfl rfl)
  | .binary _ op left right, _, emitted => by
    simp only [Printer.expr, bind_eq_ok, pure_eq_ok] at emitted
    obtain ⟨leftCode, emittedLeft, rightCode, emittedRight, rfl⟩ := emitted
    have ofLeft := unseparated_expr left leftCode emittedLeft
    have ofRight := unseparated_expr right rightCode emittedRight
    rw [words_append, words_append]
    exact ((unseparated_enclose ofLeft).append (unseparated_binary op)).append
      (unseparated_enclose ofRight)
  | .unary _ op operand, _, emitted => by
    simp only [Printer.expr, bind_eq_ok] at emitted
    obtain ⟨code, emittedOperand, emitted⟩ := emitted
    have ofOperand := unseparated_expr operand code emittedOperand
    split at emitted
    · obtain rfl := pure_eq_ok.1 emitted
      rw [words_append]
      exact (unseparated_enclose ofOperand).append (unseparated_unary op)
    · obtain rfl := pure_eq_ok.1 emitted
      exact (unseparated_unary op).append (unseparated_encloseSigned ofOperand)
  | .ternary _ condition thenValue elseValue, _, emitted => by
    simp only [Printer.expr, bind_eq_ok, pure_eq_ok] at emitted
    obtain ⟨conditionCode, emittedCondition, thenCode, emittedThen, elseCode, emittedElse, rfl⟩ :=
      emitted
    have ofCondition := unseparated_expr condition conditionCode emittedCondition
    have ofThen := unseparated_expr thenValue thenCode emittedThen
    have ofElse := unseparated_expr elseValue elseCode emittedElse
    rw [words_append, words_append, words_append, words_append]
    exact ((((unseparated_enclose ofCondition).append (unseparated_token rfl (by decide))).append
      (unseparated_enclose ofThen)).append (unseparated_token rfl (by decide))).append
        (unseparated_enclose ofElse)
  | .cast _ operand target _, _, emitted => by
    simp only [Printer.expr, bind_eq_ok, pure_eq_ok] at emitted
    obtain ⟨targetCode, emittedTarget, code, emittedOperand, rfl⟩ := emitted
    have ofOperand := unseparated_expr operand code emittedOperand
    rw [words_append]
    exact (Unseparated.parenthesized (unseparated_typeCode emittedTarget).balanced).append
      (unseparated_encloseSigned ofOperand)
  | .tryCast _ operand target, _, emitted => by
    simp only [Printer.expr, bind_eq_ok, pure_eq_ok] at emitted
    obtain ⟨code, emittedOperand, targetCode, emittedTarget, rfl⟩ := emitted
    have ofOperand := unseparated_expr operand code emittedOperand
    rw [words_append, words_append]
    exact ((unseparated_enclose ofOperand).append (unseparated_token rfl (by decide))).append
      (unseparated_typeCode emittedTarget)
  | .typeOf _ named, _, emitted | .defaultOf _ named, _, emitted => by
    simp only [Printer.expr, bind_eq_ok, pure_eq_ok] at emitted
    obtain ⟨code, emittedType, rfl⟩ := emitted
    exact .cons rfl (by decide) (.parenthesized (unseparated_typeCode emittedType).balanced)
  | .construct _ constructed args signature, _, emitted => by
    simp only [Printer.expr, bind_eq_ok, pure_eq_ok] at emitted
    obtain ⟨typeCode, emittedType, codes, emittedArgs, rfl⟩ := emitted
    have ofArgs := balanced_commaSeparated (unseparated_args signature 0 args codes emittedArgs)
    have ofType := unseparated_typeCode emittedType
    rw [words_append]
    exact (Unseparated.cons rfl (by decide) ofType).append (.parenthesized ofArgs)
  | .newArray _ element size, _, emitted => by
    simp only [Printer.expr, bind_eq_ok, pure_eq_ok] at emitted
    obtain ⟨typeCode, emittedType, sizeCode, emittedSize, rfl⟩ := emitted
    have ofType := unseparated_typeCode emittedType
    have ofSize := unseparated_expr size sizeCode emittedSize
    rw [words_append, words_append, List.cons_append, words_symbol, words_append]
    have ofBrackets : Unseparated (.symbol "[" :: (sizeCode.words ++ [.symbol "]"])) :=
      .brackets ofSize.balanced rfl rfl
    exact ((Unseparated.cons rfl (by decide) ofType).append ofBrackets).append
      (unseparated_dimensions _)
  | .lambda _ params _ body, _, emitted => by
    simp only [Printer.expr, bind_eq_ok, pure_eq_ok] at emitted
    obtain ⟨paramCodes, emittedParams, bodyCode, emittedBody, rfl⟩ := emitted
    have ofParams := balanced_commaSeparated (unseparated_lambdaParams emittedParams)
    have ofBody := unseparated_lambdaBody body bodyCode emittedBody
    rw [words_append, words_append]
    exact ((Unseparated.parenthesized ofParams).append (unseparated_token rfl (by decide))).append
      ofBody
  | .array _ element items, _, emitted => by
    simp only [Printer.expr, bind_eq_ok] at emitted
    obtain ⟨codes, emittedItems, typeCode, emittedType, emitted⟩ := emitted
    have ofItems := balanced_commaSeparated (unseparated_args none 0 items codes emittedItems)
    have ofHead : Unseparated (Code.words (.keyword "new" :: .space :: typeCode ++
        [.symbol "[", .symbol "]", .space])) := by
      rw [words_append]
      exact (Unseparated.cons rfl (by decide) (unseparated_typeCode emittedType)).append
        (.brackets balanced_nil rfl rfl)
    split at emitted
    · obtain rfl := pure_eq_ok.1 emitted
      rw [words_append]
      exact ofHead.append (.brackets balanced_nil rfl rfl)
    · obtain rfl := pure_eq_ok.1 emitted
      rw [words_append]
      exact ofHead.append (unseparated_braces ofItems)
  | .map _ entries, _, emitted => by
    simp only [Printer.expr, bind_eq_ok] at emitted
    obtain ⟨type, -, codes, emittedEntries, emitted⟩ := emitted
    have ofEntries := balanced_commaSeparated (unseparated_entries entries codes emittedEntries)
    have ofHead : Unseparated
        [.keyword "new", .typeName type, .symbol "(", .symbol ")"] :=
      .cons rfl (by decide) (.cons rfl (by simp) (.brackets balanced_nil rfl rfl))
    split at emitted
    · obtain rfl := pure_eq_ok.1 emitted
      exact ofHead
    · obtain rfl := pure_eq_ok.1 emitted
      rw [words_append, List.cons_append, words_space]
      exact ofHead.append (unseparated_braces ofEntries)
  | .assign _ op target value, _, emitted => by
    simp only [Printer.expr, bind_eq_ok, pure_eq_ok] at emitted
    obtain ⟨targetCode, emittedTarget, valueCode, emittedValue, rfl⟩ := emitted
    have ofTarget := unseparated_expr target targetCode emittedTarget
    have ofValue := unseparated_expr value valueCode emittedValue
    rw [words_append, words_append]
    exact ((unseparated_enclose ofTarget).append (unseparated_assign op)).append ofValue
  | .paren _ inner, code, emitted => by
    rw [Printer.expr] at emitted
    exact unseparated_expr inner code emitted

/-- Each argument is one item. -/
theorem unseparated_args (signature : Option Signature) (index : Nat) : (args : List Expr) →
    (codes : List Code) → printer.args depth signature index args = .ok codes →
      ∀ code ∈ codes, Unseparated code.words
  | [], _, emitted => by
    simp only [Printer.args, pure_eq_ok] at emitted
    subst emitted
    simp
  | first :: rest, _, emitted => by
    simp only [Printer.args, bind_eq_ok, pure_eq_ok] at emitted
    obtain ⟨code, emittedFirst, codes, emittedRest, rfl⟩ := emitted
    have ofFirst := unseparated_expr first code emittedFirst
    exact List.forall_mem_cons.2
      ⟨unseparated_withModifier ofFirst,
        unseparated_args signature (index + 1) rest codes emittedRest⟩

/-- Each entry is one item. -/
theorem unseparated_entries : (entries : List (Expr × Expr)) → (codes : List Code) →
    printer.entries depth entries = .ok codes → ∀ code ∈ codes, Unseparated code.words
  | [], _, emitted => by
    simp only [Printer.entries, pure_eq_ok] at emitted
    subst emitted
    simp
  | (key, value) :: rest, _, emitted => by
    simp only [Printer.entries, bind_eq_ok, pure_eq_ok] at emitted
    obtain ⟨keyCode, emittedKey, valueCode, emittedValue, codes, emittedRest, rfl⟩ := emitted
    have ofKey := unseparated_expr key keyCode emittedKey
    have ofValue := unseparated_expr value valueCode emittedValue
    refine List.forall_mem_cons.2 ⟨?_, unseparated_entries rest codes emittedRest⟩
    have inside : Balanced (keyCode ++ .symbol "," :: .space :: valueCode).words := by
      rw [words_append]
      exact ofKey.balanced.append ((balanced_token rfl : Balanced [.symbol ","]).append
        ofValue.balanced)
    exact unseparated_braces inside

/-- The body of a lambda is one item. -/
theorem unseparated_lambdaBody : (body : LambdaBody) → (code : Code) →
    printer.lambdaBody depth body = .ok code → Unseparated code.words
  | .expr value, code, emitted => by
    rw [Printer.lambdaBody] at emitted
    exact unseparated_expr value code emitted
  | .block body, _, emitted => by
    simp only [Printer.lambdaBody, bind_eq_ok, pure_eq_ok] at emitted
    obtain ⟨lines, -, rfl⟩ := emitted
    exact unseparated_token rfl (by simp)
end

end Printer

/-! ## What an emitted expression begins with -/

/-- The token is a name or a type. -/
def Token.isWord : Token → Bool
  | .name _ | .typeName _ => true
  | _ => false

/-- Behind a word, the token goes on with an expression that is no assignment. -/
def Token.Joins (token : Token) : Prop :=
  token.isWord = false ∧ token ≠ .symbol "=" ∧ token ≠ .symbol ","

/-- The code has a first token, and an expression that is no assignment can begin with the first two
tokens. -/
def Led (code : Code) : Prop :=
  ∃ first rest, code = first :: rest ∧ (first.isWord = true → ∀ second ∈ rest.head?, second.Joins)

/-- What begins with an operator or a bracket begins like an expression. -/
theorem led_mark {first : Token} {rest : Code} (mark : first.isWord = false) :
    Led (first :: rest) :=
  ⟨first, rest, rfl, fun word => by simp [mark] at word⟩

/-- A single token begins like an expression. -/
theorem led_token (first : Token) : Led [first] :=
  ⟨first, [], rfl, fun _ => by simp⟩

/-- What begins like an expression still does when its continuation joins. -/
theorem Led.append {first second : Code} (led : Led first)
    (joins : ∀ token ∈ second.head?, token.Joins) : Led (first ++ second) := by
  obtain ⟨token, rest, rfl, follows⟩ := led
  refine ⟨token, rest ++ second, rfl, fun word => ?_⟩
  cases rest with
  | nil => exact joins
  | cons => exact follows word

/-- The same is true of a continuation that begins with a token that joins. -/
theorem Led.followed {first rest : Code} {token : Token} (led : Led first) (joins : token.Joins) :
    Led (first ++ token :: rest) :=
  led.append fun _ member => Option.mem_some.1 member ▸ joins

/-- Parentheses begin like an expression. -/
theorem led_parenthesized (code : Code) : Led code.parenthesized.words :=
  led_mark rfl

/-- The operators between operands go on with an expression. -/
theorem joins_binary (op : BinaryOp) : (Token.symbol op.symbol).Joins := by
  cases op <;> exact ⟨rfl, by decide, by decide⟩

/-- The operators on one operand go on with an expression. -/
theorem joins_unary (op : UnaryOp) : (Token.symbol op.symbol).Joins := by
  cases op <;> exact ⟨rfl, by decide, by decide⟩

/-- The signs of compound assignments go on with an expression. -/
theorem joins_compound (op : BinaryOp) : (Token.symbol (assignSymbol (some op))).Joins := by
  cases op <;> exact ⟨rfl, by decide, by decide⟩

/-- Behind an operator stands no assignment without parentheses. -/
theorem led_enclose {least : Precedence} {operand : Expr} {code : Code}
    (tight : least ≠ .assignment)
    (led : Precedence.ofExpr operand ≠ .assignment → Led code.words) :
    Led (enclose least operand code).words := by
  rw [enclose]
  split
  case isTrue => exact led_parenthesized code
  case isFalse tighter =>
    refine led fun same => tighter ?_
    rw [same]
    cases least
    case assignment => exact absurd rfl tight
    all_goals rfl

namespace Printer

variable {printer : Printer} {depth : Nat}

/-- The tokens of an expression, as they are emitted. -/
def IsExpr (printer : Printer) (depth : Nat) (tokens : Code) : Prop :=
  ∃ expr code, printer.expr depth expr = .ok code ∧ code.words = tokens

/-- Type arguments go on with an expression. -/
theorem joins_typeArgsCode {types : List Ty} {code : Code}
    (emitted : printer.typeArgsCode types = .ok code) :
    ∀ token ∈ code.words.head?, token.Joins := by
  simp only [typeArgsCode, bind_eq_ok] at emitted
  obtain ⟨texts, -, emitted⟩ := emitted
  split at emitted
  · obtain rfl := pure_eq_ok.1 emitted
    simp
  · obtain rfl := pure_eq_ok.1 emitted
    rintro _ ⟨⟩
    exact ⟨rfl, by decide, by decide⟩

/-- An expression that is no assignment begins like one. -/
theorem led_expr : (expr : Expr) → (code : Code) → printer.expr depth expr = .ok code →
    Precedence.ofExpr expr ≠ .assignment → Led code.words
  | .literal _ value, _, emitted, _ => by
    simp only [Printer.expr, pure_eq_ok] at emitted
    subst emitted
    rw [literalCode]
    split
    · exact led_mark rfl
    · exact led_token _
  | .ident .., _, emitted, _ | .selfRef _, _, emitted, _ | .superRef _, _, emitted, _ => by
    simp only [Printer.expr, pure_eq_ok] at emitted
    subst emitted
    exact led_token _
  | .typeRef _ named, _, emitted, _ => by
    simp only [Printer.expr, typeCode, bind_eq_ok, pure_eq_ok] at emitted
    obtain ⟨text, -, rfl⟩ := emitted
    exact led_token _
  | .member _ target name _, _, emitted, _ => by
    simp only [Printer.expr, bind_eq_ok, pure_eq_ok] at emitted
    obtain ⟨targetCode, emittedTarget, rfl⟩ := emitted
    rw [words_append]
    exact (led_enclose (by decide) (led_expr target targetCode emittedTarget)).followed
      ⟨rfl, by decide, by decide⟩
  | .binary _ op left right, _, emitted, _ => by
    simp only [Printer.expr, bind_eq_ok, pure_eq_ok] at emitted
    obtain ⟨leftCode, emittedLeft, rightCode, -, rfl⟩ := emitted
    rw [words_append, words_append, List.append_assoc]
    have tight : Precedence.ofBinary op ≠ .assignment := by cases op <;> decide
    exact (led_enclose tight (led_expr left leftCode emittedLeft)).followed (joins_binary op)
  | .invoke _ callee typeArgs args signature, _, emitted, _ => by
    simp only [Printer.expr, bind_eq_ok, pure_eq_ok] at emitted
    obtain ⟨calleeCode, emittedCallee, typesCode, emittedTypes, codes, -, rfl⟩ := emitted
    rw [words_append, words_append]
    have ofCallee : Led (enclose .primary callee calleeCode).words :=
      led_enclose (by decide) (led_expr callee calleeCode emittedCallee)
    exact (ofCallee.append (joins_typeArgsCode emittedTypes)).followed
      ⟨rfl, by decide, by decide⟩
  | .index _ target indices, _, emitted, _ => by
    simp only [Printer.expr, bind_eq_ok, pure_eq_ok] at emitted
    obtain ⟨targetCode, emittedTarget, codes, -, rfl⟩ := emitted
    rw [words_append]
    exact (led_enclose (by decide) (led_expr target targetCode emittedTarget)).followed
      ⟨rfl, by decide, by decide⟩
  | .unary _ op operand, _, emitted, _ => by
    simp only [Printer.expr, bind_eq_ok] at emitted
    obtain ⟨code, emittedOperand, emitted⟩ := emitted
    split at emitted
    · obtain rfl := pure_eq_ok.1 emitted
      rw [words_append]
      exact (led_enclose (by decide) (led_expr operand code emittedOperand)).followed
        (joins_unary op)
    · obtain rfl := pure_eq_ok.1 emitted
      exact led_mark rfl
  | .ternary _ condition thenValue elseValue, _, emitted, _ => by
    simp only [Printer.expr, bind_eq_ok, pure_eq_ok] at emitted
    obtain ⟨conditionCode, emittedCondition, thenCode, -, elseCode, -, rfl⟩ := emitted
    rw [words_append, words_append, words_append, words_append, List.append_assoc,
      List.append_assoc, List.append_assoc]
    exact (led_enclose (by decide) (led_expr condition conditionCode emittedCondition)).followed
      ⟨rfl, by decide, by decide⟩
  | .tryCast _ operand target, _, emitted, _ => by
    simp only [Printer.expr, bind_eq_ok, pure_eq_ok] at emitted
    obtain ⟨code, emittedOperand, targetCode, -, rfl⟩ := emitted
    rw [words_append, words_append, List.append_assoc]
    exact (led_enclose (by decide) (led_expr operand code emittedOperand)).followed
      ⟨rfl, by decide, by decide⟩
  | .cast .., _, emitted, _ => by
    simp only [Printer.expr, bind_eq_ok, pure_eq_ok] at emitted
    obtain ⟨targetCode, -, code, -, rfl⟩ := emitted
    exact led_mark rfl
  | .typeOf .., _, emitted, _ | .defaultOf .., _, emitted, _ => by
    simp only [Printer.expr, bind_eq_ok, pure_eq_ok] at emitted
    obtain ⟨code, -, rfl⟩ := emitted
    exact led_mark rfl
  | .construct .., _, emitted, _ | .newArray .., _, emitted, _ => by
    simp only [Printer.expr, bind_eq_ok, pure_eq_ok] at emitted
    obtain ⟨typeCode, -, codes, -, rfl⟩ := emitted
    exact led_mark rfl
  | .array .., _, emitted, _ | .map .., _, emitted, _ => by
    simp only [Printer.expr, bind_eq_ok] at emitted
    obtain ⟨_, -, _, -, emitted⟩ := emitted
    split at emitted <;> obtain rfl := pure_eq_ok.1 emitted <;> exact led_mark rfl
  | .paren _ inner, code, emitted, level => by
    rw [Printer.expr] at emitted
    exact led_expr inner code emitted level
  | .lambda .., _, _, level | .assign .., _, _, level => absurd rfl level

/-- A function literal begins with a parenthesis, and an assignment with a target. -/
theorem led_or_assigns : (expr : Expr) → (code : Code) → printer.expr depth expr = .ok code →
    Led code.words ∨ ∃ target value, code.words = target :: .symbol "=" :: value ∧
      printer.IsExpr depth value
  | .lambda .., _, emitted => by
    simp only [Printer.expr, bind_eq_ok, pure_eq_ok] at emitted
    obtain ⟨paramCodes, -, bodyCode, -, rfl⟩ := emitted
    exact .inl (led_mark rfl)
  | .assign _ op target value, _, emitted => by
    simp only [Printer.expr, bind_eq_ok, pure_eq_ok] at emitted
    obtain ⟨targetCode, emittedTarget, valueCode, emittedValue, rfl⟩ := emitted
    have ofTarget : Led (enclose .unary target targetCode).words :=
      led_enclose (by decide) (led_expr target targetCode emittedTarget)
    obtain ⟨first, rest, begins, follows⟩ := ofTarget
    rw [words_append, words_append, begins]
    cases rest with
    | cons second rest => exact .inl ⟨first, _, rfl, follows⟩
    | nil =>
      cases op with
      | none => exact .inr ⟨first, valueCode.words, rfl, value, valueCode, emittedValue, rfl⟩
      | some op =>
        refine .inl ⟨first, _, rfl, fun _ => ?_⟩
        rintro _ ⟨⟩
        exact joins_compound op
  | .paren _ inner, code, emitted => by
    rw [Printer.expr] at emitted
    exact led_or_assigns inner code emitted
  | .literal .., code, emitted | .unary .., code, emitted =>
    .inl (led_expr _ code emitted (by rw [Precedence.ofExpr]; split <;> decide))
  | .binary _ op _ _, code, emitted =>
    .inl (led_expr _ code emitted (by rw [Precedence.ofExpr]; cases op <;> decide))
  | .ident .., code, emitted | .selfRef .., code, emitted | .superRef .., code, emitted
  | .typeRef .., code, emitted | .member .., code, emitted | .invoke .., code, emitted
  | .index .., code, emitted | .ternary .., code, emitted | .cast .., code, emitted
  | .tryCast .., code, emitted | .typeOf .., code, emitted | .defaultOf .., code, emitted
  | .construct .., code, emitted | .newArray .., code, emitted | .array .., code, emitted
  | .map .., code, emitted =>
    .inl (led_expr _ code emitted (by simp [Precedence.ofExpr]))

end Printer

end ScriptSharp.Emit
