import ScriptSharp.Emit.Body
import ScriptSharp.Proofs.Reading.Spellings
import ScriptSharp.Proofs.Tree.Names

/-!
# Expressions on a line

An emitted expression without function literals stands on one line, and a line that begins with it
does not look like any other statement: `Printer.written_expr`. What this takes of the names in the
expression is `Tidy`. The reader of lines sees no more of an expression than its front, so each case
says what the expression begins with and why the reader stops where it does.
-/

namespace ScriptSharp.Emit

open Node

/-! ## What names have to be like -/

/-- The handles of the types that an expression itself spells. -/
def exprHandles (table : TypeTable) : Expr → List TypeId
  | .typeRef _ ty | .cast _ _ ty _ | .tryCast _ _ ty | .typeOf _ ty | .defaultOf _ ty
  | .construct _ ty _ _ | .newArray _ ty _ | .array _ ty _ => ty.handles
  | .invoke _ _ typeArgs _ _ => Ty.handlesAll typeArgs
  | .map _ _ => [table.wellKnown.hashtable]
  | _ => []

/-- The handles of the types that a node itself spells, where it is an expression or a statement. -/
def nodeHandles (table : TypeTable) : Node → List TypeId
  | .expr root => exprHandles table root
  | .stmt (.declare _ declared ty _ _) => (declared.getD ty).handles
  | .stmt (.forEach _ itemTy _ _) => itemTy.handles
  | _ => []

/-- The node is a function literal, possibly in parentheses. -/
def isLambda : Node → Bool
  | .expr root => root.isLambda
  | _ => false

/-- The identifiers of a node are well-formed, those that are reserved words are marked, the types
that it spells have well-formed names, and it is no function literal. -/
@[mk_iff]
structure Tidy (names : Names) (node : Node) : Prop where
  idents : ∀ ident ∈ node.idents, WellFormed ident
  types : WellNamed names (nodeHandles names.table node)
  noLambda : isLambda node = false

instance {names : Names} {node : Node} : Decidable (Tidy names node) :=
  decidable_of_iff' _ (tidy_iff names node)

/-! ## Code -/

namespace Code

/-- The characters of code. -/
def characters (code : Code) : List Char := code.text.toList

/-- The characters of code are those of its text. -/
theorem toList_text (code : Code) : code.text.toList = code.characters := rfl

@[simp]
theorem characters_nil : characters [] = [] := rfl

/-- The characters of a token stand in front of those of the rest. -/
@[simp]
theorem characters_cons (token : Token) (code : Code) :
    characters (token :: code) = token.text.toList ++ code.characters := by
  simp [characters, text, String.join_cons]

/-- Code in a row has the characters of both parts. -/
@[simp]
theorem characters_append (first second : Code) :
    characters (first ++ second) = first.characters ++ second.characters := by
  induction first with
  | nil => rfl
  | cons token rest inductionHypothesis => simp [inductionHypothesis]

/-- Parentheses add a character on either side. -/
theorem characters_parenthesized (code : Code) :
    code.parenthesized.characters = '(' :: (code.characters ++ [')']) := by
  simp [parenthesized, Token.text]

/-- Codes on one line stay there when they are separated by commas. -/
theorem unbroken_commaSeparated {codes : List Code}
    (each : ∀ code ∈ codes, '\n' ∉ code.characters) :
    '\n' ∉ (commaSeparated codes).characters := by
  induction codes with
  | nil => simp [commaSeparated]
  | cons first rest inductionHypothesis =>
    obtain ⟨unbroken, later⟩ := List.forall_mem_cons.1 each
    cases rest with
    | nil => simpa [commaSeparated] using unbroken
    | cons second rest =>
      have unbrokenRest := inductionHypothesis later
      simpa [commaSeparated, Token.text] using ⟨unbroken, unbrokenRest⟩

/-- Code on one line stays there in parentheses. -/
theorem unbroken_parenthesized {code : Code} (unbroken : '\n' ∉ code.characters) :
    '\n' ∉ code.parenthesized.characters := by
  rw [characters_parenthesized]
  simpa using unbroken

/-- What begins with a parenthesis is an expression. -/
theorem written_parenthesized {code : Code} (rest : Code) (unbroken : '\n' ∉ code.characters)
    (unbrokenRest : '\n' ∉ rest.characters) :
    Written (code.parenthesized ++ rest).characters := by
  rw [characters_append, characters_parenthesized]
  refine written_of_first (by decide) (by decide) ?_
  simpa using ⟨unbroken, unbrokenRest⟩

/-- What begins with `new` is an expression. -/
theorem written_new {code : Code} (unbroken : '\n' ∉ code.characters) :
    Written (characters (.keyword "new" :: .space :: code)) := by
  have spelled : characters (.keyword "new" :: .space :: code) =
      "new ".toList ++ code.characters := by simp [Token.text]
  rw [spelled]
  exact ⟨⟨by simpa using unbroken, _, _, rfl, by decide, by decide⟩, saysExpr_new _⟩

end Code

/-- An operand is an expression with parentheses and without them. -/
theorem Written.enclose {code : Code} (written : Written code.characters) (least : Precedence)
    (operand : Expr) : Written (enclose least operand code).characters := by
  rw [Emit.enclose]
  split
  · simpa using Code.written_parenthesized [] written.unbroken (by simp)
  · exact written

/-- An operand behind a sign is an expression with parentheses and without them. -/
theorem Written.encloseSigned {code : Code} (written : Written code.characters) (operand : Expr) :
    Written (encloseSigned operand code).characters := by
  simp only [Emit.encloseSigned]
  split
  · have unbroken := (written.enclose .unary operand).unbroken
    simpa using Code.written_parenthesized [] unbroken (by simp)
  · exact written.enclose .unary operand

/-- An argument stays on one line behind its keyword. -/
theorem Flat.withModifier {code : Code} (flat : Flat code.characters)
    (signature : Option Signature) (index : Nat) :
    Flat (withModifier signature index code).characters := by
  have worded {keyword : String} (isFlat : Flat keyword.toList) :
      Flat (Code.characters (.keyword keyword :: .space :: code)) := by
    rw [Code.characters_cons, Code.characters_cons]
    exact isFlat.append (by simpa [Token.text] using flat.unbroken)
  rw [Emit.withModifier]
  split
  case h_1 keyword found =>
    obtain ⟨modifier, -, isKeyword⟩ := Option.bind_eq_some_iff.1 found
    cases modifier <;> cases isKeyword
    · exact worded ⟨by decide, _, _, rfl, by decide, by decide⟩
    · exact worded ⟨by decide, _, _, rfl, by decide, by decide⟩
  case h_2 => exact flat

/-- A literal is an expression, with a sign and without one. -/
theorem written_literalCode (value : Literal) : Written (literalCode value).characters := by
  have written := written_unsignedText value
  rw [literalCode]
  split
  · have signed : Written ('-' :: (unsignedText value).toList) :=
      written_of_first (by decide) (by decide) (by simpa using written.unbroken)
    simpa [Token.text] using signed
  · simpa [Token.text] using written

/-! ## What stands behind an operand -/

/-- The spelling of an operator, which no name begins with. -/
structure IsOperator (symbol : String) : Prop where
  foreign : ∃ first rest, symbol.toList = first :: rest ∧ opensName first = false
  unbroken : '\n' ∉ symbol.toList

/-- The operators between operands are operators. -/
theorem isOperator_binary (op : BinaryOp) : IsOperator op.symbol := by
  cases op <;> exact ⟨⟨_, _, rfl, rfl⟩, by decide⟩

/-- The signs of assignments are operators. -/
theorem isOperator_assign (op : Option BinaryOp) : IsOperator (assignSymbol op) := by
  cases op with
  | none => exact ⟨⟨_, _, rfl, rfl⟩, by decide⟩
  | some op => cases op <;> exact ⟨⟨_, _, rfl, rfl⟩, by decide⟩

/-- An operator with blanks around it, and another operand behind it. -/
theorem Written.operator {left right : Code} {symbol : String} (written : Written left.characters)
    (isOperator : IsOperator symbol) (unbroken : '\n' ∉ right.characters) :
    Written (Code.characters (left ++ [.space, .symbol symbol, .space] ++ right)) := by
  obtain ⟨first, rest, spelled, foreign⟩ := isOperator.foreign
  have whole : Written (left.characters ++ ' ' :: (symbol.toList ++ ' ' :: right.characters)) := by
    refine written.append (by simpa using ⟨isOperator.unbroken, unbroken⟩) fun behind _ => ?_
    rw [spelled]
    exact quiet_operator foreign _
  simpa [Token.text] using whole

/-- Arguments in parentheses keep what is called an expression. -/
theorem quiets_parenthesized (code : Code) : Quiets code.parenthesized.characters := by
  intro behind _
  rw [Code.characters_parenthesized]
  exact quiet_of_stop rfl rfl rfl

/-- A word that is used like a function. -/
theorem written_applied {keyword : String} {code : Code} (namelike : Namelike keyword.toList)
    (unbroken : '\n' ∉ code.characters) :
    Written (Code.characters (.keyword keyword :: code.parenthesized)) := by
  rw [Code.characters_cons]
  exact namelike.written.append (Code.unbroken_parenthesized unbroken) (quiets_parenthesized code)

/-- Codes with commas between them have the characters of their texts with commas. -/
theorem characters_commaSeparated (codes : List Code) :
    (Code.commaSeparated codes).characters = (", ".intercalate (codes.map Code.text)).toList := by
  rw [String.toList_intercalate]
  induction codes with
  | nil => rfl
  | cons first rest inductionHypothesis =>
    cases rest with
    | nil => simp [Code.commaSeparated, Code.toList_text]
    | cons second rest =>
      simp only [List.map_cons, Code.commaSeparated] at inductionHypothesis ⊢
      rw [List.intercalate_cons_cons, ← inductionHypothesis]
      simp [Token.text, Code.toList_text]

/-- Types with commas between them are written as a list of names. -/
theorem characters_typeNames (texts : List String) :
    (Code.commaSeparated (texts.map fun text => [.typeName text])).characters =
      (", ".intercalate texts).toList := by
  have each : Code.text ∘ (fun text => [.typeName text]) = id := by
    funext text
    exact String.toList_inj.1 (by simp [Code.toList_text, Token.text])
  rw [characters_commaSeparated, List.map_map, each, List.map_id]

/-- Expressions with commas between them stand on one line. -/
theorem unbroken_list {codes : List Code} (each : ∀ code ∈ codes, Flat code.characters) :
    '\n' ∉ (Code.commaSeparated codes).characters :=
  Code.unbroken_commaSeparated fun code member => (each code member).unbroken

/-- Expressions with commas between them begin with no blank. -/
theorem Flat.commaSeparated {first : Code} {rest : List Code}
    (each : ∀ code ∈ first :: rest, Flat code.characters) :
    Flat (Code.commaSeparated (first :: rest)).characters where
  unbroken := unbroken_list each
  begins := by
    obtain ⟨character, others, spelled, shown⟩ := (each first List.mem_cons_self).begins
    cases rest with
    | nil => exact ⟨character, others, by simpa [Code.commaSeparated] using spelled, shown⟩
    | cons second rest =>
      refine ⟨character, others ++ ", ".toList ++ (Code.commaSeparated (second :: rest)).characters,
        ?_, shown⟩
      simp [Code.commaSeparated, Token.text, spelled]

/-- Indices behind an operand. Empty brackets look like those of a type, and others do not. -/
theorem quiets_brackets {codes : List Code} (each : ∀ code ∈ codes, Flat code.characters) :
    Quiets ('[' :: ((Code.commaSeparated codes).characters ++ [']'])) := by
  cases codes with
  | nil => exact quiets_of_passes rfl passes_brackets
  | cons first rest =>
    obtain ⟨character, others, spelled, -, apart⟩ := (Flat.commaSeparated each).begins
    intro behind _
    rw [spelled]
    -- No argument begins with a closing bracket, so the brackets are not those of a type.
    have stops : typeStep 0 '[' (some character) = none := by
      have other : (some character == some ']') = false := by simpa using apart
      change (if some character == some ']' then some 0 else none) = none
      rw [other]
      rfl
    exact quiet_of_stop rfl stops rfl

/-- Operators on one operand stand on one line. -/
theorem unbroken_unary (op : UnaryOp) : '\n' ∉ op.symbol.toList := by
  cases op <;> decide

/-- An operator in front of its operand. -/
theorem written_unary (op : UnaryOp) {characters : List Char} (unbroken : '\n' ∉ characters) :
    Written (op.symbol.toList ++ characters) := by
  have unbrokenWhole : '\n' ∉ op.symbol.toList ++ characters := by
    rw [List.mem_append]
    exact not_or.2 ⟨unbroken_unary op, unbroken⟩
  cases op <;> exact written_of_first (by decide) (by decide) unbrokenWhole

/-- An operator behind its operand. -/
theorem quiets_unary (op : UnaryOp) : Quiets op.symbol.toList := by
  intro behind _
  cases op <;> exact quiet_of_stop rfl rfl rfl

/-- The innermost items of an array have the types of the array. -/
theorem handles_innermostElement (ty : Ty) : (innermostElement ty).1.handles = ty.handles := by
  fun_induction innermostElement ty with
  | case1 element inductionHypothesis => exact inductionHypothesis
  | case2 => rfl

/-- Empty dimensions stand on one line. -/
theorem unbroken_dimensions (count : Nat) :
    '\n' ∉ Code.characters (List.replicate count [Token.symbol "[", .symbol "]"]).flatten := by
  induction count with
  | zero => simp
  | succ count inductionHypothesis =>
    simpa [List.replicate_succ, Token.text] using inductionHypothesis

/-! ## Expressions -/

/-- An expression of a list is among the parts that the list gives. -/
theorem mem_values {expr : Expr} {exprs : List Expr} (member : expr ∈ exprs) :
    Node.expr expr ∈ (exprs.map Part.value).map (·.2) :=
  List.mem_map_of_mem (List.mem_map_of_mem member)

/-- The key and the value of an entry are among the parts that the entries give. -/
theorem mem_entries {entry : Expr × Expr} {entries : List (Expr × Expr)} {node : Node}
    (member : entry ∈ entries) (isPart : node ∈ (Part.entry entry).map (·.2)) :
    node ∈ (entries.flatMap Part.entry).map (·.2) := by
  rw [List.map_flatMap]
  exact List.mem_flatMap.2 ⟨entry, member, isPart⟩

namespace Printer

variable {printer : Printer} {depth : Nat} {code : Code}

/-- The code of a type is spelled like a name. -/
theorem namelike_typeCode {ty : Ty} (wellNamed : WellNamed printer.names ty.handles)
    (emitted : printer.typeCode ty = .ok code) : Namelike code.characters := by
  simp only [typeCode, bind_eq_ok, pure_eq_ok] at emitted
  obtain ⟨text, rendered, rfl⟩ := emitted
  simpa [Token.text] using namelike_render ty text wellNamed rendered

/-- Type arguments are passed over. -/
theorem quiets_typeArgsCode {types : List Ty}
    (wellNamed : WellNamed printer.names (Ty.handlesAll types))
    (emitted : printer.typeArgsCode types = .ok code) :
    '\n' ∉ code.characters ∧ Quiets code.characters := by
  simp only [typeArgsCode, bind_eq_ok] at emitted
  obtain ⟨texts, rendered, emitted⟩ := emitted
  have each := namelike_renderAll types texts wellNamed rendered
  split at emitted
  · obtain rfl := pure_eq_ok.1 emitted
    exact ⟨by simp, fun _ quiet => quiet⟩
  · obtain rfl := pure_eq_ok.1 emitted
    have spelled : Code.characters (.symbol "<" ::
        Code.commaSeparated (texts.map fun text => [.typeName text]) ++ [.symbol ">"]) =
          '<' :: ((", ".intercalate texts).toList ++ ['>']) := by
      simp [Token.text, characters_typeNames]
    rw [spelled]
    exact ⟨unbroken_arguments each, quiets_of_passes rfl (passes_arguments each)⟩

mutual
/-- An emitted expression stands on one line and is read as an expression. -/
theorem written_expr : (expr : Expr) → (code : Code) →
    Throughout (Tidy printer.names) (.expr expr) → printer.expr depth expr = .ok code →
      Written code.characters
  | .literal _ value, _, _, emitted => by
    simp only [Printer.expr, pure_eq_ok] at emitted
    subst emitted
    exact written_literalCode value
  | .ident _ name _, _, tidy, emitted => by
    simp only [Printer.expr, pure_eq_ok] at emitted
    subst emitted
    have wellFormed := tidy.here.idents name (.head _)
    simpa [Token.text] using wellFormed.namelike.written
  | .selfRef _, _, _, emitted | .superRef _, _, _, emitted => by
    simp only [Printer.expr, pure_eq_ok] at emitted
    subst emitted
    exact (namelike_word rfl rfl rfl).written
  | .typeRef _ named, _, tidy, emitted => by
    rw [Printer.expr] at emitted
    exact (namelike_typeCode tidy.here.types emitted).written
  | .member _ target name _, _, tidy, emitted => by
    simp only [Printer.expr, bind_eq_ok, pure_eq_ok] at emitted
    obtain ⟨targetCode, emittedTarget, rfl⟩ := emitted
    have written := written_expr target targetCode (tidy.inside (.head _)) emittedTarget
    have wellFormed := tidy.here.idents name (.head _)
    have whole := (written.enclose .primary target).append
      (by simpa using wellFormed.namelike.unbroken) wellFormed.quiets_member
    simpa [Token.text] using whole
  | .invoke _ callee typeArgs args signature, _, tidy, emitted => by
    simp only [Printer.expr, bind_eq_ok, pure_eq_ok] at emitted
    obtain ⟨calleeCode, emittedCallee, typesCode, emittedTypes, codes, emittedArgs, rfl⟩ := emitted
    have written := written_expr callee calleeCode (tidy.inside (.head _)) emittedCallee
    obtain ⟨unbroken, quiets⟩ := quiets_typeArgsCode tidy.here.types emittedTypes
    have each := flat_args args codes
      (fun arg member => tidy.inside (.tail _ (mem_values member))) emittedArgs
    -- The reader takes the type arguments for those of a type, and stops at the parenthesis.
    rw [Code.characters_append, Code.characters_append]
    exact ((written.enclose .primary callee).append unbroken quiets).append
      (Code.unbroken_parenthesized (unbroken_list each)) (quiets_parenthesized _)
  | .index _ target indices, _, tidy, emitted => by
    simp only [Printer.expr, bind_eq_ok, pure_eq_ok] at emitted
    obtain ⟨targetCode, emittedTarget, codes, emittedIndices, rfl⟩ := emitted
    have written := written_expr target targetCode (tidy.inside (.head _)) emittedTarget
    have each := flat_args indices codes
      (fun index member => tidy.inside (.tail _ (mem_values member))) emittedIndices
    have whole := (written.enclose .primary target).append
      (by simpa using unbroken_list each) (quiets_brackets each)
    simpa [Token.text] using whole
  | .binary _ op left right, _, tidy, emitted => by
    simp only [Printer.expr, bind_eq_ok, pure_eq_ok] at emitted
    obtain ⟨leftCode, emittedLeft, rightCode, emittedRight, rfl⟩ := emitted
    have writtenLeft := written_expr left leftCode (tidy.inside (.head _)) emittedLeft
    have writtenRight := written_expr right rightCode (tidy.inside (.tail _ (.head _))) emittedRight
    exact (writtenLeft.enclose _ left).operator (isOperator_binary op)
      (writtenRight.enclose _ right).unbroken
  | .unary _ op operand, _, tidy, emitted => by
    simp only [Printer.expr, bind_eq_ok] at emitted
    obtain ⟨inner, emittedOperand, emitted⟩ := emitted
    have written := written_expr operand inner (tidy.inside (.head _)) emittedOperand
    split at emitted
    case isTrue =>
      obtain rfl := pure_eq_ok.1 emitted
      have whole := (written.enclose .primary operand).append (unbroken_unary op) (quiets_unary op)
      simpa [Token.text] using whole
    case isFalse =>
      obtain rfl := pure_eq_ok.1 emitted
      rw [Code.characters_cons]
      exact written_unary op (written.encloseSigned operand).unbroken
  | .ternary _ condition thenValue elseValue, _, tidy, emitted => by
    simp only [Printer.expr, bind_eq_ok, pure_eq_ok] at emitted
    obtain ⟨conditionCode, emittedCondition, thenCode, emittedThen, elseCode, emittedElse, rfl⟩ :=
      emitted
    have written := written_expr condition conditionCode (tidy.inside (.head _)) emittedCondition
    have writtenThen :=
      written_expr thenValue thenCode (tidy.inside (.tail _ (.head _))) emittedThen
    have writtenElse :=
      written_expr elseValue elseCode (tidy.inside (.tail _ (.tail _ (.head _)))) emittedElse
    have question : IsOperator "?" := ⟨⟨_, _, rfl, rfl⟩, by decide⟩
    have colon : IsOperator ":" := ⟨⟨_, _, rfl, rfl⟩, by decide⟩
    exact ((written.enclose .or condition).operator question
      (writtenThen.enclose .conditional thenValue).unbroken).operator colon
        (writtenElse.enclose .conditional elseValue).unbroken
  | .cast _ operand target _, _, tidy, emitted => by
    simp only [Printer.expr, bind_eq_ok, pure_eq_ok] at emitted
    obtain ⟨targetCode, emittedTarget, inner, emittedOperand, rfl⟩ := emitted
    have namelike := namelike_typeCode tidy.here.types emittedTarget
    have written := written_expr operand inner (tidy.inside (.head _)) emittedOperand
    refine Code.written_parenthesized _ namelike.unbroken ?_
    simpa [Token.text] using (written.encloseSigned operand).unbroken
  | .tryCast _ operand target, _, tidy, emitted => by
    simp only [Printer.expr, bind_eq_ok, pure_eq_ok] at emitted
    obtain ⟨inner, emittedOperand, targetCode, emittedTarget, rfl⟩ := emitted
    have written := written_expr operand inner (tidy.inside (.head _)) emittedOperand
    have namelike := namelike_typeCode tidy.here.types emittedTarget
    -- A blank and a name are behind the operand, as in a declaration, but the name is `as`.
    have whole : Written ((enclose .relational operand inner).characters ++
        (" as ".toList ++ targetCode.characters)) :=
      (written.enclose .relational operand).append (by simpa using namelike.unbroken)
        fun behind _ => quiet_as (targetCode.characters ++ behind)
    simpa [Token.text] using whole
  | .typeOf _ named, _, tidy, emitted | .defaultOf _ named, _, tidy, emitted => by
    simp only [Printer.expr, bind_eq_ok, pure_eq_ok] at emitted
    obtain ⟨inner, emittedType, rfl⟩ := emitted
    have namelike := namelike_typeCode tidy.here.types emittedType
    exact written_applied (namelike_word rfl rfl rfl) namelike.unbroken
  | .construct _ constructed args signature, _, tidy, emitted => by
    simp only [Printer.expr, bind_eq_ok, pure_eq_ok] at emitted
    obtain ⟨typeText, emittedType, codes, emittedArgs, rfl⟩ := emitted
    have namelike := namelike_typeCode tidy.here.types emittedType
    have each :=
      flat_args args codes (fun arg member => tidy.inside (mem_values member)) emittedArgs
    refine Code.written_new ?_
    simpa using ⟨namelike.unbroken, Code.unbroken_parenthesized (unbroken_list each)⟩
  | .newArray _ element size, _, tidy, emitted => by
    simp only [Printer.expr, bind_eq_ok, pure_eq_ok] at emitted
    obtain ⟨innermost, emittedType, inner, emittedSize, rfl⟩ := emitted
    have wellNamed : WellNamed printer.names (innermostElement element).1.handles := by
      rw [handles_innermostElement]
      exact tidy.here.types
    have namelike := namelike_typeCode wellNamed emittedType
    have written := written_expr size inner (tidy.inside (.head _)) emittedSize
    refine Code.written_new ?_
    simpa [Token.text] using ⟨namelike.unbroken, written.unbroken, unbroken_dimensions _⟩
  | .lambda .., _, tidy, _ => by cases tidy.here.noLambda
  | .array _ element items, _, tidy, emitted => by
    simp only [Printer.expr, bind_eq_ok] at emitted
    obtain ⟨codes, emittedItems, typeText, emittedType, emitted⟩ := emitted
    have namelike := namelike_typeCode tidy.here.types emittedType
    have each :=
      flat_args items codes (fun item member => tidy.inside (mem_values member)) emittedItems
    have unbroken := unbroken_list each
    split at emitted
    · obtain rfl := pure_eq_ok.1 emitted
      refine Code.written_new ?_
      simpa [Token.text] using namelike.unbroken
    · obtain rfl := pure_eq_ok.1 emitted
      refine Code.written_new ?_
      simpa [Token.text] using ⟨namelike.unbroken, unbroken⟩
  | .map _ entries, _, tidy, emitted => by
    simp only [Printer.expr, bind_eq_ok] at emitted
    obtain ⟨hashtable, rendered, codes, emittedEntries, emitted⟩ := emitted
    have namelike := namelike_named tidy.here.types rendered
    have each := unbroken_entries entries codes
      (fun entry member => ⟨tidy.inside (mem_entries member (.head _)),
        tidy.inside (mem_entries member (.tail _ (.head _)))⟩) emittedEntries
    have unbroken := Code.unbroken_commaSeparated each
    split at emitted
    · obtain rfl := pure_eq_ok.1 emitted
      refine Code.written_new ?_
      simpa [Token.text] using namelike.unbroken
    · obtain rfl := pure_eq_ok.1 emitted
      refine Code.written_new ?_
      simpa [Token.text] using ⟨namelike.unbroken, unbroken⟩
  | .assign _ op target value, _, tidy, emitted => by
    simp only [Printer.expr, bind_eq_ok, pure_eq_ok] at emitted
    obtain ⟨targetCode, emittedTarget, valueCode, emittedValue, rfl⟩ := emitted
    have writtenTarget := written_expr target targetCode (tidy.inside (.head _)) emittedTarget
    have writtenValue := written_expr value valueCode (tidy.inside (.tail _ (.head _))) emittedValue
    exact (writtenTarget.enclose .unary target).operator (isOperator_assign op)
      writtenValue.unbroken
  | .paren _ inner, _, tidy, emitted => by
    rw [Printer.expr] at emitted
    exact written_expr inner _ (tidy.inside (.head _)) emitted

/-- Arguments begin with no blank, and stand on one line. -/
theorem flat_args {signature : Option Signature} {index : Nat} : (args : List Expr) →
    (codes : List Code) → (∀ arg ∈ args, Throughout (Tidy printer.names) (.expr arg)) →
      printer.args depth signature index args = .ok codes → ∀ code ∈ codes, Flat code.characters
  | [], _, _, emitted => by
    simp only [Printer.args, pure_eq_ok] at emitted
    subst emitted
    simp
  | first :: rest, _, tidy, emitted => by
    simp only [Printer.args, bind_eq_ok, pure_eq_ok] at emitted
    obtain ⟨code, emittedFirst, codes, emittedRest, rfl⟩ := emitted
    obtain ⟨tidyFirst, tidyRest⟩ := List.forall_mem_cons.1 tidy
    have written := written_expr first code tidyFirst emittedFirst
    exact List.forall_mem_cons.2 ⟨written.toFlat.withModifier signature index,
      flat_args rest codes tidyRest emittedRest⟩

/-- Entries stand on one line. -/
theorem unbroken_entries : (entries : List (Expr × Expr)) → (codes : List Code) →
    (∀ entry ∈ entries, Throughout (Tidy printer.names) (.expr entry.1) ∧
      Throughout (Tidy printer.names) (.expr entry.2)) →
      printer.entries depth entries = .ok codes → ∀ code ∈ codes, '\n' ∉ code.characters
  | [], _, _, emitted => by
    simp only [Printer.entries, pure_eq_ok] at emitted
    subst emitted
    simp
  | (key, value) :: rest, _, tidy, emitted => by
    simp only [Printer.entries, bind_eq_ok, pure_eq_ok] at emitted
    obtain ⟨keyCode, emittedKey, valueCode, emittedValue, codes, emittedRest, rfl⟩ := emitted
    obtain ⟨⟨tidyKey, tidyValue⟩, tidyRest⟩ := List.forall_mem_cons.1 tidy
    have writtenKey := written_expr key keyCode tidyKey emittedKey
    have writtenValue := written_expr value valueCode tidyValue emittedValue
    refine List.forall_mem_cons.2 ⟨?_, unbroken_entries rest codes tidyRest emittedRest⟩
    simpa [Token.text] using ⟨writtenKey.unbroken, writtenValue.unbroken⟩
end

end Printer

end ScriptSharp.Emit
