import ScriptSharp.Proofs.Reading.Phrases

/-!
# Line ends of names and literals

Five characters end a line of the emitted language. Emission ends its lines with one of them, the
line feed, and literals are escaped, but two of the other four are no control characters and stand
in a literal as they are: `lineEnds_literalCode`. `Break` names the three kinds of line ends that
are left, and `Break.ofStmt` says which of them a statement has, in order, when it is emitted. What
this takes of the names in the statement is `Unbroken`.
-/

namespace ScriptSharp.Emit

open Node

/-! ## Characters -/

/-- The characters that end a line of the emitted language. -/
def isLineEnd (character : Char) : Bool :=
  character == '\n' || character == '\r' || character == '\x85' || character == '\u2028' ||
    character == '\u2029'

/-- The line ends of a text, in order. -/
def lineEnds (text : List Char) : List Char :=
  text.filter isLineEnd

/-- The text ends no line. -/
def Smooth (text : List Char) : Prop :=
  lineEnds text = []

instance (text : List Char) : Decidable (Smooth text) :=
  inferInstanceAs (Decidable (_ = _))

section Texts

variable {text first second : List Char}

@[simp]
theorem lineEnds_nil : lineEnds [] = [] := rfl

/-- Text in a row has the line ends of both parts. -/
@[simp]
theorem lineEnds_append : lineEnds (first ++ second) = lineEnds first ++ lineEnds second :=
  List.filter_append ..

/-- A character in front is a line end, or adds none. -/
@[simp]
theorem lineEnds_cons (character : Char) :
    lineEnds (character :: text) = if isLineEnd character then character :: lineEnds text
      else lineEnds text :=
  List.filter_cons

/-- Text in a row is smooth if both parts are. -/
theorem smooth_append : Smooth (first ++ second) ↔ Smooth first ∧ Smooth second := by
  rw [Smooth, lineEnds_append, List.append_eq_nil_iff]
  rfl

/-- Text is smooth if none of its characters is a line end. -/
theorem smooth_iff : Smooth text ↔ ∀ character ∈ text, isLineEnd character = false := by
  simp [Smooth, lineEnds]

/-- Items with smooth separators have the line ends of the items. -/
theorem lineEnds_intercalate {separator : List Char} (smooth : Smooth separator)
    (items : List (List Char)) :
    lineEnds (separator.intercalate items) = items.flatMap lineEnds := by
  induction items with
  | nil => simp
  | cons item items inductionHypothesis =>
    cases items with
    | nil => simp
    | cons next items =>
      rw [List.intercalate_cons_cons, lineEnds_append, lineEnds_append, smooth,
        inductionHypothesis, List.append_nil]
      rfl

/-- Texts with commas between them. -/
theorem lineEnds_list (texts : List String) :
    lineEnds (", ".intercalate texts).toList = texts.flatMap fun text => lineEnds text.toList := by
  rw [String.toList_intercalate, lineEnds_intercalate (by decide), List.flatMap_map]

end Texts

/-! ## Breaks -/

/-- What ends a line of emitted text. -/
inductive Break where
  /-- The line feed that emission puts behind a line. -/
  | added
  /-- The line separator of Unicode, in a literal. -/
  | lineSeparator
  /-- The paragraph separator of Unicode, in a literal. -/
  | paragraphSeparator
  deriving DecidableEq, Repr

namespace Break

/-- The character that ends the line. -/
def character : Break → Char
  | .added => '\n'
  | .lineSeparator => '\u2028'
  | .paragraphSeparator => '\u2029'

/-- The characters that end the lines. -/
def characters (breaks : List Break) : List Char :=
  breaks.map character

@[simp]
theorem characters_nil : characters [] = [] := rfl

/-- A line end in front gives its character. -/
@[simp]
theorem characters_cons (first : Break) (rest : List Break) :
    characters (first :: rest) = first.character :: characters rest := rfl

/-- Line ends in a row give the characters of both parts. -/
@[simp]
theorem characters_append (first second : List Break) :
    characters (first ++ second) = characters first ++ characters second :=
  List.map_append

@[simp]
theorem character_added : added.character = '\n' := rfl

/-- The break that a character of a literal makes. -/
def held? (character : Char) : Option Break :=
  if character = '\u2028' then some .lineSeparator
  else if character = '\u2029' then some .paragraphSeparator
  else none

/-- The breaks that characters of a literal make. -/
def held (characters : List Char) : List Break :=
  characters.filterMap held?

/-- The breaks in a literal. -/
def ofLiteral : Literal → List Break
  | .char value => held [value]
  | .string value => held value.toList
  | .null | .bool _ | .int _ | .long _ | .float _ | .double _ => []

/-- The breaks of lines between braces. -/
def block (inside : List Break) : List Break :=
  .added :: (inside ++ [.added])

/-- The branch goes on with the chain of conditions. -/
def continuesChain : List Stmt → Bool
  | [.branch ..] => true
  | _ => false

mutual
/-- The breaks in the code of an expression. -/
def ofExpr : Expr → List Break
  | .literal _ value => ofLiteral value
  | .ident .. | .selfRef _ | .superRef _ | .typeRef .. | .typeOf .. | .defaultOf .. => []
  | .member _ target _ _ => ofExpr target
  | .invoke _ callee _ args _ => ofExpr callee ++ ofExprs args
  | .index _ target indices => ofExpr target ++ ofExprs indices
  | .binary _ _ left right => ofExpr left ++ ofExpr right
  | .unary _ _ operand => ofExpr operand
  | .ternary _ condition thenValue elseValue =>
    ofExpr condition ++ (ofExpr thenValue ++ ofExpr elseValue)
  | .cast _ operand _ _ | .tryCast _ operand _ => ofExpr operand
  | .construct _ _ args _ => ofExprs args
  | .newArray _ _ size => ofExpr size
  | .lambda _ _ _ body => ofBody body
  | .array _ _ items => ofExprs items
  | .map _ entries => ofEntries entries
  | .assign _ _ target value => ofExpr target ++ ofExpr value
  | .paren _ inner => ofExpr inner

/-- The breaks in the code of expressions. -/
def ofExprs : List Expr → List Break
  | [] => []
  | first :: rest => ofExpr first ++ ofExprs rest

/-- The breaks in the code of the entries of a map. -/
def ofEntries : List (Expr × Expr) → List Break
  | [] => []
  | (key, value) :: rest => ofExpr key ++ (ofExpr value ++ ofEntries rest)

/-- The breaks in the code of the body of a function literal. -/
def ofBody : LambdaBody → List Break
  | .expr value => ofExpr value
  | .block body => .added :: ofStmts body

/-- The breaks in the code of an expression that may be missing. -/
def ofOptional : Option Expr → List Break
  | none => []
  | some value => ofExpr value

/-- The breaks of the lines of a statement. -/
def ofStmt : Stmt → List Break
  | .expr value => ofExpr value ++ [.added]
  | .declare _ _ _ init _ => ofOptional init ++ [.added]
  | .branch condition thenBody elseBody =>
    ofExpr condition ++ .added :: (block (ofStmts thenBody) ++ ofElse elseBody)
  | .whileLoop condition body => ofExpr condition ++ .added :: block (ofStmts body)
  | .forLoop init condition step body =>
    ofInitializers init ++ (ofOptional condition ++ (ofExprs step ++
      .added :: block (ofStmts body)))
  | .forEach _ _ source body => ofExpr source ++ .added :: block (ofStmts body)
  | .ret value _ => ofOptional value ++ [.added]
  | .throw value => ofExpr value ++ [.added]
  | .breakLoop | .continueLoop => [.added]
  | .block body => block (ofStmts body)

/-- The breaks of the lines of statements. -/
def ofStmts : List Stmt → List Break
  | [] => []
  | first :: rest => ofStmt first ++ ofStmts rest

/-- The breaks of the lines of an `else` branch. One `if` statement stands there without braces. -/
def ofElse : Option (List Stmt) → List Break
  | none => []
  | some body => if continuesChain body then ofStmts body else .added :: block (ofStmts body)

/-- The breaks in front of a `for` loop. -/
def ofInitializers : List Stmt → List Break
  | [] => []
  | .declare _ _ _ init _ :: rest => ofOptional init ++ ofInitializers rest
  | .expr value :: rest => ofExpr value ++ ofInitializers rest
  | _ :: _ => []
end

end Break

/-! ## What names have to be like -/

/-- No character of the name ends a line. -/
@[mk_iff]
structure SmoothInfo (info : TypeInfo) : Prop where
  name : Smooth info.name.toList
  space : ∀ space ∈ info.space, Smooth space.toList

instance {info : TypeInfo} : Decidable (SmoothInfo info) :=
  decidable_of_iff' _ (smoothInfo_iff info)

/-- The handles of the types that a node itself spells. -/
def spelledHandles (table : TypeTable) : Node → List TypeId
  | .expr (.lambda _ params _ _) => Ty.handlesAll (params.filterMap (·.ty))
  | .attr root => root.ty.handles
  | .member (.field field) => field.ty.handles
  | .member (.method method) => method.ret.handles ++ Ty.handlesAll (method.params.map (·.ty))
  | .member (.ctor ctor) => Ty.handlesAll (ctor.params.map (·.ty))
  | .decl root => Ty.handlesAll (root.base.toList ++ root.interfaces)
  | node => nodeHandles table node

/-- The types behind the handles have names that end no line. -/
def SmoothTypes (names : Names) (handles : List TypeId) : Prop :=
  ∀ id ∈ handles, ∀ info ∈ names.table.get? id, SmoothInfo info

instance {names : Names} {handles : List TypeId} : Decidable (SmoothTypes names handles) :=
  inferInstanceAs (Decidable (∀ id ∈ handles, ∀ info ∈ names.table.get? id, SmoothInfo info))

/-- No identifier of a node ends a line, and no name of a type that it spells does. -/
@[mk_iff]
structure Unbroken (names : Names) (node : Node) : Prop where
  idents : ∀ ident ∈ node.idents, Smooth ident.name.toList
  types : SmoothTypes names (spelledHandles names.table node)

instance {names : Names} {node : Node} : Decidable (Unbroken names node) :=
  decidable_of_iff' _ (unbroken_iff names node)

/-! ## Names and types -/

/-- A mark in front of a name is no line end. -/
theorem smooth_marked {name : String} (smooth : Smooth name.toList) :
    Smooth ("@" ++ name).toList := by
  rw [String.toList_append, smooth_append]
  exact ⟨by decide, smooth⟩

/-- An identifier with a smooth name is spelled smoothly. -/
theorem smooth_render {ident : Ident} (smooth : Smooth ident.name.toList) :
    Smooth ident.render.toList := by
  rw [Ident.render]
  split
  · exact smooth_marked smooth
  · exact smooth

/-- A smooth name stays smooth when it is marked. -/
theorem smooth_escapeWord {name : String} (smooth : Smooth name.toList) :
    Smooth (escapeWord name).toList := by
  rw [escapeWord]
  split
  · exact smooth_marked smooth
  · exact smooth

section Types

variable {names : Names}

/-- Types in a row have smooth names if both parts have. -/
theorem smoothTypes_append {first second : List TypeId} :
    SmoothTypes names (first ++ second) ↔ SmoothTypes names first ∧ SmoothTypes names second :=
  List.forall_mem_append

/-- The types of a list have smooth names if each of them has. -/
theorem smoothTypes_handlesAll {types : List Ty} :
    SmoothTypes names (Ty.handlesAll types) ↔ ∀ ty ∈ types, SmoothTypes names ty.handles := by
  induction types with
  | nil => simp [Ty.handlesAll, SmoothTypes]
  | cons first rest inductionHypothesis =>
    rw [Ty.handlesAll, smoothTypes_append, inductionHypothesis, List.forall_mem_cons]

/-- A name behind its namespace is smooth if both are. -/
theorem smooth_qualified {space name : String} (smoothSpace : Smooth space.toList)
    (smoothName : Smooth name.toList) : Smooth (space ++ "." ++ name).toList := by
  rw [String.toList_append, String.toList_append, smooth_append, smooth_append]
  exact ⟨⟨smoothSpace, by decide⟩, smoothName⟩

/-- The name of a type is spelled smoothly. -/
theorem smooth_named {id : TypeId} {text : String} (smooth : SmoothTypes names [id])
    (rendered : names.named id = .ok text) : Smooth text.toList := by
  rw [Names.named] at rendered
  split at rendered
  case h_1 info found =>
    obtain rfl := Except.ok.inj rendered
    have ofInfo := smooth id List.mem_cons_self info found
    rw [Names.spell]
    split
    case h_1 space inSpace =>
      split
      · exact smooth_escapeWord ofInfo.name
      · exact smooth_qualified (ofInfo.space space inSpace) (smooth_escapeWord ofInfo.name)
    case h_2 => exact smooth_escapeWord ofInfo.name
  case h_2 => cases rendered

/-- Smooth texts with commas between them are smooth. -/
theorem smooth_list {texts : List String} (each : ∀ text ∈ texts, Smooth text.toList) :
    Smooth (", ".intercalate texts).toList := by
  rw [Smooth, lineEnds_list, List.flatMap_eq_nil_iff]
  exact each

/-- Type arguments behind a name. -/
theorem smooth_arguments {name : String} {texts : List String} (smooth : Smooth name.toList)
    (each : ∀ text ∈ texts, Smooth text.toList) :
    Smooth (name ++ "<" ++ ", ".intercalate texts ++ ">").toList := by
  simp only [String.toList_append, smooth_append]
  exact ⟨⟨⟨smooth, by decide⟩, smooth_list each⟩, by decide⟩

/-- The name of a delegate type is smooth. -/
theorem smooth_delegate {returnsValue : Bool} {texts : List String}
    (each : ∀ text ∈ texts, Smooth text.toList) :
    Smooth (names.delegate returnsValue texts).toList := by
  have bare : Smooth ((if names.sees "System" then "" else "System.") ++
      if returnsValue then "Func" else "Action").toList := by
    cases names.sees "System" <;> cases returnsValue <;> decide
  cases texts with
  | nil => exact bare
  | cons first rest => exact smooth_arguments bare each

mutual
/-- The spelling of a type ends no line. -/
theorem smooth_type : (ty : Ty) → (text : String) → SmoothTypes names ty.handles →
    names.render ty = .ok text → Smooth text.toList
  | .void, _, _, rendered | .null, _, _, rendered => by
    obtain rfl := Except.ok.inj rendered
    decide
  | .primitive basic, _, _, rendered => by
    obtain rfl := Except.ok.inj rendered
    cases basic <;> decide
  | .named id, _, smooth, rendered => smooth_named smooth rendered
  | .array element, _, smooth, rendered => by
    simp only [Names.render, bind_eq_ok, pure_eq_ok] at rendered
    obtain ⟨inner, renderedInner, rfl⟩ := rendered
    rw [String.toList_append, smooth_append]
    exact ⟨smooth_type element inner smooth renderedInner, by decide⟩
  | .generic id arguments, _, smooth, rendered => by
    simp only [Names.render, bind_eq_ok, pure_eq_ok] at rendered
    obtain ⟨name, renderedName, texts, renderedAll, rfl⟩ := rendered
    have both : SmoothTypes names ([id] ++ Ty.handlesAll arguments) := smooth
    obtain ⟨ofName, ofArguments⟩ := smoothTypes_append.1 both
    exact smooth_arguments (smooth_named ofName renderedName)
      (smooth_types arguments texts ofArguments renderedAll)
  | .delegate params ret, _, smooth, rendered => by
    simp only [Names.render, bind_eq_ok] at rendered
    obtain ⟨texts, renderedAll, rendered⟩ := rendered
    obtain ⟨ofParams, ofRet⟩ := smoothTypes_append.1 smooth
    have each := smooth_types params texts ofParams renderedAll
    split at rendered
    · obtain rfl := pure_eq_ok.1 rendered
      exact smooth_delegate each
    · obtain ⟨result, renderedResult, same⟩ := bind_eq_ok.1 rendered
      obtain rfl := pure_eq_ok.1 same
      have ofResult := smooth_type ret result ofRet renderedResult
      exact smooth_delegate (List.forall_mem_append.2 ⟨each, by simpa using ofResult⟩)

/-- The same is true of each type of a list. -/
theorem smooth_types : (types : List Ty) → (texts : List String) →
    SmoothTypes names (Ty.handlesAll types) → names.renderAll types = .ok texts →
      ∀ text ∈ texts, Smooth text.toList
  | [], _, _, rendered => by
    obtain rfl := Except.ok.inj rendered
    nofun
  | first :: rest, _, smooth, rendered => by
    simp only [Names.renderAll, bind_eq_ok, pure_eq_ok] at rendered
    obtain ⟨text, renderedFirst, texts, renderedRest, rfl⟩ := rendered
    obtain ⟨ofFirst, ofRest⟩ := smoothTypes_append.1 smooth
    exact List.forall_mem_cons.2 ⟨smooth_type first text ofFirst renderedFirst,
      smooth_types rest texts ofRest renderedRest⟩
end

end Types

/-! ## Literals -/

/-- The characters of numbers are no line ends. -/
theorem smooth_of_numeralChars {characters : List Char}
    (parts : ∀ character ∈ characters, isNumeralChar character = true) : Smooth characters := by
  rw [smooth_iff]
  intro character member
  have isPart := parts character member
  rw [Bool.eq_false_iff]
  intro ends
  simp only [isLineEnd, Bool.or_eq_true, beq_iff_eq] at ends
  rcases ends with (((rfl | rfl) | rfl) | rfl) | rfl <;> cases isPart

/-- A number is smooth. -/
theorem Numeral.smooth {characters : List Char} (numeral : Numeral characters) :
    Smooth characters :=
  smooth_of_numeralChars numeral.parts

/-- The digits of an escape sequence are no line ends. -/
theorem smooth_fourDigits {character : Char} (control : isControl character = true) :
    Smooth (fourDigits character) := by
  have digits : ∀ code < 160, Smooth (fourDigits (Char.ofNat code)) := by decide +kernel
  simp only [isControl, Bool.or_eq_true, Bool.and_eq_true, decide_eq_true_eq] at control
  have small := digits character.toNat (by omega)
  rwa [Char.ofNat_toNat] at small

/-- A character is escaped if it ends a line, unless it is one of the two separators. -/
theorem lineEnds_escapeChar {quote : Char} (isQuote : quote = singleQuote ∨ quote = doubleQuote)
    (character : Char) :
    lineEnds (escapeChar quote character) = Break.characters (Break.held [character]) := by
  by_cases ends : isLineEnd character = true
  · simp only [isLineEnd, Bool.or_eq_true, beq_iff_eq] at ends
    rcases ends with (((rfl | rfl) | rfl) | rfl) | rfl <;> rcases isQuote with rfl | rfl <;> decide
  · have plain : isLineEnd character = false := Bool.eq_false_iff.2 ends
    have smooth : Smooth [character] := by simp [Smooth, plain]
    have other : Break.held? character = none := by
      rw [Break.held?, if_neg, if_neg]
      · rintro rfl
        cases plain
      · rintro rfl
        cases plain
    have escaped : Smooth (escapeChar quote character) := by
      rw [escapeChar]
      split_ifs with _ _ _ _ _ _ control
      iterate 5 decide
      · exact smooth_append.2 ⟨show Smooth ['\\'] by decide, smooth⟩
      · have marked : Smooth (['\\', 'u'] ++ fourDigits character) :=
          smooth_append.2 ⟨by decide, smooth_fourDigits control⟩
        exact marked
      · exact smooth
    rw [escaped, Break.held, List.filterMap_cons, other]
    rfl

/-- Of the line ends in a text, the separators are left when it is escaped. -/
theorem lineEnds_escaped {quote : Char} (isQuote : quote = singleQuote ∨ quote = doubleQuote)
    (characters : List Char) :
    lineEnds (characters.flatMap (escapeChar quote)) =
      Break.characters (Break.held characters) := by
  induction characters with
  | nil => rfl
  | cons character characters inductionHypothesis =>
    have parts : Break.held (character :: characters) =
        Break.held [character] ++ Break.held characters :=
      List.filterMap_append (l := [character])
    rw [List.flatMap_cons, lineEnds_append, lineEnds_escapeChar isQuote, inductionHypothesis, parts,
      Break.characters_append]

/-- Of the line ends in a text, the separators are left between quotes. -/
theorem lineEnds_quoted {quote : Char} (isQuote : quote = singleQuote ∨ quote = doubleQuote)
    (characters : List Char) :
    lineEnds (quoted quote characters) = Break.characters (Break.held characters) := by
  have plain : isLineEnd quote = false := by
    rcases isQuote with rfl | rfl <;> rfl
  have smooth : Smooth [quote] := by simp [Smooth, plain]
  rw [quoted, lineEnds_append, smooth, List.append_nil, lineEnds_cons, plain]
  exact lineEnds_escaped isQuote characters

/-- A number is smooth, also when it is not finite. -/
theorem smooth_numberText (number : Binary64) : Smooth (numberText number).toList := by
  rcases numberText_cases number with numeral | undefined | infinite
  · exact numeral.smooth
  · rw [undefined]
    decide
  · rw [infinite]
    decide

/-- The line ends of a literal without its sign are the separators in its value. -/
theorem lineEnds_unsignedText (value : Literal) :
    lineEnds (unsignedText value).toList = Break.characters (Break.ofLiteral value) := by
  cases value with
  | null => rfl
  | bool value => cases value <;> rfl
  | int value => exact (numeral_toString _).smooth
  | long value =>
    have smooth : Smooth (toString value.natAbs ++ "L").toList := by
      rw [String.toList_append, smooth_append]
      exact ⟨(numeral_toString _).smooth, by decide⟩
    exact smooth
  | float value =>
    have smooth : Smooth (numberText value ++ "f").toList := by
      rw [String.toList_append, smooth_append]
      exact ⟨smooth_numberText value, by decide⟩
    exact smooth
  | double value => exact smooth_numberText value
  | char value =>
    rw [unsignedText, String.toList_ofList]
    exact lineEnds_quoted (.inl rfl) [value]
  | string value =>
    rw [unsignedText, String.toList_ofList]
    exact lineEnds_quoted (.inr rfl) value.toList

/-- The line ends in the code of a literal are the separators in its value. -/
theorem lineEnds_literalCode (value : Literal) :
    lineEnds (literalCode value).characters = Break.characters (Break.ofLiteral value) := by
  rw [literalCode]
  split
  · simpa [Token.text, isLineEnd] using lineEnds_unsignedText value
  · simpa [Token.text] using lineEnds_unsignedText value

end ScriptSharp.Emit
