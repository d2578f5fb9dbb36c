import ScriptSharp.Proofs.Reading.Operands
import ScriptSharp.Proofs.Reading.Phrases

/-!
# Heads of `for` loops

In front of its first semicolon, a `for` loop declares variables of one type or lists expressions.
The items that are emitted there are written one by one with commas between them, so a declaration
repeats its type: `Printer.forLoop_initializer` says of which items the whole is an initializer
nevertheless.
-/

namespace ScriptSharp.Emit

open Code

/-! ## The grammar -/

/-- A declarator: a name, and possibly its initial value. -/
inductive Declarator (isExpr : Code → Prop) : Code → Prop where
  | plain {name : String} : Declarator isExpr [.name name]
  | initialized {name : String} {value : Code} (isValue : isExpr value) :
      Declarator isExpr (.name name :: .symbol "=" :: value)

/-- The initializer of a `for` loop: nothing, the declaration of variables of one type, or
expressions. -/
inductive ForInitializer (isExpr : Code → Prop) : Code → Prop where
  | empty : ForInitializer isExpr []
  | declaration {type : String} {declarators : List Code} (present : declarators ≠ [])
      (each : ∀ declarator ∈ declarators, Declarator isExpr declarator) :
      ForInitializer isExpr (.typeName type :: separated declarators)
  | expressions {exprs : List Code} (present : exprs ≠ []) (each : ∀ expr ∈ exprs, isExpr expr) :
      ForInitializer isExpr (separated exprs)

/-- What all expressions have in common: they close their brackets, have no commas outside of them
but between type arguments, and do not begin like a declaration. -/
structure ExpressionLike (code : Code) : Prop where
  unseparated : Unseparated code
  present : code ≠ []
  undeclaring : ∀ type name rest, code ≠ .typeName type :: .name name :: rest

/-- A type by itself or compared with something. Behind an open angle bracket it is taken for the
last of several type arguments. -/
def TypeLed (code : Code) : Prop :=
  ∃ type rest, code = .typeName type :: rest ∧ ∀ token ∈ rest.head?, token = .symbol ">"

/-- A declarator with an initial value like an expression is like an expression. -/
theorem Declarator.expressionLike {code : Code} (declarator : Declarator ExpressionLike code) :
    ExpressionLike code := by
  cases declarator with
  | plain => exact ⟨unseparated_token rfl (by simp), by simp, by simp⟩
  | initialized isValue =>
    exact ⟨.cons rfl (by simp) (.cons rfl (by decide) isValue.unseparated), by simp, by simp⟩

namespace Printer.IsExpr

variable {printer : Printer} {depth : Nat} {tokens rest : Code}

/-- An emitted expression begins like one, or it assigns a single token. -/
theorem led_or_assigns (isExpr : printer.IsExpr depth tokens) :
    Led tokens ∨ ∃ target value, tokens = target :: .symbol "=" :: value ∧
      printer.IsExpr depth value := by
  obtain ⟨expr, code, emitted, rfl⟩ := isExpr
  exact Printer.led_or_assigns expr code emitted

/-- An emitted expression looks like an expression. -/
theorem expressionLike (isExpr : printer.IsExpr depth tokens) : ExpressionLike tokens where
  unseparated := by
    obtain ⟨expr, code, emitted, rfl⟩ := isExpr
    exact unseparated_expr expr code emitted
  present := by
    rcases isExpr.led_or_assigns with ⟨first, rest, rfl, -⟩ | ⟨target, value, rfl, -⟩ <;> simp
  undeclaring := by
    rintro type name rest rfl
    rcases isExpr.led_or_assigns with ⟨first, behind, same, follows⟩ | ⟨target, value, same, -⟩
    · obtain ⟨rfl, rfl⟩ := List.cons.inj same
      cases (follows rfl (.name name) rfl).1
    · simp at same

/-- An expression that begins like a declarator is spelled like one. -/
theorem declarator {name : String} (isExpr : printer.IsExpr depth (.name name :: rest))
    (follows : ∀ token ∈ rest.head?, token = .symbol "=" ∨ token = .symbol ",") :
    Declarator (printer.IsExpr depth) (.name name :: rest) := by
  rcases isExpr.led_or_assigns with ⟨first, behind, same, joins⟩ | ⟨target, value, same, isValue⟩
  · obtain ⟨rfl, rfl⟩ := List.cons.inj same
    cases rest with
    | nil => exact .plain
    | cons second rest =>
      have joined := joins rfl second rfl
      rcases follows second rfl with rfl | rfl
      · exact absurd rfl joined.2.1
      · exact absurd rfl joined.2.2
  · obtain ⟨rfl, rfl⟩ := List.cons.inj same
    exact .initialized isValue

/-- An expression that begins like further type arguments is a type, by itself or compared. -/
theorem typeLed {type : String} (isExpr : printer.IsExpr depth (.typeName type :: rest))
    (follows : ∀ token ∈ rest.head?, token = .symbol "," ∨ token = .symbol ">") :
    TypeLed (.typeName type :: rest) := by
  refine ⟨type, rest, rfl, fun token member => (follows token member).resolve_left ?_⟩
  rintro rfl
  rcases isExpr.led_or_assigns with ⟨first, behind, same, joins⟩ | ⟨target, value, same, -⟩
  · obtain ⟨rfl, rfl⟩ := List.cons.inj same
    exact (joins rfl _ member).2.2 rfl
  · obtain ⟨-, rfl⟩ := List.cons.inj same
    simp at member

end Printer.IsExpr

/-! ## Items -/

/-- A statement in front of a `for` loop, as code. -/
inductive Item where
  | declaration (type name : String) (value : Option Code)
  | expression (code : Code)

namespace Item

/-- The code of an item. -/
def code : Item → Code
  | .declaration type name none => [.typeName type, .space, .name name]
  | .declaration type name (some value) =>
    .typeName type :: .space :: .name name :: .space :: .symbol "=" :: .space :: value
  | .expression code => code

/-- The tokens of items with commas between them. -/
def tokens (items : List Item) : Code :=
  (commaSeparated (items.map code)).words

/-- The items make up one initializer: all of them are expressions, or only the first one declares a
variable, and the ones behind it are expressions that can stand there. -/
inductive Fit (follows : Code → Prop) : List Item → Prop where
  | expressions {items : List Item} (each : ∀ item ∈ items, ∃ code, item = .expression code) :
      Fit follows items
  | declaration {type name : String} {value : Option Code} {rest : List Item}
      (each : ∀ item ∈ rest, ∃ code, item = .expression code ∧ follows code.words) :
      Fit follows (.declaration type name value :: rest)

/-- The expressions of the item are emitted ones. -/
def Emitted (printer : Printer) (depth : Nat) : Item → Prop
  | .declaration _ _ value => ∀ code ∈ value, printer.IsExpr depth code.words
  | .expression code => printer.IsExpr depth code.words

variable {printer : Printer} {depth : Nat} {items before after : List Item} {item : Item}

/-- The tokens of items are those of each, with commas between them. -/
theorem tokens_eq (items : List Item) :
    tokens items = separated (items.map fun item => item.code.words) := by
  rw [tokens, Spelled.words_commaSeparated, List.map_map]
  rfl

/-- The tokens of a declaration are its type, its name and its initial value. -/
theorem words_declaration (type name : String) (value : Option Code) :
    (declaration type name value).code.words = .typeName type :: .name name ::
      value.elim [] fun code => .symbol "=" :: code.words := by
  cases value <;> rfl

namespace Emitted

/-- An emitted item is one item. -/
theorem unseparated (emitted : item.Emitted printer depth) : Unseparated item.code.words := by
  cases item with
  | expression code => exact Printer.IsExpr.expressionLike emitted |>.unseparated
  | declaration type name value =>
    rw [words_declaration]
    refine .cons rfl (by simp) (.cons rfl (by simp) ?_)
    cases value with
    | none => exact unseparated_nil
    | some code => exact .cons rfl (by decide) (emitted code rfl).expressionLike.unseparated

/-- An emitted item has tokens. -/
theorem present (emitted : item.Emitted printer depth) : item.code.words ≠ [] := by
  cases item with
  | expression code => exact Printer.IsExpr.expressionLike emitted |>.present
  | declaration type name value => simp [words_declaration]

end Emitted

/-- Outside of the items, no bracket is open. -/
theorem level_separated (items : List Item)
    (emitted : ∀ item ∈ items, item.Emitted printer depth) :
    Code.level (separated (items.map fun item => item.code.words)) = 0 :=
  (balanced_separated (List.forall_mem_map.2 fun item member =>
    (emitted item member).unseparated.balanced)).level_eq

end Item

/-! ## What initializers look like -/

section Pieces

variable {isExpr : Code → Prop} {piece : Code} {pieces : List Code}

/-- Items that do not begin like a declaration do not do so together. -/
theorem separated_undeclaring (like : ExpressionLike piece) (type name : String) (rest : Code) :
    separated (piece :: pieces) ≠ .typeName type :: .name name :: rest := by
  intro whole
  obtain ⟨behind, rfl, same | ⟨-, same⟩⟩ := separated_begins like.present whole
  · cases behind with
    | nil => simp at same
    | cons second behind =>
      obtain rfl : second = .name name := by simpa using same
      exact like.undeclaring type name behind rfl
  · simp at same

/-- No declaration begins behind a comma outside of brackets. -/
theorem separated_undeclared (each : ∀ piece ∈ pieces, ExpressionLike piece) {front : Code}
    (outside : front.level = 0) (type name : String) (rest : Code) :
    separated pieces ≠ front ++ .symbol "," :: .typeName type :: .name name :: rest := by
  intro split
  rcases separated_split (fun piece member => (each piece member).unseparated) split outside with
    ⟨_, _, same, ends⟩ | ⟨piece, later, members, same⟩
  · obtain ⟨-, rfl⟩ := List.cons.inj same
    simp at ends
  · have isPiece := List.mem_of_mem_tail (members piece List.mem_cons_self)
    exact separated_undeclaring (each piece isPiece) type name rest same.symm

/-- Declarators begin with a name, and it is followed by a value or the next declarator. -/
theorem separated_declarators (declarator : Declarator isExpr piece) (pieces : List Code) :
    ∃ name rest, separated (piece :: pieces) = .name name :: rest ∧
      ∀ token ∈ rest.head?, token = .symbol "=" ∨ token = .symbol "," := by
  cases declarator with
  | plain =>
    refine ⟨_, _, separated_token _ _ _, ?_⟩
    cases pieces <;> simp [separated]
  | initialized =>
    refine ⟨_, _, separated_token _ _ _, ?_⟩
    rw [separated_token]
    rintro _ ⟨⟩
    exact .inl rfl

end Pieces

namespace Item

variable {printer : Printer} {depth : Nat} {items before after : List Item} {item : Item}

/-- Items that fit together are an initializer. -/
theorem Fit.forInitializer (emitted : ∀ item ∈ items, item.Emitted printer depth)
    (fit : Fit (Declarator (printer.IsExpr depth)) items) :
    ForInitializer (printer.IsExpr depth) (tokens items) := by
  rw [tokens_eq]
  cases fit with
  | expressions each =>
    cases items with
    | nil => exact .empty
    | cons first rest =>
      refine .expressions (by simp) (List.forall_mem_map.2 fun item member => ?_)
      obtain ⟨code, rfl⟩ := each item member
      exact emitted _ member
  | @declaration type name value rest each =>
    have ofFirst : Declarator (printer.IsExpr depth)
        (.name name :: value.elim [] fun code => .symbol "=" :: code.words) := by
      cases value with
      | none => exact .plain
      | some code => exact .initialized (emitted _ List.mem_cons_self code rfl)
    have ofRest : ∀ declarator ∈ rest.map fun item => item.code.words,
        Declarator (printer.IsExpr depth) declarator := List.forall_mem_map.2 fun item member => by
      obtain ⟨code, rfl, declarator⟩ := each item member
      exact declarator
    rw [List.map_cons, words_declaration, separated_token]
    exact .declaration (List.cons_ne_nil _ _) (List.forall_mem_cons.2 ⟨ofFirst, ofRest⟩)

/-- Behind another item, a comma and the next item stand outside of brackets. -/
theorem tokens_behind (present : before ≠ []) :
    tokens (before ++ item :: after) = separated (before.map fun item => item.code.words) ++
      .symbol "," :: separated (item.code.words :: after.map fun item => item.code.words) := by
  rw [tokens_eq, List.map_append, separated_append (by simpa using present) (by simp),
    List.map_cons]

/-- Where expressions are listed, no item is a declaration. -/
theorem expression_of_expressions {exprs : List Code}
    (emitted : ∀ item ∈ items, item.Emitted printer depth)
    (each : ∀ expr ∈ exprs, ExpressionLike expr) (whole : separated exprs = tokens items)
    (member : item ∈ items) : ∃ code, item = .expression code := by
  cases item with
  | expression code => exact ⟨code, rfl⟩
  | declaration type name value =>
    exfalso
    obtain ⟨before, after, rfl⟩ := List.append_of_mem member
    cases before with
    | nil =>
      rw [List.nil_append, tokens_eq, List.map_cons, words_declaration, separated_token,
        separated_token] at whole
      cases exprs with
      | nil => simp [separated] at whole
      | cons expr exprs =>
        exact separated_undeclaring (each expr List.mem_cons_self) type name _ whole
    | cons first before =>
      have outside := level_separated (first :: before) fun item member =>
        emitted item (List.mem_append_left _ member)
      rw [tokens_behind (List.cons_ne_nil _ _), words_declaration, separated_token,
        separated_token] at whole
      exact separated_undeclared each outside type name _ whole

/-- Where type arguments could go on, an item is an expression and begins with a type. -/
theorem typeLed_of_continues {pieces : List Code} (emitted : item.Emitted printer depth)
    (continues : Continues (separated (item.code.words :: pieces))) :
    ∃ code, item = .expression code ∧ TypeLed code.words := by
  obtain ⟨type, rest, whole, ends⟩ := continues
  obtain ⟨behind, begins, goesOn⟩ := separated_begins emitted.present whole
  have follows : ∀ token ∈ behind.head?, token = .symbol "," ∨ token = .symbol ">" := by
    intro token member
    rcases goesOn with same | ⟨rfl, -⟩
    · rw [same] at member
      rcases ends with ends | ends <;> rw [ends] at member <;> cases member
      · exact .inl rfl
      · exact .inr rfl
    · cases member
  cases item with
  | declaration =>
    rw [words_declaration] at begins
    obtain ⟨-, rfl⟩ := List.cons.inj begins
    have wrong := follows _ rfl
    simp at wrong
  | expression code =>
    refine ⟨code, rfl, ?_⟩
    have isExpr : printer.IsExpr depth code.words := emitted
    have spelled : code.words = .typeName type :: behind := begins
    rw [spelled] at isExpr ⊢
    exact isExpr.typeLed follows

/-- Where a declarator begins, an item is an expression and spelled like one. -/
theorem declarator_of_declarators {isExpr : Code → Prop} {piece : Code} {pieces later : List Code}
    (emitted : item.Emitted printer depth) (declarator : Declarator isExpr piece)
    (same : separated (item.code.words :: pieces) = separated (piece :: later)) :
    ∃ code, item = .expression code ∧ Declarator (printer.IsExpr depth) code.words := by
  obtain ⟨name, rest, whole, ends⟩ := separated_declarators declarator later
  obtain ⟨behind, begins, goesOn⟩ := separated_begins emitted.present (same.trans whole)
  have follows : ∀ token ∈ behind.head?, token = .symbol "=" ∨ token = .symbol "," := by
    intro token member
    rcases goesOn with same | ⟨rfl, -⟩
    · exact ends token (same ▸ member)
    · cases member
  cases item with
  | declaration =>
    rw [words_declaration] at begins
    cases (List.cons.inj begins).1
  | expression code =>
    refine ⟨code, rfl, ?_⟩
    have isExpr : printer.IsExpr depth code.words := emitted
    have spelled : code.words = .name name :: behind := begins
    rw [spelled] at isExpr ⊢
    exact isExpr.declarator follows

/-- A declaration comes first where the whole begins like one. -/
theorem fit_of_declaration {type : String} {declarator : Code} {declarators : List Code}
    (emitted : ∀ item ∈ items, item.Emitted printer depth)
    (each : ∀ piece ∈ declarator :: declarators, Declarator ExpressionLike piece)
    (whole : tokens items = .typeName type :: separated (declarator :: declarators)) :
    Fit (fun code => Declarator (printer.IsExpr depth) code ∨ TypeLed code) items := by
  obtain ⟨ofFirst, ofRest⟩ := List.forall_mem_cons.1 each
  obtain ⟨name, behind, begins, -⟩ := separated_declarators ofFirst declarators
  cases items with
  | nil => simp [tokens_eq, separated] at whole
  | cons first rest =>
    cases first with
    | expression code =>
      have like := Printer.IsExpr.expressionLike (emitted _ List.mem_cons_self)
      rw [tokens_eq, List.map_cons, begins] at whole
      exact absurd whole (separated_undeclaring like type name behind)
    | declaration type' name' value =>
      refine .declaration fun item member => ?_
      obtain ⟨before, after, rfl⟩ := List.append_of_mem member
      have pieces : ∀ piece ∈ (.typeName type :: declarator) :: declarators, Unseparated piece :=
        List.forall_mem_cons.2
          ⟨.cons rfl (by simp) ofFirst.expressionLike.unseparated, fun piece member =>
            (ofRest piece member).expressionLike.unseparated⟩
      have outside := level_separated (declaration type' name' value :: before)
        fun item member => emitted item (List.mem_append_left _ member)
      rw [← List.cons_append, tokens_behind (List.cons_ne_nil _ _)] at whole
      have ofItem := emitted item (by simp)
      have split := (separated_token _ _ _).trans whole.symm
      rcases separated_split pieces split outside with continues | ⟨piece, later, members, same⟩
      · obtain ⟨code, rfl, led⟩ := typeLed_of_continues ofItem continues
        exact ⟨code, rfl, .inr led⟩
      · have ofPiece := ofRest piece (members piece List.mem_cons_self)
        obtain ⟨code, rfl, isDeclarator⟩ := declarator_of_declarators ofItem ofPiece same
        exact ⟨code, rfl, .inl isDeclarator⟩

/-- Items that form an initializer fit together, where a type may be taken for the last of several
type arguments. -/
theorem fit_of_forInitializer (emitted : ∀ item ∈ items, item.Emitted printer depth)
    (initializer : ForInitializer ExpressionLike (tokens items)) :
    Fit (fun code => Declarator (printer.IsExpr depth) code ∨ TypeLed code) items := by
  generalize whole : tokens items = code at initializer
  cases initializer with
  | empty =>
    cases items with
    | nil => exact .expressions (by simp)
    | cons first rest =>
      rw [tokens_eq, List.map_cons] at whole
      exact absurd whole (separated_ne_nil (emitted first List.mem_cons_self).present)
  | expressions present each =>
    exact .expressions fun item member => expression_of_expressions emitted each whole.symm member
  | @declaration type declarators present each =>
    cases declarators with
    | nil => exact absurd rfl present
    | cons declarator declarators => exact fit_of_declaration emitted each whole

end Item

/-! ## Emitted loops -/

/-- Only declarations and expressions stand in front of a loop. -/
def initializes : Stmt → Bool
  | .declare .. | .expr _ => true
  | _ => false

namespace Printer

variable {printer : Printer} {depth : Nat}

/-- What is emitted for a statement in front of a loop. -/
inductive Emits (printer : Printer) (depth : Nat) : Stmt → Item → Prop where
  | declaration {name : Ident} {declared : Option Ty} {ty : Ty} {init : Option Expr} {span : Span}
      {type : String} {value : Option Code}
      (rendered : printer.names.render (declared.getD ty) = .ok type)
      (emitted : Option.Rel (fun expr code => printer.expr depth expr = .ok code) init value) :
      Emits printer depth (.declare name declared ty init span)
        (.declaration type name.render value)
  | expression {value : Expr} {code : Code} (emitted : printer.expr depth value = .ok code) :
      Emits printer depth (.expr value) (.expression code)

/-- What is emitted for a statement is an emitted item. -/
theorem Emits.emitted {stmt : Stmt} {item : Item} (emits : printer.Emits depth stmt item) :
    item.Emitted printer depth := by
  cases emits with
  | expression emitted => exact ⟨_, _, emitted, rfl⟩
  | declaration _ emitted =>
    rintro code ⟨⟩
    cases emitted with
    | some emitted => exact ⟨_, _, emitted, rfl⟩

/-- The text of a declaration is that of its code. -/
theorem text_declaration (type : String) (name : Ident) (value : Option Code) :
    (Item.declaration type name.render value).code.text =
      declarationText type name (value.map Code.text) := by
  refine String.toList_inj.1 ?_
  change (Item.declaration type name.render value).code.characters = _
  cases value with
  | none => simp [Item.code, declarationText, Token.text]
  | some code => simp [Item.code, declarationText, Token.text, toList_text]

/-- Where an initial value is emitted, it has code. -/
theorem exists_value {init : Option Expr} {value : Option String}
    (emitted : printer.optional depth init = .ok value) :
    ∃ codes, Option.Rel (fun expr code => printer.expr depth expr = .ok code) init codes ∧
      value = codes.map Code.text := by
  cases init with
  | none =>
    simp only [Printer.optional, pure_eq_ok] at emitted
    exact ⟨none, .none, emitted⟩
  | some expr =>
    simp only [Printer.optional, bind_eq_ok, pure_eq_ok] at emitted
    obtain ⟨code, emittedExpr, rfl⟩ := emitted
    exact ⟨some code, .some emittedExpr, rfl⟩

/-- The initializers of a loop are emitted one by one. -/
theorem emits_initializers {stmts : List Stmt} {texts : List String}
    (emitted : printer.initializers depth stmts = .ok texts) :
    ∃ items, List.Forall₂ (printer.Emits depth) stmts items ∧
      texts = items.map fun item => item.code.text := by
  induction stmts generalizing texts with
  | nil =>
    simp only [Printer.initializers, pure_eq_ok] at emitted
    exact ⟨[], .nil, emitted⟩
  | cons first rest inductionHypothesis =>
    cases first with
    | declare name declared ty init =>
      simp only [Printer.initializers, bind_eq_ok, pure_eq_ok] at emitted
      obtain ⟨type, rendered, initText, emittedInit, others, emittedRest, rfl⟩ := emitted
      obtain ⟨items, emits, rfl⟩ := inductionHypothesis emittedRest
      obtain ⟨value, emittedValue, rfl⟩ := exists_value emittedInit
      refine ⟨.declaration type name.render value :: items,
        .cons (.declaration rendered emittedValue) emits, ?_⟩
      rw [List.map_cons, text_declaration]
    | expr value =>
      simp only [Printer.initializers, bind_eq_ok, pure_eq_ok] at emitted
      obtain ⟨code, emittedValue, others, emittedRest, rfl⟩ := emitted
      obtain ⟨items, emits, rfl⟩ := inductionHypothesis emittedRest
      exact ⟨.expression code :: items, .cons (.expression emittedValue) emits, rfl⟩
    | _ => cases emitted

/-- The first statement of another kind is what the emission fails at. -/
theorem initializers_eq_error {before after : List Stmt} {other : Stmt} {texts : List String}
    (emitted : printer.initializers depth before = .ok texts)
    (foreign : initializes other = false) :
    printer.initializers depth (before ++ other :: after) =
      .error (.loopInitializer other.form) := by
  induction before generalizing texts with
  | nil =>
    cases other
    case declare | expr => cases foreign
    all_goals rfl
  | cons first rest inductionHypothesis =>
    cases first with
    | declare name declared ty init =>
      simp only [Printer.initializers, bind_eq_ok, pure_eq_ok] at emitted
      obtain ⟨type, rendered, initText, emittedInit, others, emittedRest, rfl⟩ := emitted
      rw [List.cons_append, Printer.initializers, rendered, emittedInit,
        inductionHypothesis emittedRest]
      rfl
    | expr value =>
      simp only [Printer.initializers, bind_eq_ok, pure_eq_ok] at emitted
      obtain ⟨code, emittedValue, others, emittedRest, rfl⟩ := emitted
      rw [List.cons_append, Printer.initializers, emittedValue, inductionHypothesis emittedRest]
      rfl
    | _ => cases emitted

/-- The text of items is that of each, with commas between them. -/
theorem text_items (items : List Item) : (commaSeparated (items.map Item.code)).text =
    ", ".intercalate (items.map fun item => item.code.text) := by
  refine String.toList_inj.1 ((characters_commaSeparated _).trans ?_)
  rw [List.map_map]
  rfl

/-- Every item that is emitted for statements is an emitted item. -/
theorem emitted_of_emits {stmts : List Stmt} {items : List Item}
    (emits : List.Forall₂ (printer.Emits depth) stmts items) :
    ∀ item ∈ items, item.Emitted printer depth := fun item member => by
  obtain ⟨stmt, -, emitted⟩ := exists_related emits member
  exact emitted.emitted

/-- In front of a `for` loop, the items are emitted with commas between them, and nothing but
declarations and expressions is accepted as an item. The whole is an initializer if all items are
expressions, or if only the first one declares a variable and the others are spelled like
declarators. Otherwise it is none, unless a type stands where more type arguments could. -/
theorem forLoop_initializer (printer : Printer) (depth : Nat) (init : List Stmt)
    (condition : Option Expr) (step : List Expr) (body : List Stmt) :
    (∀ before other after texts, init = before ++ other :: after → initializes other = false →
      printer.initializers depth before = .ok texts →
        printer.stmt depth (.forLoop init condition step body) =
          .error (.loopInitializer other.form)) ∧
      ∀ lines, printer.stmt depth (.forLoop init condition step body) = .ok lines →
        ∃ items, List.Forall₂ (printer.Emits depth) init items ∧
          (∃ rest behind, lines = ⟨depth, "for (" ++ (commaSeparated (items.map Item.code)).text ++
            "; " ++ rest⟩ :: behind) ∧
          (Item.Fit (Declarator (printer.IsExpr depth)) items →
            ForInitializer (printer.IsExpr depth) (Item.tokens items)) ∧
          (ForInitializer ExpressionLike (Item.tokens items) → Item.Fit (fun code =>
            Declarator (printer.IsExpr depth) code ∨ TypeLed code) items) := by
  constructor
  · rintro before other after texts rfl foreign emitted
    rw [Printer.stmt, initializers_eq_error emitted foreign]
    rfl
  · intro lines emitted
    simp only [Printer.stmt, bind_eq_ok, pure_eq_ok] at emitted
    obtain ⟨texts, emittedInit, condition, -, steps, -, bodyLines, -, rfl⟩ := emitted
    obtain ⟨items, emits, rfl⟩ := emits_initializers emittedInit
    have emitted := emitted_of_emits emits
    refine ⟨items, emits, ⟨condition.getD "" ++ "; " ++ (commaSeparated steps).text ++ ")",
      braced depth bodyLines, ?_⟩, Item.Fit.forInitializer emitted,
      Item.fit_of_forInitializer emitted⟩
    rw [text_items]
    simp only [String.append_assoc]

end Printer

/-! Loops over two counters. -/

namespace Counters

/-- Only types of the language itself are spelled. -/
def printer : Printer := ⟨⟨.ofTypes [], []⟩, 4⟩

def zero : Expr := .literal (Expr.noteOf .int) (.int 0)

/-- The declaration of a counter. -/
def declare (name : String) : Stmt := .declare (.plain name) none .int (some zero) .unknown

/-- The declaration of a counter, as code. -/
def declared (name : String) : Item := .declaration "int" name (some [.literal "0"])

/-- The declaration of a counter is an emitted item. -/
theorem emitted_declared (name : String) : (declared name).Emitted printer 2 := by
  rintro code ⟨⟩
  exact ⟨zero, _, rfl, rfl⟩

/-- A counter that is declared elsewhere starts at zero. -/
def restart (name : String) : Stmt :=
  .expr (.assign (Expr.noteOf .int) none (.localRef name .int) zero)

/-- The assignment to a counter, as code. -/
def restarted (name : String) : Code :=
  [.name name, .space, .symbol "=", .space, .literal "0"]

end Counters

/-- A loop that breaks in its head is refused. One that restarts a second counter there is
written. -/
theorem forLoop_initializer_counters :
    Counters.printer.stmt 2 (.forLoop [Counters.declare "i", .breakLoop] none [] []) =
        .error (.loopInitializer "Break") ∧
      ∃ items lines, Counters.printer.stmt 2
          (.forLoop [Counters.declare "i", Counters.restart "j"] none [] []) = .ok lines ∧
        lines.head?.map (·.text) = some "for (int i = 0, j = 0; ; )" ∧
        ForInitializer (Counters.printer.IsExpr 2) (Item.tokens items) := by
  constructor
  · exact (Printer.forLoop_initializer Counters.printer 2 _ none [] []).1 [Counters.declare "i"]
      .breakLoop [] _ rfl rfl rfl
  · obtain ⟨items, emits, -, fits, -⟩ := (Printer.forLoop_initializer Counters.printer 2
      [Counters.declare "i", Counters.restart "j"] none [] []).2 _ rfl
    refine ⟨items, _, rfl, rfl, fits ?_⟩
    cases emits with
    | cons first rest =>
      cases rest with
      | cons second rest =>
        cases first
        cases second with
        | @expression _ code emitted =>
          cases rest
          have spelled : Counters.restarted "j" = code := Except.ok.inj emitted
          subst spelled
          refine .declaration fun item member => ?_
          obtain rfl := List.mem_singleton.1 member
          exact ⟨_, rfl, .initialized ⟨Counters.zero, _, rfl, rfl⟩⟩

/-- A second declaration repeats the type, which no initializer does. -/
theorem forLoop_two_counters :
    (∃ behind, Counters.printer.stmt 2
      (.forLoop [Counters.declare "i", Counters.declare "j"] none [] []) =
        .ok (⟨2, "for (int i = 0, int j = 0; ; )"⟩ :: behind)) ∧
      (commaSeparated ([Counters.declared "i", Counters.declared "j"].map Item.code)).text =
        "int i = 0, int j = 0" ∧
      ¬ForInitializer ExpressionLike
        (Item.tokens [Counters.declared "i", Counters.declared "j"]) := by
  refine ⟨⟨_, rfl⟩, rfl, fun initializer => ?_⟩
  have emitted : ∀ item ∈ [Counters.declared "i", Counters.declared "j"],
      item.Emitted Counters.printer 2 := by
    simp only [List.forall_mem_cons, Counters.emitted_declared, true_and]
    exact fun _ none => nomatch none
  cases Item.fit_of_forInitializer emitted initializer with
  | expressions each =>
    obtain ⟨code, same⟩ := each _ List.mem_cons_self
    cases same
  | declaration each =>
    obtain ⟨code, same, -⟩ := each _ List.mem_cons_self
    cases same

end ScriptSharp.Emit
