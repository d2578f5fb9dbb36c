import ScriptSharp.Emit.Unit
import ScriptSharp.Tree.Traversal

/-!
# What emission does not show

Emission shows names, operators, literals, the types that are written out and how arguments are
passed. Everything else that the tree holds leaves no trace: parentheses of the source, positions,
the static types of expressions, what names are bound to, and so on. `SourceUnit.forget` takes all
of that away, node by node, and what is left has the same text: `unitText_of_forget_eq`.
-/

namespace ScriptSharp

/-! ## Forgetting -/

/-- Only the modifiers of the parameters are left of a signature. A missing one has no
parameters. -/
def Signature.forget (signature : Option Signature) : Option Signature :=
  some ⟨(signature.elim [] params).map fun param => ⟨"", .void, param.modifier⟩, .void⟩

/-- The note of every expression. -/
def Note.forgotten : Note := ⟨.void, .unknown⟩

/-- What every name is bound to. -/
def MemberBinding.forgotten : MemberBinding := ⟨0, .field, false, none⟩

/-- What is shown of the top of an expression. -/
def Expr.forgetTop : Expr → Expr
  | .literal _ value => .literal .forgotten value
  | .ident _ name _ => .ident .forgotten name .unresolved
  | .selfRef _ => .selfRef .forgotten
  | .superRef _ => .superRef .forgotten
  | .typeRef _ named => .typeRef .forgotten named
  | .member _ target name _ => .member .forgotten target name .forgotten
  | .invoke _ callee typeArgs args signature =>
    .invoke .forgotten callee typeArgs args (Signature.forget signature)
  | .index _ target indices => .index .forgotten target indices
  | .binary _ op left right => .binary .forgotten op left right
  | .unary _ op operand => .unary .forgotten op operand
  | .ternary _ condition thenValue elseValue => .ternary .forgotten condition thenValue elseValue
  | .cast _ operand target _ => .cast .forgotten operand target false
  | .tryCast _ operand target => .tryCast .forgotten operand target
  | .typeOf _ named => .typeOf .forgotten named
  | .defaultOf _ named => .defaultOf .forgotten named
  | .construct _ constructed args signature =>
    .construct .forgotten constructed args (Signature.forget signature)
  | .newArray _ element size => .newArray .forgotten element size
  | .lambda _ params _ body => .lambda .forgotten params none body
  | .array _ element items => .array .forgotten element items
  | .map _ entries => .map .forgotten entries
  | .assign _ op target value => .assign .forgotten op target value
  | .paren _ inner => inner

/-- What is shown of the top of a statement. -/
def Stmt.forgetTop : Stmt → Stmt
  | .declare name declared ty init _ => .declare name declared ty init .unknown
  | .ret value _ => .ret value .unknown
  | stmt => stmt

/-- What is shown of the top of a member. -/
def Member.forgetTop : Member → Member
  | .field decl => .field { decl with span := .unknown }
  | .method decl => .method { decl with span := .unknown }
  | .ctor decl => .ctor { decl with
      span := .unknown
      chain := decl.chain.map fun chain =>
        { chain with signature := Signature.forget chain.signature } }

/-- The walk that forgets what is not shown. -/
def forgetting : DeclTraversal Id Unit where
  enter _ _ := pure (some ⟨(), ()⟩)
  leave _ expr := pure expr.forgetTop
  enterStmt _ _ := ()
  leaveStmt _ stmt := pure stmt.forgetTop
  enterDecl _ _ := ()
  enterMember _ _ := ()
  leaveAttribute _ attr := pure { attr with span := .unknown }
  leaveMember _ member := pure member.forgetTop
  leaveDecl _ decl := pure { decl with id := 0, span := .unknown }

/-- What is shown of a unit. -/
def SourceUnit.forget (unit : SourceUnit) : SourceUnit :=
  { (forgetting.unit () unit).run with fileName := "", sourceText := none }

/-- What is shown of an expression. -/
def Expr.forget (expr : Expr) : Expr := (forgetting.expr () expr).run

/-- What is shown of expressions. -/
def Expr.forgetAll (exprs : List Expr) : List Expr := (forgetting.exprs () exprs).run

/-- What is shown of the entries of a map. -/
def Expr.forgetEntries (entries : List (Expr × Expr)) : List (Expr × Expr) :=
  (forgetting.entries () entries).run

/-- What is shown of an expression that may be missing. -/
def Expr.forget? (expr : Option Expr) : Option Expr := (forgetting.optional () expr).run

/-- What is shown of the body of a function literal. -/
def LambdaBody.forget (body : LambdaBody) : LambdaBody := (forgetting.lambdaBody () body).run

/-- What is shown of a statement. -/
def Stmt.forget (stmt : Stmt) : Stmt := (forgetting.stmt () stmt).run

/-- What is shown of statements. -/
def Stmt.forgetAll (stmts : List Stmt) : List Stmt := (forgetting.stmts () stmts).run

/-- What is shown of a block that may be missing. -/
def Stmt.forget? (body : Option (List Stmt)) : Option (List Stmt) := (forgetting.block? () body).run

/-- What is shown of an argument of an attribute. -/
def AttributeArg.forget (arg : AttributeArg) : AttributeArg :=
  { arg with value := arg.value.forget }

/-- What is shown of an attribute. -/
def Attribute.forget (attr : Attribute) : Attribute := (forgetting.attr () attr).run

/-- What is shown of a member. -/
def Member.forget (member : Member) : Member := (forgetting.member () member).run

/-- What is shown of a type declaration. -/
def TypeDecl.forget (decl : TypeDecl) : TypeDecl := (forgetting.decl () decl).run

/-- Attributes forget one by one. -/
theorem forget_attrs (attrs : List Attribute) :
    (forgetting.attrs () attrs).run = attrs.map Attribute.forget :=
  congrArg Id.run (List.mapM_pure (l := attrs) (f := Attribute.forget))

/-- An attribute forgets where it stands, and its arguments forget. -/
theorem forget_attr (attr : Attribute) :
    attr.forget = ⟨attr.ty, attr.args.map AttributeArg.forget, .unknown⟩ := by
  have args := congrArg Id.run (List.mapM_pure (l := attr.args) (f := AttributeArg.forget))
  exact congrArg (Attribute.mk attr.ty · .unknown) args

/-- A field forgets where it stands, and its parts forget. -/
theorem forget_field (decl : FieldDecl) : (Member.field decl).forget = .field
    { decl with
      attrs := decl.attrs.map Attribute.forget
      init := Expr.forget? decl.init
      span := .unknown } := by
  rw [← forget_attrs]
  rfl

/-- A method forgets where it stands, and its parts forget. -/
theorem forget_method (decl : MethodDecl) : (Member.method decl).forget = .method
    { decl with
      attrs := decl.attrs.map Attribute.forget
      body := Stmt.forget? decl.body
      span := .unknown } := by
  rw [← forget_attrs]
  rfl

/-- A constructor forgets where it stands, and its parts forget. -/
theorem forget_ctor (decl : CtorDecl) : (Member.ctor decl).forget = .ctor
    { decl with
      chain := decl.chain.map fun chain =>
        ⟨chain.kind, Expr.forgetAll chain.args, Signature.forget chain.signature⟩
      body := Stmt.forgetAll decl.body
      span := .unknown } := by
  cases decl with
  | mk params chain body modifiers span => cases chain <;> rfl

/-- A declaration forgets its number and where it stands, and its parts forget. -/
theorem forget_decl (decl : TypeDecl) : decl.forget =
    { decl with
      id := 0
      attrs := decl.attrs.map Attribute.forget
      members := decl.members.map Member.forget
      span := .unknown } := by
  have members := congrArg Id.run (List.mapM_pure (l := decl.members) (f := Member.forget))
  rw [← forget_attrs]
  exact congrArg (fun members => { decl with
    id := 0
    attrs := (forgetting.attrs () decl.attrs).run
    members
    span := .unknown }) members

/-- A unit forgets where it comes from, and its parts forget. -/
theorem forget_unit (unit : SourceUnit) : unit.forget =
    { unit with
      fileName := ""
      decls := unit.decls.map TypeDecl.forget
      globals := Stmt.forgetAll unit.globals
      sourceText := none } := by
  have decls := congrArg Id.run (List.mapM_pure (l := unit.decls) (f := TypeDecl.forget))
  exact congrArg (fun decls => { unit with
    fileName := ""
    decls
    globals := Stmt.forgetAll unit.globals
    sourceText := none }) decls

namespace Emit

/-! ## Expressions -/

/-- An expression keeps its level. -/
theorem ofExpr_forget : (expr : Expr) → Precedence.ofExpr expr.forget = Precedence.ofExpr expr
  | .paren _ inner => ofExpr_forget inner
  | .literal .. | .ident .. | .selfRef .. | .superRef .. | .typeRef .. | .member .. | .invoke ..
  | .index .. | .binary .. | .unary .. | .ternary .. | .cast .. | .tryCast .. | .typeOf ..
  | .defaultOf .. | .construct .. | .newArray .. | .lambda .. | .array .. | .map ..
  | .assign .. => rfl

/-- An operand is put in parentheses as before. -/
theorem enclose_forget (least : Precedence) (operand : Expr) (code : Code) :
    enclose least operand.forget code = enclose least operand code := by
  rw [enclose, enclose, ofExpr_forget]

/-- An operand behind a sign is put in parentheses as before. -/
theorem encloseSigned_forget (operand : Expr) (code : Code) :
    encloseSigned operand.forget code = encloseSigned operand code := by
  rw [encloseSigned, encloseSigned, enclose_forget]

/-- Arguments are passed in the same way to both signatures. -/
def PassesAlike (left right : Option Signature) : Prop :=
  ∀ index code, withModifier left index code = withModifier right index code

/-- A signature still says which arguments are passed by reference. -/
theorem passesAlike_forget (signature : Option Signature) :
    PassesAlike (Signature.forget signature) signature := by
  intro index code
  cases signature with
  | none => rfl
  | some signature =>
    simp only [withModifier, Signature.forget, Signature.modifierAt, Option.map_some,
      Option.elim_some, List.getElem?_map]
    cases signature.params[index]? <;> rfl

/-! ## Statements -/

/-- Only what was one `if` statement is one afterwards. -/
theorem exists_branch_of_forgetAll {body thenBody : List Stmt} {condition : Expr}
    {elseBody : Option (List Stmt)}
    (single : Stmt.forgetAll body = [.branch condition thenBody elseBody]) :
    ∃ condition thenBody elseBody, body = [.branch condition thenBody elseBody] := by
  cases body with
  | nil => cases single
  | cons first rest =>
    cases rest with
    | cons second rest => nomatch congrArg List.tail single
    | nil =>
      cases first
      case branch condition thenBody elseBody => exact ⟨condition, thenBody, elseBody, rfl⟩
      all_goals cases single

namespace Printer

variable (printer : Printer)

/-- An `else` part that is no single branch is written as a block as before. -/
theorem elseLines_forget_of_not_branch {depth : Nat} {body : List Stmt}
    (several : ∀ condition thenBody elseBody, body ≠ [.branch condition thenBody elseBody])
    (whole : printer.stmts (depth + 1) (Stmt.forgetAll body) = printer.stmts (depth + 1) body) :
    printer.elseLines depth (Stmt.forget? (some body)) = printer.elseLines depth (some body) := by
  have several' : ∀ condition thenBody elseBody,
      Stmt.forgetAll body ≠ [.branch condition thenBody elseBody] := by
    intro _ _ _ single
    obtain ⟨condition, thenBody, elseBody, same⟩ := exists_branch_of_forgetAll single
    exact several condition thenBody elseBody same
  change printer.elseLines depth (some (Stmt.forgetAll body)) = _
  rw [elseLines_of_not_branch printer several', elseLines_of_not_branch printer several, whole]

mutual
/-- What is not shown of an expression does not change its code. -/
theorem expr_forget (depth : Nat) :
    (expr : Expr) → printer.expr depth expr.forget = printer.expr depth expr
  | .literal .. | .ident .. | .selfRef .. | .superRef .. | .typeRef .. | .typeOf ..
  | .defaultOf .. => rfl
  | .member _ target name _ => by
    change printer.expr depth (.member _ target.forget name _) = _
    simp only [Printer.expr, expr_forget depth target, enclose_forget]
  | .invoke _ callee typeArgs args signature => by
    change printer.expr depth (.invoke _ callee.forget typeArgs (Expr.forgetAll args) _) = _
    simp only [Printer.expr, expr_forget depth callee, enclose_forget,
      args_forget depth (passesAlike_forget signature) 0 args]
  | .index _ target indices => by
    change printer.expr depth (.index _ target.forget (Expr.forgetAll indices)) = _
    simp only [Printer.expr, expr_forget depth target, enclose_forget,
      args_forget depth (fun _ _ => rfl) 0 indices]
  | .binary _ op left right => by
    change printer.expr depth (.binary _ op left.forget right.forget) = _
    simp only [Printer.expr, expr_forget depth left, expr_forget depth right, enclose_forget]
  | .unary _ op operand => by
    change printer.expr depth (.unary _ op operand.forget) = _
    simp only [Printer.expr, expr_forget depth operand, enclose_forget, encloseSigned_forget]
  | .ternary _ condition thenValue elseValue => by
    change printer.expr depth (.ternary _ condition.forget thenValue.forget elseValue.forget) = _
    simp only [Printer.expr, expr_forget depth condition, expr_forget depth thenValue,
      expr_forget depth elseValue, enclose_forget]
  | .cast _ operand target _ => by
    change printer.expr depth (.cast _ operand.forget target _) = _
    simp only [Printer.expr, expr_forget depth operand, encloseSigned_forget]
  | .tryCast _ operand target => by
    change printer.expr depth (.tryCast _ operand.forget target) = _
    simp only [Printer.expr, expr_forget depth operand, enclose_forget]
  | .construct _ constructed args signature => by
    change printer.expr depth (.construct _ constructed (Expr.forgetAll args) _) = _
    simp only [Printer.expr, args_forget depth (passesAlike_forget signature) 0 args]
  | .newArray _ element size => by
    change printer.expr depth (.newArray _ element size.forget) = _
    simp only [Printer.expr, expr_forget depth size]
  | .lambda _ params _ body => by
    change printer.expr depth (.lambda _ params none body.forget) = _
    simp only [Printer.expr, lambdaBody_forget depth body]
  | .array _ element items => by
    change printer.expr depth (.array _ element (Expr.forgetAll items)) = _
    simp only [Printer.expr, args_forget depth (fun _ _ => rfl) 0 items]
  | .map _ entries => by
    change printer.expr depth (.map _ (Expr.forgetEntries entries)) = _
    simp only [Printer.expr, entries_forget depth entries]
  | .assign _ op target value => by
    change printer.expr depth (.assign _ op target.forget value.forget) = _
    simp only [Printer.expr, expr_forget depth target, expr_forget depth value, enclose_forget]
  | .paren _ inner => by
    change printer.expr depth inner.forget = _
    simp only [Printer.expr, expr_forget depth inner]

/-- Arguments are written as before for signatures that pass them alike. -/
theorem args_forget (depth : Nat) {left right : Option Signature} (alike : PassesAlike left right)
    (index : Nat) : (args : List Expr) →
      printer.args depth left index (Expr.forgetAll args) = printer.args depth right index args
  | [] => rfl
  | first :: rest => by
    change printer.args depth left index (first.forget :: Expr.forgetAll rest) = _
    simp only [Printer.args, expr_forget depth first, args_forget depth alike (index + 1) rest,
      alike index]

/-- Entries are written as before. -/
theorem entries_forget (depth : Nat) : (entries : List (Expr × Expr)) →
    printer.entries depth (Expr.forgetEntries entries) = printer.entries depth entries
  | [] => rfl
  | (key, value) :: rest => by
    change printer.entries depth ((key.forget, value.forget) :: Expr.forgetEntries rest) = _
    simp only [Printer.entries, expr_forget depth key, expr_forget depth value,
      entries_forget depth rest]

/-- The body of a lambda is written as before. -/
theorem lambdaBody_forget (depth : Nat) : (body : LambdaBody) →
    printer.lambdaBody depth body.forget = printer.lambdaBody depth body
  | .expr value => by
    change printer.lambdaBody depth (.expr value.forget) = _
    simp only [Printer.lambdaBody, expr_forget depth value]
  | .block body => by
    change printer.lambdaBody depth (.block (Stmt.forgetAll body)) = _
    simp only [Printer.lambdaBody, stmts_forget (depth + 1) body]

/-- An expression that may be absent is written as before. -/
theorem optional_forget (depth : Nat) : (expr : Option Expr) →
    printer.optional depth (Expr.forget? expr) = printer.optional depth expr
  | none => rfl
  | some present => by
    change printer.optional depth (some present.forget) = _
    simp only [Printer.optional, expr_forget depth present]

/-- What is not shown of a statement does not change its lines. -/
theorem stmt_forget (depth : Nat) :
    (stmt : Stmt) → printer.stmt depth stmt.forget = printer.stmt depth stmt
  | .breakLoop | .continueLoop => rfl
  | .expr value => by
    change printer.stmt depth (.expr value.forget) = _
    simp only [Printer.stmt, expr_forget depth value]
  | .declare name declared ty init _ => by
    change printer.stmt depth (.declare name declared ty (Expr.forget? init) _) = _
    simp only [Printer.stmt, optional_forget depth init]
  | .branch condition thenBody elseBody => by
    change printer.stmt depth
      (.branch condition.forget (Stmt.forgetAll thenBody) (Stmt.forget? elseBody)) = _
    simp only [Printer.stmt, expr_forget depth condition, stmts_forget (depth + 1) thenBody,
      elseLines_forget depth elseBody]
  | .whileLoop condition body => by
    change printer.stmt depth (.whileLoop condition.forget (Stmt.forgetAll body)) = _
    simp only [Printer.stmt, expr_forget depth condition, stmts_forget (depth + 1) body]
  | .forLoop init condition step body => by
    change printer.stmt depth (.forLoop (Stmt.forgetAll init) (Expr.forget? condition)
      (Expr.forgetAll step) (Stmt.forgetAll body)) = _
    simp only [Printer.stmt, initializers_forget depth init, optional_forget depth condition,
      args_forget depth (fun _ _ => rfl) 0 step, stmts_forget (depth + 1) body]
  | .forEach item itemTy source body => by
    change printer.stmt depth (.forEach item itemTy source.forget (Stmt.forgetAll body)) = _
    simp only [Printer.stmt, expr_forget depth source, stmts_forget (depth + 1) body]
  | .ret value _ => by
    change printer.stmt depth (.ret (Expr.forget? value) _) = _
    simp only [Printer.stmt, optional_forget depth value]
  | .throw value => by
    change printer.stmt depth (.throw value.forget) = _
    simp only [Printer.stmt, expr_forget depth value]
  | .block body => by
    change printer.stmt depth (.block (Stmt.forgetAll body)) = _
    simp only [Printer.stmt, stmts_forget (depth + 1) body]

/-- Statements are written as before. -/
theorem stmts_forget (depth : Nat) : (stmts : List Stmt) →
    printer.stmts depth (Stmt.forgetAll stmts) = printer.stmts depth stmts
  | [] => rfl
  | first :: rest => by
    change printer.stmts depth (first.forget :: Stmt.forgetAll rest) = _
    simp only [Printer.stmts, stmt_forget depth first, stmts_forget depth rest]

/-- An `else` part is written as before. -/
theorem elseLines_forget (depth : Nat) : (elseBody : Option (List Stmt)) →
    printer.elseLines depth (Stmt.forget? elseBody) = printer.elseLines depth elseBody
  | none => rfl
  | some [.branch condition thenBody elseBody] => by
    change printer.elseLines depth (some
      [.branch condition.forget (Stmt.forgetAll thenBody) (Stmt.forget? elseBody)]) = _
    simp only [Printer.elseLines, expr_forget depth condition, stmts_forget (depth + 1) thenBody,
      elseLines_forget depth elseBody]
  | some [] => rfl
  | some [.expr ..] | some [.declare ..] | some [.whileLoop ..] | some [.forLoop ..]
  | some [.forEach ..] | some [.ret ..] | some [.throw ..] | some [.breakLoop]
  | some [.continueLoop] | some [.block ..] | some (_ :: _ :: _) =>
    elseLines_forget_of_not_branch printer nofun (stmts_forget (depth + 1) _)

/-- The initializers of a loop are written as before. -/
theorem initializers_forget (depth : Nat) : (stmts : List Stmt) →
    printer.initializers depth (Stmt.forgetAll stmts) = printer.initializers depth stmts
  | [] => rfl
  | .declare name declared ty init _ :: rest => by
    change printer.initializers depth
      (.declare name declared ty (Expr.forget? init) _ :: Stmt.forgetAll rest) = _
    simp only [Printer.initializers, optional_forget depth init, initializers_forget depth rest]
  | .expr value :: rest => by
    change printer.initializers depth (.expr value.forget :: Stmt.forgetAll rest) = _
    simp only [Printer.initializers, expr_forget depth value, initializers_forget depth rest]
  | .branch .. :: _ | .whileLoop .. :: _ | .forLoop .. :: _ | .forEach .. :: _ | .ret .. :: _
  | .throw .. :: _ | .breakLoop :: _ | .continueLoop :: _ | .block .. :: _ => rfl
end

/-! ## Declarations -/

/-- An attribute argument is written as before. -/
theorem attributeArg_forget (depth : Nat) (arg : AttributeArg) :
    printer.attributeArg depth arg.forget = printer.attributeArg depth arg := by
  rw [attributeArg, attributeArg, AttributeArg.forget, expr_forget]

/-- An attribute is written as before. -/
theorem attributeLine_forget (depth : Nat) (attr : Attribute) :
    printer.attributeLine depth attr.forget = printer.attributeLine depth attr := by
  rw [attributeLine, attributeLine, forget_attr]
  simp only [List.isEmpty_map, List.mapM_map, Function.comp_def, attributeArg_forget]

/-- Attributes in a row are written as before. -/
theorem attributeLines_forget (depth : Nat) (attrs : List Attribute) :
    (attrs.map Attribute.forget).mapM (printer.attributeLine depth) =
      attrs.mapM (printer.attributeLine depth) := by
  simp only [List.mapM_map, Function.comp_def, attributeLine_forget]

/-- A constructor chain is written as before. -/
theorem chain_forget (depth : Nat) (chain : Option CtorChain) :
    printer.chain depth (chain.map fun chain =>
        ⟨chain.kind, Expr.forgetAll chain.args, Signature.forget chain.signature⟩) =
      printer.chain depth chain := by
  cases chain with
  | none => rfl
  | some chain =>
    simp only [Option.map_some, Printer.chain,
      args_forget printer depth (passesAlike_forget chain.signature)]

/-- A method is written as before. -/
theorem method_forget (depth : Nat) (kind : TypeKind) (decl : MethodDecl) :
    printer.method depth kind
        { decl with
          attrs := decl.attrs.map Attribute.forget
          body := Stmt.forget? decl.body
          span := .unknown } =
      printer.method depth kind decl := by
  obtain ⟨name, params, ret, body, modifiers, attrs, span⟩ := decl
  cases body with
  | none => simp only [Stmt.forget?, Printer.method, attributeLines_forget]; rfl
  | some body =>
    change printer.method depth kind
      ⟨name, params, ret, some (Stmt.forgetAll body), modifiers, attrs.map Attribute.forget,
        .unknown⟩ = _
    simp only [Printer.method, attributeLines_forget, stmts_forget]

/-- What is not shown of a member does not change its lines. -/
theorem member_forget (depth : Nat) (decl : TypeDecl) (member : Member) :
    printer.member depth decl.forget member.forget = printer.member depth decl member := by
  rw [forget_decl]
  cases member with
  | field field =>
    rw [forget_field]
    simp only [Printer.member, Printer.field, attributeLines_forget, optional_forget]
  | method method =>
    rw [forget_method]
    exact method_forget printer depth decl.kind method
  | ctor ctor =>
    rw [forget_ctor]
    simp only [Printer.member, Printer.ctor, Printer.ctorHead, chain_forget, stmts_forget]

/-- A member keeps its kind. -/
theorem isField_forget (member : Member) : member.forget.isField = member.isField := by
  cases member <;> rfl

/-- Members behind another one are written as before, with the same blank lines. -/
theorem membersAfter_forget (depth : Nat) (decl : TypeDecl) (previous : Member)
    (members : List Member) :
    printer.membersAfter depth decl.forget previous.forget (members.map Member.forget) =
      printer.membersAfter depth decl previous members := by
  induction members generalizing previous with
  | nil => rfl
  | cons member rest inductionHypothesis =>
    simp only [List.map_cons, Printer.membersAfter, member_forget, isField_forget,
      inductionHypothesis]

/-- The members of a declaration are written as before. -/
theorem members_forget (depth : Nat) (decl : TypeDecl) :
    printer.members depth decl.forget = printer.members depth decl := by
  have shown : decl.forget.members = decl.members.map Member.forget := by rw [forget_decl]
  rw [Printer.members, Printer.members, shown]
  cases decl.members with
  | nil => rfl
  | cons first rest => simp only [List.map_cons, member_forget, membersAfter_forget]

/-- What is not shown of a type declaration does not change its lines. -/
theorem decl_forget (decl : TypeDecl) : printer.decl decl.forget = printer.decl decl := by
  have sameMembers := members_forget printer 1 decl
  rw [forget_decl] at sameMembers ⊢
  simp only [Printer.decl, attributeLines_forget, sameMembers]
  rfl

/-- Declarations are written as before. -/
theorem decls_forget (fresh : Bool) (decls : List TypeDecl) :
    printer.decls fresh (decls.map TypeDecl.forget) = printer.decls fresh decls := by
  induction decls generalizing fresh with
  | nil => rfl
  | cons first rest inductionHypothesis =>
    simp only [List.map_cons, Printer.decls, decl_forget, inductionHypothesis]

end Printer

/-! ## Units -/

/-- What is not shown of a unit does not change its lines. -/
theorem unitLines_forget (style : Style) (table : TypeTable) (unit : SourceUnit) :
    unitLines style table unit.forget = unitLines style table unit := by
  rw [forget_unit]
  simp only [unitLines, Printer.decls_forget]
  rfl

/-- A unit has the same text once it has forgotten. -/
theorem unitText_forget_iff {style : Style} {table : TypeTable} {unit : SourceUnit}
    {text : String} :
    unitText style table unit.forget = .ok text ↔ unitText style table unit = .ok text := by
  have noGlobals : unit.forget.globals.isEmpty = unit.globals.isEmpty := by
    rw [forget_unit]
    change (Stmt.forgetAll unit.globals).isEmpty = _
    cases unit.globals <;> rfl
  rw [unitText, unitText, noGlobals, unitLines_forget]
  split
  · rfl
  · simp

/-- Units of which the same is shown have the same text, or none. -/
theorem unitText_of_forget_eq (style : Style) (table : TypeTable) {left right : SourceUnit}
    (same : left.forget = right.forget) (text : String) :
    unitText style table left = .ok text ↔ unitText style table right = .ok text := by
  rw [← unitText_forget_iff, same, unitText_forget_iff]

/-! A script in two versions: as it was written, and as a lowering might leave it. -/

namespace Counter

/-- The call `Advance(out total)` for a method with the given signature. -/
def advance (signature : Signature) (binding : Binding) : Expr :=
  .invoke (Expr.noteOf .int) (.ident (Expr.noteOf .int) (.plain "Advance") binding) []
    [.localRef "total" .int] (some signature)

/-- A class with a method that gives an expression. -/
def script (fileName : String) (id : TypeId) (value : Expr) : SourceUnit where
  fileName
  imports := []
  implicitImports := []
  decls := [{
    id, name := .plain "Counter", kind := .classType, modifiers := .none, attrs := []
    base := none, interfaces := []
    members := [.method ⟨.plain "Next", [], .int, some [.ret (some value) value.span], .none, [],
      value.span⟩]
    enumMembers := [], isScript := false, span := value.span }]
  globals := []
  sourceText := none

/-- The method gives `((int) (-2 * (Advance(out total))))`. -/
def written : SourceUnit :=
  let call := advance ⟨[⟨"total", .int, .out⟩], .int⟩ .unresolved
  let product := Expr.binary (Expr.noteOf .double) .mul
    (.literal (Expr.noteOf .int) (.int (-2))) (.paren (Expr.noteOf .int) call)
  script "Counter.js" 3 (.paren ⟨.int, ⟨4, 8⟩⟩
    (.cast (Expr.noteOf .int) (.paren (Expr.noteOf .double) product) .int false))

/-- The same method with a cast that lowering put in, and other notes. -/
def lowered : SourceUnit :=
  let call := advance ⟨[⟨"sum", .double, .out⟩], .void⟩ (.member ⟨1, .method, true, some "Add"⟩)
  let product := Expr.binary (Expr.noteOf .object) .mul
    (.literal (Expr.noteOf .null) (.int (-2))) call
  script "" 0 (product.castTo .int)

end Counter

/-- A counter with parentheses of its source and one with a cast that was put in forget to the same
unit, and have the same text. -/
theorem unitText_of_forget_eq_counter :
    Counter.written.forget = Counter.lowered.forget ∧
      ∃ text, unitText .standard (.ofTypes []) Counter.written = .ok text ∧
        unitText .standard (.ofTypes []) Counter.lowered = .ok text := by
  have same : Counter.written.forget = Counter.lowered.forget := rfl
  have emitted : ∃ text, unitText .standard (.ofTypes []) Counter.written = .ok text := ⟨_, rfl⟩
  obtain ⟨text, emitted⟩ := emitted
  exact ⟨same, text, emitted, (unitText_of_forget_eq _ _ same text).1 emitted⟩

end Emit

end ScriptSharp
