import ScriptSharp.Lowering.Coercion
import ScriptSharp.Tree.Subexpressions

/-!
# The shapes of function literals

Every function literal gets a type for each parameter and for its result. What the literal itself
says comes first, then the function type that its place requires; an open parameter is an `object`,
and an open result is what the body returns. Expression bodies become blocks, and references to
locals and parameters of function type take the type that was found.

Members that hold function literals get their casts once more, since the types inside them have
changed.
-/

namespace ScriptSharp.Lowering.LambdaShape

/-- Types of names, the latest first. -/
abbrev Scope := List (String × Ty)

/-- Inference keeps the locals of function type that it has met in the current member. -/
abbrev Inference := StateM Scope

/-- What the place of an expression says about it. -/
inductive Place where
  /-- Nothing. -/
  | free
  /-- The value is stored or passed on, and `required` is the type wanted there, if it is known. -/
  | consumed (required : Option Ty)

/-- The function type that a place requires. -/
def Place.shape? : Place → Option (List Ty × Ty)
  | .free => none
  | .consumed required => required.bind Ty.delegate?

/-- The type required of an argument: by the signature, and without one by the function type of
the callee. -/
def requiredArg (signature : Option Signature) (shape : Option (List Ty × Ty)) (index : Nat) :
    Option Ty :=
  match signature with
  | some signature => signature.paramTypeAt index
  | none => shape.bind fun (params, _) => params[index]?

/-! ## Results -/

mutual
/-- The types of the values that a statement returns from the function literal around it. -/
def returnTypes : Stmt → List Ty
  | .ret (some value) _ => [value.ty]
  | .branch _ thenBody elseBody => allReturnTypes thenBody ++ blockReturnTypes elseBody
  | .whileLoop _ body => allReturnTypes body
  | .forLoop _ _ _ body => allReturnTypes body
  | .forEach _ _ _ body => allReturnTypes body
  | .block body => allReturnTypes body
  | _ => []
termination_by structural stmt => stmt

/-- The types of the values that statements return. -/
def allReturnTypes : List Stmt → List Ty
  | [] => []
  | first :: rest => returnTypes first ++ allReturnTypes rest
termination_by structural stmts => stmts

/-- The types of the values that a block returns, if there is one. -/
def blockReturnTypes : Option (List Stmt) → List Ty
  | none => []
  | some body => allReturnTypes body
termination_by structural body => body
end

/-- The result type of a body: `void` when it returns no value, the type of its values when they
agree, `object` otherwise. -/
def inferReturn (body : List Stmt) : Ty :=
  match allReturnTypes body with
  | [] => .void
  | first :: rest => if rest.any (· ≠ first) || first.isNull then .object else first

/-! ## Parameters -/

/-- The parameters from `index` on, with their open types filled in. -/
def settleParams (shape : Option (List Ty × Ty)) (index : Nat) :
    List LambdaParam → List (Ident × Ty)
  | [] => []
  | ⟨name, ty⟩ :: rest =>
    let wanted := shape.bind fun (params, _) => params[index]?
    (name, (ty.or wanted).getD .object) :: settleParams shape (index + 1) rest

/-- A scope with the parameters of a function literal in front. -/
def extend (scope : Scope) (params : List (Ident × Ty)) : Scope :=
  params.foldl (fun scope (name, ty) => (name.name, ty) :: scope) scope

/-- A function literal of a known shape. -/
def shaped (span : Span) (params : List (Ident × Ty)) (ret : Ty) (body : List Stmt) : Expr :=
  .lambda ⟨.delegate (params.map (·.2)) ret, span⟩
    (params.map fun (name, ty) => ⟨name, some ty⟩) (some ret) (.block body)

/-! ## Inference -/

mutual
/-- Infers the shapes inside an expression. `params` are the parameters of the function literals
around it. -/
def expr (params : Scope) (place : Place) : Expr → Inference Expr
  | .lambda note lambdaParams ret body => do
    let shape := place.shape?
    let settled := settleParams shape 0 lambdaParams
    let body ← lambdaBody (extend params settled) body
    let ret := (ret.or (shape.map (·.2))).getD (inferReturn body)
    return shaped note.span settled ret body
  | .paren note inner => do
    match place with
    | .consumed required =>
      if inner.isLambda then expr params (.consumed required) inner
      else
        let inner ← expr params .free inner
        return .paren note inner
    | .free =>
      let inner ← expr params .free inner
      return .paren note inner
  | .ident note name binding => do
    let locals ← get
    let known := match binding with
      | .localVariable => locals.lookup name.name
      | .parameter => params.lookup name.name
      | _ => none
    return .ident { note with ty := known.getD note.ty } name binding
  | .assign note op target value => do
    let target ← expr params .free target
    let value ← expr params (.consumed (some target.ty)) value
    return .assign note op target value
  | .invoke note callee typeArgs arguments signature => do
    let callee ← expr params .free callee
    let shape := callee.ty.delegate?
    let arguments ← args params (requiredArg signature shape) 0 arguments
    let ty := match signature, shape with
      | none, some (_, ret) => ret
      | _, _ => note.ty
    return .invoke { note with ty } callee typeArgs arguments signature
  | .construct note constructed arguments signature => do
    let arguments ← args params (requiredArg signature none) 0 arguments
    return .construct note constructed arguments signature
  | .member note target name binding => do
    let target ← expr params .free target
    return .member note target name binding
  | .index note target indices => do
    let target ← expr params .free target
    let indices ← exprs params indices
    return .index note target indices
  | .binary note op left right => do
    let left ← expr params .free left
    let right ← expr params .free right
    return .binary note op left right
  | .unary note op operand => do
    let operand ← expr params .free operand
    return .unary note op operand
  | .ternary note condition thenValue elseValue => do
    let condition ← expr params .free condition
    let thenValue ← expr params .free thenValue
    let elseValue ← expr params .free elseValue
    return .ternary note condition thenValue elseValue
  | .cast note operand target synthesized => do
    let operand ← expr params .free operand
    return .cast note operand target synthesized
  | .tryCast note operand target => do
    let operand ← expr params .free operand
    return .tryCast note operand target
  | .newArray note element size => do
    let size ← expr params .free size
    return .newArray note element size
  | .array note element items => do
    let items ← exprs params items
    return .array note element items
  | .map note pairs => do
    let pairs ← entries params pairs
    return .map note pairs
  | .literal note value => return .literal note value
  | .selfRef note => return .selfRef note
  | .superRef note => return .superRef note
  | .typeRef note named => return .typeRef note named
  | .typeOf note named => return .typeOf note named
  | .defaultOf note named => return .defaultOf note named
termination_by structural node => node

/-- Infers the shapes inside expressions of which nothing is required. -/
def exprs (params : Scope) : List Expr → Inference (List Expr)
  | [] => return []
  | first :: rest => do
    let first ← expr params .free first
    let rest ← exprs params rest
    return first :: rest
termination_by structural nodes => nodes

/-- Infers the shapes inside arguments, the first of which stands at `index`. -/
def args (params : Scope) (required : Nat → Option Ty) (index : Nat) :
    List Expr → Inference (List Expr)
  | [] => return []
  | first :: rest => do
    let first ← expr params (.consumed (required index)) first
    let rest ← args params required (index + 1) rest
    return first :: rest
termination_by structural nodes => nodes

/-- Infers the shapes inside the entries of a map. -/
def entries (params : Scope) : List (Expr × Expr) → Inference (List (Expr × Expr))
  | [] => return []
  | (key, value) :: rest => do
    let key ← expr params .free key
    let value ← expr params .free value
    let rest ← entries params rest
    return (key, value) :: rest
termination_by structural nodes => nodes

/-- Infers the shapes inside an expression that may be missing. -/
def optional (params : Scope) (place : Place) : Option Expr → Inference (Option Expr)
  | none => return none
  | some present => do
    let present ← expr params place present
    return some present
termination_by structural node => node

/-- The body of a function literal as a block, with the shapes inside it inferred. -/
def lambdaBody (params : Scope) : LambdaBody → Inference (List Stmt)
  | .expr value => do
    let span := value.span
    let value ← expr params .free value
    return [.ret (some value) span]
  | .block body => stmts params body
termination_by structural body => body

/-- Infers the shapes inside a statement. -/
def stmt (params : Scope) : Stmt → Inference Stmt
  | .declare name declared ty init span => do
    let init ← optional params (.consumed (some (declared.getD ty))) init
    let ty := match declared, init with
      | none, some init => if init.isLambda then init.ty else ty
      | _, _ => ty
    if ty.isDelegate then
      modify fun locals => (name.name, ty) :: locals
    return .declare name declared ty init span
  | .expr value => do
    let value ← expr params .free value
    return .expr value
  | .branch condition thenBody elseBody => do
    let condition ← expr params .free condition
    let thenBody ← stmts params thenBody
    let elseBody ← block? params elseBody
    return .branch condition thenBody elseBody
  | .whileLoop condition body => do
    let condition ← expr params .free condition
    let body ← stmts params body
    return .whileLoop condition body
  | .forLoop init condition step body => do
    let init ← stmts params init
    let condition ← optional params .free condition
    let step ← exprs params step
    let body ← stmts params body
    return .forLoop init condition step body
  | .forEach item itemTy source body => do
    let source ← expr params .free source
    let body ← stmts params body
    return .forEach item itemTy source body
  | .ret value span => do
    let value ← optional params .free value
    return .ret value span
  | .throw value => do
    let value ← expr params .free value
    return .throw value
  | .breakLoop => return .breakLoop
  | .continueLoop => return .continueLoop
  | .block body => do
    let body ← stmts params body
    return .block body
termination_by structural node => node

/-- Infers the shapes inside statements. -/
def stmts (params : Scope) : List Stmt → Inference (List Stmt)
  | [] => return []
  | first :: rest => do
    let first ← stmt params first
    let rest ← stmts params rest
    return first :: rest
termination_by structural nodes => nodes

/-- Infers the shapes inside a block that may be missing. -/
def block? (params : Scope) : Option (List Stmt) → Inference (Option (List Stmt))
  | none => return none
  | some body => do
    let body ← stmts params body
    return some body
termination_by structural node => node
end

/-! ## Members and declarations -/

/-- Infers the shapes inside attributes. -/
def attrs (attrs : List Attribute) : Inference (List Attribute) :=
  attrs.mapM fun attr => do
    let args ← attr.args.mapM fun arg => do
      let value ← expr [] .free arg.value
      return { arg with value }
    return { attr with args }

/-- Infers the shapes inside a member. The attributes of a field are not looked at. -/
def memberParts : Member → Inference Member
  | .field field => do
    let init ← optional [] (.consumed (some field.ty)) field.init
    return .field { field with init }
  | .method method => do
    let attrs ← attrs method.attrs
    let body ← block? [] method.body
    return .method { method with attrs, body }
  | .ctor ctor => do
    let chain ← match ctor.chain with
      | some chain => do
        let args ← exprs [] chain.args
        pure (some { chain with args })
      | none => pure none
    let body ← stmts [] ctor.body
    return .ctor { ctor with chain, body }

/-- The expression is a function literal. -/
def isLambdaNode : Expr → Bool
  | .lambda .. => true
  | _ => false

/-- A function literal occurs in the member. -/
def holdsLambda : Member → Bool
  | .field field => (Expr.optionalSubexpressions field.init).any isLambdaNode
  | .method method => (Stmt.blockSubexpressions method.body).any isLambdaNode
  | .ctor ctor =>
    (match ctor.chain with
      | some chain => (Expr.allSubexpressions chain.args).any isLambdaNode
      | none => false) ||
      Stmt.blockContains isLambdaNode ctor.body

/-- Infers the shapes inside a member, which starts without known locals, and puts the casts in
again when it holds function literals. -/
def member (types : TypeTable) (member : Member) : StateT Scope (Except Fault) Member :=
  fun _ => do
    let (inferred, locals) := (memberParts member).run []
    let settled ← if holdsLambda member then Coercion.member types inferred else pure inferred
    return (settled, locals)

/-- Infers the shapes inside a declaration. -/
def decl (types : TypeTable) (decl : TypeDecl) : StateT Scope (Except Fault) TypeDecl := do
  let attrs ← fun locals => .ok ((attrs decl.attrs).run locals)
  let members ← decl.members.mapM (member types)
  return { decl with attrs, members }

/-! ## The import of function types -/

/-- The type of the expression mentions a function type. -/
def hasDelegateType (expr : Expr) : Bool := expr.ty.mentionsDelegate

mutual
/-- A function type is mentioned by the statement: by an expression in it, or by a variable that it
declares outside of function literals. -/
def mentionsDelegate : Stmt → Bool
  | .declare _ _ ty init _ =>
    ty.mentionsDelegate || (Expr.optionalSubexpressions init).any hasDelegateType
  | .branch condition thenBody elseBody =>
    condition.contains hasDelegateType || anyMentionsDelegate thenBody ||
      blockMentionsDelegate elseBody
  | .whileLoop condition body => condition.contains hasDelegateType || anyMentionsDelegate body
  | .forLoop init condition step body =>
    anyMentionsDelegate init || (Expr.optionalSubexpressions condition).any hasDelegateType ||
      (Expr.allSubexpressions step).any hasDelegateType || anyMentionsDelegate body
  | .forEach _ itemTy source body =>
    itemTy.mentionsDelegate || source.contains hasDelegateType || anyMentionsDelegate body
  | .block body => anyMentionsDelegate body
  | .expr value => value.contains hasDelegateType
  | .ret value _ => (Expr.optionalSubexpressions value).any hasDelegateType
  | .throw value => value.contains hasDelegateType
  | .breakLoop => false
  | .continueLoop => false
termination_by structural stmt => stmt

/-- A function type is mentioned by one of the statements. -/
def anyMentionsDelegate : List Stmt → Bool
  | [] => false
  | first :: rest => mentionsDelegate first || anyMentionsDelegate rest
termination_by structural stmts => stmts

/-- A function type is mentioned by the block, if there is one. -/
def blockMentionsDelegate : Option (List Stmt) → Bool
  | none => false
  | some body => anyMentionsDelegate body
termination_by structural body => body
end

/-- A function type is mentioned by the member. The arguments of a constructor chain are not looked
at. -/
def memberMentionsDelegate : Member → Bool
  | .field field =>
    field.ty.mentionsDelegate || (Expr.optionalSubexpressions field.init).any hasDelegateType
  | .method method =>
    method.ret.mentionsDelegate || method.params.any (·.ty.mentionsDelegate) ||
      blockMentionsDelegate method.body
  | .ctor ctor => ctor.params.any (·.ty.mentionsDelegate) || anyMentionsDelegate ctor.body

/-- A function type is mentioned by a declaration of the unit. -/
def unitMentionsDelegate (unit : SourceUnit) : Bool :=
  unit.decls.any fun decl => decl.members.any memberMentionsDelegate

/-- Infers the shapes inside a unit, and imports the namespace of the function types if one is
mentioned. The statements at top level still know the locals of the last member. -/
def unit (types : TypeTable) (unit : SourceUnit) : Except Fault SourceUnit := do
  let (decls, locals) ← (unit.decls.mapM (decl types)).run []
  let globals := ((stmts [] unit.globals).run locals).1
  let inferred := { unit with decls, globals }
  return if unitMentionsDelegate inferred then inferred.requireImport "System" else inferred

end ScriptSharp.Lowering.LambdaShape
