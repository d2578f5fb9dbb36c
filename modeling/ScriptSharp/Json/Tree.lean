import ScriptSharp.Json.Types
import ScriptSharp.Tree.Decl

/-!
# Decoding trees

The serialized forms of expressions, statements, declarations and units. Decoders of nested forms
take a depth, which bounds how often they call themselves.
-/

namespace ScriptSharp.Json

open Record Decoder

/-- A position. -/
def span : Decoder Span :=
  decoder ((const Span.mk).and (required "line" nat32) |>.and (required "column" nat32))

/-- A position that is unknown when it is not given. -/
def spanMember : Record Span :=
  defaulted "span" .unknown span

/-- A mark that is not set when it is not given. -/
def flag (key : String) : Record Bool :=
  defaulted key false bool

/-- A name. -/
def ident : Decoder Ident :=
  decoder ((const Ident.mk).and (required "name" string) |>.and (flag "escaped"))

/-- A literal. -/
def literal : Decoder Literal :=
  Variant.decoder fun
    | "Null" => some (.bare .null)
    | "Bool" => Variant.ofDecoder Literal.bool bool
    | "Int" => Variant.ofDecoder Literal.int int64
    | "Long" => Variant.ofDecoder Literal.long int64
    | "Float" => Variant.ofDecoder Literal.float double
    | "Double" => Variant.ofDecoder Literal.double double
    | "Char" => Variant.ofDecoder Literal.char char
    | "String" => Variant.ofDecoder Literal.string string
    | _ => none

/-- The kind of a member. -/
def memberKind : Decoder MemberKind :=
  Variant.names
    [("Field", .field), ("Property", .property), ("Method", .method),
     ("EnumMember", .enumMember)]

/-- The binding of a member. -/
def memberBinding : Decoder MemberBinding :=
  decoder ((const MemberBinding.mk).and (required "declaring" nat32)
    |>.and (required "kind" memberKind)
    |>.and (flag "is_static")
    |>.and (option "target_name" string))

/-- The binding of a plain name. -/
def binding : Decoder Binding :=
  Variant.decoder fun
    | "Local" => some (.bare .localVariable)
    | "Parameter" => some (.bare .parameter)
    | "Member" => Variant.ofDecoder Binding.member memberBinding
    | "Unresolved" => some (.bare .unresolved)
    | _ => none

/-- A binary operator. -/
def binaryOp : Decoder BinaryOp :=
  Variant.names
    [("Add", .add), ("Sub", .sub), ("Mul", .mul), ("Div", .div), ("Mod", .mod), ("Shl", .shl),
     ("Shr", .shr), ("BitAnd", .bitAnd), ("BitOr", .bitOr), ("BitXor", .bitXor), ("And", .and),
     ("Or", .or), ("Eq", .eq), ("Ne", .ne), ("Lt", .lt), ("Le", .le), ("Gt", .gt), ("Ge", .ge)]

/-- A unary operator. -/
def unaryOp : Decoder UnaryOp :=
  Variant.names
    [("Neg", .neg), ("Not", .not), ("BitNot", .bitNot), ("PreInc", .preInc), ("PreDec", .preDec),
     ("PostInc", .postInc), ("PostDec", .postDec)]

/-- A parameter of a function literal. -/
def lambdaParam (depth : Nat) : Decoder LambdaParam :=
  decoder ((const LambdaParam.mk).and (required "name" ident) |>.and (option "ty" (ty depth)))

/-- A statement list behind its name. -/
def blockOf (stmt : Decoder Stmt) : Decoder (List Stmt) :=
  decoder ((const id).and (required "stmts" (list stmt)))

/-- An entry of a map. -/
def mapEntry (expr : Decoder Expr) : Decoder (Expr × Expr) :=
  decoder ((const Prod.mk).and (required "key" expr) |>.and (required "value" expr))

mutual
/-- An expression. -/
def expr : Nat → Decoder Expr
  | 0 => fail
  | depth + 1 =>
    decoder ((const fun ty span (build : Note → Expr) => build ⟨ty, span⟩)
      |>.and (required "ty" (ty depth))
      |>.and spanMember
      |>.and (required "kind" (exprKind depth)))

/-- An expression without its type and position. -/
def exprKind : Nat → Decoder (Note → Expr)
  | 0 => fail
  | depth + 1 => Variant.decoder fun
    | "Literal" => Variant.ofDecoder (fun value note => .literal note value) literal
    | "Ident" =>
      Variant.ofRecord ((const fun name binding (note : Note) =>
          Expr.ident note name binding)
        |>.and (required "name" ident)
        |>.and (required "binding" binding))
    | "SelfRef" => some (.bare .selfRef)
    | "SuperRef" => some (.bare .superRef)
    | "TypeRef" => Variant.ofDecoder (fun named note => .typeRef note named) (ty depth)
    | "Member" =>
      Variant.ofRecord ((const fun target name binding (note : Note) =>
          Expr.member note target name binding)
        |>.and (required "target" (expr depth))
        |>.and (required "name" ident)
        |>.and (required "binding" memberBinding))
    | "Invoke" =>
      Variant.ofRecord ((const fun callee typeArgs args signature (note : Note) =>
          Expr.invoke note callee typeArgs args signature)
        |>.and (required "target" (expr depth))
        |>.and (defaulted "generic_args" [] (list (ty depth)))
        |>.and (required "args" (list (expr depth)))
        |>.and (option "signature" (signature depth)))
    | "Index" =>
      Variant.ofRecord ((const fun target indices (note : Note) =>
          Expr.index note target indices)
        |>.and (required "target" (expr depth))
        |>.and (required "index" (list (expr depth))))
    | "Binary" =>
      Variant.ofRecord ((const fun op left right (note : Note) =>
          Expr.binary note op left right)
        |>.and (required "op" binaryOp)
        |>.and (required "lhs" (expr depth))
        |>.and (required "rhs" (expr depth)))
    | "Unary" =>
      Variant.ofRecord ((const fun op operand (note : Note) =>
          Expr.unary note op operand)
        |>.and (required "op" unaryOp)
        |>.and (required "expr" (expr depth)))
    | "Ternary" =>
      Variant.ofRecord ((const fun condition thenValue elseValue (note : Note) =>
          Expr.ternary note condition thenValue elseValue)
        |>.and (required "cond" (expr depth))
        |>.and (required "then" (expr depth))
        |>.and (required "otherwise" (expr depth)))
    | "Cast" =>
      Variant.ofRecord ((const fun operand target synthesized (note : Note) =>
          Expr.cast note operand target synthesized)
        |>.and (required "expr" (expr depth))
        |>.and (required "to" (ty depth))
        |>.and (flag "synthesized"))
    | "TryCast" =>
      Variant.ofRecord ((const fun operand target (note : Note) =>
          Expr.tryCast note operand target)
        |>.and (required "expr" (expr depth))
        |>.and (required "to" (ty depth)))
    | "TypeOf" => Variant.ofDecoder (fun named note => .typeOf note named) (ty depth)
    | "Default" => Variant.ofDecoder (fun named note => .defaultOf note named) (ty depth)
    | "New" =>
      Variant.ofRecord ((const fun constructed args signature (note : Note) =>
          Expr.construct note constructed args signature)
        |>.and (required "ty" (ty depth))
        |>.and (required "args" (list (expr depth)))
        |>.and (option "signature" (signature depth)))
    | "NewArray" =>
      Variant.ofRecord ((const fun element size (note : Note) =>
          Expr.newArray note element size)
        |>.and (required "elem" (ty depth))
        |>.and (required "size" (expr depth)))
    | "Lambda" =>
      Variant.ofRecord ((const fun params ret body (note : Note) =>
          Expr.lambda note params ret body)
        |>.and (required "params" (list (lambdaParam depth)))
        |>.and (option "ret" (ty depth))
        |>.and (required "body" (lambdaBody depth)))
    | "Array" =>
      Variant.ofRecord ((const fun element items (note : Note) =>
          Expr.array note element items)
        |>.and (required "elem" (ty depth))
        |>.and (required "items" (list (expr depth))))
    | "Map" => Variant.ofRecord ((const fun entries (note : Note) => Expr.map note entries)
        |>.and (required "entries" (list (mapEntry (expr depth)))))
    | "Assign" =>
      Variant.ofRecord ((const fun op target value (note : Note) =>
          Expr.assign note op target value)
        |>.and (option "op" binaryOp)
        |>.and (required "target" (expr depth))
        |>.and (required "value" (expr depth)))
    | "Paren" => Variant.ofDecoder (fun inner note => .paren note inner) (expr depth)
    | _ => none

/-- The body of a function literal. -/
def lambdaBody : Nat → Decoder LambdaBody
  | 0 => fail
  | depth + 1 => Variant.decoder fun
    | "Expr" => Variant.ofDecoder LambdaBody.expr (expr depth)
    | "Block" => Variant.ofDecoder LambdaBody.block (blockOf (stmt depth))
    | _ => none

/-- A statement. -/
def stmt : Nat → Decoder Stmt
  | 0 => fail
  | depth + 1 => Variant.decoder fun
    | "Expr" => Variant.ofDecoder Stmt.expr (expr depth)
    | "Var" => Variant.ofRecord ((const Stmt.declare)
        |>.and (required "name" ident)
        |>.and (option "declared" (ty depth))
        |>.and (required "ty" (ty depth))
        |>.and (option "init" (expr depth))
        |>.and spanMember)
    | "If" => Variant.ofRecord ((const Stmt.branch)
        |>.and (required "cond" (expr depth))
        |>.and (required "then" (blockOf (stmt depth)))
        |>.and (option "otherwise" (blockOf (stmt depth))))
    | "While" => Variant.ofRecord ((const Stmt.whileLoop)
        |>.and (required "cond" (expr depth))
        |>.and (required "body" (blockOf (stmt depth))))
    | "For" => Variant.ofRecord ((const Stmt.forLoop)
        |>.and (defaulted "init" [] (list (stmt depth)))
        |>.and (option "cond" (expr depth))
        |>.and (defaulted "step" [] (list (expr depth)))
        |>.and (required "body" (blockOf (stmt depth))))
    | "ForEach" => Variant.ofRecord ((const Stmt.forEach)
        |>.and (required "var" ident)
        |>.and (required "var_ty" (ty depth))
        |>.and (required "iter" (expr depth))
        |>.and (required "body" (blockOf (stmt depth))))
    | "Return" => Variant.ofRecord ((const Stmt.ret)
        |>.and (option "value" (expr depth))
        |>.and spanMember)
    | "Throw" => Variant.ofDecoder Stmt.throw (expr depth)
    | "Break" => some (.bare .breakLoop)
    | "Continue" => some (.bare .continueLoop)
    | "Block" => Variant.ofDecoder Stmt.block (blockOf (stmt depth))
    | _ => none
end

/-! ## Declarations -/

/-- A visibility. -/
def visibility : Decoder Visibility :=
  Variant.names
    [("Public", .publicAccess), ("Protected", .protectedAccess), ("Internal", .internalAccess),
     ("Private", .privateAccess)]

/-- Modifiers. -/
def modifiers : Decoder Modifiers :=
  decoder ((const Modifiers.mk).and (defaulted "visibility" .publicAccess visibility)
    |>.and (flag "is_static")
    |>.and (flag "is_abstract")
    |>.and (flag "is_override")
    |>.and (flag "is_final"))

/-- Modifiers that are none when they are not given. -/
def modifiersMember : Record Modifiers :=
  defaulted "modifiers" .none modifiers

/-- An argument of an attribute. -/
def attributeArg (depth : Nat) : Decoder AttributeArg :=
  decoder ((const AttributeArg.mk).and (option "name" ident)
    |>.and (required "value" (expr depth)))

/-- An attribute. -/
def attributeDecl (depth : Nat) : Decoder Attribute :=
  decoder ((const Attribute.mk).and (required "ty" (ty depth))
    |>.and (defaulted "args" [] (list (attributeArg depth)))
    |>.and spanMember)

/-- A parameter of a method or a constructor. -/
def paramDecl (depth : Nat) : Decoder ParamDecl :=
  decoder ((const ParamDecl.mk).and (required "name" ident)
    |>.and (required "ty" (ty depth))
    |>.and (defaulted "modifier" .none paramModifier))

/-- A field. -/
def fieldDecl (depth : Nat) : Decoder FieldDecl :=
  decoder ((const FieldDecl.mk).and (required "name" ident)
    |>.and (required "ty" (ty depth))
    |>.and (option "init" (expr depth))
    |>.and modifiersMember
    |>.and (defaulted "attrs" [] (list (attributeDecl depth)))
    |>.and spanMember)

/-- A method. -/
def methodDecl (depth : Nat) : Decoder MethodDecl :=
  decoder ((const MethodDecl.mk).and (required "name" ident)
    |>.and (defaulted "params" [] (list (paramDecl depth)))
    |>.and (required "ret" (ty depth))
    |>.and (option "body" (blockOf (stmt depth)))
    |>.and modifiersMember
    |>.and (defaulted "attrs" [] (list (attributeDecl depth)))
    |>.and spanMember)

/-- The kind of a constructor chain. -/
def chainKind : Decoder ChainKind :=
  Variant.names [("This", .this), ("Base", .base)]

/-- A constructor chain. -/
def ctorChain (depth : Nat) : Decoder CtorChain :=
  decoder ((const CtorChain.mk).and (required "kind" chainKind)
    |>.and (required "args" (list (expr depth)))
    |>.and (option "signature" (signature depth)))

/-- A constructor. -/
def ctorDecl (depth : Nat) : Decoder CtorDecl :=
  decoder ((const CtorDecl.mk).and (defaulted "params" [] (list (paramDecl depth)))
    |>.and (option "chain" (ctorChain depth))
    |>.and (required "body" (blockOf (stmt depth)))
    |>.and modifiersMember
    |>.and spanMember)

/-- A member. -/
def memberDecl (depth : Nat) : Decoder Member :=
  Variant.decoder fun
    | "Field" => Variant.ofDecoder Member.field (fieldDecl depth)
    | "Method" => Variant.ofDecoder Member.method (methodDecl depth)
    | "Ctor" => Variant.ofDecoder Member.ctor (ctorDecl depth)
    | _ => none

/-- A constant of an enum. -/
def enumMember : Decoder EnumMember :=
  decoder ((const EnumMember.mk).and (required "name" ident) |>.and (option "value" int64))

/-- A type declaration. -/
def typeDecl (depth : Nat) : Decoder TypeDecl :=
  decoder ((const TypeDecl.mk).and (required "id" nat32)
    |>.and (required "name" ident)
    |>.and (required "kind" typeKind)
    |>.and modifiersMember
    |>.and (defaulted "attrs" [] (list (attributeDecl depth)))
    |>.and (option "base" (ty depth))
    |>.and (defaulted "interfaces" [] (list (ty depth)))
    |>.and (defaulted "members" [] (list (memberDecl depth)))
    |>.and (defaulted "enum_members" [] (list enumMember))
    |>.and (flag "is_script")
    |>.and spanMember)

/-- A unit. -/
def sourceUnit (depth : Nat) : Decoder SourceUnit :=
  decoder ((const SourceUnit.mk).and (required "file_name" string)
    |>.and (defaulted "imports" [] (list string))
    |>.and (defaulted "implicit_imports" [] (list string))
    |>.and (defaulted "decls" [] (list (typeDecl depth)))
    |>.and (defaulted "globals" [] (list (stmt depth)))
    |>.and (option "source_text" string))

end ScriptSharp.Json
