import ScriptSharp.Tree.Expr

/-!
# Equality of trees

Equality of expressions and statements is decided by comparing them node by node. The comparison
gives `true` exactly on equal trees.
-/

namespace ScriptSharp

mutual
/-- Compares two expressions. -/
def Expr.same : Expr → Expr → Bool
  | .literal note value, other =>
    match other with
    | .literal note' value' => decide (note = note') && decide (value = value')
    | _ => false
  | .ident note name binding, other =>
    match other with
    | .ident note' name' binding' =>
      decide (note = note') && decide (name = name') && decide (binding = binding')
    | _ => false
  | .selfRef note, other =>
    match other with
    | .selfRef note' => decide (note = note')
    | _ => false
  | .superRef note, other =>
    match other with
    | .superRef note' => decide (note = note')
    | _ => false
  | .typeRef note named, other =>
    match other with
    | .typeRef note' named' => decide (note = note') && decide (named = named')
    | _ => false
  | .member note target name binding, other =>
    match other with
    | .member note' target' name' binding' =>
      decide (note = note') && target.same target' && decide (name = name') &&
        decide (binding = binding')
    | _ => false
  | .invoke note callee typeArgs args signature, other =>
    match other with
    | .invoke note' callee' typeArgs' args' signature' =>
      decide (note = note') && callee.same callee' && decide (typeArgs = typeArgs') &&
        Expr.sameList args args' && decide (signature = signature')
    | _ => false
  | .index note target indices, other =>
    match other with
    | .index note' target' indices' =>
      decide (note = note') && target.same target' && Expr.sameList indices indices'
    | _ => false
  | .binary note op left right, other =>
    match other with
    | .binary note' op' left' right' =>
      decide (note = note') && decide (op = op') && left.same left' && right.same right'
    | _ => false
  | .unary note op operand, other =>
    match other with
    | .unary note' op' operand' =>
      decide (note = note') && decide (op = op') && operand.same operand'
    | _ => false
  | .ternary note condition thenValue elseValue, other =>
    match other with
    | .ternary note' condition' thenValue' elseValue' =>
      decide (note = note') && condition.same condition' && thenValue.same thenValue' &&
        elseValue.same elseValue'
    | _ => false
  | .cast note operand target synthesized, other =>
    match other with
    | .cast note' operand' target' synthesized' =>
      decide (note = note') && operand.same operand' && decide (target = target') &&
        decide (synthesized = synthesized')
    | _ => false
  | .tryCast note operand target, other =>
    match other with
    | .tryCast note' operand' target' =>
      decide (note = note') && operand.same operand' && decide (target = target')
    | _ => false
  | .typeOf note named, other =>
    match other with
    | .typeOf note' named' => decide (note = note') && decide (named = named')
    | _ => false
  | .defaultOf note named, other =>
    match other with
    | .defaultOf note' named' => decide (note = note') && decide (named = named')
    | _ => false
  | .construct note constructed args signature, other =>
    match other with
    | .construct note' constructed' args' signature' =>
      decide (note = note') && decide (constructed = constructed') &&
        Expr.sameList args args' && decide (signature = signature')
    | _ => false
  | .newArray note element size, other =>
    match other with
    | .newArray note' element' size' =>
      decide (note = note') && decide (element = element') && size.same size'
    | _ => false
  | .lambda note params ret body, other =>
    match other with
    | .lambda note' params' ret' body' =>
      decide (note = note') && decide (params = params') && decide (ret = ret') && body.same body'
    | _ => false
  | .array note element items, other =>
    match other with
    | .array note' element' items' =>
      decide (note = note') && decide (element = element') && Expr.sameList items items'
    | _ => false
  | .map note entries, other =>
    match other with
    | .map note' entries' => decide (note = note') && Expr.sameEntries entries entries'
    | _ => false
  | .assign note op target value, other =>
    match other with
    | .assign note' op' target' value' =>
      decide (note = note') && decide (op = op') && target.same target' && value.same value'
    | _ => false
  | .paren note inner, other =>
    match other with
    | .paren note' inner' => decide (note = note') && inner.same inner'
    | _ => false
termination_by structural left => left

/-- Compares two lists of expressions. -/
def Expr.sameList : List Expr → List Expr → Bool
  | [], [] => true
  | first :: rest, first' :: rest' => first.same first' && Expr.sameList rest rest'
  | _, _ => false
termination_by structural left => left

/-- Compares the entries of two maps. -/
def Expr.sameEntries : List (Expr × Expr) → List (Expr × Expr) → Bool
  | [], [] => true
  | (key, value) :: rest, (key', value') :: rest' =>
    key.same key' && value.same value' && Expr.sameEntries rest rest'
  | _, _ => false
termination_by structural left => left

/-- Compares two expressions that may be missing. -/
def Expr.sameOption : Option Expr → Option Expr → Bool
  | none, none => true
  | some present, some present' => present.same present'
  | _, _ => false
termination_by structural left => left

/-- Compares the bodies of two function literals. -/
def LambdaBody.same : LambdaBody → LambdaBody → Bool
  | .expr value, .expr value' => value.same value'
  | .block body, .block body' => Stmt.sameList body body'
  | _, _ => false
termination_by structural left => left

/-- Compares two statements. -/
def Stmt.same : Stmt → Stmt → Bool
  | .expr value, other =>
    match other with
    | .expr value' => value.same value'
    | _ => false
  | .declare name declared ty init span, other =>
    match other with
    | .declare name' declared' ty' init' span' =>
      decide (name = name') && decide (declared = declared') && decide (ty = ty') &&
        Expr.sameOption init init' &&
        decide (span = span')
    | _ => false
  | .branch condition thenBody elseBody, other =>
    match other with
    | .branch condition' thenBody' elseBody' =>
      condition.same condition' && Stmt.sameList thenBody thenBody' &&
        Stmt.sameOption elseBody elseBody'
    | _ => false
  | .whileLoop condition body, other =>
    match other with
    | .whileLoop condition' body' => condition.same condition' && Stmt.sameList body body'
    | _ => false
  | .forLoop init condition step body, other =>
    match other with
    | .forLoop init' condition' step' body' =>
      Stmt.sameList init init' && Expr.sameOption condition condition' &&
        Expr.sameList step step' && Stmt.sameList body body'
    | _ => false
  | .forEach item itemTy source body, other =>
    match other with
    | .forEach item' itemTy' source' body' =>
      decide (item = item') && decide (itemTy = itemTy') && source.same source' &&
        Stmt.sameList body body'
    | _ => false
  | .ret value span, other =>
    match other with
    | .ret value' span' => Expr.sameOption value value' && decide (span = span')
    | _ => false
  | .throw value, other =>
    match other with
    | .throw value' => value.same value'
    | _ => false
  | .breakLoop, other =>
    match other with
    | .breakLoop => true
    | _ => false
  | .continueLoop, other =>
    match other with
    | .continueLoop => true
    | _ => false
  | .block body, other =>
    match other with
    | .block body' => Stmt.sameList body body'
    | _ => false
termination_by structural left => left

/-- Compares two lists of statements. -/
def Stmt.sameList : List Stmt → List Stmt → Bool
  | [], [] => true
  | first :: rest, first' :: rest' => first.same first' && Stmt.sameList rest rest'
  | _, _ => false
termination_by structural left => left

/-- Compares two blocks that may be missing. -/
def Stmt.sameOption : Option (List Stmt) → Option (List Stmt) → Bool
  | none, none => true
  | some body, some body' => Stmt.sameList body body'
  | _, _ => false
termination_by structural left => left
end

/-! ## Equal trees are the same -/

mutual
/-- An expression is the same as itself. -/
theorem Expr.same_refl : ∀ expr : Expr, expr.same expr = true
  | .literal .. => by
    change (_ && _) = true
    simp only [decide_true, Bool.and_self]
  | .ident .. => by
    change (_ && _ && _) = true
    simp only [decide_true, Bool.and_self]
  | .selfRef .. => decide_eq_true rfl
  | .superRef .. => decide_eq_true rfl
  | .typeRef .. => by
    change (_ && _) = true
    simp only [decide_true, Bool.and_self]
  | .member _ target _ _ => by
    change (_ && _ && _ && _) = true
    simp only [decide_true, Bool.and_self, Expr.same_refl target]
  | .invoke _ callee _ args _ => by
    change (_ && _ && _ && _ && _) = true
    simp only [decide_true, Bool.and_self, Expr.same_refl callee, Expr.sameList_refl args]
  | .index _ target indices => by
    change (_ && _ && _) = true
    simp only [decide_true, Bool.and_self, Expr.same_refl target, Expr.sameList_refl indices]
  | .binary _ _ left right => by
    change (_ && _ && _ && _) = true
    simp only [decide_true, Bool.and_self, Expr.same_refl left, Expr.same_refl right]
  | .unary _ _ operand => by
    change (_ && _ && _) = true
    simp only [decide_true, Bool.and_self, Expr.same_refl operand]
  | .ternary _ condition thenValue elseValue => by
    change (_ && _ && _ && _) = true
    simp only [decide_true, Bool.and_self, Expr.same_refl condition, Expr.same_refl thenValue,
      Expr.same_refl elseValue]
  | .cast _ operand _ _ => by
    change (_ && _ && _ && _) = true
    simp only [decide_true, Bool.and_self, Expr.same_refl operand]
  | .tryCast _ operand _ => by
    change (_ && _ && _) = true
    simp only [decide_true, Bool.and_self, Expr.same_refl operand]
  | .typeOf .. => by
    change (_ && _) = true
    simp only [decide_true, Bool.and_self]
  | .defaultOf .. => by
    change (_ && _) = true
    simp only [decide_true, Bool.and_self]
  | .construct _ _ args _ => by
    change (_ && _ && _ && _) = true
    simp only [decide_true, Bool.and_self, Expr.sameList_refl args]
  | .newArray _ _ size => by
    change (_ && _ && _) = true
    simp only [decide_true, Bool.and_self, Expr.same_refl size]
  | .lambda _ _ _ body => by
    change (_ && _ && _ && _) = true
    simp only [decide_true, Bool.and_self, LambdaBody.same_refl body]
  | .array _ _ items => by
    change (_ && _ && _) = true
    simp only [decide_true, Bool.and_self, Expr.sameList_refl items]
  | .map _ entries => by
    change (_ && _) = true
    simp only [decide_true, Bool.and_self, Expr.sameEntries_refl entries]
  | .assign _ _ target value => by
    change (_ && _ && _ && _) = true
    simp only [decide_true, Bool.and_self, Expr.same_refl target, Expr.same_refl value]
  | .paren _ inner => by
    change (_ && _) = true
    simp only [decide_true, Bool.and_self, Expr.same_refl inner]
termination_by structural tree => tree

/-- A list of expressions is the same as itself. -/
theorem Expr.sameList_refl : ∀ exprs : List Expr, Expr.sameList exprs exprs = true
  | [] => rfl
  | first :: rest => by
    change (_ && _) = true
    simp only [Bool.and_self, Expr.same_refl first, Expr.sameList_refl rest]
termination_by structural tree => tree

/-- The entries of a map are the same as themselves. -/
theorem Expr.sameEntries_refl :
    ∀ entries : List (Expr × Expr), Expr.sameEntries entries entries = true
  | [] => rfl
  | (key, value) :: rest => by
    change (_ && _ && _) = true
    simp only [Bool.and_self, Expr.same_refl key, Expr.same_refl value, Expr.sameEntries_refl rest]
termination_by structural tree => tree

/-- An expression that may be missing is the same as itself. -/
theorem Expr.sameOption_refl : ∀ expr : Option Expr, Expr.sameOption expr expr = true
  | none => rfl
  | some present => Expr.same_refl present
termination_by structural tree => tree

/-- The body of a function literal is the same as itself. -/
theorem LambdaBody.same_refl : ∀ body : LambdaBody, body.same body = true
  | .expr value => Expr.same_refl value
  | .block body => Stmt.sameList_refl body
termination_by structural tree => tree

/-- A statement is the same as itself. -/
theorem Stmt.same_refl : ∀ stmt : Stmt, stmt.same stmt = true
  | .expr value => Expr.same_refl value
  | .declare _ _ _ init _ => by
    change (_ && _ && _ && _ && _) = true
    simp only [decide_true, Bool.and_self, Expr.sameOption_refl init]
  | .branch condition thenBody elseBody => by
    change (_ && _ && _) = true
    simp only [Bool.and_self, Expr.same_refl condition, Stmt.sameList_refl thenBody,
      Stmt.sameOption_refl elseBody]
  | .whileLoop condition body => by
    change (_ && _) = true
    simp only [Bool.and_self, Expr.same_refl condition, Stmt.sameList_refl body]
  | .forLoop init condition step body => by
    change (_ && _ && _ && _) = true
    simp only [Bool.and_self, Stmt.sameList_refl init, Expr.sameOption_refl condition,
      Expr.sameList_refl step, Stmt.sameList_refl body]
  | .forEach _ _ source body => by
    change (_ && _ && _ && _) = true
    simp only [decide_true, Bool.and_self, Expr.same_refl source, Stmt.sameList_refl body]
  | .ret value _ => by
    change (_ && _) = true
    simp only [decide_true, Bool.and_self, Expr.sameOption_refl value]
  | .throw value => Expr.same_refl value
  | .breakLoop => rfl
  | .continueLoop => rfl
  | .block body => Stmt.sameList_refl body
termination_by structural tree => tree

/-- A list of statements is the same as itself. -/
theorem Stmt.sameList_refl : ∀ stmts : List Stmt, Stmt.sameList stmts stmts = true
  | [] => rfl
  | first :: rest => by
    change (_ && _) = true
    simp only [Bool.and_self, Stmt.same_refl first, Stmt.sameList_refl rest]
termination_by structural tree => tree

/-- A block that may be missing is the same as itself. -/
theorem Stmt.sameOption_refl : ∀ body : Option (List Stmt), Stmt.sameOption body body = true
  | none => rfl
  | some body => Stmt.sameList_refl body
termination_by structural tree => tree
end

/-! ## Trees that are the same are equal -/

mutual
/-- Expressions that are the same are equal. -/
theorem Expr.eq_of_same {left right : Expr} (equal : left.same right = true) : left = right := by
  cases left with
  | literal =>
    cases right
    case literal =>
      change (_ && _) = true at equal
      simp only [Bool.and_eq_true, decide_eq_true_eq] at equal
      obtain ⟨rfl, rfl⟩ := equal
      rfl
    all_goals exact absurd equal Bool.false_ne_true
  | ident =>
    cases right
    case ident =>
      change (_ && _ && _) = true at equal
      simp only [Bool.and_eq_true, decide_eq_true_eq] at equal
      obtain ⟨⟨rfl, rfl⟩, rfl⟩ := equal
      rfl
    all_goals exact absurd equal Bool.false_ne_true
  | selfRef =>
    cases right
    case selfRef =>
      rw [of_decide_eq_true equal]
    all_goals exact absurd equal Bool.false_ne_true
  | superRef =>
    cases right
    case superRef =>
      rw [of_decide_eq_true equal]
    all_goals exact absurd equal Bool.false_ne_true
  | typeRef =>
    cases right
    case typeRef =>
      change (_ && _) = true at equal
      simp only [Bool.and_eq_true, decide_eq_true_eq] at equal
      obtain ⟨rfl, rfl⟩ := equal
      rfl
    all_goals exact absurd equal Bool.false_ne_true
  | member =>
    cases right
    case member =>
      change (_ && _ && _ && _) = true at equal
      simp only [Bool.and_eq_true, decide_eq_true_eq] at equal
      obtain ⟨⟨⟨rfl, target⟩, rfl⟩, rfl⟩ := equal
      rw [Expr.eq_of_same target]
    all_goals exact absurd equal Bool.false_ne_true
  | invoke =>
    cases right
    case invoke =>
      change (_ && _ && _ && _ && _) = true at equal
      simp only [Bool.and_eq_true, decide_eq_true_eq] at equal
      obtain ⟨⟨⟨⟨rfl, callee⟩, rfl⟩, args⟩, rfl⟩ := equal
      rw [Expr.eq_of_same callee, Expr.eq_of_sameList args]
    all_goals exact absurd equal Bool.false_ne_true
  | index =>
    cases right
    case index =>
      change (_ && _ && _) = true at equal
      simp only [Bool.and_eq_true, decide_eq_true_eq] at equal
      obtain ⟨⟨rfl, target⟩, indices⟩ := equal
      rw [Expr.eq_of_same target, Expr.eq_of_sameList indices]
    all_goals exact absurd equal Bool.false_ne_true
  | binary =>
    cases right
    case binary =>
      change (_ && _ && _ && _) = true at equal
      simp only [Bool.and_eq_true, decide_eq_true_eq] at equal
      obtain ⟨⟨⟨rfl, rfl⟩, left⟩, right⟩ := equal
      rw [Expr.eq_of_same left, Expr.eq_of_same right]
    all_goals exact absurd equal Bool.false_ne_true
  | unary =>
    cases right
    case unary =>
      change (_ && _ && _) = true at equal
      simp only [Bool.and_eq_true, decide_eq_true_eq] at equal
      obtain ⟨⟨rfl, rfl⟩, operand⟩ := equal
      rw [Expr.eq_of_same operand]
    all_goals exact absurd equal Bool.false_ne_true
  | ternary =>
    cases right
    case ternary =>
      change (_ && _ && _ && _) = true at equal
      simp only [Bool.and_eq_true, decide_eq_true_eq] at equal
      obtain ⟨⟨⟨rfl, condition⟩, thenValue⟩, elseValue⟩ := equal
      rw [Expr.eq_of_same condition, Expr.eq_of_same thenValue, Expr.eq_of_same elseValue]
    all_goals exact absurd equal Bool.false_ne_true
  | cast =>
    cases right
    case cast =>
      change (_ && _ && _ && _) = true at equal
      simp only [Bool.and_eq_true, decide_eq_true_eq] at equal
      obtain ⟨⟨⟨rfl, operand⟩, rfl⟩, rfl⟩ := equal
      rw [Expr.eq_of_same operand]
    all_goals exact absurd equal Bool.false_ne_true
  | tryCast =>
    cases right
    case tryCast =>
      change (_ && _ && _) = true at equal
      simp only [Bool.and_eq_true, decide_eq_true_eq] at equal
      obtain ⟨⟨rfl, operand⟩, rfl⟩ := equal
      rw [Expr.eq_of_same operand]
    all_goals exact absurd equal Bool.false_ne_true
  | typeOf =>
    cases right
    case typeOf =>
      change (_ && _) = true at equal
      simp only [Bool.and_eq_true, decide_eq_true_eq] at equal
      obtain ⟨rfl, rfl⟩ := equal
      rfl
    all_goals exact absurd equal Bool.false_ne_true
  | defaultOf =>
    cases right
    case defaultOf =>
      change (_ && _) = true at equal
      simp only [Bool.and_eq_true, decide_eq_true_eq] at equal
      obtain ⟨rfl, rfl⟩ := equal
      rfl
    all_goals exact absurd equal Bool.false_ne_true
  | construct =>
    cases right
    case construct =>
      change (_ && _ && _ && _) = true at equal
      simp only [Bool.and_eq_true, decide_eq_true_eq] at equal
      obtain ⟨⟨⟨rfl, rfl⟩, args⟩, rfl⟩ := equal
      rw [Expr.eq_of_sameList args]
    all_goals exact absurd equal Bool.false_ne_true
  | newArray =>
    cases right
    case newArray =>
      change (_ && _ && _) = true at equal
      simp only [Bool.and_eq_true, decide_eq_true_eq] at equal
      obtain ⟨⟨rfl, rfl⟩, size⟩ := equal
      rw [Expr.eq_of_same size]
    all_goals exact absurd equal Bool.false_ne_true
  | lambda =>
    cases right
    case lambda =>
      change (_ && _ && _ && _) = true at equal
      simp only [Bool.and_eq_true, decide_eq_true_eq] at equal
      obtain ⟨⟨⟨rfl, rfl⟩, rfl⟩, body⟩ := equal
      rw [LambdaBody.eq_of_same body]
    all_goals exact absurd equal Bool.false_ne_true
  | array =>
    cases right
    case array =>
      change (_ && _ && _) = true at equal
      simp only [Bool.and_eq_true, decide_eq_true_eq] at equal
      obtain ⟨⟨rfl, rfl⟩, items⟩ := equal
      rw [Expr.eq_of_sameList items]
    all_goals exact absurd equal Bool.false_ne_true
  | map =>
    cases right
    case map =>
      change (_ && _) = true at equal
      simp only [Bool.and_eq_true, decide_eq_true_eq] at equal
      obtain ⟨rfl, entries⟩ := equal
      rw [Expr.eq_of_sameEntries entries]
    all_goals exact absurd equal Bool.false_ne_true
  | assign =>
    cases right
    case assign =>
      change (_ && _ && _ && _) = true at equal
      simp only [Bool.and_eq_true, decide_eq_true_eq] at equal
      obtain ⟨⟨⟨rfl, rfl⟩, target⟩, value⟩ := equal
      rw [Expr.eq_of_same target, Expr.eq_of_same value]
    all_goals exact absurd equal Bool.false_ne_true
  | paren =>
    cases right
    case paren =>
      change (_ && _) = true at equal
      simp only [Bool.and_eq_true, decide_eq_true_eq] at equal
      obtain ⟨rfl, inner⟩ := equal
      rw [Expr.eq_of_same inner]
    all_goals exact absurd equal Bool.false_ne_true
termination_by structural left

/-- Lists of expressions that are the same are equal. -/
theorem Expr.eq_of_sameList {left right : List Expr} (equal : Expr.sameList left right = true) :
    left = right := by
  match left, right with
  | [], [] => rfl
  | [], _ :: _ => exact absurd equal Bool.false_ne_true
  | _ :: _, [] => exact absurd equal Bool.false_ne_true
  | _ :: _, _ :: _ =>
    change (_ && _) = true at equal
    simp only [Bool.and_eq_true] at equal
    rw [Expr.eq_of_same equal.1, Expr.eq_of_sameList equal.2]
termination_by structural left

/-- Entries of maps that are the same are equal. -/
theorem Expr.eq_of_sameEntries {left right : List (Expr × Expr)}
    (equal : Expr.sameEntries left right = true) : left = right := by
  match left, right with
  | [], [] => rfl
  | [], _ :: _ => exact absurd equal Bool.false_ne_true
  | _ :: _, [] => exact absurd equal Bool.false_ne_true
  | (_, _) :: _, (_, _) :: _ =>
    change (_ && _ && _) = true at equal
    simp only [Bool.and_eq_true] at equal
    rw [Expr.eq_of_same equal.1.1, Expr.eq_of_same equal.1.2, Expr.eq_of_sameEntries equal.2]
termination_by structural left

/-- Expressions that may be missing and are the same are equal. -/
theorem Expr.eq_of_sameOption {left right : Option Expr}
    (equal : Expr.sameOption left right = true) : left = right := by
  match left, right with
  | none, none => rfl
  | none, some _ => exact absurd equal Bool.false_ne_true
  | some _, none => exact absurd equal Bool.false_ne_true
  | some _, some _ => rw [Expr.eq_of_same equal]
termination_by structural left

/-- Bodies of function literals that are the same are equal. -/
theorem LambdaBody.eq_of_same {left right : LambdaBody} (equal : left.same right = true) :
    left = right := by
  match left, right with
  | .expr _, .expr _ => rw [Expr.eq_of_same equal]
  | .expr _, .block _ => exact absurd equal Bool.false_ne_true
  | .block _, .expr _ => exact absurd equal Bool.false_ne_true
  | .block _, .block _ => rw [Stmt.eq_of_sameList equal]
termination_by structural left

/-- Statements that are the same are equal. -/
theorem Stmt.eq_of_same {left right : Stmt} (equal : left.same right = true) : left = right := by
  cases left with
  | expr =>
    cases right
    case expr =>
      rw [Expr.eq_of_same equal]
    all_goals exact absurd equal Bool.false_ne_true
  | declare =>
    cases right
    case declare =>
      change (_ && _ && _ && _ && _) = true at equal
      simp only [Bool.and_eq_true, decide_eq_true_eq] at equal
      obtain ⟨⟨⟨⟨rfl, rfl⟩, rfl⟩, init⟩, rfl⟩ := equal
      rw [Expr.eq_of_sameOption init]
    all_goals exact absurd equal Bool.false_ne_true
  | branch =>
    cases right
    case branch =>
      change (_ && _ && _) = true at equal
      simp only [Bool.and_eq_true] at equal
      obtain ⟨⟨condition, thenBody⟩, elseBody⟩ := equal
      rw [Expr.eq_of_same condition, Stmt.eq_of_sameList thenBody, Stmt.eq_of_sameOption elseBody]
    all_goals exact absurd equal Bool.false_ne_true
  | whileLoop =>
    cases right
    case whileLoop =>
      change (_ && _) = true at equal
      simp only [Bool.and_eq_true] at equal
      obtain ⟨condition, body⟩ := equal
      rw [Expr.eq_of_same condition, Stmt.eq_of_sameList body]
    all_goals exact absurd equal Bool.false_ne_true
  | forLoop =>
    cases right
    case forLoop =>
      change (_ && _ && _ && _) = true at equal
      simp only [Bool.and_eq_true] at equal
      obtain ⟨⟨⟨init, condition⟩, step⟩, body⟩ := equal
      rw [Stmt.eq_of_sameList init, Expr.eq_of_sameOption condition, Expr.eq_of_sameList step,
        Stmt.eq_of_sameList body]
    all_goals exact absurd equal Bool.false_ne_true
  | forEach =>
    cases right
    case forEach =>
      change (_ && _ && _ && _) = true at equal
      simp only [Bool.and_eq_true, decide_eq_true_eq] at equal
      obtain ⟨⟨⟨rfl, rfl⟩, source⟩, body⟩ := equal
      rw [Expr.eq_of_same source, Stmt.eq_of_sameList body]
    all_goals exact absurd equal Bool.false_ne_true
  | ret =>
    cases right
    case ret =>
      change (_ && _) = true at equal
      simp only [Bool.and_eq_true, decide_eq_true_eq] at equal
      obtain ⟨value, rfl⟩ := equal
      rw [Expr.eq_of_sameOption value]
    all_goals exact absurd equal Bool.false_ne_true
  | throw =>
    cases right
    case throw =>
      rw [Expr.eq_of_same equal]
    all_goals exact absurd equal Bool.false_ne_true
  | breakLoop =>
    cases right
    case breakLoop =>
      rfl
    all_goals exact absurd equal Bool.false_ne_true
  | continueLoop =>
    cases right
    case continueLoop =>
      rfl
    all_goals exact absurd equal Bool.false_ne_true
  | block =>
    cases right
    case block =>
      rw [Stmt.eq_of_sameList equal]
    all_goals exact absurd equal Bool.false_ne_true
termination_by structural left

/-- Lists of statements that are the same are equal. -/
theorem Stmt.eq_of_sameList {left right : List Stmt} (equal : Stmt.sameList left right = true) :
    left = right := by
  match left, right with
  | [], [] => rfl
  | [], _ :: _ => exact absurd equal Bool.false_ne_true
  | _ :: _, [] => exact absurd equal Bool.false_ne_true
  | _ :: _, _ :: _ =>
    change (_ && _) = true at equal
    simp only [Bool.and_eq_true] at equal
    rw [Stmt.eq_of_same equal.1, Stmt.eq_of_sameList equal.2]
termination_by structural left

/-- Blocks that may be missing and are the same are equal. -/
theorem Stmt.eq_of_sameOption {left right : Option (List Stmt)}
    (equal : Stmt.sameOption left right = true) : left = right := by
  match left, right with
  | none, none => rfl
  | none, some _ => exact absurd equal Bool.false_ne_true
  | some _, none => exact absurd equal Bool.false_ne_true
  | some _, some _ => rw [Stmt.eq_of_sameList equal]
termination_by structural left
end

instance : DecidableEq Expr := fun left right =>
  decidable_of_iff (left.same right = true)
    ⟨Expr.eq_of_same, fun equal => equal ▸ Expr.same_refl left⟩

instance : DecidableEq Stmt := fun left right =>
  decidable_of_iff (left.same right = true)
    ⟨Stmt.eq_of_same, fun equal => equal ▸ Stmt.same_refl left⟩

end ScriptSharp
