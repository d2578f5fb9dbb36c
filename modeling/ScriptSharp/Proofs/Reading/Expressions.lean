import ScriptSharp.Emit.Body
import ScriptSharp.Proofs.Reading.Reader

/-!
# Emitted expressions mean what the tree says

The tokens of an emitted expression have one reading, and it is the expression itself without the
parentheses of its source. Main statement: `Printer.expr_readBack`. It rests on one lemma for each
way an expression is written (`Spelled`), and on what the parentheses of `enclose` and
`encloseSigned` achieve.
-/

namespace ScriptSharp.Emit

/-! ## What an expression says -/

/-- What a literal says. A negative number is the negation of its magnitude. -/
def literalTerm (value : Literal) : Term :=
  if value.isSigned then .unary .neg (.literal (unsignedText value))
  else .literal (unsignedText value)

/-- The operators that a compound assignment can apply: arithmetic, bits and shifts. -/
def isCompound : BinaryOp → Bool
  | .add | .sub | .mul | .div | .mod | .shl | .shr | .bitAnd | .bitOr | .bitXor => true
  | .and | .or | .eq | .ne | .lt | .le | .gt | .ge => false

namespace Printer

/-- The spelling of a type, if it has one. -/
def typeText? (printer : Printer) (ty : Ty) : Option String :=
  (printer.names.render ty).toOption

mutual
/-- What an expression means, without its parentheses. Names and types are given by their
spellings. -/
def term (printer : Printer) : Expr → Option Term
  | .literal _ value => some (literalTerm value)
  | .ident _ name _ => some (.name name.render)
  | .selfRef _ => some .selfRef
  | .superRef _ => some .superRef
  | .typeRef _ named => (printer.typeText? named).map .typeName
  | .member _ target name _ => do
    let target ← printer.term target
    return .member target name.render
  | .invoke _ callee _ args _ => do
    let callee ← printer.term callee
    let args ← printer.terms args
    return .call callee args
  | .index _ target indices => do
    let target ← printer.term target
    let indices ← printer.terms indices
    return .index target indices
  | .binary _ op left right => do
    let left ← printer.term left
    let right ← printer.term right
    return .binary op left right
  | .unary _ op operand => do
    let operand ← printer.term operand
    return .unary op operand
  | .ternary _ condition thenValue elseValue => do
    let condition ← printer.term condition
    let thenValue ← printer.term thenValue
    let elseValue ← printer.term elseValue
    return .ternary condition thenValue elseValue
  | .cast _ operand target _ => do
    let target ← printer.typeText? target
    let operand ← printer.term operand
    return .cast target operand
  | .tryCast _ operand target => do
    let operand ← printer.term operand
    let target ← printer.typeText? target
    return .tryCast operand target
  | .assign _ op target value => do
    let target ← printer.term target
    let value ← printer.term value
    return .assign op target value
  | .paren _ inner => printer.term inner
  | .typeOf .. => none
  | .defaultOf .. => none
  | .construct .. => none
  | .newArray .. => none
  | .lambda .. => none
  | .array .. => none
  | .map .. => none

/-- What several expressions say. -/
def terms (printer : Printer) : List Expr → Option (List Term)
  | [] => some []
  | first :: rest => do
    let first ← printer.term first
    let rest ← printer.terms rest
    return first :: rest
end

/-- The spelling of the type is one token: it exists, and it does not begin with a sign. -/
def SpellsType (printer : Printer) (ty : Ty) : Prop :=
  ∃ text, printer.names.render ty = .ok text ∧ Code.startsWithSign [.typeName text] = false

/-- The expressions that consist of operators, casts, assignments, conditionals, member accesses,
calls without type arguments and without arguments by reference, and indexing. -/
inductive Readable (printer : Printer) : Expr → Prop where
  | literal {note value} : Readable printer (.literal note value)
  | ident {note name binding} : Readable printer (.ident note name binding)
  | selfRef {note} : Readable printer (.selfRef note)
  | superRef {note} : Readable printer (.superRef note)
  | typeRef {note named} (spelled : printer.SpellsType named) :
      Readable printer (.typeRef note named)
  | member {note target name binding} (targetReadable : Readable printer target) :
      Readable printer (.member note target name binding)
  | invoke {note callee args signature} (calleeReadable : Readable printer callee)
      (argsReadable : ∀ arg ∈ args, Readable printer arg)
      (byValue : ∀ bound ∈ signature, ∀ param ∈ Signature.params bound,
        param.modifier.isByReference = false) :
      Readable printer (.invoke note callee [] args signature)
  | index {note target indices} (present : indices ≠ []) (targetReadable : Readable printer target)
      (indicesReadable : ∀ index ∈ indices, Readable printer index) :
      Readable printer (.index note target indices)
  | binary {note op left right} (leftReadable : Readable printer left)
      (rightReadable : Readable printer right) : Readable printer (.binary note op left right)
  | unary {note op operand} (operandReadable : Readable printer operand) :
      Readable printer (.unary note op operand)
  | ternary {note condition thenValue elseValue} (conditionReadable : Readable printer condition)
      (thenReadable : Readable printer thenValue) (elseReadable : Readable printer elseValue) :
      Readable printer (.ternary note condition thenValue elseValue)
  | cast {note operand target synthesized} (spelled : printer.SpellsType target)
      (operandReadable : Readable printer operand) :
      Readable printer (.cast note operand target synthesized)
  | tryCast {note operand target} (spelled : printer.SpellsType target)
      (operandReadable : Readable printer operand) :
      Readable printer (.tryCast note operand target)
  | assign {note op target value} (compound : ∀ applied ∈ op, isCompound applied = true)
      (targetReadable : Readable printer target) (valueReadable : Readable printer value) :
      Readable printer (.assign note op target value)
  | paren {note inner} (innerReadable : Readable printer inner) :
      Readable printer (.paren note inner)

end Printer

/-! ## How operators are spelled -/

/-- An operator between operands is read back with its level. -/
theorem infixOp?_symbol (op : BinaryOp) :
    infixOp? op.symbol = some ((Precedence.ofBinary op).rank, op) := by
  cases op <;> rfl

/-- The second operand of an operator stands one level further in. -/
theorem rank_tighter_ofBinary (op : BinaryOp) :
    (Precedence.ofBinary op).tighter.rank = (Precedence.ofBinary op).rank + 1 := by
  cases op <;> rfl

/-- A reader arrives at every operator between operands. -/
theorem isReached_symbol (op : BinaryOp) : isReached op.symbol = true ∧ op.symbol ≠ "" := by
  cases op <;> decide

/-- An operator in front of its operand is read back. -/
theorem prefixOp?_symbol {op : UnaryOp} (leading : op.isTrailing = false) :
    prefixOp? op.symbol = some op := by
  cases op with
  | postInc | postDec => cases leading
  | _ => rfl

/-- An operator behind its operand is read back. -/
theorem postfixOp?_symbol {op : UnaryOp} (trailing : op.isTrailing = true) :
    postfixOp? op.symbol = some op := by
  cases op with
  | postInc | postDec => rfl
  | _ => cases trailing

/-- The operators behind an operand have no longer forms. -/
theorem isSealed_symbol {op : UnaryOp} (trailing : op.isTrailing = true) :
    isReached op.symbol = true ∧ op.symbol ≠ "" ∧ isSealed op.symbol = true := by
  cases op with
  | postInc | postDec => decide
  | _ => cases trailing

/-- The sign of an assignment is read back with the operator that it applies. -/
theorem assignOp?_symbol {op : Option BinaryOp} (compound : ∀ applied ∈ op, isCompound applied) :
    assignOp? (assignSymbol op) = some op ∧ isReached (assignSymbol op) = true ∧
      assignSymbol op ≠ "" := by
  cases op with
  | none => decide
  | some op =>
    have applies := compound op rfl
    cases op with
    | and | or | eq | ne | lt | le | gt | ge => cases applies
    | add | sub | mul | div | mod | shl | shr | bitAnd | bitOr | bitXor => decide

/-- No level is further in than names and literals. -/
theorem rank_le_primary (level : Precedence) : level.rank ≤ 13 := by
  cases level <;> decide

/-! ## Spelled phrases -/

/-- A word, or a character that an expression begins with. -/
def Glyph.isOpener : Glyph → Bool
  | .word _ => true
  | .mark character => character ∈ ['(', '-', '+', '!', '~']
  | .blank => false

/-- A prefix operator fuses with a sign only. -/
theorem fuses_prefix {op : UnaryOp} {character : Char}
    (opener : (Glyph.mark character).isOpener = true)
    (unsigned : ¬(character = '-' ∨ character = '+')) :
    fuses op.symbol character = false := by
  simp only [Glyph.isOpener, List.mem_cons, List.not_mem_nil, or_false, decide_eq_true_eq] at opener
  obtain rfl | rfl | rfl | rfl | rfl := opener
  · cases op <;> decide
  · exact absurd (Or.inl rfl) unsigned
  · exact absurd (Or.inr rfl) unsigned
  · cases op <;> decide
  · cases op <;> decide

/-- The code is read as one expression on the level, and that says `term`. -/
structure Spelled (level : Nat) (code : Code) (term : Term) : Prop where
  /-- No two tokens of the code fuse. -/
  clear : code.Clear
  opens : ∃ glyph rest, code.glyphs = glyph :: rest ∧ glyph.isOpener = true
  phrase : Phrase level code.words term

namespace Spelled

variable {level looser : Nat} {code : Code} {term : Term}

/-- What is spelled on a level can stand on a looser one. -/
theorem widen (spelled : Spelled level code term) (le : looser ≤ level) :
    Spelled looser code term :=
  { spelled with phrase := spelled.phrase.widen le }

/-- Code that continues an expression begins like it. -/
theorem opens_append (spelled : Spelled level code term) (behind : Code) :
    ∃ glyph rest, Code.glyphs (code ++ behind) = glyph :: rest ∧ glyph.isOpener = true := by
  obtain ⟨glyph, rest, shape, opener⟩ := spelled.opens
  exact ⟨glyph, rest ++ behind.glyphs, by rw [Code.glyphs_append, shape]; rfl, opener⟩

/-- A word is read as what it says by itself. -/
theorem word {token : Token} (isWord : token.glyphs = [.word token]) (written : token ≠ .space)
    (phrase : Phrase 13 [token] term) : Spelled 13 [token] term where
  clear := Code.clear_word isWord written
  opens := ⟨.word token, [], by simp [Code.glyphs, isWord], rfl⟩
  phrase := by
    have kept : Code.words [token] = [token] := by simp [Code.words, written]
    rwa [kept]

/-- Parentheses bring a value to the tightest level. -/
theorem parenthesized (spelled : Spelled 0 code term) (value : ∀ type, term ≠ .typeName type) :
    Spelled 13 code.parenthesized term where
  clear := spelled.clear.parenthesized.clear
  opens := ⟨.mark '(', code.glyphs ++ [.mark ')'], by simp [Code.parenthesized]; rfl, rfl⟩
  phrase := by simpa [Code.parenthesized] using spelled.phrase.parens value

/-- A member access is spelled behind its target. -/
theorem member (spelled : Spelled 13 code term) (name : String) :
    Spelled 13 (code ++ [.symbol ".", .name name]) (.member term name) where
  clear := by
    have dot : Code.Closed [.symbol "."] := Code.closed_sealed (by decide) (by decide) (by decide)
    have started := spelled.clear.append_closed dot fun _ => rfl
    have named : Code.Clear [.name name] := Code.clear_word rfl (by simp)
    simpa using started.append_clear named
  opens := spelled.opens_append _
  phrase := by
    rw [Code.words_append]
    exact spelled.phrase.member

/-- An operator is spelled behind its operand. -/
theorem step {op : UnaryOp} (spelled : Spelled 13 code term) (trailing : op.isTrailing = true) :
    Spelled 13 (code ++ [.symbol op.symbol]) (.unary op term) where
  clear := by
    obtain ⟨reached, present, closed⟩ := isSealed_symbol trailing
    refine (spelled.clear.append_closed (Code.closed_sealed reached present closed) ?_).clear
    cases op <;> exact fun _ => rfl
  opens := spelled.opens_append _
  phrase := by
    rw [Code.words_append]
    exact spelled.phrase.step (postfixOp?_symbol trailing)

/-- An operator is spelled between its operands. -/
theorem binary {left right : Code} {first second : Term} (op : BinaryOp)
    (leftSpelled : Spelled (Precedence.ofBinary op).rank left first)
    (rightSpelled : Spelled (Precedence.ofBinary op).tighter.rank right second) :
    Spelled (Precedence.ofBinary op).rank
      (left ++ [.space, .symbol op.symbol, .space] ++ right) (.binary op first second) where
  clear := by
    obtain ⟨reached, present⟩ := isReached_symbol op
    have started := leftSpelled.clear.append_closed (Code.closed_spaced reached present)
      fun _ => rfl
    exact started.append_clear rightSpelled.clear
  opens := by
    rw [List.append_assoc]
    exact leftSpelled.opens_append _
  phrase := by
    have rightPhrase := rightSpelled.phrase
    rw [rank_tighter_ofBinary] at rightPhrase
    simpa using Phrase.binary (infixOp?_symbol op) leftSpelled.phrase rightPhrase

/-- A conditional is spelled with its three operands. -/
theorem ternary {test whenTrue whenFalse : Code} {condition thenValue elseValue : Term}
    (first : Spelled 2 test condition) (second : Spelled 0 whenTrue thenValue)
    (third : Spelled 0 whenFalse elseValue) :
    Spelled 1 (test ++ [.space, .symbol "?", .space] ++ whenTrue ++ [.space, .symbol ":", .space] ++
      whenFalse) (.ternary condition thenValue elseValue) where
  clear := by
    have question : Code.Closed [.space, .symbol "?", .space] :=
      Code.closed_spaced (by decide) (by decide)
    have colon : Code.Closed [.space, .symbol ":", .space] :=
      Code.closed_spaced (by decide) (by decide)
    have tested := first.clear.append_closed question fun _ => rfl
    have chosen := (tested.append_clear second.clear).append_closed colon fun _ => rfl
    exact chosen.append_clear third.clear
  opens := by
    simp only [List.append_assoc]
    exact first.opens_append _
  phrase := by simpa using Phrase.ternary first.phrase second.phrase third.phrase

/-- A cast with `as` is spelled behind its operand. -/
theorem tryCast (spelled : Spelled 8 code term) (type : String) :
    Spelled 8 (code ++ [.space, .keyword "as", .space] ++ [.typeName type])
      (.tryCast term type) where
  clear := by
    have keyword : Code.Closed [.space, .keyword "as", .space] := fun _ => rfl
    have typed : Code.Clear [.typeName type] := Code.clear_word rfl (by simp)
    exact (spelled.clear.append_closed keyword fun _ => rfl).append_clear typed
  opens := by
    rw [List.append_assoc]
    exact spelled.opens_append _
  phrase := by
    rw [Code.words_append, Code.words_append, List.append_assoc]
    exact spelled.phrase.tryCast

/-- An assignment is spelled between its target and its value. -/
theorem assign {left right : Code} {target value : Term} {op : Option BinaryOp}
    (compound : ∀ applied ∈ op, isCompound applied = true) (leftSpelled : Spelled 12 left target)
    (rightSpelled : Spelled 0 right value) :
    Spelled 0 (left ++ [.space, .symbol (assignSymbol op), .space] ++ right)
      (.assign op target value) where
  clear := by
    obtain ⟨-, reached, present⟩ := assignOp?_symbol compound
    have started := leftSpelled.clear.append_closed (Code.closed_spaced reached present)
      fun _ => rfl
    exact started.append_clear rightSpelled.clear
  opens := by
    rw [List.append_assoc]
    exact leftSpelled.opens_append _
  phrase := by
    simpa using Phrase.assign (assignOp?_symbol compound).1 leftSpelled.phrase rightSpelled.phrase

/-- A prefix operator stays apart from an operand that does not begin with a sign. -/
theorem unary {op : UnaryOp} (spelled : Spelled 12 code term) (leading : op.isTrailing = false)
    (unsigned : code.startsWithSign = false) :
    Spelled 12 (.symbol op.symbol :: code) (.unary op term) where
  clear := by
    have spelledOut : isReached op.symbol = true ∧ op.symbol ≠ "" := by cases op <;> decide
    refine Code.clear_symbol_cons spelledOut.1 spelledOut.2 spelled.clear ?_
    intro rest character tail shape
    obtain ⟨glyph, inner, begins, opener⟩ := spelled.opens
    rw [begins, List.cons_append, List.cons.injEq] at shape
    rw [shape.1] at begins opener
    rw [Code.startsWithSign_of_mark begins] at unsigned
    exact fuses_prefix opener (of_decide_eq_false unsigned)
  opens := by
    cases op <;> exact ⟨_, _, rfl, rfl⟩
  phrase := spelled.phrase.unary (prefixOp?_symbol leading)

/-- A cast is spelled in front of its operand. -/
theorem cast (spelled : Spelled 12 code term) (type : String) :
    Spelled 12 (Code.parenthesized [.typeName type] ++ .space :: code) (.cast type term) where
  clear := by
    have typed : Code.Clear [.typeName type] := Code.clear_word rfl (by simp)
    exact typed.parenthesized.append_clear (Code.closed_space.append_clear spelled.clear)
  opens := ⟨_, _, rfl, rfl⟩
  phrase := spelled.phrase.cast

/-- The items of a bracket are read one by one. -/
theorem words_commaSeparated (codes : List Code) :
    (Code.commaSeparated codes).words = separated (codes.map Code.words) := by
  induction codes with
  | nil => rfl
  | cons first rest inductionHypothesis =>
    cases rest with
    | nil => simp [Code.commaSeparated, separated]
    | cons second rest => simp [Code.commaSeparated, separated, inductionHypothesis]

/-- A call is spelled with its arguments in parentheses. -/
theorem call {args : List (Code × Term)} (spelled : Spelled 13 code term)
    (argsSpelled : ∀ arg ∈ args, Spelled 0 arg.1 arg.2) :
    Spelled 13 (code ++ (Code.commaSeparated (args.map (·.1))).parenthesized)
      (.call term (args.map (·.2))) where
  clear := by
    have inside : (Code.commaSeparated (args.map (·.1))).Clear :=
      Code.clear_commaSeparated fun piece member => by
        obtain ⟨arg, inArgs, rfl⟩ := List.mem_map.mp member
        exact (argsSpelled arg inArgs).clear
    exact (spelled.clear.append_closed inside.parenthesized fun _ => rfl).clear
  opens := spelled.opens_append _
  phrase := by
    have argPhrases : ∀ arg ∈ args.map fun arg => (arg.1.words, arg.2), Phrase 0 arg.1 arg.2 := by
      intro arg member
      obtain ⟨source, inArgs, rfl⟩ := List.mem_map.mp member
      exact (argsSpelled source inArgs).phrase
    have called := Phrase.call _ spelled.phrase argPhrases
    simpa [Code.parenthesized, words_commaSeparated, Function.comp_def] using called

/-- An access by index is spelled with its indices in brackets. -/
theorem index {indices : List (Code × Term)} (present : indices ≠ [])
    (spelled : Spelled 13 code term)
    (indicesSpelled : ∀ index ∈ indices, Spelled 0 index.1 index.2) :
    Spelled 13 (code ++ (.symbol "[" :: Code.commaSeparated (indices.map (·.1)) ++ [.symbol "]"]))
      (.index term (indices.map (·.2))) where
  clear := by
    have inside : (Code.commaSeparated (indices.map (·.1))).Clear :=
      Code.clear_commaSeparated fun piece member => by
        obtain ⟨index, inIndices, rfl⟩ := List.mem_map.mp member
        exact (indicesSpelled index inIndices).clear
    have opening : Code.Closed [.symbol "["] :=
      Code.closed_sealed (by decide) (by decide) (by decide)
    have closing : Code.Closed [.symbol "]"] :=
      Code.closed_sealed (by decide) (by decide) (by decide)
    have bracketed := (opening.append_clear inside).append_closed closing fun _ => rfl
    exact (spelled.clear.append_closed bracketed fun _ => rfl).clear
  opens := spelled.opens_append _
  phrase := by
    have indexPhrases : ∀ index ∈ indices.map fun index => (index.1.words, index.2),
        Phrase 0 index.1 index.2 := by
      intro index member
      obtain ⟨source, inIndices, rfl⟩ := List.mem_map.mp member
      exact (indicesSpelled source inIndices).phrase
    have indexed := Phrase.index _ (by simpa using present) spelled.phrase indexPhrases
    simpa [words_commaSeparated, Function.comp_def] using indexed

end Spelled

/-! ## Parentheses where they are needed -/

/-- The code and the term of an expression. -/
structure Emitted (expr : Expr) (code : Code) (term : Term) : Prop where
  spelled : Spelled (Precedence.ofExpr expr).rank code term
  /-- A type by itself is never put in parentheses, where it would become a cast. -/
  bare : ∀ type, term = .typeName type →
    Precedence.ofExpr expr = .primary ∧ code.startsWithSign = false

namespace Emitted

variable {expr : Expr} {code : Code} {term : Term}

/-- What binds too loosely is a value, not a type. -/
theorem ne_typeName (emitted : Emitted expr code term) {least : Precedence}
    (loose : (Precedence.ofExpr expr).rank < least.rank) (type : String) :
    term ≠ .typeName type := by
  intro same
  have tight := (emitted.bare type same).1
  have bound := rank_le_primary least
  rw [tight] at loose
  have above : 13 < least.rank := loose
  omega

/-- On a place that requires a level, an expression is read on that level. -/
theorem enclose (emitted : Emitted expr code term) (least : Precedence) :
    Spelled least.rank (enclose least expr code) term := by
  unfold Emit.enclose Precedence.isLooserThan
  by_cases loose : (Precedence.ofExpr expr).rank < least.rank
  · simp only [loose, decide_true, if_true]
    have inner : Spelled 0 code term := emitted.spelled.widen (Nat.zero_le _)
    exact (inner.parenthesized (emitted.ne_typeName loose)).widen (rank_le_primary least)
  · simp only [loose, decide_false, Bool.false_eq_true, if_false]
    exact emitted.spelled.widen (by omega)

/-- Code in parentheses begins with no sign. -/
theorem startsWithSign_parenthesized (code : Code) : code.parenthesized.startsWithSign = false := by
  have begins : code.parenthesized.glyphs = .mark '(' :: (code.glyphs ++ [.mark ')']) := by
    simp [Code.parenthesized]
    rfl
  rw [Code.startsWithSign_of_mark begins]
  rfl

/-- Behind a prefix operator or a cast, an expression begins with no sign and is read as an operand
of it. -/
theorem encloseSigned (emitted : Emitted expr code term) :
    Spelled 12 (encloseSigned expr code) term ∧
      (Emit.encloseSigned expr code).startsWithSign = false := by
  have enclosed : Spelled 12 (Emit.enclose .unary expr code) term := emitted.enclose .unary
  unfold Emit.encloseSigned
  by_cases signed : (Emit.enclose .unary expr code).startsWithSign = true
  · simp only [signed, if_true]
    have value : ∀ type, term ≠ .typeName type := by
      intro type same
      obtain ⟨tight, unsigned⟩ := emitted.bare type same
      have unchanged : Emit.enclose .unary expr code = code := by
        simp [Emit.enclose, tight, Precedence.isLooserThan, Precedence.rank]
      rw [unchanged, unsigned] at signed
      exact Bool.false_ne_true signed
    have inner : Spelled 0 (Emit.enclose .unary expr code) term := enclosed.widen (Nat.zero_le _)
    exact ⟨(inner.parenthesized value).widen (by omega), startsWithSign_parenthesized _⟩
  · simp only [signed, Bool.false_eq_true, if_false]
    exact ⟨enclosed, by simp⟩

end Emitted

/-! ## Emission -/

/-- A sign takes a literal down to the level of the prefix operators. -/
theorem spelled_literal (value : Literal) :
    Spelled (if value.isSigned then 12 else 13) (literalCode value) (literalTerm value) := by
  have magnitude : Spelled 13 [.literal (unsignedText value)] (.literal (unsignedText value)) :=
    Spelled.word rfl (by simp) .literal
  unfold literalCode literalTerm
  by_cases signed : value.isSigned = true
  · simp only [signed, if_true]
    have clear : Code.Clear [.symbol "-", .literal (unsignedText value)] :=
      Code.clear_symbol_cons (by decide) (by decide) magnitude.clear
        fun _ _ _ shape => by simp [Token.glyphs, Code.glyphs] at shape
    have widened : Phrase 12 [.literal (unsignedText value)] (.literal (unsignedText value)) :=
      Phrase.literal.widen (by omega)
    exact ⟨clear, ⟨_, _, rfl, rfl⟩, widened.unary rfl⟩
  · simp only [signed, Bool.false_eq_true, if_false]
    exact magnitude

namespace Printer

variable {printer : Printer} {depth : Nat}

/-- An argument by value is written without a keyword. -/
theorem withModifier_eq {signature : Option Signature} {index : Nat} {code : Code}
    (byValue : ∀ bound ∈ signature, ∀ param ∈ bound.params, param.modifier.isByReference = false) :
    withModifier signature index code = code := by
  cases signature with
  | none => rfl
  | some bound =>
    have plain : (bound.modifierAt index).argumentKeyword? = none := by
      unfold Signature.modifierAt
      split
      · next param found =>
        have value := byValue bound rfl param (List.mem_of_getElem? found)
        cases kind : param.modifier with
        | none | params => rfl
        | out | ref =>
          rw [kind] at value
          cases value
      · rfl
    simp [withModifier, plain]

/-- The expression is written, and what is written is read as what it says. -/
def WritesBack (printer : Printer) (depth : Nat) (expr : Expr) : Prop :=
  ∃ code term, printer.expr depth expr = .ok code ∧ printer.term expr = some term ∧
    Emitted expr code term

/-- Arguments by value are written and read one by one. -/
theorem args_writeBack (signature : Option Signature) {args : List Expr} (index : Nat)
    (byValue : ∀ bound ∈ signature, ∀ param ∈ bound.params, param.modifier.isByReference = false)
    (written : ∀ arg ∈ args, printer.WritesBack depth arg) :
    ∃ parts : List (Code × Term),
      printer.args depth signature index args = .ok (parts.map (·.1)) ∧
      printer.terms args = some (parts.map (·.2)) ∧ parts.length = args.length ∧
      ∀ part ∈ parts, Spelled 0 part.1 part.2 := by
  induction args generalizing index with
  | nil => exact ⟨[], rfl, rfl, rfl, by simp⟩
  | cons first rest inductionHypothesis =>
    obtain ⟨code, term, emits, meaning, emitted⟩ := written first List.mem_cons_self
    obtain ⟨parts, restCodes, restTerms, lengths, spelled⟩ := inductionHypothesis (index + 1)
      fun arg member => written arg (List.mem_cons_of_mem first member)
    refine ⟨(code, term) :: parts, ?_, ?_, ?_, ?_⟩
    · simp only [Printer.args, emits, restCodes, withModifier_eq byValue]
      rfl
    · simp only [Printer.terms, meaning, restTerms]
      rfl
    · simp [lengths]
    · intro part member
      obtain rfl | inRest := List.mem_cons.mp member
      · exact emitted.spelled.widen (Nat.zero_le _)
      · exact spelled part inRest

/-- Literals are written and read back. -/
theorem literal_writesBack (note : Note) (value : Literal) :
    printer.WritesBack depth (.literal note value) := by
  refine ⟨literalCode value, literalTerm value, rfl, rfl, ?_, ?_⟩
  · have spelled := spelled_literal value
    simp only [Precedence.ofExpr]
    split at spelled
    case isTrue signed =>
      rw [if_pos (Literal.isNegative_of_isSigned signed)]
      exact spelled
    case isFalse =>
      refine spelled.widen ?_
      split <;> simp [Precedence.rank]
  · intro type same
    unfold literalTerm at same
    split at same <;> cases same

/-- An operator stands in front of its operand or behind it. -/
theorem WritesBack.unary {note : Note} {op : UnaryOp} {operand : Expr}
    (written : printer.WritesBack depth operand) :
    printer.WritesBack depth (.unary note op operand) := by
  obtain ⟨code, term, emits, meaning, emitted⟩ := written
  have termSays : printer.term (.unary note op operand) = some (.unary op term) := by
    simp only [Printer.term, meaning]
    rfl
  cases trailing : op.isTrailing with
  | true =>
    have emitsAll : printer.expr depth (.unary note op operand) =
        .ok (enclose .primary operand code ++ [.symbol op.symbol]) := by
      simp only [Printer.expr, emits, trailing]
      rfl
    have level : (Precedence.ofExpr (.unary note op operand)).rank = 13 := by
      simp [Precedence.ofExpr, trailing, Precedence.rank]
    have spelled := (emitted.enclose .primary).step trailing
    exact ⟨_, _, emitsAll, termSays, level ▸ spelled, by simp⟩
  | false =>
    have emitsAll : printer.expr depth (.unary note op operand) =
        .ok (.symbol op.symbol :: encloseSigned operand code) := by
      simp only [Printer.expr, emits, trailing]
      rfl
    have level : (Precedence.ofExpr (.unary note op operand)).rank = 12 := by
      simp [Precedence.ofExpr, trailing, Precedence.rank]
    have spelled := emitted.encloseSigned.1.unary trailing emitted.encloseSigned.2
    exact ⟨_, _, emitsAll, termSays, level ▸ spelled, by simp⟩

/-- Every readable expression is written, and what is written is read as what it says. -/
theorem Readable.writesBack {expr : Expr} (depth : Nat) (readable : printer.Readable expr) :
    printer.WritesBack depth expr := by
  -- The code and the term come from those of the parts by evaluation. What is left is that the code
  -- spells the term, at the level of the form.
  induction readable with
  | literal => exact literal_writesBack _ _
  | ident => exact ⟨_, _, rfl, rfl, Spelled.word rfl (by simp) .name, by simp⟩
  | selfRef => exact ⟨_, _, rfl, rfl, Spelled.word rfl (by simp) .selfRef, by simp⟩
  | superRef => exact ⟨_, _, rfl, rfl, Spelled.word rfl (by simp) .superRef, by simp⟩
  | typeRef spelled =>
    obtain ⟨text, renders, unsigned⟩ := spelled
    refine ⟨[.typeName text], .typeName text, ?_, ?_, Spelled.word rfl (by simp) .typeName,
      fun _ _ => ⟨rfl, unsigned⟩⟩
    · simp [Printer.expr, typeCode, renders, bind, Except.bind, pure, Except.pure]
    · simp [Printer.term, typeText?, renders, Except.toOption]
  | @member note target name binding _ inner =>
    obtain ⟨code, term, emits, meaning, emitted⟩ := inner
    refine ⟨_, _, ?_, ?_, (emitted.enclose .primary).member name.render, by simp⟩
    · simp only [Printer.expr, emits]; rfl
    · simp only [Printer.term, meaning]; rfl
  | @invoke note callee args signature _ _ byValue inner innerArgs =>
    obtain ⟨code, term, emits, meaning, emitted⟩ := inner
    obtain ⟨parts, argCodes, argTerms, -, spelled⟩ := args_writeBack signature 0 byValue innerArgs
    refine ⟨_, _, ?_, ?_, (emitted.enclose .primary).call spelled, by simp⟩
    · simp only [Printer.expr, emits, argCodes, typeArgsCode, Names.renderAll]
      simp [bind, Except.bind, pure, Except.pure]
    · simp only [Printer.term, meaning, argTerms]; rfl
  | @index note target indices present _ _ inner innerIndices =>
    obtain ⟨code, term, emits, meaning, emitted⟩ := inner
    obtain ⟨parts, codes, terms, lengths, spelled⟩ :=
      args_writeBack none 0 (by simp) innerIndices
    have some : parts ≠ [] := by
      rintro rfl
      exact present (List.length_eq_zero_iff.mp lengths.symm)
    refine ⟨_, _, ?_, ?_, (emitted.enclose .primary).index some spelled, by simp⟩
    · simp only [Printer.expr, emits, codes]; rfl
    · simp only [Printer.term, meaning, terms]; rfl
  | @binary note op left right _ _ innerLeft innerRight =>
    obtain ⟨leftCode, leftTerm, leftEmits, leftSays, leftEmitted⟩ := innerLeft
    obtain ⟨rightCode, rightTerm, rightEmits, rightSays, rightEmitted⟩ := innerRight
    refine ⟨_, _, ?_, ?_, Spelled.binary op (leftEmitted.enclose _) (rightEmitted.enclose _),
      by simp⟩
    · simp only [Printer.expr, leftEmits, rightEmits]; rfl
    · simp only [Printer.term, leftSays, rightSays]; rfl
  | unary _ inner => exact inner.unary
  | @ternary note condition thenValue elseValue _ _ _ innerCondition innerThen innerElse =>
    obtain ⟨testCode, testTerm, testEmits, testSays, testEmitted⟩ := innerCondition
    obtain ⟨thenCode, thenTerm, thenEmits, thenSays, thenEmitted⟩ := innerThen
    obtain ⟨elseCode, elseTerm, elseEmits, elseSays, elseEmitted⟩ := innerElse
    refine ⟨_, _, ?_, ?_, (testEmitted.enclose .or).ternary
      ((thenEmitted.enclose .conditional).widen (Nat.zero_le _))
      ((elseEmitted.enclose .conditional).widen (Nat.zero_le _)), by simp⟩
    · simp only [Printer.expr, testEmits, thenEmits, elseEmits]; rfl
    · simp only [Printer.term, testSays, thenSays, elseSays]; rfl
  | @cast note operand target synthesized spelled _ inner =>
    obtain ⟨code, term, emits, meaning, emitted⟩ := inner
    obtain ⟨text, renders, -⟩ := spelled
    refine ⟨_, _, ?_, ?_, emitted.encloseSigned.1.cast text, by simp⟩
    · simp only [Printer.expr, emits, typeCode, renders]; rfl
    · simp only [Printer.term, meaning, typeText?, renders]; rfl
  | @tryCast note operand target spelled _ inner =>
    obtain ⟨code, term, emits, meaning, emitted⟩ := inner
    obtain ⟨text, renders, -⟩ := spelled
    refine ⟨_, _, ?_, ?_, (emitted.enclose .relational).tryCast text, by simp⟩
    · simp only [Printer.expr, emits, typeCode, renders]; rfl
    · simp only [Printer.term, meaning, typeText?, renders]; rfl
  | @assign note op target value compound _ _ innerTarget innerValue =>
    obtain ⟨targetCode, targetTerm, targetEmits, targetSays, targetEmitted⟩ := innerTarget
    obtain ⟨valueCode, valueTerm, valueEmits, valueSays, valueEmitted⟩ := innerValue
    refine ⟨_, _, ?_, ?_, (targetEmitted.enclose .unary).assign compound
      (valueEmitted.spelled.widen (Nat.zero_le _)), by simp⟩
    · simp only [Printer.expr, targetEmits, valueEmits]; rfl
    · simp only [Printer.term, targetSays, valueSays]; rfl
  | @paren note inner _ written =>
    obtain ⟨code, term, emits, meaning, emitted⟩ := written
    exact ⟨code, term, emits, meaning, emitted.spelled, emitted.bare⟩

/-- The tokens of an emitted expression have exactly one reading, and that is what the expression
says without the parentheses of its source. -/
theorem expr_readBack (printer : Printer) (depth : Nat) (expr : Expr)
    (readable : printer.Readable expr) :
    ∃ code term, printer.expr depth expr = .ok code ∧ printer.term expr = some term ∧
      Term.read? code.tokens = some term ∧ ∀ read, Phrase 0 code.tokens read ↔ read = term := by
  obtain ⟨code, term, emits, meaning, emitted⟩ := readable.writesBack depth
  have phrase : Phrase 0 code.tokens term := by
    rw [emitted.spelled.clear.tokens_eq]
    exact emitted.spelled.phrase.widen (Nat.zero_le _)
  refine ⟨code, term, emits, meaning, phrase.read_eq, fun read => ⟨fun other => ?_, ?_⟩⟩
  · exact other.unique phrase
  · rintro rfl
    exact phrase

/-- `a - (-(-2) - (int) (++b))`: the signs stay apart, and the difference on the right stays on the
right. -/
theorem expr_readBack_difference :
    let printer : Printer := ⟨⟨.ofTypes [], []⟩, 4⟩
    let note := Expr.noteOf .int
    let step : Expr := .unary note .preInc (.localRef "b" .int)
    let inner : Expr := .binary note .sub (.unary note .neg (.literal note (.int (-2))))
      (.cast note step .int false)
    let difference : Expr := .binary note .sub (.localRef "a" .int) (.paren note inner)
    printer.Readable difference ∧
      ∃ code term, printer.expr 0 difference = .ok code ∧ printer.term difference = some term ∧
        Term.read? code.tokens = some term ∧ ∀ read, Phrase 0 code.tokens read ↔ read = term := by
  intro printer note step inner difference
  have readable : printer.Readable difference :=
    .binary .ident (.paren (.binary (.unary .literal) (.cast ⟨"int", rfl, rfl⟩ (.unary .ident))))
  exact ⟨readable, expr_readBack printer 0 difference readable⟩

end Printer

end ScriptSharp.Emit
