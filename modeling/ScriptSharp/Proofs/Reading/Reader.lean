import ScriptSharp.Proofs.Reading.Grammar

/-!
# Reading phrases from left to right

A reader that goes through the tokens once, with a stack of the constructs that it is inside of.
It finds the reading of every phrase of the grammar (`Phrase.read_eq`), so that no phrase has two
(`Phrase.unique`). On token lists that are no phrase its answer has no meaning.
-/

namespace ScriptSharp.Emit

/-- A construct that waits for an operand. -/
inductive Frame where
  | unary (op : UnaryOp)
  | cast (type : String)
  | binary (level : Nat) (op : BinaryOp) (left : Term)
  | assign (op : Option BinaryOp) (target : Term)
  /-- Between the `?` and the `:` of a conditional. -/
  | whenTrue (condition : Term)
  /-- Behind the `:` of a conditional. -/
  | whenFalse (condition thenValue : Term)
  | parens
  | call (callee : Term) (args : List Term)
  | index (target : Term) (indices : List Term)

namespace Frame

/-- The level of the expression that the construct becomes with its operand, and that expression.
A bracket or the middle of a conditional is not complete without its closing token. -/
def complete? (operand : Term) : Frame → Option (Nat × Term)
  | .unary op => some (12, .unary op operand)
  | .cast type => some (12, .cast type operand)
  | .binary level op left => some (level, .binary op left operand)
  | .assign op target => some (0, .assign op target operand)
  | .whenFalse condition thenValue => some (1, .ternary condition thenValue operand)
  | .whenTrue _ | .parens | .call .. | .index .. => none

/-- The loosest level of an operand. -/
def least : Frame → Nat
  | .unary _ | .cast _ => 12
  | .binary level _ _ => level + 1
  | .assign .. | .whenTrue _ | .whenFalse .. | .parens | .call .. | .index .. => 0

end Frame

/-- Completes all constructs on top of the stack that are at least as tight as `least`. -/
def settle (least : Nat) : Term → List Frame → Term × List Frame
  | operand, [] => (operand, [])
  | operand, frame :: stack =>
    match frame.complete? operand with
    | some (level, term) =>
      if least ≤ level then settle least term stack else (operand, frame :: stack)
    | none => (operand, frame :: stack)

/-- What a symbol behind an operand begins or ends. -/
inductive Continuation where
  | dot
  | openCall
  | openIndex
  | step (op : UnaryOp)
  | assign (op : Option BinaryOp)
  | binary (level : Nat) (op : BinaryOp)
  | question
  | colon
  | comma
  | closeParen
  | closeBracket

namespace Continuation

/-- The meaning of a symbol behind an operand. -/
def ofSymbol? (symbol : String) : Option Continuation :=
  match symbol with
  | "." => some .dot
  | "(" => some .openCall
  | "[" => some .openIndex
  | "?" => some .question
  | ":" => some .colon
  | "," => some .comma
  | ")" => some .closeParen
  | "]" => some .closeBracket
  | symbol =>
    ((infixOp? symbol).map fun (level, op) => binary level op).or
      (((assignOp? symbol).map assign).or ((postfixOp? symbol).map step))

/-- The level on which the operand in front of the symbol has to be complete. -/
def demand : Continuation → Nat
  | .dot | .openCall | .openIndex | .step _ => 13
  | .assign _ => 12
  | .binary level _ => level
  | .question => 2
  | .colon | .comma | .closeParen | .closeBracket => 0

end Continuation

/-- Where the reader is. -/
inductive State where
  /-- An operand has to follow. -/
  | operand (stack : List Frame)
  /-- An operand has been read. -/
  | operator (term : Term) (stack : List Frame)
  /-- Behind the dot of a member access. -/
  | dot (term : Term) (stack : List Frame)
  /-- Behind the keyword of a conversion. -/
  | conversion (term : Term) (stack : List Frame)

namespace State

/-- Ends parentheses or the arguments of a call. -/
def closeParens (term : Term) (stack : List Frame) : Option State :=
  match settle 0 term stack with
  | (inner, .parens :: stack) => some (.operator inner stack)
  | (arg, .call callee args :: stack) => some (.operator (.call callee (args ++ [arg])) stack)
  | _ => none

/-- Goes on behind an operand. A type between parentheses is a cast. -/
def proceed (term : Term) (stack : List Frame) : Continuation → Option State
  | .dot => some (.dot term stack)
  | .openCall => some (.operand (.call term [] :: stack))
  | .openIndex => some (.operand (.index term [] :: stack))
  | .step op => some (.operator (.unary op term) stack)
  | .assign op =>
    let (target, stack) := settle 12 term stack
    some (.operand (.assign op target :: stack))
  | .binary level op =>
    let (left, stack) := settle level term stack
    some (.operand (.binary level op left :: stack))
  | .question =>
    let (condition, stack) := settle 2 term stack
    some (.operand (.whenTrue condition :: stack))
  | .colon =>
    match settle 0 term stack with
    | (value, .whenTrue condition :: stack) => some (.operand (.whenFalse condition value :: stack))
    | _ => none
  | .comma =>
    match settle 0 term stack with
    | (arg, .call callee args :: stack) => some (.operand (.call callee (args ++ [arg]) :: stack))
    | (item, .index target indices :: stack) =>
      some (.operand (.index target (indices ++ [item]) :: stack))
    | _ => none
  | .closeParen =>
    match term, stack with
    | .typeName type, .parens :: stack => some (.operand (.cast type :: stack))
    | term, stack => closeParens term stack
  | .closeBracket =>
    match settle 0 term stack with
    | (item, .index target indices :: stack) =>
      some (.operator (.index target (indices ++ [item])) stack)
    | _ => none

/-- Reads a symbol where an operand has to follow. -/
def opening (stack : List Frame) (symbol : String) : Option State :=
  match symbol with
  | "(" => some (.operand (.parens :: stack))
  | ")" =>
    match stack with
    | .call callee [] :: stack => some (.operator (.call callee []) stack)
    | _ => none
  | symbol => (prefixOp? symbol).map fun op => .operand (.unary op :: stack)

/-- Reads one token. -/
def advance : State → Token → Option State
  | .operand stack, .literal text => some (.operator (.literal text) stack)
  | .operand stack, .name text => some (.operator (.name text) stack)
  | .operand stack, .typeName text => some (.operator (.typeName text) stack)
  | .operand stack, .keyword "this" => some (.operator .selfRef stack)
  | .operand stack, .keyword "base" => some (.operator .superRef stack)
  | .operand stack, .symbol symbol => opening stack symbol
  | .operator term stack, .symbol symbol =>
    (Continuation.ofSymbol? symbol).bind (proceed term stack)
  | .operator term stack, .keyword "as" =>
    let (converted, stack) := settle 8 term stack
    some (.conversion converted stack)
  | .dot target stack, .name name => some (.operator (.member target name) stack)
  | .conversion converted stack, .typeName type => some (.operator (.tryCast converted type) stack)
  | _, _ => none

/-- Reads the tokens that remain. -/
def run : State → Code → Option Term
  | .operator term stack, [] =>
    match settle 0 term stack with
    | (term, []) => some term
    | _ => none
  | _, [] => none
  | state, token :: rest => (state.advance token).bind fun next => next.run rest

end State

/-- Reads an expression. -/
def Term.read? (code : Code) : Option Term :=
  State.run (.operand []) code

/-! ## What one token completes -/

/-- The construct on top of the stack takes an operand of the level. -/
def Admits (level : Nat) (stack : List Frame) : Prop :=
  ∀ frame ∈ stack.head?, frame.least ≤ level

/-- What admits an operand admits a tighter one. -/
theorem Admits.mono {looser tighter : Nat} {stack : List Frame} (admits : Admits looser stack)
    (le : looser ≤ tighter) : Admits tighter stack :=
  fun frame top => Nat.le_trans (admits frame top) le

/-- With nothing waiting, every operand is admitted. -/
theorem admits_nil (level : Nat) : Admits level [] := by
  intro frame top
  simp at top

/-- A construct admits an operand that is tight enough for it. -/
theorem admits_cons {level : Nat} {frame : Frame} {stack : List Frame}
    (le : frame.least ≤ level) : Admits level (frame :: stack) := by
  intro top isTop
  simp only [List.head?_cons, Option.mem_some] at isTop
  exact isTop ▸ le

/-- A construct is completed when what follows does not bind more tightly. -/
theorem settle_complete {frame : Frame} {operand term : Term} {level least : Nat}
    {stack : List Frame} (completes : frame.complete? operand = some (level, term))
    (le : least ≤ level) : settle least operand (frame :: stack) = settle least term stack := by
  simp [settle, completes, le]

/-- The stack around an operand stays when the operator behind it binds more tightly than the
construct on top. -/
theorem settle_of_admits {level least : Nat} {operand : Term} {stack : List Frame}
    (admits : Admits level stack) (loose : level < 12) (le : level ≤ least) (inner : 2 ≤ least) :
    settle least operand stack = (operand, stack) := by
  cases stack with
  | nil => rfl
  | cons frame stack =>
    have bound : frame.least ≤ level := admits frame rfl
    cases frame with
    | unary op => simp [Frame.least] at bound; omega
    | cast type => simp [Frame.least] at bound; omega
    | binary frameLevel op left =>
      simp only [Frame.least] at bound
      simp only [settle, Frame.complete?]
      rw [if_neg (by omega)]
    | assign op target =>
      simp only [settle, Frame.complete?]
      rw [if_neg (by omega)]
    | whenFalse condition thenValue =>
      simp only [settle, Frame.complete?]
      rw [if_neg (by omega)]
    | whenTrue | parens | call | index => rfl

/-- A type name is no complete construct. -/
theorem Frame.complete?_ne_typeName {frame : Frame} {operand term : Term} {level : Nat}
    (completes : frame.complete? operand = some (level, term)) (type : String) :
    term ≠ .typeName type := by
  cases frame <;> simp [Frame.complete?] at completes <;> simp [← completes.2]

namespace State

/-- The token behind an operand finds it complete on the level. -/
def Follows (level : Nat) (rest : Code) : Prop :=
  ∀ token ∈ rest.head?, match token with
    | .symbol symbol => ∀ meaning ∈ Continuation.ofSymbol? symbol, meaning.demand ≤ level
    | .keyword _ => 8 ≤ level
    | _ => True

/-- A closing parenthesis behind anything but a type between parentheses ends what is open. -/
theorem proceed_closeParen {term : Term} {stack : List Frame}
    (value : ∀ type below, ¬(term = .typeName type ∧ stack = .parens :: below)) :
    proceed term stack .closeParen = closeParens term stack := by
  simp only [proceed]
  split
  · next type below => exact absurd ⟨rfl, rfl⟩ (value type below)
  · rfl

/-- Completing the construct on top of the stack first does not change how a symbol is taken. -/
theorem proceed_complete {frame : Frame} {operand term : Term} {level : Nat}
    {stack : List Frame} {meaning : Continuation}
    (completes : frame.complete? operand = some (level, term)) (inner : level < 13)
    (le : meaning.demand ≤ level) :
    proceed operand (frame :: stack) meaning = proceed term stack meaning := by
  have settled : settle meaning.demand operand (frame :: stack) =
      settle meaning.demand term stack := settle_complete completes le
  cases meaning with
  | dot | openCall | openIndex | step => simp only [Continuation.demand] at le; omega
  | assign | binary | question | colon | comma | closeBracket =>
    simp only [Continuation.demand] at settled
    simp only [proceed, settled]
  | closeParen =>
    have before : ∀ type below,
        ¬(operand = .typeName type ∧ frame :: stack = .parens :: below) := by
      rintro type below ⟨-, same⟩
      rw [(List.cons.inj same).1] at completes
      simp [Frame.complete?] at completes
    have behind : ∀ type below, ¬(term = .typeName type ∧ stack = .parens :: below) :=
      fun type _ same => Frame.complete?_ne_typeName completes type same.1
    simp only [Continuation.demand] at settled
    rw [proceed_closeParen before, proceed_closeParen behind]
    simp only [closeParens, settled]

/-- Completing the construct on top of the stack first does not change what is read. -/
theorem run_complete {frame : Frame} {operand term : Term} {level : Nat} {stack : List Frame}
    {rest : Code} (completes : frame.complete? operand = some (level, term)) (inner : level < 13)
    (follows : Follows level rest) :
    run (.operator operand (frame :: stack)) rest = run (.operator term stack) rest := by
  cases rest with
  | nil => simp only [run, settle_complete completes (Nat.zero_le _)]
  | cons token rest =>
    have bound := follows token rfl
    suffices same : advance (.operator operand (frame :: stack)) token =
        advance (.operator term stack) token by
      simp only [run, same]
    cases token with
    | symbol symbol =>
      simp only [advance]
      cases found : Continuation.ofSymbol? symbol with
      | none => rfl
      | some meaning => exact proceed_complete completes inner (bound meaning found)
    | keyword text =>
      by_cases isAs : text = "as"
      · subst isAs
        simp only [advance, settle_complete completes bound]
      · simp [advance, isAs]
    | name | typeName | literal | space | body => rfl

/-- What may follow an operand may follow a tighter one. -/
theorem Follows.mono {looser tighter : Nat} {rest : Code} (follows : Follows looser rest)
    (le : looser ≤ tighter) : Follows tighter rest := by
  intro token isHead
  have bound := follows token isHead
  cases token with
  | symbol symbol => exact fun meaning found => Nat.le_trans (bound meaning found) le
  | keyword text => exact Nat.le_trans bound le
  | name | typeName | literal | space | body => trivial

/-- The end may follow every operand. -/
theorem follows_nil (level : Nat) : Follows level [] := by
  intro token isHead
  simp at isHead

/-- A symbol follows an operand that is complete on the level that the symbol demands. -/
theorem follows_symbol {symbol : String} {meaning : Continuation} {level : Nat} {rest : Code}
    (found : Continuation.ofSymbol? symbol = some meaning) (le : meaning.demand ≤ level) :
    Follows level (.symbol symbol :: rest) := by
  intro token isHead
  simp only [List.head?_cons, Option.mem_some] at isHead
  subst isHead
  intro other same
  rw [found, Option.mem_some] at same
  exact same ▸ le

end State

/-! ## The meaning of symbols -/

/-- The sign of an assignment goes on with its value. -/
theorem Continuation.ofSymbol?_assign {symbol : String} {op : Option BinaryOp}
    (known : assignOp? symbol = some op) :
    Continuation.ofSymbol? symbol = some (.assign op) := by
  unfold assignOp? at known
  split at known <;> cases known <;> rfl

/-- An operator between operands goes on with its second one. -/
theorem Continuation.ofSymbol?_infix {symbol : String} {level : Nat} {op : BinaryOp}
    (known : infixOp? symbol = some (level, op)) :
    Continuation.ofSymbol? symbol = some (.binary level op) := by
  unfold infixOp? at known
  split at known <;> cases known <;> rfl

/-- An operator behind its operand completes it. -/
theorem Continuation.ofSymbol?_postfix {symbol : String} {op : UnaryOp}
    (known : postfixOp? symbol = some op) :
    Continuation.ofSymbol? symbol = some (.step op) := by
  unfold postfixOp? at known
  split at known <;> cases known <;> rfl

/-- An operator in front of its operand waits for it. -/
theorem State.opening_prefix {symbol : String} {op : UnaryOp} (stack : List Frame)
    (known : prefixOp? symbol = some op) :
    State.opening stack symbol = some (.operand (.unary op :: stack)) := by
  unfold prefixOp? at known
  split at known <;> cases known <;> rfl

/-- The operators between two operands stand on the levels between conditionals and prefix
operators. -/
theorem infixOp?_level {symbol : String} {level : Nat} {op : BinaryOp}
    (known : infixOp? symbol = some (level, op)) : 2 ≤ level ∧ level < 12 := by
  unfold infixOp? at known
  split at known <;> cases known <;> decide

/-- No symbol demands an operand on the level of conditionals. -/
theorem Continuation.demand_eq_zero {symbol : String} {meaning : Continuation}
    (found : Continuation.ofSymbol? symbol = some meaning) (le : meaning.demand ≤ 1) :
    meaning.demand = 0 := by
  unfold Continuation.ofSymbol? at found
  split at found
  case h_9 =>
    rw [Option.or_eq_some_iff, Option.or_eq_some_iff] at found
    obtain infixed | ⟨-, assigned | ⟨-, stepped⟩⟩ := found
    · obtain ⟨⟨level, op⟩, known, rfl⟩ := Option.map_eq_some_iff.mp infixed
      have bounds := infixOp?_level known
      simp only [Continuation.demand] at le
      omega
    · obtain ⟨op, -, rfl⟩ := Option.map_eq_some_iff.mp assigned
      simp [Continuation.demand] at le
    · obtain ⟨op, -, rfl⟩ := Option.map_eq_some_iff.mp stepped
      simp [Continuation.demand] at le
  all_goals
    cases found
    simp [Continuation.demand] at le ⊢

/-- What may follow a conditional may follow an assignment. -/
theorem State.Follows.ofConditional {rest : Code} (follows : State.Follows 1 rest) :
    State.Follows 0 rest := by
  intro token isHead
  have bound := follows token isHead
  cases token with
  | symbol symbol =>
    exact fun meaning found =>
      Nat.le_of_eq (Continuation.demand_eq_zero found (bound meaning found))
  | keyword text => simp at bound
  | name | typeName | literal | space | body => trivial

/-! ## Reading a phrase -/

/-- The reader takes the code for an operand on the level that says `term`, inside whatever takes
such an operand and in front of whatever leaves it alone. -/
def Taken (level : Nat) (code : Code) (term : Term) : Prop :=
  ∀ stack rest, Admits level stack → State.Follows level rest →
    State.run (.operand stack) (code ++ rest) = State.run (.operator term stack) rest

/-- A construct on top of the stack takes its operand and is complete with it. -/
theorem Taken.run_frame {level inner : Nat} {code rest : Code} {operand term : Term}
    {frame : Frame} {stack : List Frame} (taken : Taken inner code operand)
    (completes : frame.complete? operand = some (level, term)) (takes : frame.least ≤ inner)
    (bounded : level < 13) (follows : State.Follows level rest)
    (followsInner : State.Follows inner rest) :
    State.run (.operand (frame :: stack)) (code ++ rest) =
      State.run (.operator term stack) rest := by
  rw [taken (frame :: stack) rest (admits_cons takes) followsInner]
  exact State.run_complete completes bounded follows

/-- The reader steps over a token. -/
theorem State.run_cons {state next : State} {token : Token} (rest : Code)
    (step : state.advance token = some next) :
    State.run state (token :: rest) = State.run next rest := by
  simp only [State.run, step, Option.bind_some]

/-- Behind an operand a symbol is taken by its meaning. -/
theorem State.advance_symbol {symbol : String} {meaning : Continuation} {term : Term}
    {stack : List Frame} (found : Continuation.ofSymbol? symbol = some meaning) :
    State.advance (.operator term stack) (.symbol symbol) = State.proceed term stack meaning := by
  simp only [State.advance, found, Option.bind_some]

/-- An assignment is read from its target and its value. -/
theorem taken_assign {left right : Code} {target value : Term} {symbol : String}
    {op : Option BinaryOp} (known : assignOp? symbol = some op) (first : Taken 12 left target)
    (second : Taken 0 right value) :
    Taken 0 (left ++ .symbol symbol :: right) (.assign op target value) := by
  intro stack rest admits follows
  have meaning := Continuation.ofSymbol?_assign known
  have kept : settle 12 target stack = (target, stack) :=
    settle_of_admits admits (by omega) (by omega) (by omega)
  have step : State.proceed target stack (.assign op) =
      some (.operand (.assign op target :: stack)) := by
    simp only [State.proceed, kept]
  rw [List.append_assoc, List.cons_append,
    first stack _ (admits.mono (by omega)) (State.follows_symbol meaning (Nat.le_refl 12)),
    State.run_cons _ ((State.advance_symbol meaning).trans step)]
  exact second.run_frame rfl (Nat.le_refl 0) (by omega) follows follows

/-- A conditional is read from its three operands. -/
theorem taken_ternary {test whenTrue whenFalse : Code} {condition thenValue elseValue : Term}
    (first : Taken 2 test condition) (second : Taken 0 whenTrue thenValue)
    (third : Taken 0 whenFalse elseValue) :
    Taken 1 (test ++ .symbol "?" :: (whenTrue ++ .symbol ":" :: whenFalse))
      (.ternary condition thenValue elseValue) := by
  intro stack rest admits follows
  have question : Continuation.ofSymbol? "?" = some .question := rfl
  have colon : Continuation.ofSymbol? ":" = some .colon := rfl
  have kept : settle 2 condition stack = (condition, stack) :=
    settle_of_admits admits (by omega) (by omega) (by omega)
  have opened : State.proceed condition stack .question =
      some (.operand (.whenTrue condition :: stack)) := by
    simp only [State.proceed, kept]
  have turned : State.proceed thenValue (.whenTrue condition :: stack) .colon =
      some (.operand (.whenFalse condition thenValue :: stack)) := rfl
  have inside : Admits 0 (.whenTrue condition :: stack) := admits_cons (by simp [Frame.least])
  simp only [List.append_assoc, List.cons_append]
  rw [first stack _ (admits.mono (by omega)) (State.follows_symbol question (Nat.le_refl 2)),
    State.run_cons _ ((State.advance_symbol question).trans opened),
    second _ _ inside (State.follows_symbol colon (Nat.le_refl 0)),
    State.run_cons _ ((State.advance_symbol colon).trans turned)]
  exact third.run_frame rfl (Nat.le_refl 0) (by omega) follows follows.ofConditional

/-- An operation is read from its operands, the second of which has to be tighter. -/
theorem taken_binary {level : Nat} {left right : Code} {first second : Term} {symbol : String}
    {op : BinaryOp} (known : infixOp? symbol = some (level, op))
    (takenLeft : Taken level left first) (takenRight : Taken (level + 1) right second) :
    Taken level (left ++ .symbol symbol :: right) (.binary op first second) := by
  intro stack rest admits follows
  obtain ⟨lower, upper⟩ := infixOp?_level known
  have meaning := Continuation.ofSymbol?_infix known
  have kept : settle level first stack = (first, stack) :=
    settle_of_admits admits upper (Nat.le_refl level) lower
  have step : State.proceed first stack (.binary level op) =
      some (.operand (.binary level op first :: stack)) := by
    simp only [State.proceed, kept]
  rw [List.append_assoc, List.cons_append,
    takenLeft stack _ admits (State.follows_symbol meaning (Nat.le_refl level)),
    State.run_cons _ ((State.advance_symbol meaning).trans step)]
  exact takenRight.run_frame rfl (Nat.le_refl _) (by omega) follows
    (follows.mono (Nat.le_succ level))

/-- A cast with `as` is read from its operand and its type. -/
theorem taken_tryCast {code : Code} {operand : Term} {type : String}
    (taken : Taken 8 code operand) :
    Taken 8 (code ++ [.keyword "as", .typeName type]) (.tryCast operand type) := by
  intro stack rest admits follows
  have kept : settle 8 operand stack = (operand, stack) :=
    settle_of_admits admits (by omega) (Nat.le_refl 8) (by omega)
  have behind : State.Follows 8 (.keyword "as" :: .typeName type :: rest) := by
    intro token isHead
    simp only [List.head?_cons, Option.mem_some] at isHead
    subst isHead
    exact Nat.le_refl 8
  have step : State.advance (.operator operand stack) (.keyword "as") =
      some (.conversion operand stack) := by
    simp only [State.advance, kept]
  simp only [List.append_assoc, List.cons_append, List.nil_append]
  rw [taken stack _ admits behind, State.run_cons _ step]
  rfl

/-- An operator in front of its operand is read with it. -/
theorem taken_unary {code : Code} {operand : Term} {symbol : String} {op : UnaryOp}
    (known : prefixOp? symbol = some op) (taken : Taken 12 code operand) :
    Taken 12 (.symbol symbol :: code) (.unary op operand) := by
  intro stack rest _ follows
  have step : State.advance (.operand stack) (.symbol symbol) =
      some (.operand (.unary op :: stack)) := State.opening_prefix stack known
  rw [List.cons_append, State.run_cons _ step]
  exact taken.run_frame rfl (Nat.le_refl 12) (by omega) follows follows

/-- A cast is read from its type in parentheses and its operand. -/
theorem taken_cast {code : Code} {operand : Term} {type : String} (taken : Taken 12 code operand) :
    Taken 12 (.symbol "(" :: .typeName type :: .symbol ")" :: code) (.cast type operand) := by
  intro stack rest _ follows
  have opened : State.run (.operand stack)
      (.symbol "(" :: .typeName type :: .symbol ")" :: (code ++ rest)) =
        State.run (.operand (.cast type :: stack)) (code ++ rest) := rfl
  rw [List.cons_append, List.cons_append, List.cons_append, opened]
  exact taken.run_frame rfl (Nat.le_refl 12) (by omega) follows follows

/-- Parentheses are read as what stands in them, unless that is a type. -/
theorem taken_parens {code : Code} {term : Term} (value : ∀ type, term ≠ .typeName type)
    (taken : Taken 0 code term) :
    Taken 13 (.symbol "(" :: (code ++ [.symbol ")"])) term := by
  intro stack rest _ _
  have closer : Continuation.ofSymbol? ")" = some .closeParen := rfl
  have opened : State.advance (.operand stack) (.symbol "(") =
      some (.operand (.parens :: stack)) := rfl
  have closed : State.proceed term (.parens :: stack) .closeParen =
      some (.operator term stack) := by
    rw [State.proceed_closeParen fun type _ same => value type same.1]
    rfl
  have inside : Admits 0 (.parens :: stack) := admits_cons (by simp [Frame.least])
  simp only [List.append_assoc, List.cons_append, List.nil_append]
  rw [State.run_cons _ opened, taken _ _ inside (State.follows_symbol closer (Nat.le_refl 0)),
    State.run_cons _ ((State.advance_symbol closer).trans closed)]

/-- A member access is read from its target and its name. -/
theorem taken_member {code : Code} {target : Term} {name : String} (taken : Taken 13 code target) :
    Taken 13 (code ++ [.symbol ".", .name name]) (.member target name) := by
  intro stack rest admits _
  have dot : Continuation.ofSymbol? "." = some .dot := rfl
  simp only [List.append_assoc, List.cons_append, List.nil_append]
  rw [taken stack _ admits (State.follows_symbol dot (Nat.le_refl 13))]
  rfl

/-- An operator behind its operand is read with it. -/
theorem taken_step {code : Code} {operand : Term} {symbol : String} {op : UnaryOp}
    (known : postfixOp? symbol = some op) (taken : Taken 13 code operand) :
    Taken 13 (code ++ [.symbol symbol]) (.unary op operand) := by
  intro stack rest admits _
  have meaning := Continuation.ofSymbol?_postfix known
  simp only [List.append_assoc, List.cons_append, List.nil_append]
  rw [taken stack _ admits (State.follows_symbol meaning (Nat.le_refl 13)),
    State.run_cons _ (State.advance_symbol meaning)]

/-- The reader goes through the items of a bracket and comes out behind it. `frame` is the bracket
with the items read so far, `finish` what it says in the end. -/
theorem run_separated (frame : List Term → Frame) (finish : List Term → Term) (closer : String)
    {meaning : Continuation} {stack : List Frame} {rest : Code}
    (takesAll : ∀ items, (frame items).least = 0)
    (comma : ∀ items item, State.proceed item (frame items :: stack) .comma =
      some (.operand (frame (items ++ [item]) :: stack)))
    (found : Continuation.ofSymbol? closer = some meaning) (demandsNothing : meaning.demand = 0)
    (close : ∀ items item, State.proceed item (frame items :: stack) meaning =
      some (.operator (finish (items ++ [item])) stack))
    (parts : List (Code × Term)) (present : parts ≠ [])
    (taken : ∀ part ∈ parts, Taken 0 part.1 part.2) (items : List Term) :
    State.run (.operand (frame items :: stack))
        (separated (parts.map (·.1)) ++ .symbol closer :: rest) =
      State.run (.operator (finish (items ++ parts.map (·.2))) stack) rest := by
  induction parts generalizing items with
  | nil => exact absurd rfl present
  | cons part parts inductionHypothesis =>
    -- The bracket takes operands of every level, so an item ends only at a comma or the closer.
    have inside : Admits 0 (frame items :: stack) := admits_cons (Nat.le_of_eq (takesAll items))
    have takenPart := taken part List.mem_cons_self
    cases parts with
    | nil =>
      have behind : State.Follows 0 (.symbol closer :: rest) :=
        State.follows_symbol found (Nat.le_of_eq demandsNothing)
      simp only [List.map_cons, List.map_nil, separated]
      rw [takenPart _ _ inside behind,
        State.run_cons _ ((State.advance_symbol found).trans (close items part.2))]
    | cons next parts =>
      have isComma : Continuation.ofSymbol? "," = some .comma := rfl
      have later := inductionHypothesis (List.cons_ne_nil next parts)
        (fun other member => taken other (List.mem_cons_of_mem part member)) (items ++ [part.2])
      have spelled : separated ((part :: next :: parts).map (·.1)) ++ .symbol closer :: rest =
          part.1 ++ .symbol "," ::
            (separated ((next :: parts).map (·.1)) ++ .symbol closer :: rest) := by
        simp [separated]
      rw [spelled, takenPart _ _ inside (State.follows_symbol isComma (Nat.le_refl 0)),
        State.run_cons _ ((State.advance_symbol isComma).trans (comma items part.2)), later]
      simp

/-- A call is read from what is called and its arguments. -/
theorem taken_call {code : Code} {callee : Term} (args : List (Code × Term))
    (taken : Taken 13 code callee) (takenArgs : ∀ arg ∈ args, Taken 0 arg.1 arg.2) :
    Taken 13 (code ++ .symbol "(" :: (separated (args.map (·.1)) ++ [.symbol ")"]))
      (.call callee (args.map (·.2))) := by
  intro stack rest admits _
  have opener : Continuation.ofSymbol? "(" = some .openCall := rfl
  have opened : State.proceed callee stack .openCall =
      some (.operand (.call callee [] :: stack)) := rfl
  have close : ∀ items item, State.proceed item (.call callee items :: stack) .closeParen =
      some (.operator (.call callee (items ++ [item])) stack) := by
    intro items item
    rw [State.proceed_closeParen (by simp)]
    rfl
  simp only [List.append_assoc, List.cons_append, List.nil_append]
  rw [taken stack _ admits (State.follows_symbol opener (Nat.le_refl 13)),
    State.run_cons _ ((State.advance_symbol opener).trans opened)]
  cases args with
  | nil => rfl
  | cons arg args =>
    exact run_separated (.call callee) (.call callee) ")" (fun _ => rfl) (fun _ _ => rfl) rfl rfl
      close (arg :: args) (List.cons_ne_nil arg args) takenArgs []

/-- An access by index is read from its target and its indices, of which there is one at least. -/
theorem taken_index {code : Code} {target : Term} (indices : List (Code × Term))
    (present : indices ≠ []) (taken : Taken 13 code target)
    (takenIndices : ∀ index ∈ indices, Taken 0 index.1 index.2) :
    Taken 13 (code ++ .symbol "[" :: (separated (indices.map (·.1)) ++ [.symbol "]"]))
      (.index target (indices.map (·.2))) := by
  intro stack rest admits _
  have opener : Continuation.ofSymbol? "[" = some .openIndex := rfl
  have opened : State.proceed target stack .openIndex =
      some (.operand (.index target [] :: stack)) := rfl
  simp only [List.append_assoc, List.cons_append, List.nil_append]
  rw [taken stack _ admits (State.follows_symbol opener (Nat.le_refl 13)),
    State.run_cons _ ((State.advance_symbol opener).trans opened)]
  exact run_separated (.index target) (.index target) "]" (fun _ => rfl) (fun _ _ => rfl) rfl rfl
    (fun _ _ => rfl) indices present takenIndices []

/-- Every phrase is taken for what it says. -/
theorem Phrase.taken {level : Nat} {code : Code} {term : Term} (phrase : Phrase level code term) :
    Taken level code term := by
  induction phrase with
  | widen _ looser inner =>
    intro stack rest admits follows
    exact inner stack rest (admits.mono looser) (follows.mono looser)
  | assign known _ _ first second => exact taken_assign known first second
  | ternary _ _ _ first second third => exact taken_ternary first second third
  | binary known _ _ left right => exact taken_binary known left right
  | tryCast _ inner => exact taken_tryCast inner
  | unary known _ inner => exact taken_unary known inner
  | cast _ inner => exact taken_cast inner
  | literal | name | selfRef | superRef | typeName => exact fun _ _ _ _ => rfl
  | parens _ value inner => exact taken_parens value inner
  | member _ inner => exact taken_member inner
  | step known _ inner => exact taken_step known inner
  | call args _ _ inner parts => exact taken_call args inner parts
  | index indices present _ _ inner parts => exact taken_index indices present inner parts

/-- The reader finds what a phrase says. -/
theorem Phrase.read_eq {code : Code} {term : Term} (phrase : Phrase 0 code term) :
    Term.read? code = some term := by
  have whole := phrase.taken [] [] (admits_nil 0) (State.follows_nil 0)
  rw [List.append_nil] at whole
  exact whole

/-- No phrase says two things. -/
theorem Phrase.unique {code : Code} {first second : Term} (one : Phrase 0 code first)
    (other : Phrase 0 code second) : first = second :=
  Option.some.inj (one.read_eq.symm.trans other.read_eq)

end ScriptSharp.Emit
