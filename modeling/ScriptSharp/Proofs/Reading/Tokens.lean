import ScriptSharp.Emit.Token

/-!
# Emitted code read back as tokens

A reader of emitted text sees names, literals, types and keywords as whole words, and words that
touch as one word. Operators and brackets it reads character by character, and the longest operator
wins: two signs that touch are read as one. `Code.tokens` is what such a reader makes of the text
of some code, and `Code.Clear` says that it finds the tokens that were written.
-/

namespace ScriptSharp.Emit

/-- What a reader meets at one place of emitted text. -/
inductive Glyph where
  /-- A name, a literal, a type or a keyword. -/
  | word (token : Token)
  /-- A character of an operator, a bracket or a separator. -/
  | mark (character : Char)
  | blank
  deriving DecidableEq, Repr

/-- The characters of a glyph. -/
def Glyph.characters : Glyph → List Char
  | .word token => token.text.toList
  | .mark character => [character]
  | .blank => [' ']

/-- The glyphs of a token. -/
def Token.glyphs : Token → List Glyph
  | .symbol text => text.toList.map .mark
  | .space => [.blank]
  | token => [.word token]

/-- The operators, brackets and separators of the emitted language. -/
def operators : List String :=
  ["\x7b", "\x7d", "[", "]", "(", ")", ".", ",", ":", ";", "+", "-", "*", "/", "%", "&", "|", "^",
   "!", "~", "=", "<", ">", "?", "??", "::", "++", "--", "&&", "||", "->", "==", "!=", "<=", ">=",
   "+=", "-=", "*=", "/=", "%=", "&=", "|=", "^=", "<<", "<<=", ">>", ">>=", "=>"]

/-- The characters are those of an operator. -/
def isOperator (characters : List Char) : Bool :=
  operators.any (·.toList == characters)

/-- The token of the operator that was read last, if there is one. -/
def pendingToken : List Char → Code
  | [] => []
  | pending => [.symbol (String.ofList pending)]

/-- A word stands in front. -/
def startsWithWord : List Glyph → Bool
  | .word _ :: _ => true
  | _ => false

/-- A word that touches the first one of some tokens. -/
def fuseWord (word : Token) : Code → Code
  | [] => [word]
  | next :: rest => .name (word.text ++ next.text) :: rest

/-- Reads glyphs into tokens without blanks, where `pending` is the operator read so far. -/
def scan : List Char → List Glyph → Code
  | pending, [] => pendingToken pending
  | pending, .blank :: rest => pendingToken pending ++ scan [] rest
  | pending, .word token :: rest =>
    pendingToken pending ++
      if startsWithWord rest then fuseWord token (scan [] rest) else token :: scan [] rest
  | pending, .mark character :: rest =>
    if isOperator (pending ++ [character]) then scan (pending ++ [character]) rest
    else pendingToken pending ++ scan [character] rest

namespace Code

/-- The glyphs of code. -/
def glyphs (code : Code) : List Glyph :=
  code.flatMap Token.glyphs

/-- The tokens that a reader finds in the text of the code. -/
def tokens (code : Code) : Code :=
  scan [] code.glyphs

/-- The tokens that were written, without the blanks between them. -/
def words (code : Code) : Code :=
  code.filter (· ≠ .space)

/-- A reader finds the tokens that were written, unless a word touches the end of the code. -/
def Clear (code : Code) : Prop :=
  ∀ rest, startsWithWord rest = false →
    scan [] (code.glyphs ++ rest) = code.words ++ scan [] rest

/-- A reader finds the tokens that were written, whatever follows the code. -/
def Closed (code : Code) : Prop :=
  ∀ rest, scan [] (code.glyphs ++ rest) = code.words ++ scan [] rest

end Code

/-! ## Text and glyphs -/

/-- The glyphs of a token are its text. -/
theorem Token.glyphs_text (token : Token) :
    token.glyphs.flatMap Glyph.characters = token.text.toList := by
  cases token with
  | symbol text =>
    simp only [glyphs, List.flatMap_map, Glyph.characters, Token.text]
    exact List.flatMap_singleton' text.toList
  | space => rfl
  | _ => simp [glyphs, Glyph.characters]

/-- The glyphs of code are its text, character by character. -/
theorem Code.glyphs_text (code : Code) :
    code.glyphs.flatMap Glyph.characters = code.text.toList := by
  induction code with
  | nil => rfl
  | cons token rest inductionHypothesis =>
    have split : Code.text (token :: rest) = token.text ++ Code.text rest := by
      simp [Code.text, String.join_cons]
    rw [split, String.toList_append, ← inductionHypothesis, ← token.glyphs_text]
    simp [Code.glyphs]

/-- Code whose first glyph is the character of an operator begins with that character. -/
theorem Code.startsWithSign_of_mark {code : Code} {character : Char} {rest : List Glyph}
    (shape : code.glyphs = .mark character :: rest) :
    code.startsWithSign = decide (character = '-' ∨ character = '+') := by
  have begins : code.text.toList = character :: rest.flatMap Glyph.characters := by
    rw [← code.glyphs_text, shape]
    rfl
  unfold Code.startsWithSign
  rw [begins]
  split
  · next same => simp_all
  · next same => simp_all
  · next notMinus notPlus =>
    have minus : character ≠ '-' := fun same => notMinus _ (by rw [same])
    have plus : character ≠ '+' := fun same => notPlus _ (by rw [same])
    simp [minus, plus]

/-! ## Operators that nothing extends -/

/-- The operator becomes another one when the character follows it. -/
def fuses (operator : String) (character : Char) : Bool :=
  isOperator (operator.toList ++ [character])

/-- No operator is a longer form of this one. -/
def isSealed (operator : String) : Bool :=
  operators.all fun other =>
    !(operator.toList.isPrefixOf other.toList && decide (operator.length < other.length))

/-- An operator that has no longer form fuses with no character. -/
theorem fuses_eq_false_of_isSealed {operator : String} (closed : isSealed operator = true)
    (character : Char) : fuses operator character = false := by
  unfold fuses isOperator
  rw [List.any_eq_false]
  intro other member same
  have long := List.all_eq_true.mp closed other member
  have spelled : other.toList = operator.toList ++ [character] := by simpa using same
  have longer : operator.length < other.length := by
    rw [← String.length_toList, ← String.length_toList, spelled]
    simp
  have isStart : operator.toList.isPrefixOf other.toList = true := by
    rw [spelled]
    exact List.isPrefixOf_iff_prefix.mpr (List.prefix_append _ _)
  rw [isStart] at long
  simp [longer] at long

/-- An operator that does not fuse with what follows is a token of its own. -/
theorem scan_pending {pending : List Char} {rest : List Glyph}
    (apart : ∀ character tail, rest = .mark character :: tail →
      isOperator (pending ++ [character]) = false) :
    scan pending rest = pendingToken pending ++ scan [] rest := by
  cases rest with
  | nil => simp [scan, pendingToken]
  | cons glyph tail =>
    cases glyph with
    | word token => simp [scan, pendingToken]
    | blank => simp [scan, pendingToken]
    | mark character =>
      have alone : scan [] (.mark character :: tail) = scan [character] tail := by
        simp [scan, pendingToken]
      have stops := apart character tail rfl
      rw [alone]
      simp [scan, stops]

/-- All beginnings of the operator are operators, so that a reader arrives at it. -/
def isReached (operator : String) : Bool :=
  (List.range operator.length).all fun count => isOperator (operator.toList.take (count + 1))

/-- A reader takes in the characters of an operator one by one. -/
theorem scan_marks (before characters : List Char) (rest : List Glyph)
    (reached : ∀ count < characters.length,
      isOperator (before ++ characters.take (count + 1)) = true) :
    scan before (characters.map .mark ++ rest) = scan (before ++ characters) rest := by
  induction characters generalizing before with
  | nil => simp
  | cons character characters inductionHypothesis =>
    have first : isOperator (before ++ [character]) = true := by
      simpa using reached 0 (by simp)
    have step : scan before (.mark character :: (characters.map .mark ++ rest)) =
        scan (before ++ [character]) (characters.map .mark ++ rest) := by
      simp [scan, first]
    have later : ∀ count < characters.length,
        isOperator (before ++ [character] ++ characters.take (count + 1)) = true := by
      intro count inside
      simpa using reached (count + 1) (by simpa using inside)
    simp only [List.map_cons, List.cons_append]
    rw [step, inductionHypothesis _ later]
    simp

/-- A reader that comes to an operator has it pending behind it. -/
theorem scan_symbol {operator : String} (reached : isReached operator = true)
    (rest : List Glyph) :
    scan [] (Token.glyphs (.symbol operator) ++ rest) = scan operator.toList rest := by
  have starts : ∀ count < operator.toList.length,
      isOperator ([] ++ operator.toList.take (count + 1)) = true := by
    intro count inside
    rw [String.length_toList] at inside
    simpa using List.all_eq_true.mp reached count (List.mem_range.mpr inside)
  simpa [Token.glyphs] using scan_marks [] operator.toList rest starts

-- Every operator is reached, so a reader that adds one character at a time stops at the longest
-- one.
example : operators.all isReached := by decide

/-- The pending token of an operator is the operator. -/
theorem pendingToken_toList {operator : String} (present : operator ≠ "") :
    pendingToken operator.toList = [.symbol operator] := by
  cases shape : operator.toList with
  | nil => exact absurd (String.toList_eq_nil_iff.mp shape) present
  | cons character rest => simp [pendingToken, ← shape]

/-! ## Clear code -/

namespace Code

@[simp] theorem glyphs_append (first second : Code) :
    glyphs (first ++ second) = first.glyphs ++ second.glyphs :=
  List.flatMap_append

@[simp] theorem glyphs_cons (token : Token) (code : Code) :
    glyphs (token :: code) = token.glyphs ++ code.glyphs :=
  List.flatMap_cons

@[simp] theorem words_append (first second : Code) :
    words (first ++ second) = first.words ++ second.words :=
  List.filter_append first second

@[simp] theorem words_space (code : Code) : words (.space :: code) = code.words := rfl

@[simp] theorem words_symbol (text : String) (code : Code) :
    words (.symbol text :: code) = .symbol text :: code.words := rfl

@[simp] theorem words_nil : words [] = [] := rfl

/-- The tokens of clear code are the ones that were written. -/
theorem Clear.tokens_eq {code : Code} (clear : code.Clear) : code.tokens = code.words := by
  have whole := clear [] rfl
  simpa [scan, pendingToken, tokens] using whole

/-- Code that is read the same wherever it stands is clear. -/
theorem Closed.clear {code : Code} (closed : code.Closed) : code.Clear :=
  fun rest _ => closed rest

theorem closed_nil : Closed [] := fun _ => rfl

/-- Behind closed code, everything is read as if it stood alone. -/
theorem Closed.append_clear {first second : Code} (left : first.Closed) (right : second.Clear) :
    Clear (first ++ second) := by
  intro rest apart
  rw [glyphs_append, List.append_assoc, left, right rest apart, words_append, List.append_assoc]

/-- Closed code in a row is closed. -/
theorem Closed.append {first second : Code} (left : first.Closed) (right : second.Closed) :
    Closed (first ++ second) := by
  intro rest
  rw [glyphs_append, List.append_assoc, left, right, words_append, List.append_assoc]

/-- Clear code can be continued by closed code that does not begin with a word. -/
theorem Clear.append_closed {first second : Code} (left : first.Clear) (right : second.Closed)
    (apart : ∀ rest, startsWithWord (second.glyphs ++ rest) = false) :
    Closed (first ++ second) := by
  intro rest
  rw [glyphs_append, List.append_assoc, left _ (apart rest), right, words_append,
    List.append_assoc]

/-- A word by itself is clear. -/
theorem clear_word {token : Token} (word : token.glyphs = [.word token])
    (written : token ≠ .space) : Clear [token] := by
  intro rest apart
  have kept : words [token] = [token] := by simp [words, written]
  have shape : glyphs [token] ++ rest = .word token :: rest := by simp [glyphs, word]
  rw [shape, kept]
  simp [scan, pendingToken, apart]

theorem closed_space : Closed [.space] := fun _ => rfl

/-- An operator stays apart from clear code that it does not fuse with. -/
theorem clear_symbol_cons {operator : String} {code : Code} (reached : isReached operator = true)
    (present : operator ≠ "") (clear : code.Clear)
    (apart : ∀ rest character tail, code.glyphs ++ rest = .mark character :: tail →
      fuses operator character = false) :
    Clear (.symbol operator :: code) := by
  intro rest noWord
  rw [glyphs_cons, List.append_assoc, scan_symbol reached, scan_pending (apart rest),
    pendingToken_toList present, clear rest noWord, words_symbol]
  rfl

/-- An operator that has no longer form is closed by itself. -/
theorem closed_sealed {operator : String} (reached : isReached operator = true)
    (present : operator ≠ "") (closed : isSealed operator = true) :
    Closed [.symbol operator] := by
  intro rest
  have shape : glyphs [.symbol operator] ++ rest = Token.glyphs (.symbol operator) ++ rest := by
    simp [glyphs]
  rw [shape, scan_symbol reached, scan_pending fun character _ _ =>
    fuses_eq_false_of_isSealed closed character, pendingToken_toList present]
  rfl

/-- An operator between two blanks is closed. -/
theorem closed_spaced {operator : String} (reached : isReached operator = true)
    (present : operator ≠ "") : Closed [.space, .symbol operator, .space] := by
  intro rest
  have shape : glyphs [.space, .symbol operator, .space] ++ rest =
      .blank :: (Token.glyphs (.symbol operator) ++ .blank :: rest) := by
    simp [glyphs, Token.glyphs]
  rw [shape]
  simp only [scan, pendingToken, List.nil_append]
  rw [scan_symbol reached, scan_pending (by simp), pendingToken_toList present]
  rfl

/-- Clear code between parentheses is closed. -/
theorem Clear.parenthesized {code : Code} (clear : code.Clear) : code.parenthesized.Closed := by
  have opening : Closed [.symbol "("] := closed_sealed (by decide) (by decide) (by decide)
  have closing : Closed [.symbol ")"] := closed_sealed (by decide) (by decide) (by decide)
  exact opening.append (clear.append_closed closing fun _ => rfl)

/-- Pieces of clear code with commas between them are clear. -/
theorem clear_commaSeparated {codes : List Code} (clear : ∀ code ∈ codes, code.Clear) :
    (commaSeparated codes).Clear := by
  induction codes with
  | nil => exact closed_nil.clear
  | cons first rest inductionHypothesis =>
    cases rest with
    | nil => simpa [commaSeparated] using clear first (by simp)
    | cons second rest =>
      have comma : Closed [.symbol ",", .space] :=
        (closed_sealed (by decide) (by decide) (by decide)).append closed_space
      have later := inductionHypothesis fun code member => clear code (by simp [member])
      have started := (clear first (by simp)).append_closed comma fun _ => rfl
      simpa [commaSeparated] using started.append_clear later

end Code

end ScriptSharp.Emit
