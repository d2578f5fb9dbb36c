import ScriptSharp.Directive.Symbols
import ScriptSharp.Proofs.Directive.Bytes
import ScriptSharp.Proofs.Text.Splitting

/-!
# Directives and the lexer of the whole text

`Lexeme.step` is a lexer that reads a text character by character, with one state and without a look
ahead. It knows block comments, line comments and strings, and passes over directive lines. The
scan of a text finds the lines that begin with `#` where this lexer is outside of block comments.

The scan decides line by line, and looks one character ahead. So the lexer is run over one line
first, from each state in which a line can begin; a text is then taken apart at its line feeds.
-/

namespace ScriptSharp.Directive

open Text

/-! ## The lexer -/

/-- What a lexer is inside of, behind a character of the text. -/
inductive Lexeme where
  /-- A line of which only blanks have been read. -/
  | lineStart
  | directive
  | code
  /-- Code, right behind a slash. -/
  | slash
  | lineComment
  | comment
  /-- A block comment, right behind a star. -/
  | star
  | quoted (quote : Char)
  /-- A string, right behind a backslash. -/
  | escaped (quote : Char)
  deriving DecidableEq

namespace Lexeme

/-- The lexer is inside a block comment. -/
def inComment : Lexeme → Bool
  | .comment | .star => true
  | _ => false

/-- What a character begins where code may stand. -/
def ofCode (character : Char) : Lexeme :=
  if character = '/' then .slash
  else if isQuote character then .quoted character
  else .code

/-- What a character that ends no line makes of a state. -/
def within (character : Char) : Lexeme → Lexeme
  | .lineStart =>
    if isBlank character then .lineStart
    else if character = '#' then .directive
    else ofCode character
  | .directive => .directive
  | .code => ofCode character
  | .slash =>
    if character = '/' then .lineComment
    else if character = '*' then .comment
    else ofCode character
  | .lineComment => .lineComment
  | .comment => if character = '*' then .star else .comment
  | .star => if character = '/' then .code else if character = '*' then .star else .comment
  | .quoted quote =>
    if character = '\\' then .escaped quote
    else if character = quote then .code
    else .quoted quote
  | .escaped quote => .quoted quote

/-- Reads one character. Only block comments outlive the end of a line. -/
def step (state : Lexeme) (character : Char) : Lexeme :=
  if character = '\n' then if state.inComment then .comment else .lineStart
  else state.within character

/-- Reads a text from a state on. -/
def run (state : Lexeme) (text : List Char) : Lexeme :=
  text.foldl step state

/-- The state in which a line begins. -/
def atLine (inComment : Bool) : Lexeme :=
  if inComment then .comment else .lineStart

@[simp]
theorem run_nil (state : Lexeme) : state.run [] = state := rfl

/-- A lexer reads a text one part after the other. -/
@[simp]
theorem run_append (state : Lexeme) (first second : List Char) :
    state.run (first ++ second) = (state.run first).run second :=
  List.foldl_append

/-- A character that ends no line is read within it. -/
theorem run_cons {state : Lexeme} {character : Char} (plain : character ≠ '\n')
    (rest : List Char) : state.run (character :: rest) = (state.within character).run rest := by
  rw [run, List.foldl_cons, step, if_neg plain]
  rfl

/-- A line feed leaves only block comments open. -/
theorem run_lineFeed (state : Lexeme) (rest : List Char) :
    state.run ('\n' :: rest) = (atLine state.inComment).run rest := rfl

/-- A line begins inside of a comment if one is open. -/
@[simp]
theorem inComment_atLine (inComment : Bool) : (atLine inComment).inComment = inComment := by
  cases inComment <;> rfl

/-- A state that keeps itself is kept by the rest of the line. -/
theorem run_of_fixed {state : Lexeme} (fixed : ∀ character, state.within character = state)
    {line : List Char} (plain : '\n' ∉ line) : state.run line = state := by
  induction line with
  | nil => rfl
  | cons character line inductionHypothesis =>
    obtain ⟨noLineFeed, plain⟩ := List.ne_and_not_mem_of_not_mem_cons plain
    rw [run_cons noLineFeed.symm, fixed, inductionHypothesis plain]

/-- A carriage return opens and closes no block comment. -/
theorem inComment_within_return (state : Lexeme) :
    (state.within '\r').inComment = state.inComment := by
  cases state with
  | quoted quote =>
    rw [within]
    split_ifs <;> rfl
  | _ => rfl

/-- A return in front of a line feed opens and closes no comment. -/
theorem inComment_run_withoutReturn (state : Lexeme) (piece : List Char) :
    (state.run (withoutReturn piece)).inComment = (state.run piece).inComment := by
  rw [withoutReturn]
  split_ifs with ends
  · conv_rhs => rw [← List.dropLast_append_getLast? _ ends, run_append]
    exact (inComment_within_return _).symm
  · rfl

end Lexeme

open Lexeme

/-! ## One line -/

/-- The state of the lexer in a region of a line. -/
def Region.lexeme : Region → Lexeme
  | .code => .code
  | .comment => .comment
  | .quoted quote => .quoted quote

/-- A slash that opens no comment is code. -/
theorem inComment_run_slash {line : List Char} (plain : '\n' ∉ line)
    (noLineComment : ∀ rest, line ≠ '/' :: rest) (noComment : ∀ rest, line ≠ '*' :: rest) :
    (Lexeme.slash.run line).inComment = (Lexeme.code.run line).inComment := by
  cases line with
  | nil => rfl
  | cons character line =>
    obtain ⟨noLineFeed, -⟩ := List.ne_and_not_mem_of_not_mem_cons plain
    have noSlash : character ≠ '/' := fun same => noLineComment line (same ▸ rfl)
    have noStar : character ≠ '*' := fun same => noComment line (same ▸ rfl)
    simp only [run_cons noLineFeed.symm, within, if_neg noSlash, if_neg noStar]

/-- A star that closes no comment stands in the comment. -/
theorem inComment_run_star {line : List Char} (plain : '\n' ∉ line)
    (unclosed : ∀ rest, line ≠ '/' :: rest) :
    (Lexeme.star.run line).inComment = (Lexeme.comment.run line).inComment := by
  cases line with
  | nil => rfl
  | cons character line =>
    obtain ⟨noLineFeed, -⟩ := List.ne_and_not_mem_of_not_mem_cons plain
    have noSlash : character ≠ '/' := fun same => unclosed line (same ▸ rfl)
    simp only [run_cons noLineFeed.symm, within, if_neg noSlash]

/-- The lexer finds the block comments of a line as the scan does, which looks one character
ahead. -/
theorem inComment_run_lexeme (region : Region) {line : List Char} (plain : '\n' ∉ line) :
    (region.lexeme.run line).inComment = endsInComment region line := by
  -- The scan reads a mark of two characters at once, the lexer in two steps with a state between.
  fun_induction endsInComment region line with
  | case1 | case5 | case8 | case9 => rfl
  | case2 line =>
    have fixed : Lexeme.lineComment.run line = .lineComment :=
      run_of_fixed (fun _ => rfl) (by simp_all)
    rw [Region.lexeme, run_cons (by decide), run_cons (by decide)]
    exact congrArg inComment fixed
  | case3 rest inductionHypothesis | case6 rest inductionHypothesis =>
    rw [← inductionHypothesis (by simp_all), Region.lexeme, run_cons (by decide),
      run_cons (by decide)]
    rfl
  | case4 character rest noLineComment noComment inductionHypothesis =>
    obtain ⟨noLineFeed, plainRest⟩ := List.ne_and_not_mem_of_not_mem_cons plain
    rw [← inductionHypothesis plainRest, Region.lexeme, run_cons noLineFeed.symm]
    by_cases isSlash : character = '/'
    · subst isSlash
      exact inComment_run_slash plainRest (fun tail => noLineComment tail rfl)
        fun tail => noComment tail rfl
    · rw [within, ofCode, if_neg isSlash]
      split_ifs <;> rfl
  | case7 character rest unclosed inductionHypothesis =>
    obtain ⟨noLineFeed, plainRest⟩ := List.ne_and_not_mem_of_not_mem_cons plain
    rw [← inductionHypothesis plainRest, Region.lexeme, run_cons noLineFeed.symm, within]
    split_ifs with isStar
    · exact inComment_run_star plainRest fun tail => unclosed tail isStar
    · rfl
  | case10 quote character rest inductionHypothesis =>
    rw [← inductionHypothesis (by simp_all), Region.lexeme, run_cons (by decide),
      run_cons (by simp_all [eq_comm])]
    rfl
  | case11 quote character rest notLast notEscaped inductionHypothesis =>
    obtain ⟨noLineFeed, plainRest⟩ := List.ne_and_not_mem_of_not_mem_cons plain
    have noEscape : character ≠ '\\' := by
      rintro rfl
      cases rest with
      | nil => exact notLast rfl rfl
      | cons head rest => exact notEscaped head rest rfl rfl
    rw [← inductionHypothesis plainRest, Region.lexeme, run_cons noLineFeed.symm, within,
      if_neg noEscape]
    split_ifs <;> rfl

/-- The first character of the line that is no blank is a `#`. -/
def Marked (line : List Char) : Prop :=
  line.find? (fun character => !isBlank character) = some '#'

/-- A line is marked if its first character that is no blank is a `#`. -/
theorem marked_cons {character : Char} {line : List Char} : Marked (character :: line) ↔
    if isBlank character then Marked line else character = '#' := by
  cases blank : isBlank character <;> simp [Marked, blank]

/-- The lexer passes over a line that begins with `#`. -/
theorem run_marked {line : List Char} (plain : '\n' ∉ line) (marked : Marked line) :
    Lexeme.lineStart.run line = .directive := by
  induction line with
  | nil => cases marked
  | cons character line inductionHypothesis =>
    obtain ⟨noLineFeed, plain⟩ := List.ne_and_not_mem_of_not_mem_cons plain
    rw [marked_cons] at marked
    rw [run_cons noLineFeed.symm, within]
    split_ifs at marked ⊢ with blank
    · exact inductionHypothesis plain marked
    · exact run_of_fixed (fun _ => rfl) plain

/-- A blank character leaves a lexer where code may stand. -/
theorem ofCode_of_blank {character : Char} (blank : isBlank character = true) :
    ofCode character = .code := by
  have noSlash : character ≠ '/' := by
    rintro rfl
    exact absurd blank (by decide)
  have noQuote : ¬isQuote character = true := by
    intro quote
    rcases Bool.or_eq_true_iff.1 quote with same | same <;>
    · rw [beq_iff_eq.1 same] at blank
      exact absurd blank (by decide)
  rw [ofCode, if_neg noSlash, if_neg noQuote]

/-- Every other line is code from its start on. -/
theorem inComment_run_lineStart {line : List Char} (plain : '\n' ∉ line) (unmarked : ¬Marked line) :
    (Lexeme.lineStart.run line).inComment = (Lexeme.code.run line).inComment := by
  induction line with
  | nil => rfl
  | cons character line inductionHypothesis =>
    obtain ⟨noLineFeed, plain⟩ := List.ne_and_not_mem_of_not_mem_cons plain
    rw [marked_cons] at unmarked
    rw [run_cons noLineFeed.symm, run_cons noLineFeed.symm, within, within]
    split_ifs at unmarked ⊢ with blank
    · rw [ofCode_of_blank blank]
      exact inductionHypothesis plain unmarked
    · rfl

/-! ## The directive on a line -/

/-- What is written on a line up to the first `//`. -/
def UpToComment (rest written : List Char) : Prop :=
  ∃ comment, rest = written ++ comment ∧ (comment = [] ∨ ['/', '/'] <+: comment) ∧
    ∀ before, before ++ ['/', '/'] <+: rest → written.length ≤ before.length

/-- The line shows the directive: a `#` behind blanks, a keyword of all letters that follow it and
perhaps some blanks, and the argument, which goes up to the first `//` and is trimmed. -/
def Shows (line : List Char) (directive : Directive) : Prop :=
  ∃ indentation gap keyword rest written : List Char,
    line = indentation ++ '#' :: (gap ++ (keyword ++ rest)) ∧
      (∀ character ∈ indentation, isBlank character = true) ∧
      (∀ character ∈ gap, isBlank character = true) ∧
      (∀ character ∈ (keyword ++ rest).head?, isBlank character = false) ∧
      (∀ character ∈ keyword, isLetter character = true) ∧
      (∀ character ∈ rest.head?, isLetter character = false) ∧
      directive.kind = .ofKeyword (String.ofList keyword) ∧
      UpToComment rest written ∧ Trimmed written directive.argument.toList

/-- What is cut off at a comment is written up to there. -/
theorem upToComment_beforeComment (rest : List Char) : UpToComment rest (beforeComment rest) := by
  fun_induction beforeComment rest with
  | case1 => exact ⟨[], rfl, .inl rfl, fun _ _ => Nat.zero_le _⟩
  | case2 rest => exact ⟨'/' :: '/' :: rest, rfl, .inr ⟨rest, rfl⟩, fun _ _ => Nat.zero_le _⟩
  | case3 character rest noComment inductionHypothesis =>
    obtain ⟨comment, cut, begins, first⟩ := inductionHypothesis
    refine ⟨comment, congrArg (character :: ·) cut, begins, fun before found => ?_⟩
    cases before with
    | nil =>
      obtain ⟨tail, same⟩ := found
      obtain ⟨isSlash, same⟩ := List.cons.inj same
      exact absurd same.symm (noComment tail isSlash.symm)
    | cons other before =>
      exact Nat.succ_le_succ (first before (List.cons_prefix_cons.1 found).2)

/-- There is one first `//` at most. -/
theorem UpToComment.length_le {rest written other : List Char} (cut : UpToComment rest written)
    (cutToo : UpToComment rest other) : written.length ≤ other.length := by
  obtain ⟨comment, same, -, first⟩ := cut
  obtain ⟨comment', sameToo, begins, -⟩ := cutToo
  rcases begins with rfl | ⟨tail, begins⟩
  · rw [List.append_nil] at sameToo
    rw [← sameToo, same]
    simp
  · refine first other ⟨tail, ?_⟩
    rw [sameToo, ← begins, List.append_assoc]

/-- There is one text in front of the first comment. -/
theorem beforeComment_iff {rest written : List Char} :
    beforeComment rest = written ↔ UpToComment rest written := by
  constructor
  · rintro rfl
    exact upToComment_beforeComment rest
  · intro cut
    have found := upToComment_beforeComment rest
    have sameLength := Nat.le_antisymm (found.length_le cut) (cut.length_le found)
    obtain ⟨comment, same, -⟩ := found
    obtain ⟨comment', sameToo, -⟩ := cut
    exact (List.append_inj (same.symm.trans sameToo) sameLength).1

/-- The scan reads a directive off a line exactly when the line shows it. -/
theorem ofLine?_eq_some_iff {number : Nat} {line : List Char} {directive : Directive} :
    ofLine? number line = some directive ↔ directive.line = number ∧ Shows line directive := by
  constructor
  · intro read
    rw [ofLine?] at read
    split at read
    case h_2 => cases read
    case h_1 body begins =>
      obtain rfl := Option.some.inj read
      obtain ⟨indentation, cutLine, blank, -⟩ := trimStart_iff.1 begins
      obtain ⟨gap, cutBody, blankGap, sharp⟩ := trimStart_iff.1 (rfl : trimStart body = _)
      obtain ⟨cutKeyword, letters, ends⟩ :=
        span_iff.1 (And.intro (rfl : (trimStart body).takeWhile isLetter = _) rfl)
      rw [cutKeyword] at cutBody sharp
      refine ⟨rfl, indentation, gap, _, _, beforeComment _, ?_, blank, blankGap, sharp, letters,
        ends, rfl, upToComment_beforeComment _, ?_⟩
      · rw [cutLine]
        exact congrArg (indentation ++ '#' :: ·) cutBody
      · rw [← trim_iff]
        exact String.toList_ofList.symm
  · rintro ⟨rfl, indentation, gap, keyword, rest, written, rfl, blank, blankGap, sharp, letters,
      ends, kind, cut, trimmed⟩
    have begins : trimStart (indentation ++ '#' :: (gap ++ (keyword ++ rest))) =
        '#' :: (gap ++ (keyword ++ rest)) := by
      refine trimStart_iff.2 ⟨indentation, rfl, blank, ?_⟩
      rintro character ⟨⟩
      decide
    have body : trimStart (gap ++ (keyword ++ rest)) = keyword ++ rest :=
      trimStart_iff.2 ⟨gap, rfl, blankGap, sharp⟩
    obtain ⟨isKeyword, isRest⟩ := span_iff.2 ⟨rfl, letters, ends⟩
    rw [ofLine?, begins]
    simp only [ofBody, body, isKeyword, isRest, beforeComment_iff.2 cut, trim_iff.2 trimmed,
      String.ofList_toList, ← kind]

/-- A line is read as a directive if it is marked. -/
theorem exists_ofLine?_iff (number : Nat) {line : List Char} :
    (∃ directive, ofLine? number line = some directive) ↔ Marked line := by
  have first : line.find? (fun character => !isBlank character) = (trimStart line).head? := by
    rw [trimStart]
    induction line with
    | nil => rfl
    | cons character line inductionHypothesis =>
      cases blank : isBlank character <;> simp [blank, inductionHypothesis]
  rw [Marked, first, ofLine?]
  split
  case h_1 body begins => simp [begins]
  case h_2 noDirective =>
    refine iff_of_false (by rintro ⟨_, ⟨⟩⟩) fun isHead => ?_
    obtain ⟨body, begins⟩ := List.head?_eq_some_iff.1 isHead
    exact noDirective body begins

/-! ## All lines -/

/-- The scan goes on behind a line as the lexer does. -/
theorem ofLines_cons (number : Nat) (inComment : Bool) {line : List Char} (plain : '\n' ∉ line)
    (rest : List (List Char)) : ofLines number inComment (line :: rest) =
      (if inComment then [] else (ofLine? number line).toList) ++
        ofLines (number + 1) ((atLine inComment).run line).inComment rest := by
  cases inComment with
  | true =>
    have same := inComment_run_lexeme .comment plain
    rw [ofLines, if_pos rfl, if_pos rfl, ← same]
    rfl
  | false =>
    rw [ofLines, if_neg Bool.false_ne_true, if_neg Bool.false_ne_true]
    cases read : ofLine? number line with
    | some directive =>
      have marked : Marked line := (exists_ofLine?_iff number).1 ⟨directive, read⟩
      rw [atLine, if_neg Bool.false_ne_true, run_marked plain marked]
      rfl
    | none =>
      have unmarked : ¬Marked line := by
        rw [← exists_ofLine?_iff number, read]
        nofun
      have same := inComment_run_lexeme .code plain
      rw [atLine, if_neg Bool.false_ne_true, inComment_run_lineStart plain unmarked]
      exact congrArg (ofLines (number + 1) · rest) same.symm

/-- Dropping a return brings in no line feed. -/
theorem plain_withoutReturn {piece : List Char} (plain : '\n' ∉ piece) :
    '\n' ∉ withoutReturn piece := by
  rw [withoutReturn]
  split_ifs
  · exact fun member => plain (List.dropLast_subset _ member)
  · exact plain

/-- A line in front of others gives its directive unless it begins in a block comment. -/
theorem mem_line_iff {number : Nat} {inComment : Bool} {line : List Char} {directive : Directive} :
    directive ∈ (if inComment then [] else (ofLine? number line).toList) ↔
      inComment = false ∧ ofLine? number line = some directive := by
  cases inComment <;> simp

/-- The directives of a text are read off the lines at which the lexer is outside of block
comments. -/
theorem mem_ofLines_iff {number : Nat} {inComment : Bool} {text : List Char}
    {directive : Directive} : directive ∈ ofLines number inComment (lines text) ↔
      ∃ index line, (lines text)[index]? = some line ∧
        ((atLine inComment).run (untilLine index text)).inComment = false ∧
        ofLine? (number + index) line = some directive := by
  induction text using lineInduct generalizing number inComment with
  | last piece plain =>
    rw [lines_of_plain plain]
    split_ifs with empty
    · simp [ofLines]
    · rw [ofLines_cons _ _ plain, ofLines, List.append_nil, mem_line_iff, ← Nat.or_exists_add_one]
      simp [untilLine]
  | next piece rest plain inductionHypothesis =>
    rw [lines_append plain, ofLines_cons _ _ (plain_withoutReturn plain), List.mem_append,
      inductionHypothesis, inComment_run_withoutReturn, mem_line_iff]
    -- The first line apart, the places of the rest are one further on in the whole text.
    refine (or_congr ?_ ?_).trans Nat.or_exists_add_one
    · simp [untilLine]
    · simp only [List.getElem?_cons_succ, untilLine_append _ plain, run_append, run_lineFeed,
        Nat.add_assoc, Nat.add_comm 1]

/-- The directives come in the order of their lines. -/
theorem ofLines_sorted (number : Nat) (inComment : Bool) (lines : List (List Char)) :
    (ofLines number inComment lines).Pairwise (·.line < ·.line) ∧
      ∀ directive ∈ ofLines number inComment lines, number ≤ directive.line := by
  fun_induction ofLines number inComment lines with
  | case1 => simp
  | case2 number line rest inductionHypothesis
  | case4 number inComment line rest _ _ inductionHypothesis =>
    exact ⟨inductionHypothesis.1, fun directive member =>
      Nat.le_of_succ_le (inductionHypothesis.2 directive member)⟩
  | case3 number inComment line rest _ directive read inductionHypothesis =>
    obtain ⟨sorted, later⟩ := inductionHypothesis
    obtain ⟨isHere, -⟩ := ofLine?_eq_some_iff.1 read
    refine ⟨List.pairwise_cons.2 ⟨fun other member => ?_, sorted⟩, fun other member => ?_⟩
    · exact isHere ▸ later other member
    · rcases List.mem_cons.1 member with rfl | behind
      · exact Nat.le_of_eq isHere.symm
      · exact Nat.le_of_succ_le (later other behind)

/-! ## Texts -/

/-- A directive is scanned if a line outside of comments shows it, and it has the number of that
line. -/
theorem mem_scan_iff {text : String} {directive : Directive} : directive ∈ scan text ↔
    ∃ number line, directive.line = number + 1 ∧ (lines text.toList)[number]? = some line ∧
      (Lexeme.lineStart.run (untilLine number text.toList)).inComment = false ∧
      Shows line directive := by
  simp only [scan, mem_ofLines_iff, ofLine?_eq_some_iff, Nat.add_comm 1, atLine,
    Bool.false_eq_true, if_false]
  grind

/-- The directives of a text, one for each, are what the lines show that begin with `#` where the
lexer of the text in front of them is outside of block comments. They come in the order of the
lines, and those of kind `if` and `elif` are recorded, each as often as it occurs. Whether a line
ends in a block comment is also what its bytes say. -/
theorem scan_lexed (text : String) :
    (∀ directive, directive ∈ scan text ↔
      ∃ number line, directive.line = number + 1 ∧ (lines text.toList)[number]? = some line ∧
        (Lexeme.lineStart.run (untilLine number text.toList)).inComment = false ∧
        Shows line directive) ∧
      (∀ number line, (lines text.toList)[number]? = some line →
        ((∃ directive ∈ scan text, directive.line = number + 1) ↔
          (Lexeme.lineStart.run (untilLine number text.toList)).inComment = false ∧
            Marked line)) ∧
      (scan text).Pairwise (·.line < ·.line) ∧
      (∀ fileName, SymbolReference.collect fileName text =
        ((scan text).filter fun directive =>
          directive.kind = .ifDirective ∨ directive.kind = .elifDirective).map fun directive =>
            ⟨fileName, directive.line, directive.argument⟩) ∧
      ∀ line ∈ lines text.toList, endsInComment .code line = trackBytes false none (bytes line) ∧
        endsInComment .comment line = trackBytes true none (bytes line) := by
  refine ⟨fun directive => mem_scan_iff, fun number line present => ⟨?_, ?_⟩,
    (ofLines_sorted 1 false _).1, fun fileName => ?_, fun line _ => ⟨?_, ?_⟩⟩
  · rintro ⟨directive, member, here⟩
    obtain ⟨place, other, isPlace, presentToo, outside, shows⟩ := mem_scan_iff.1 member
    obtain rfl : place = number := by omega
    obtain rfl := Option.some.inj (presentToo.symm.trans present)
    refine ⟨outside, (exists_ofLine?_iff (place + 1)).1 ⟨directive, ?_⟩⟩
    exact ofLine?_eq_some_iff.2 ⟨isPlace, shows⟩
  · rintro ⟨outside, marked⟩
    obtain ⟨directive, read⟩ := (exists_ofLine?_iff (number + 1)).2 marked
    obtain ⟨here, shows⟩ := ofLine?_eq_some_iff.1 read
    exact ⟨directive, mem_scan_iff.2 ⟨number, line, here, present, outside, shows⟩, here⟩
  · have same (directive : Directive) : directive.kind.carriesExpression =
        decide (directive.kind = .ifDirective ∨ directive.kind = .elifDirective) := by
      cases directive.kind <;> rfl
    rw [SymbolReference.collect, List.filter_congr fun directive _ => same directive]
  · exact (track_bytes (by rintro _ ⟨⟩)).symm
  · exact (track_bytes (by rintro _ ⟨⟩)).symm

/-- A star that opens a comment does not close it as well. The text of a directive opens none. -/
example : scan "/*/\n#if A\n*/ x\n  # elif B || C // D\n#else /*\n#endif" =
    [⟨.elifDirective, 4, "B || C"⟩, ⟨.elseDirective, 5, "/*"⟩, ⟨.endifDirective, 6, ""⟩] := by
  decide +kernel

end ScriptSharp.Directive
