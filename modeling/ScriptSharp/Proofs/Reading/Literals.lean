import Mathlib.Tactic.SplitIfs
import ScriptSharp.Emit.Literal
import ScriptSharp.Json.Quoted

/-!
# Reading literals between quotes

`readLiteral?` reads a string or a character from its opening quote on. It knows the escapes of one
letter and the numeric escape of four digits, takes every other character for itself, and ends at
the first quote that no backslash stands in front of. What it finds in an emitted literal is the
value, whatever follows: `literal_readBack`. A numeric escape takes four digits and no more, so
that digits of the value behind it are not taken for its own.
-/

namespace ScriptSharp.Emit

open Json.Quoted (hexDigit? hexCode?)

/-! ## The reader -/

/-- The escapes of one letter, with the characters that they stand for. -/
def letterEscapes : List (Char × Char) :=
  [('\\', '\\'), ('n', '\n'), ('r', '\r'), ('t', '\t'), ('0', Char.ofNat 0)]

/-- The character that a mark behind a backslash stands for. The quote stands for itself. -/
def unescaped? (quote mark : Char) : Option Char :=
  if mark = quote then some quote else letterEscapes.lookup mark

/-- The character with a code. The halves of pairs have codes that are those of no character. -/
def ofCode? (code : Nat) : Option Char :=
  if code.isValidChar then some (Char.ofNat code) else none

/-- Reads characters up to a closing quote, and gives what follows it. -/
def readQuoted (quote : Char) : List Char → Option (List Char × List Char)
  | [] => none
  | '\\' :: 'u' :: first :: second :: third :: fourth :: rest => do
    let code ← hexCode? first second third fourth
    let character ← ofCode? code
    let (characters, rest) ← readQuoted quote rest
    return (character :: characters, rest)
  | '\\' :: mark :: rest => do
    let character ← unescaped? quote mark
    let (characters, rest) ← readQuoted quote rest
    return (character :: characters, rest)
  | character :: rest =>
    if character = quote then some ([], rest)
    else if character = '\\' then none
    else do
      let (characters, rest) ← readQuoted quote rest
      return (character :: characters, rest)

/-- Reads a string or a character from its opening quote on, and gives what follows it. Between
single quotes stands one character. -/
def readLiteral? : List Char → Option (Literal × List Char)
  | [] => none
  | opening :: rest => do
    let (characters, rest) ← readQuoted opening rest
    if opening = doubleQuote then return (.string (String.ofList characters), rest)
    else if opening = singleQuote then
      match characters with
      | [character] => return (.char character, rest)
      | _ => none
    else none

/-! ## Numeric escapes -/

/-- The hexadecimal digits of a number, with zeros in front of them up to `count` digits. -/
def padded (count number : Nat) : List Char :=
  List.replicate (count - (Nat.toDigits 16 number).length) '0' ++ Nat.toDigits 16 number

/-- The last digit is the remainder, whether the others are digits of the number or zeros. -/
theorem padded_succ (count number : Nat) : padded (count + 2) number =
    padded (count + 1) (number / 16) ++ [Nat.digitChar (number % 16)] := by
  rw [padded, padded]
  by_cases small : number < 16
  · have quotient : number / 16 = 0 := Nat.div_eq_of_lt small
    rw [Nat.toDigits_of_lt_base small, quotient, Nat.toDigits_zero, Nat.mod_eq_of_lt small]
    simp [List.replicate_succ']
  · rw [Nat.toDigits_of_base_le (by decide) (Nat.le_of_not_lt small), List.length_append,
      List.length_singleton, Nat.succ_sub_succ, List.append_assoc]

/-- A single hexadecimal digit needs no padding. -/
theorem padded_one {digit : Nat} (small : digit < 16) : padded 1 digit = [digit.digitChar] := by
  rw [padded, Nat.toDigits_of_lt_base small]
  rfl

/-- A hexadecimal digit is read back. -/
theorem hexDigit?_digitChar {digit : Nat} (small : digit < 16) :
    hexDigit? digit.digitChar = some digit := by
  have each : ∀ digit < 16, hexDigit? (Nat.digitChar digit) = some digit := by decide
  exact each digit small

/-- A character is read back from its code. -/
theorem ofCode?_toNat (character : Char) : ofCode? character.toNat = some character := by
  have valid : character.toNat.isValidChar := character.valid
  rw [ofCode?, if_pos valid, Char.ofNat_toNat]

/-- The four digits of a character of the basic plane say its code. -/
theorem exists_fourDigits {character : Char} (basic : character.toNat < 0x10000) :
    ∃ first second third fourth, fourDigits character = [first, second, third, fourth] ∧
      hexCode? first second third fourth = some character.toNat := by
  have leading : character.toNat / 16 / 16 / 16 < 16 := by omega
  have digits : fourDigits character =
      [Nat.digitChar (character.toNat / 16 / 16 / 16),
        Nat.digitChar (character.toNat / 16 / 16 % 16), Nat.digitChar (character.toNat / 16 % 16),
        Nat.digitChar (character.toNat % 16)] := by
    change padded 4 character.toNat = _
    rw [padded_succ, padded_succ, padded_succ, padded_one leading]
    rfl
  refine ⟨_, _, _, _, digits, ?_⟩
  have rest (number : Nat) : number % 16 < 16 := Nat.mod_lt number (by decide)
  simp only [hexCode?, hexDigit?_digitChar leading, hexDigit?_digitChar (rest _),
    Option.bind_eq_bind, Option.bind_some, Option.pure_def, Option.some.injEq]
  omega

/-- A control character has a code of at most four hexadecimal digits. -/
theorem lt_of_isControl {character : Char} (control : isControl character = true) :
    character.toNat < 0x10000 := by
  simp only [isControl, Bool.or_eq_true, Bool.and_eq_true, decide_eq_true_eq] at control
  omega

/-! ## Characters of a literal -/

variable {quote character : Char}

/-- What is read when one character is read in front of the rest. -/
def behind (character : Char) (read : Option (List Char × List Char)) :
    Option (List Char × List Char) :=
  read.map fun found => (character :: found.1, found.2)

/-- A character that is neither the quote nor a backslash stands for itself. -/
theorem readQuoted_plain (noQuote : character ≠ quote) (noBackslash : character ≠ '\\')
    (rest : List Char) :
    readQuoted quote (character :: rest) = behind character (readQuoted quote rest) := by
  rw [readQuoted, if_neg noQuote, if_neg noBackslash]
  · cases readQuoted quote rest <;> rfl
  all_goals
    intros
    exact absurd ‹_› noBackslash

/-- A backslash and a mark stand for the character of the mark. -/
theorem readQuoted_mark {mark : Char} (known : unescaped? quote mark = some character)
    (noNumber : mark ≠ 'u') (rest : List Char) :
    readQuoted quote ('\\' :: mark :: rest) = behind character (readQuoted quote rest) := by
  rw [readQuoted, known]
  · cases readQuoted quote rest <;> rfl
  · intros
    exact absurd ‹_› noNumber

/-- A character that is spelled by its four digits is read back. -/
theorem readQuoted_fourDigits (basic : character.toNat < 0x10000) (rest : List Char) :
    readQuoted quote ('\\' :: 'u' :: (fourDigits character ++ rest)) =
      behind character (readQuoted quote rest) := by
  obtain ⟨first, second, third, fourth, digits, code⟩ := exists_fourDigits basic
  rw [digits]
  simp only [List.cons_append, List.nil_append, readQuoted, code, Option.bind_eq_bind,
    Option.bind_some, ofCode?_toNat]
  cases readQuoted quote rest <;> rfl

/-- A character that is written in a literal is read as itself, in front of what follows. -/
theorem readQuoted_escapeChar (isQuote : quote = singleQuote ∨ quote = doubleQuote)
    (character : Char) (rest : List Char) : readQuoted quote (escapeChar quote character ++ rest) =
      behind character (readQuoted quote rest) := by
  have letters : ∀ escape ∈ letterEscapes,
      unescaped? quote escape.1 = some escape.2 ∧ escape.1 ≠ 'u' := by
    rcases isQuote with rfl | rfl <;> decide
  have letter {mark : Char} (known : (mark, character) ∈ letterEscapes) :
      readQuoted quote ('\\' :: mark :: rest) = behind character (readQuoted quote rest) :=
    readQuoted_mark (letters _ known).1 (letters _ known).2 rest
  rw [escapeChar]
  split_ifs with isBackslash isLineFeed isReturn isTab isNull same control
  · exact letter (by simp [isBackslash, letterEscapes])
  · exact letter (by simp [isLineFeed, letterEscapes])
  · exact letter (by simp [isReturn, letterEscapes])
  · exact letter (by simp [isTab, letterEscapes])
  · exact letter (by simp [isNull, letterEscapes])
  · have noNumber : character ≠ 'u' := by
      rcases isQuote with rfl | rfl <;> rw [same] <;> decide
    refine readQuoted_mark ?_ noNumber rest
    rw [unescaped?, if_pos same, same]
  · exact readQuoted_fourDigits (lt_of_isControl control) rest
  · exact readQuoted_plain same isBackslash rest

/-- What is written between the quotes of a literal is read up to the closing quote. -/
theorem readQuoted_flatMap (isQuote : quote = singleQuote ∨ quote = doubleQuote)
    (characters rest : List Char) :
    readQuoted quote (characters.flatMap (escapeChar quote) ++ quote :: rest) =
      some (characters, rest) := by
  induction characters with
  | nil => rcases isQuote with rfl | rfl <;> rfl
  | cons character characters inductionHypothesis =>
    rw [List.flatMap_cons, List.append_assoc, readQuoted_escapeChar isQuote, inductionHypothesis]
    rfl

/-! ## Literals -/

/-- The text of a literal between quotes is the quotes and what is written between them. -/
theorem readQuoted_quoted (isQuote : quote = singleQuote ∨ quote = doubleQuote)
    (characters rest : List Char) : ∃ written, quoted quote characters ++ rest = quote :: written ∧
      readQuoted quote written = some (characters, rest) := by
  refine ⟨characters.flatMap (escapeChar quote) ++ quote :: rest, ?_,
    readQuoted_flatMap isQuote characters rest⟩
  simp [quoted]

/-- A string and a character are read back from the text that is emitted for them, and what follows
that text is left. -/
theorem literal_readBack (rest : List Char) :
    (∀ value : String, readLiteral? ((literalCode (.string value)).text.toList ++ rest) =
        some (.string value, rest)) ∧
      ∀ value : Char, readLiteral? ((literalCode (.char value)).text.toList ++ rest) =
        some (.char value, rest) := by
  constructor
  · intro value
    have spelled : (literalCode (.string value)).text.toList = quoted doubleQuote value.toList := by
      simp [literalCode, Literal.isSigned, Literal.isNegative, unsignedText, Code.text, Token.text]
    obtain ⟨written, begins, read⟩ := readQuoted_quoted (.inr rfl) value.toList rest
    rw [spelled, begins, readLiteral?, read]
    simp
  · intro value
    have spelled : (literalCode (.char value)).text.toList = quoted singleQuote [value] := by
      simp [literalCode, Literal.isSigned, Literal.isNegative, unsignedText, Code.text, Token.text]
    have other : singleQuote ≠ doubleQuote := by decide
    obtain ⟨written, begins, read⟩ := readQuoted_quoted (.inl rfl) [value] rest
    rw [spelled, begins, readLiteral?, read]
    simp [other]

/-- The digit behind a numeric escape is not part of it. -/
example : readLiteral? "\"\\u001f9\" + x".toList =
    some (.string (String.ofList [Char.ofNat 31, '9']), " + x".toList) := by
  decide +kernel

end ScriptSharp.Emit
