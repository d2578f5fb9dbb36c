import Mathlib.Data.List.Basic
import ScriptSharp.Directive.Scan

/-!
# Block comments in the bytes of a line

Every character that opens or closes something on a line is a single byte, and no byte of another
character is one of these. So block comments may be followed byte by byte, with a look at the next
byte, where an escape passes over the first byte of the escaped character only.
-/

namespace ScriptSharp.Directive

/-- The bytes of a text. -/
def bytes (text : List Char) : List UInt8 :=
  text.flatMap String.utf8EncodeChar

/-- The byte of a character that is only one. -/
def byteOf (character : Char) : UInt8 :=
  UInt8.ofNat character.toNat

/-- Whether a line ends inside a block comment, from its bytes. What the line begins in is a block
comment, a string with this quote, or code. -/
def trackBytes : Bool → Option UInt8 → List UInt8 → Bool
  | inComment, _, [] => inComment
  | true, quote, current :: rest =>
    if current = byteOf '*' ∧ rest.head? = some (byteOf '/') then trackBytes false quote rest.tail
    else trackBytes true quote rest
  | false, some opened, current :: rest =>
    if current = byteOf '\\' then trackBytes false (some opened) rest.tail
    else if current = opened then trackBytes false none rest
    else trackBytes false (some opened) rest
  | false, none, current :: rest =>
    if current = byteOf '/' ∧ rest.head? = some (byteOf '/') then false
    else if current = byteOf '/' ∧ rest.head? = some (byteOf '*') then
      trackBytes true none rest.tail
    else if current = byteOf '"' ∨ current = byteOf (Char.ofNat 39) then
      trackBytes false (some current) rest
    else trackBytes false none rest
termination_by _ _ line => line.length
decreasing_by all_goals grind

/-! ## Characters of one byte and of more -/

/-- A character of ASCII is one byte. -/
theorem utf8EncodeChar_of_lt {character : Char} (ascii : character.toNat < 128) :
    String.utf8EncodeChar character = [byteOf character] := by
  have small : character.val.toNat ≤ 127 := Nat.le_of_lt_succ ascii
  simp only [String.utf8EncodeChar, if_pos small]
  rfl

/-- Characters of more than one byte have no byte in common with the others. -/
theorem le_of_mem_utf8EncodeChar {character : Char} (foreign : 128 ≤ character.toNat) {byte : UInt8}
    (member : byte ∈ String.utf8EncodeChar character) : 128 ≤ byte.toNat := by
  have large : ¬character.val.toNat ≤ 127 := Nat.not_le_of_lt foreign
  simp only [String.utf8EncodeChar, if_neg large] at member
  split_ifs at member <;> grind [UInt8.toNat_ofNat']

/-- Characters of ASCII can be told from their bytes. -/
theorem byteOf_inj {character other : Char} (ascii : character.toNat < 128)
    (asciiToo : other.toNat < 128) : byteOf character = byteOf other ↔ character = other := by
  refine ⟨fun same => Char.toNat_inj.1 ?_, fun same => same ▸ rfl⟩
  have sameNat := congrArg UInt8.toNat same
  simp only [byteOf, UInt8.toNat_ofNat'] at sameNat
  omega

@[simp]
theorem bytes_nil : bytes [] = [] := rfl

/-- A character of ASCII in front is a byte in front. -/
theorem bytes_cons {character : Char} (ascii : character.toNat < 128) (rest : List Char) :
    bytes (character :: rest) = byteOf character :: bytes rest := by
  rw [bytes, List.flatMap_cons, utf8EncodeChar_of_lt ascii]
  rfl

/-- The byte of a character of ASCII is small. -/
theorem toNat_byteOf {character : Char} (ascii : character.toNat < 128) :
    (byteOf character).toNat < 128 := by
  simp only [byteOf, UInt8.toNat_ofNat']
  omega

/-- A text begins with an ASCII character when its bytes begin with the one of that character. -/
theorem head?_bytes {text : List Char} {character : Char} (ascii : character.toNat < 128) :
    (bytes text).head? = some (byteOf character) ↔ ∃ rest, text = character :: rest := by
  cases text with
  | nil => simp
  | cons first text =>
    by_cases firstAscii : first.toNat < 128
    · simp [bytes_cons firstAscii, byteOf_inj firstAscii ascii]
    · have foreign := Nat.le_of_not_lt firstAscii
      have unlike : first ≠ character := by
        rintro rfl
        exact firstAscii ascii
      cases encoded : String.utf8EncodeChar first with
      | nil => exact absurd encoded String.utf8EncodeChar_ne_nil
      | cons byte others =>
        have large := le_of_mem_utf8EncodeChar foreign (encoded ▸ List.mem_cons_self)
        have small := toNat_byteOf ascii
        have unlikeByte : byte ≠ byteOf character := by
          rintro rfl
          omega
        simp [bytes, encoded, unlike, unlikeByte]

/-! ## Bytes without a meaning -/

@[simp]
theorem trackBytes_nil (inComment : Bool) (quote : Option UInt8) :
    trackBytes inComment quote [] = inComment := by
  unfold trackBytes
  rfl

/-- A byte of a longer character changes nothing. -/
theorem trackBytes_foreign {inComment : Bool} {quote : Option UInt8}
    (quoteAscii : ∀ opened ∈ quote, opened.toNat < 128) {foreign : List UInt8}
    (large : ∀ byte ∈ foreign, 128 ≤ byte.toNat) (rest : List UInt8) :
    trackBytes inComment quote (foreign ++ rest) = trackBytes inComment quote rest := by
  induction foreign with
  | nil => rfl
  | cons byte foreign inductionHypothesis =>
    obtain ⟨isLarge, large⟩ := List.forall_mem_cons.1 large
    have unlike {character : Char} (ascii : character.toNat < 128) : byte ≠ byteOf character := by
      rintro rfl
      exact absurd (toNat_byteOf ascii) (Nat.not_lt_of_le isLarge)
    rw [List.cons_append, ← inductionHypothesis large]
    cases inComment with
    | true => rw [trackBytes, if_neg fun both => unlike (by decide) both.1]
    | false =>
      cases quote with
      | none =>
        rw [trackBytes, if_neg fun both => unlike (by decide) both.1,
          if_neg fun both => unlike (by decide) both.1, if_neg]
        rintro (isQuote | isQuote) <;> exact unlike (by decide) isQuote
      | some opened =>
        have unlikeQuote : byte ≠ opened := by
          rintro rfl
          exact absurd (quoteAscii byte rfl) (Nat.not_lt_of_le isLarge)
        rw [trackBytes, if_neg (unlike (by decide)), if_neg unlikeQuote]

/-- A character of more than one byte changes nothing. -/
theorem trackBytes_bytes_cons {inComment : Bool} {quote : Option UInt8}
    (quoteAscii : ∀ opened ∈ quote, opened.toNat < 128) {character : Char}
    (foreign : ¬character.toNat < 128) (rest : List Char) :
    trackBytes inComment quote (bytes (character :: rest)) =
      trackBytes inComment quote (bytes rest) := by
  have large : ∀ byte ∈ String.utf8EncodeChar character, 128 ≤ byte.toNat := fun _ =>
    le_of_mem_utf8EncodeChar (Nat.le_of_not_lt foreign)
  exact trackBytes_foreign quoteAscii large (bytes rest)

/-- Behind the first byte of a character only bytes without a meaning stand. -/
theorem exists_tail_bytes (character : Char) (rest : List Char) :
    ∃ foreign : List UInt8, (∀ byte ∈ foreign, 128 ≤ byte.toNat) ∧
      (bytes (character :: rest)).tail = foreign ++ bytes rest := by
  by_cases ascii : character.toNat < 128
  · exact ⟨[], List.forall_mem_nil _, by rw [bytes_cons ascii]; rfl⟩
  · have large {byte : UInt8} (member : byte ∈ (String.utf8EncodeChar character).tail) :
        128 ≤ byte.toNat :=
      le_of_mem_utf8EncodeChar (Nat.le_of_not_lt ascii) (List.mem_of_mem_tail member)
    refine ⟨_, fun _ => large, ?_⟩
    rw [bytes, List.flatMap_cons, List.tail_append_of_ne_nil String.utf8EncodeChar_ne_nil]
    rfl

/-! ## Whole lines -/

/-- Whether a line that begins in a region ends inside a block comment, from its bytes. -/
def Region.track : Region → List UInt8 → Bool
  | .code => trackBytes false none
  | .comment => trackBytes true none
  | .quoted quote => trackBytes false (some (byteOf quote))

/-- A quote can be told from its byte. -/
theorem isQuote_iff {character : Char} (ascii : character.toNat < 128) :
    isQuote character = true ↔
      byteOf character = byteOf '"' ∨ byteOf character = byteOf (Char.ofNat 39) := by
  rw [byteOf_inj ascii (by decide), byteOf_inj ascii (by decide), isQuote, Bool.or_eq_true,
    beq_iff_eq, beq_iff_eq]

/-- Quotes are characters of ASCII. -/
theorem toNat_lt_of_isQuote {character : Char} (quote : isQuote character = true) :
    character.toNat < 128 := by
  rcases Bool.or_eq_true_iff.1 quote with same | same <;> rw [beq_iff_eq.1 same] <;> decide

/-- A character that is not one of ASCII changes no region. -/
theorem track_foreign {region : Region}
    (plain : ∀ quote, region = .quoted quote → quote.toNat < 128) {character : Char}
    (foreign : ¬character.toNat < 128) (rest : List Char) :
    region.track (bytes (character :: rest)) = region.track (bytes rest) := by
  cases region with
  | code | comment => exact trackBytes_bytes_cons (by rintro _ ⟨⟩) foreign rest
  | quoted quote =>
    refine trackBytes_bytes_cons ?_ foreign rest
    rintro _ ⟨⟩
    exact toNat_byteOf (plain quote rfl)

/-- Reading the bytes of a line finds the block comments that reading its characters finds. -/
theorem track_bytes {region : Region} {line : List Char}
    (plain : ∀ quote, region = .quoted quote → quote.toNat < 128) :
    region.track (bytes line) = endsInComment region line := by
  -- The induction is on the reading of characters. Only one of ASCII can be half of a mark, and
  -- its single byte tells it. All others are passed over byte by byte.
  fun_induction endsInComment region line with
  | case1 | case5 | case8 =>
    rw [bytes_nil, Region.track, trackBytes_nil]
  | case2 rest =>
    rw [bytes_cons (by decide), bytes_cons (by decide), Region.track, trackBytes, if_pos ⟨rfl, rfl⟩]
  | case3 rest inductionHypothesis =>
    have other : ¬(byteOf '/' = byteOf '/' ∧
        (byteOf '*' :: bytes rest).head? = some (byteOf '/')) := by
      rintro ⟨-, same⟩
      exact absurd (Option.some.inj same) (by decide)
    rw [bytes_cons (by decide), bytes_cons (by decide), Region.track, trackBytes, if_neg other,
      if_pos ⟨rfl, rfl⟩]
    exact inductionHypothesis (by rintro _ ⟨⟩)
  | case4 character rest noLineComment noComment inductionHypothesis =>
    by_cases ascii : character.toNat < 128
    · have noLine : ¬(byteOf character = byteOf '/' ∧
          (bytes rest).head? = some (byteOf '/')) := by
        rintro ⟨isSlash, isSlashToo⟩
        obtain ⟨tail, rfl⟩ := (head?_bytes (by decide)).1 isSlashToo
        exact noLineComment tail ((byteOf_inj ascii (by decide)).1 isSlash) rfl
      have noBlock : ¬(byteOf character = byteOf '/' ∧
          (bytes rest).head? = some (byteOf '*')) := by
        rintro ⟨isSlash, isStar⟩
        obtain ⟨tail, rfl⟩ := (head?_bytes (by decide)).1 isStar
        exact noComment tail ((byteOf_inj ascii (by decide)).1 isSlash) rfl
      rw [bytes_cons ascii, Region.track, trackBytes, if_neg noLine, if_neg noBlock,
        ← inductionHypothesis ?_]
      · simp only [← isQuote_iff ascii]
        split_ifs <;> rfl
      · split_ifs with quote
        · rintro _ ⟨⟩
          exact ascii
        · rintro _ ⟨⟩
    · have noQuote : ¬isQuote character = true := fun quote => ascii (toNat_lt_of_isQuote quote)
      rw [if_neg noQuote] at inductionHypothesis ⊢
      rw [← inductionHypothesis (by rintro _ ⟨⟩)]
      exact track_foreign (by rintro _ ⟨⟩) ascii rest
  | case6 rest inductionHypothesis =>
    rw [bytes_cons (by decide), bytes_cons (by decide), Region.track, trackBytes, if_pos ⟨rfl, rfl⟩]
    exact inductionHypothesis (by rintro _ ⟨⟩)
  | case7 character rest unclosed inductionHypothesis =>
    rw [← inductionHypothesis (by rintro _ ⟨⟩)]
    by_cases ascii : character.toNat < 128
    · rw [bytes_cons ascii, Region.track, trackBytes, if_neg]
      rintro ⟨isStar, isSlash⟩
      obtain ⟨tail, rfl⟩ := (head?_bytes (by decide)).1 isSlash
      exact unclosed tail ((byteOf_inj ascii (by decide)).1 isStar) rfl
    · exact track_foreign (by rintro _ ⟨⟩) ascii rest
  | case9 quote =>
    rw [bytes_cons (by decide), Region.track, trackBytes, if_pos rfl, bytes_nil, List.tail_nil,
      trackBytes_nil]
  | case10 quote character rest inductionHypothesis =>
    -- A backslash skips one byte. If its character has more of them, none of those is a quote.
    obtain ⟨foreign, large, tail⟩ := exists_tail_bytes character rest
    have small : ∀ opened ∈ some (byteOf quote), opened.toNat < 128 := by
      rintro _ ⟨⟩
      exact toNat_byteOf (plain quote rfl)
    rw [← inductionHypothesis plain, bytes_cons (by decide), Region.track, trackBytes, if_pos rfl,
      tail, trackBytes_foreign small large]
  | case11 quote character rest notLast notEscaped inductionHypothesis =>
    have quoteAscii := plain quote rfl
    have small : ∀ other, (if character = quote then Region.code else .quoted quote) =
        .quoted other → other.toNat < 128 := by
      split_ifs
      · rintro _ ⟨⟩
      · rintro _ ⟨⟩
        exact quoteAscii
    rw [← inductionHypothesis small]
    by_cases ascii : character.toNat < 128
    · have noEscape : byteOf character ≠ byteOf '\\' := by
        rw [ne_eq, byteOf_inj ascii (by decide)]
        rintro rfl
        cases rest with
        | nil => exact notLast rfl rfl
        | cons head rest => exact notEscaped head rest rfl rfl
      rw [bytes_cons ascii, Region.track, trackBytes, if_neg noEscape]
      simp only [byteOf_inj ascii quoteAscii]
      split_ifs <;> rfl
    · have noQuote : character ≠ quote := by
        rintro rfl
        exact ascii quoteAscii
      rw [if_neg noQuote]
      exact track_foreign plain ascii rest

end ScriptSharp.Directive
