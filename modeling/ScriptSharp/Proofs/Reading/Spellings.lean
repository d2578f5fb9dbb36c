import ScriptSharp.Proofs.Reading.Lines
import ScriptSharp.Proofs.Tree.Walk

/-!
# How names, types and literals are spelled

A reader of lines takes the front of a line for a type or a name, and passes over all of it.
`Namelike` is what it relies on: names, keywords and types are spelled so, provided that the
identifiers in them are well-formed and that those which are reserved words are marked. Literals
are spelled on one line.
-/

namespace ScriptSharp.Emit

/-! ## Passing over names and types -/

section Front

variable {depth inner : Nat} {character : Char} {characters first second rest : List Char}

/-- A reader of a type passes over a character that the type can have there. -/
theorem front_cons (step : typeStep depth character rest.head? = some inner) :
    front depth (character :: rest) =
      (character :: (front inner rest).1, (front inner rest).2) := by
  rw [front, step, Option.elim_some]

/-- A reader of a type stops at any other character. -/
theorem front_stop (step : typeStep depth character rest.head? = none) :
    front depth (character :: rest) = ([], character :: rest) := by
  rw [front, step, Option.elim_none]

/-- What is passed over is what the line begins with. -/
theorem head?_front (passed : (front depth characters).1 ≠ []) :
    characters.head? = (front depth characters).1.head? := by
  cases characters with
  | nil => exact absurd rfl passed
  | cons character rest =>
    cases step : typeStep depth character rest.head? with
    | none =>
      rw [front_stop step] at passed
      exact absurd rfl passed
    | some inner => rw [front_cons step, List.head?_cons, List.head?_cons]

/-- A reader with `depth` open angle brackets passes over the characters, whatever follows them. -/
def PassesAt (depth : Nat) (characters : List Char) : Prop :=
  ∀ rest, front depth (characters ++ rest) =
    (characters ++ (front depth rest).1, (front depth rest).2)

/-- A reader passes over the characters everywhere. -/
def Passes (characters : List Char) : Prop := ∀ depth, PassesAt depth characters

theorem passesAt_nil : PassesAt depth [] := fun _ => rfl

/-- A reader passes over two parts one after the other. -/
theorem PassesAt.append (passesFirst : PassesAt depth first)
    (passesSecond : PassesAt depth second) : PassesAt depth (first ++ second) := by
  intro rest
  rw [List.append_assoc, passesFirst, passesSecond, List.append_assoc]

/-- A reader that passes over two parts everywhere passes over both of them. -/
theorem Passes.append (passesFirst : Passes first) (passesSecond : Passes second) :
    Passes (first ++ second) := fun depth => (passesFirst depth).append (passesSecond depth)

/-- A reader of a type passes over characters of qualified names. -/
theorem passes_word (words : ∀ character ∈ characters, isWordChar character = true) :
    Passes characters := by
  intro depth
  induction characters with
  | nil => exact passesAt_nil
  | cons character characters inductionHypothesis =>
    obtain ⟨isWord, later⟩ := List.forall_mem_cons.1 words
    intro rest
    have step : typeStep depth character (characters ++ rest).head? = some depth := by
      simp [typeStep, isWord]
    rw [List.cons_append, front_cons step, inductionHypothesis later rest, List.cons_append]

/-- A reader of a type passes over the brackets of an array. -/
theorem passes_brackets : Passes ['[', ']'] := fun _ _ => rfl

/-- A reader inside angle brackets passes over a comma. -/
theorem passesAt_comma : PassesAt (depth + 1) [',', ' '] := fun _ => rfl

/-- A reader passes over what it passes over between angle brackets, with the brackets. -/
theorem passes_angles (inside : ∀ depth, PassesAt (depth + 1) characters) :
    Passes ('<' :: (characters ++ ['>'])) := by
  intro depth rest
  have opens : typeStep depth '<' (characters ++ (['>'] ++ rest)).head? = some (depth + 1) := rfl
  have closes : typeStep (depth + 1) '>' rest.head? = some depth := rfl
  rw [List.cons_append, List.append_assoc, front_cons opens, inside depth,
    List.singleton_append, front_cons closes]
  simp

/-- A reader inside angle brackets passes over items with commas between them. -/
theorem passesAt_intercalate {items : List (List Char)} (each : ∀ item ∈ items, Passes item) :
    PassesAt (depth + 1) ([',', ' '].intercalate items) := by
  induction items with
  | nil => exact passesAt_nil
  | cons item items inductionHypothesis =>
    obtain ⟨passesItem, later⟩ := List.forall_mem_cons.1 each
    cases items with
    | nil => simpa using passesItem (depth + 1)
    | cons next items =>
      rw [List.intercalate_cons_cons]
      exact ((passesItem _).append passesAt_comma).append (inductionHypothesis later)

end Front

/-! ## Expressions -/

/-- What follows cannot make a statement that begins like an expression something else: it ends
every name in front of it, and it begins with nothing that ends in a name. -/
structure Quiet (rest : List Char) : Prop where
  ends : ∀ character ∈ rest.head?, isNameChar character = false
  nameless : nameFollows (front 0 rest).2 = false

/-- A line that begins with the characters is an expression. -/
def SaysExpr (characters : List Char) : Prop :=
  ∀ rest, Quiet rest → Simple.ofLine (characters ++ rest) = .expr

/-- What stands behind an expression keeps it an expression. -/
def Quiets (characters : List Char) : Prop := ∀ rest, Quiet rest → Quiet (characters ++ rest)

/-- What is read as an expression goes on being one behind what keeps it one. -/
theorem SaysExpr.append {first second : List Char} (isExpr : SaysExpr first)
    (quiets : Quiets second) : SaysExpr (first ++ second) := by
  intro rest quiet
  rw [List.append_assoc]
  exact isExpr _ (quiets rest quiet)

/-- Nothing that begins like this begins like a type. -/
theorem saysExpr_of_first {character : Char} (other : opensName character = false)
    (characters : List Char) : SaysExpr (character :: characters) := by
  intro rest _
  simp [Simple.ofLine, other]

/-- What begins with `new` is an expression. -/
theorem saysExpr_new (characters : List Char) : SaysExpr ("new ".toList ++ characters) :=
  fun _ _ => rfl

/-- A character at which a type ends is quiet, unless it is a blank with a name behind it. -/
theorem quiet_of_stop {character : Char} {rest : List Char} (ends : isNameChar character = false)
    (step : typeStep 0 character rest.head? = none)
    (nameless : nameFollows (character :: rest) = false) : Quiet (character :: rest) := by
  refine ⟨by simpa using ends, ?_⟩
  rw [front_stop step]
  exact nameless

/-- A blank with an operator behind it is quiet. -/
theorem quiet_operator {character : Char} (operator : opensName character = false)
    (rest : List Char) : Quiet (' ' :: character :: rest) :=
  quiet_of_stop rfl rfl (by simp [nameFollows, operator])

/-- An `as` behind an expression makes no declaration of it. -/
theorem quiet_as (rest : List Char) : Quiet (" as ".toList ++ rest) :=
  quiet_of_stop rfl rfl rfl

/-- What is passed over and ends a name keeps an expression an expression. -/
theorem quiets_of_passes {character : Char} {characters : List Char}
    (ends : isNameChar character = false) (passes : Passes (character :: characters)) :
    Quiets (character :: characters) := by
  intro rest quiet
  refine ⟨by simpa using ends, ?_⟩
  rw [passes 0 rest]
  exact quiet.nameless

/-! ## Names -/

/-- The characters are spelled like a name or a type. -/
structure Namelike (characters : List Char) : Prop where
  opens : ∃ first rest, characters = first :: rest ∧ opensName first = true
  passes : Passes characters
  /-- They are none of the words that statements begin with. -/
  plain : statementWords.lookup characters = none
  unbroken : '\n' ∉ characters

/-- The words that statements begin with have no other characters than those of names. -/
theorem lookup_statementWords {characters : List Char} {character : Char}
    (member : character ∈ characters) (other : isNameChar character = false) :
    statementWords.lookup characters = none := by
  have words : ∀ word ∈ statementWords, word.1.all isNameChar = true := by decide
  rw [List.lookup_eq_none_iff]
  intro word inWords
  rw [bne_iff_ne]
  rintro rfl
  rw [List.all_eq_true.1 (words word inWords) character member] at other
  cases other

/-- A word that begins no statement still begins none when something else stands behind it. -/
theorem lookup_append {first second : List Char} (plain : statementWords.lookup first = none)
    (ends : ∀ character ∈ second.head?, isNameChar character = false) :
    statementWords.lookup (first ++ second) = none := by
  cases second with
  | nil => rwa [List.append_nil]
  | cons character rest => exact lookup_statementWords (by simp) (ends character rfl)

namespace Namelike

variable {characters : List Char}

/-- A name by itself is an expression. -/
theorem saysExpr (namelike : Namelike characters) : SaysExpr characters := by
  intro rest quiet
  obtain ⟨first, others, rfl, opens⟩ := namelike.opens
  -- The reader may pass over more than the name, and what it has then is no word of a statement.
  have plain : statementWords.lookup (first :: others ++ (front 0 rest).1) = none := by
    refine lookup_append namelike.plain fun character isHead => ?_
    have passed : (front 0 rest).1 ≠ [] := by
      intro isNil
      rw [isNil] at isHead
      cases isHead
    exact quiet.ends character (head?_front passed ▸ isHead)
  have opens' : (first :: others ++ rest).head?.any opensName = true := by simpa using opens
  simp only [Simple.ofLine, opens', if_true, namelike.passes 0 rest, plain, quiet.nameless]
  rfl

/-- A type with a name behind it is a declaration. -/
theorem declares (namelike : Namelike characters) {rest : List Char}
    (named : nameFollows (' ' :: rest) = true) :
    Simple.ofLine (characters ++ ' ' :: rest) = .declare := by
  obtain ⟨first, others, rfl, opens⟩ := namelike.opens
  have opens' : (first :: others ++ ' ' :: rest).head?.any opensName = true := by simpa using opens
  have stops : front 0 (' ' :: rest) = ([], ' ' :: rest) := front_stop rfl
  simp only [Simple.ofLine, opens', if_true, namelike.passes 0 _, stops, List.append_nil,
    namelike.plain, named]

/-- A name can be followed by what belongs to a type. -/
theorem append_foreign (namelike : Namelike characters) {character : Char} {others : List Char}
    (foreign : isNameChar character = false) (passes : Passes (character :: others))
    (unbroken : '\n' ∉ character :: others) : Namelike (characters ++ character :: others) where
  opens := by
    obtain ⟨first, rest, rfl, opens⟩ := namelike.opens
    exact ⟨first, rest ++ character :: others, rfl, opens⟩
  passes := namelike.passes.append passes
  plain := lookup_statementWords (by simp) foreign
  unbroken := by
    rw [List.mem_append]
    exact not_or.2 ⟨namelike.unbroken, unbroken⟩

end Namelike

/-! ## Identifiers -/

/-- The characters begin like a name and go on with characters of names, or of qualified names. -/
def IsName (isPart : Char → Bool) (name : String) : Prop :=
  ∃ first rest, name.toList = first :: rest ∧ isNameStart first = true ∧
    ∀ character ∈ rest, isPart character = true

/-- A name has a first character that names start with, and further ones of their kind. -/
theorem isName_iff {isPart : Char → Bool} {name : String} : IsName isPart name ↔
    name.toList.head?.any isNameStart = true ∧ name.toList.tail.all isPart = true := by
  rw [IsName]
  cases name.toList with
  | nil => simp
  | cons first rest => simp

instance {isPart : Char → Bool} {name : String} : Decidable (IsName isPart name) :=
  decidable_of_iff' _ isName_iff

/-- The identifier is well-formed, and it is marked if it is a reserved word. -/
@[mk_iff]
structure WellFormed (ident : Ident) : Prop where
  isName : IsName isNameChar ident.name
  marked : isReservedWord ident.name = true → ident.escaped = true

instance {ident : Ident} : Decidable (WellFormed ident) :=
  decidable_of_iff' _ (wellFormed_iff ident)

/-- Names are qualified names. -/
theorem isWordChar_of_isNameChar {character : Char} (isPart : isNameChar character = true) :
    isWordChar character = true := by
  simp [isWordChar, isPart]

/-- What can start a name can stand inside of one. -/
theorem isNameChar_of_isNameStart {character : Char} (isStart : isNameStart character = true) :
    isNameChar character = true :=
  (Bool.and_eq_true_iff.1 isStart).1

/-- What starts a name also opens a spelled one, which may begin with a mark. -/
theorem opensName_of_isNameStart {character : Char} (isStart : isNameStart character = true) :
    opensName character = true := by
  simp [opensName, isStart]

/-- Characters of qualified names are spelled like a name if they begin like one and are no word
that statements begin with. -/
theorem namelike_word {first : Char} {rest : List Char} (opens : opensName first = true)
    (words : (first :: rest).all isWordChar = true)
    (plain : statementWords.lookup (first :: rest) = none) : Namelike (first :: rest) where
  opens := ⟨first, rest, rfl, opens⟩
  passes := passes_word (List.all_eq_true.1 words)
  plain := plain
  unbroken := fun isThere => by cases List.all_eq_true.1 words _ isThere

/-- Statements begin with reserved words. -/
theorem lookup_of_not_reserved {name : String} (free : isReservedWord name = false) :
    statementWords.lookup name.toList = none := by
  have reserved : ∀ word ∈ statementWords, isReservedWord (String.ofList word.1) = true := by
    decide
  rw [List.lookup_eq_none_iff]
  intro word inWords
  rw [bne_iff_ne]
  intro same
  have isReserved := reserved word inWords
  rw [← same, String.ofList_toList, free] at isReserved
  cases isReserved

/-- The characters of a name are those of qualified names. -/
theorem IsName.words {isPart : Char → Bool} {name : String} (isName : IsName isPart name)
    (wordPart : ∀ character, isPart character = true → isWordChar character = true) :
    ∀ character ∈ name.toList, isWordChar character = true := by
  obtain ⟨first, rest, spelled, isStart, parts⟩ := isName
  rw [spelled, List.forall_mem_cons]
  exact ⟨isWordChar_of_isNameChar (isNameChar_of_isNameStart isStart),
    fun character member => wordPart character (parts character member)⟩

/-- A name with the mark in front. -/
theorem namelike_marked {name : String} (isName : IsName isNameChar name) :
    Namelike ("@" ++ name).toList := by
  have spelled : ("@" ++ name).toList = '@' :: name.toList := by simp
  rw [spelled]
  refine namelike_word rfl (List.all_eq_true.2 (List.forall_mem_cons.2 ⟨rfl, ?_⟩)) ?_
  · exact isName.words fun _ => isWordChar_of_isNameChar
  · exact lookup_statementWords List.mem_cons_self rfl

/-- A name that is no reserved word. -/
theorem namelike_free {name : String} (isName : IsName isNameChar name)
    (free : isReservedWord name = false) : Namelike name.toList := by
  have words := isName.words fun _ => isWordChar_of_isNameChar
  have plain := lookup_of_not_reserved free
  obtain ⟨first, rest, spelled, isStart, -⟩ := isName
  rw [spelled] at words plain ⊢
  exact namelike_word (opensName_of_isNameStart isStart) (List.all_eq_true.2 words) plain

/-- A well-formed identifier is spelled like a name. -/
theorem WellFormed.namelike {ident : Ident} (wellFormed : WellFormed ident) :
    Namelike ident.render.toList := by
  rw [Ident.render]
  split
  case isTrue => exact namelike_marked wellFormed.isName
  case isFalse unmarked =>
    refine namelike_free wellFormed.isName (Bool.eq_false_iff.2 fun reserved => unmarked ?_)
    exact wellFormed.marked reserved

/-- A well-formed identifier is spelled with the characters of names. -/
theorem WellFormed.words {ident : Ident} (wellFormed : WellFormed ident) :
    ∀ character ∈ ident.render.toList, isWordChar character = true := by
  have words := wellFormed.isName.words fun _ => isWordChar_of_isNameChar
  rw [Ident.render]
  split
  case isTrue =>
    have spelled : ("@" ++ ident.name).toList = '@' :: ident.name.toList := by simp
    rw [spelled]
    exact List.forall_mem_cons.2 ⟨rfl, words⟩
  case isFalse => exact words

/-- A member access keeps an expression an expression. -/
theorem WellFormed.quiets_member {ident : Ident} (wellFormed : WellFormed ident) :
    Quiets ('.' :: ident.render.toList) :=
  quiets_of_passes rfl (passes_word (List.forall_mem_cons.2 ⟨rfl, wellFormed.words⟩))

/-- Behind a type and a blank, an identifier is the name of a variable. -/
theorem WellFormed.nameFollows {ident : Ident} (wellFormed : WellFormed ident) {rest : List Char}
    (ends : ∀ character ∈ rest.head?, isNameChar character = false) :
    Emit.nameFollows (' ' :: (ident.render.toList ++ rest)) = true := by
  have opens : (ident.render.toList ++ rest).head?.any opensName = true := by
    obtain ⟨first, others, spelled, opens⟩ := wellFormed.namelike.opens
    rw [spelled]
    simpa using opens
  have noOperator : (ident.render.toList ++ rest).takeWhile isNameChar ≠ "as".toList := by
    rw [Ident.render]
    split
    case isTrue =>
      have spelled : ("@" ++ ident.name).toList = '@' :: ident.name.toList := by simp
      rw [spelled]
      exact nofun
    case isFalse unmarked =>
      -- The word that is read is the whole name, and `as` would be marked.
      have parts : ∀ character ∈ ident.name.toList, isNameChar character = true := by
        obtain ⟨first, others, spelled, isStart, parts⟩ := wellFormed.isName
        rw [spelled]
        exact List.forall_mem_cons.2 ⟨isNameChar_of_isNameStart isStart, parts⟩
      have stops : rest.takeWhile isNameChar = [] := by
        cases rest with
        | nil => rfl
        | cons character others => simp [ends character rfl]
      rw [List.takeWhile_append_of_pos parts, stops, List.append_nil]
      intro isOperator
      refine unmarked (wellFormed.marked ?_)
      rw [String.toList_inj.1 isOperator]
      rfl
  rw [Emit.nameFollows, opens, Bool.true_and]
  exact bne_iff_ne.2 noOperator

/-! ## Types -/

end ScriptSharp.Emit

namespace ScriptSharp.Ty

mutual
/-- The handles of the nominal types in a type. -/
def handles : Ty → List TypeId
  | .void | .null | .primitive _ => []
  | .named id => [id]
  | .array element => element.handles
  | .generic id arguments => id :: handlesAll arguments
  | .delegate params ret => handlesAll params ++ ret.handles

/-- The handles of the nominal types in types. -/
def handlesAll : List Ty → List TypeId
  | [] => []
  | first :: rest => first.handles ++ handlesAll rest
end

end ScriptSharp.Ty

namespace ScriptSharp.Emit

open Outcome

/-- The type and its namespace have well-formed names. -/
@[mk_iff]
structure WellNamedInfo (info : TypeInfo) : Prop where
  name : IsName isNameChar info.name
  space : ∀ space ∈ info.space, IsName isWordChar space

instance {info : TypeInfo} : Decidable (WellNamedInfo info) :=
  decidable_of_iff' _ (wellNamedInfo_iff info)

/-- The types behind the handles have well-formed names. -/
def WellNamed (names : Names) (handles : List TypeId) : Prop :=
  ∀ id ∈ handles, ∀ info ∈ names.table.get? id, WellNamedInfo info

variable {names : Names}

instance {handles : List TypeId} : Decidable (WellNamed names handles) :=
  inferInstanceAs (Decidable (∀ id ∈ handles, ∀ info ∈ names.table.get? id, WellNamedInfo info))

/-- A sequence of steps ends with a value when each step gives one. -/
theorem bind_eq_ok {ε α β : Type} {first : Except ε α} {next : α → Except ε β} {value : β} :
    (first >>= next) = .ok value ↔ ∃ between, first = .ok between ∧ next between = .ok value :=
  gives_bind (m := Except ε)

/-- What is returned without an error is the given value. -/
theorem pure_eq_ok {ε α : Type} {given value : α} :
    (pure given : Except ε α) = .ok value ↔ value = given :=
  gives_pure (m := Except ε)

/-- Types are well named in a row if they are on both sides. -/
theorem wellNamed_append {first second : List TypeId} :
    WellNamed names (first ++ second) ↔ WellNamed names first ∧ WellNamed names second :=
  List.forall_mem_append

/-- A name that is marked where it has to be is spelled like a name. -/
theorem namelike_escapeWord {name : String} (isName : IsName isNameChar name) :
    Namelike (escapeWord name).toList := by
  rw [escapeWord]
  split
  case isTrue => exact namelike_marked isName
  case isFalse free => exact namelike_free isName (Bool.eq_false_iff.2 free)

/-- The mark is a character that spelled names can have. -/
theorem words_escapeWord {name : String} (isName : IsName isNameChar name) :
    ∀ character ∈ (escapeWord name).toList, isWordChar character = true := by
  have words := isName.words fun _ => isWordChar_of_isNameChar
  rw [escapeWord]
  split
  case isTrue =>
    have spelled : ("@" ++ name).toList = '@' :: name.toList := by simp
    rw [spelled]
    exact List.forall_mem_cons.2 ⟨rfl, words⟩
  case isFalse => exact words

/-- A name with its namespace in front. -/
theorem namelike_qualified {space name : String} (isSpace : IsName isWordChar space)
    (isName : IsName isNameChar name) :
    Namelike (space ++ "." ++ escapeWord name).toList := by
  have words : ∀ character ∈ (space ++ "." ++ escapeWord name).toList,
      isWordChar character = true := by
    simp only [String.toList_append, List.forall_mem_append]
    exact ⟨⟨isSpace.words fun _ => id, by simp [isWordChar]⟩, words_escapeWord isName⟩
  have dotted : '.' ∈ (space ++ "." ++ escapeWord name).toList := by simp
  obtain ⟨first, rest, spelled, isStart, -⟩ := isSpace
  have begins : (space ++ "." ++ escapeWord name).toList =
      first :: (rest ++ '.' :: (escapeWord name).toList) := by simp [spelled]
  rw [begins] at words dotted ⊢
  exact namelike_word (opensName_of_isNameStart isStart) (List.all_eq_true.2 words)
    (lookup_statementWords dotted rfl)

/-- A type with a well-formed name is spelled like a name. -/
theorem namelike_spell {info : TypeInfo} (wellNamed : WellNamedInfo info) :
    Namelike (names.spell info).toList := by
  rw [Names.spell]
  split
  case h_1 space inSpace =>
    split
    · exact namelike_escapeWord wellNamed.name
    · exact namelike_qualified (wellNamed.space space inSpace) wellNamed.name
  case h_2 => exact namelike_escapeWord wellNamed.name

/-- The type behind a handle is spelled like a name. -/
theorem namelike_named {id : TypeId} {text : String} (wellNamed : WellNamed names [id])
    (rendered : names.named id = .ok text) : Namelike text.toList := by
  rw [Names.named] at rendered
  split at rendered
  case h_1 info found =>
    obtain rfl := Except.ok.inj rendered
    exact namelike_spell (wellNamed id List.mem_cons_self info found)
  case h_2 => cases rendered

/-- Parts on one line and separators on it give one line. -/
theorem unbroken_intercalate {separator : List Char} {items : List (List Char)}
    (apart : '\n' ∉ separator) (each : ∀ item ∈ items, '\n' ∉ item) :
    '\n' ∉ separator.intercalate items := by
  induction items with
  | nil => simp
  | cons item items inductionHypothesis =>
    obtain ⟨unbroken, later⟩ := List.forall_mem_cons.1 each
    cases items with
    | nil => simpa using unbroken
    | cons next items =>
      rw [List.intercalate_cons_cons, List.mem_append, List.mem_append]
      exact not_or.2 ⟨not_or.2 ⟨unbroken, apart⟩, inductionHypothesis later⟩

/-- Type arguments with the angle brackets around them are passed over. -/
theorem passes_arguments {arguments : List String}
    (each : ∀ text ∈ arguments, Namelike text.toList) :
    Passes ('<' :: ((", ".intercalate arguments).toList ++ ['>'])) := by
  have passesEach : ∀ item ∈ arguments.map String.toList, Passes item := by
    simpa using fun text member => (each text member).passes
  refine passes_angles fun depth => ?_
  rw [String.toList_intercalate]
  exact passesAt_intercalate passesEach

/-- Type arguments stand on one line. -/
theorem unbroken_arguments {arguments : List String}
    (each : ∀ text ∈ arguments, Namelike text.toList) :
    '\n' ∉ '<' :: ((", ".intercalate arguments).toList ++ ['>']) := by
  have unbroken : '\n' ∉ (", ".intercalate arguments).toList := by
    rw [String.toList_intercalate]
    refine unbroken_intercalate (by decide) ?_
    simpa using fun text member => (each text member).unbroken
  simpa using unbroken

/-- Type arguments behind a name. -/
theorem Namelike.withArguments {name : List Char} {arguments : List String}
    (namelike : Namelike name) (each : ∀ text ∈ arguments, Namelike text.toList) :
    Namelike (name ++ '<' :: ((", ".intercalate arguments).toList ++ ['>'])) :=
  namelike.append_foreign rfl (passes_arguments each) (unbroken_arguments each)

/-- The spelling of a function type. -/
theorem namelike_delegate {returnsValue : Bool} {args : List String}
    (each : ∀ text ∈ args, Namelike text.toList) :
    Namelike (names.delegate returnsValue args).toList := by
  have bare : Namelike ((if names.sees "System" then "" else "System.") ++
      if returnsValue then "Func" else "Action").toList := by
    cases names.sees "System" <;> cases returnsValue <;>
      exact namelike_word rfl rfl rfl
  cases args with
  | nil => exact bare
  | cons first rest =>
    have whole := bare.withArguments each
    simpa [Names.delegate] using whole

mutual
/-- Types are spelled like names. -/
theorem namelike_render : (ty : Ty) → (text : String) → WellNamed names ty.handles →
    names.render ty = .ok text → Namelike text.toList
  | .void, _, _, rendered | .null, _, _, rendered => by
    obtain rfl := Except.ok.inj rendered
    exact namelike_word rfl rfl rfl
  | .primitive basic, _, _, rendered => by
    obtain rfl := Except.ok.inj rendered
    cases basic <;> exact namelike_word rfl rfl rfl
  | .named id, _, wellNamed, rendered => namelike_named wellNamed rendered
  | .array element, _, wellNamed, rendered => by
    simp only [Names.render, bind_eq_ok, pure_eq_ok] at rendered
    obtain ⟨inner, renderedInner, rfl⟩ := rendered
    have namelike := namelike_render element inner wellNamed renderedInner
    simpa using namelike.append_foreign rfl passes_brackets (by decide)
  | .generic id arguments, _, wellNamed, rendered => by
    simp only [Names.render, bind_eq_ok, pure_eq_ok] at rendered
    obtain ⟨name, renderedName, texts, renderedAll, rfl⟩ := rendered
    have both : WellNamed names ([id] ++ Ty.handlesAll arguments) := wellNamed
    obtain ⟨ofName, ofArguments⟩ := wellNamed_append.1 both
    have each := namelike_renderAll arguments texts ofArguments renderedAll
    simpa using (namelike_named ofName renderedName).withArguments each
  | .delegate params ret, _, wellNamed, rendered => by
    simp only [Names.render, bind_eq_ok] at rendered
    obtain ⟨texts, renderedAll, rendered⟩ := rendered
    obtain ⟨ofParams, ofRet⟩ := wellNamed_append.1 wellNamed
    have each := namelike_renderAll params texts ofParams renderedAll
    split at rendered
    · obtain rfl := pure_eq_ok.1 rendered
      exact namelike_delegate each
    · obtain ⟨result, renderedResult, same⟩ := bind_eq_ok.1 rendered
      obtain rfl := pure_eq_ok.1 same
      have ofResult := namelike_render ret result ofRet renderedResult
      exact namelike_delegate (List.forall_mem_append.2 ⟨each, by simpa using ofResult⟩)

/-- The same is true of each type of a list. -/
theorem namelike_renderAll : (types : List Ty) → (texts : List String) →
    WellNamed names (Ty.handlesAll types) → names.renderAll types = .ok texts →
      ∀ text ∈ texts, Namelike text.toList
  | [], _, _, rendered => by
    obtain rfl := Except.ok.inj rendered
    nofun
  | first :: rest, _, wellNamed, rendered => by
    simp only [Names.renderAll, bind_eq_ok, pure_eq_ok] at rendered
    obtain ⟨text, renderedFirst, texts, renderedRest, rfl⟩ := rendered
    obtain ⟨ofFirst, ofRest⟩ := wellNamed_append.1 wellNamed
    exact List.forall_mem_cons.2 ⟨namelike_render first text ofFirst renderedFirst,
      namelike_renderAll rest texts ofRest renderedRest⟩
end

/-! ## Literals -/

/-- The characters of numbers. -/
def isNumeralChar (character : Char) : Bool :=
  character.isDigit || ['.', 'e', '-', 'L', 'f'].contains character

/-- The characters begin with a digit and go on with characters of numbers. -/
structure Numeral (characters : List Char) : Prop where
  begins : ∃ first rest, characters = first :: rest ∧ first.isDigit = true
  parts : ∀ character ∈ characters, isNumeralChar character = true

/-- Digits are characters of numbers. -/
theorem isNumeralChar_of_isDigit {character : Char} (isDigit : character.isDigit = true) :
    isNumeralChar character = true := by
  simp [isNumeralChar, isDigit]

/-- A number goes on with characters of numbers. -/
theorem Numeral.append {first second : List Char} (numeral : Numeral first)
    (parts : ∀ character ∈ second, isNumeralChar character = true) : Numeral (first ++ second) where
  begins := by
    obtain ⟨digit, rest, rfl, isDigit⟩ := numeral.begins
    exact ⟨digit, rest ++ second, rfl, isDigit⟩
  parts := List.forall_mem_append.2 ⟨numeral.parts, parts⟩

/-- Decimal digits are a number. -/
theorem numeral_toDigits (number : Nat) : Numeral (Nat.toDigits 10 number) where
  begins := by
    obtain ⟨first, rest, spelled⟩ := List.exists_cons_of_ne_nil (Nat.toDigits_ne_nil (b := 10))
    have member : first ∈ Nat.toDigits 10 number := by rw [spelled]; exact List.mem_cons_self
    exact ⟨first, rest, spelled, Nat.isDigit_of_mem_toDigits (by decide) (by decide) member⟩
  parts := fun _ member =>
    isNumeralChar_of_isDigit (Nat.isDigit_of_mem_toDigits (by decide) (by decide) member)

/-- A natural number is spelled as a number. -/
theorem numeral_toString (number : Nat) : Numeral (toString number).toList := by
  rw [Nat.toString_eq_ofList_toDigits, String.toList_ofList]
  exact numeral_toDigits number

/-- An integer, with its sign or without, has the characters of numbers. -/
theorem numeralChars_toString (number : Int) :
    ∀ character ∈ (toString number).toList, isNumeralChar character = true := by
  cases number with
  | ofNat magnitude => exact (numeral_toString magnitude).parts
  | negSucc magnitude =>
    have spelled : (toString (Int.negSucc magnitude)).toList =
        '-' :: (toString (magnitude + 1)).toList := by
      change ("-" ++ toString (magnitude + 1)).toList = _
      simp
    rw [spelled]
    exact List.forall_mem_cons.2 ⟨rfl, (numeral_toString _).parts⟩

/-- Zeros that pad a number belong to it. -/
theorem numeralChars_replicate (count : Nat) :
    ∀ character ∈ List.replicate count '0', isNumeralChar character = true := by
  intro character member
  rw [List.eq_of_mem_replicate member]
  rfl

/-- Digits with a point among them are a number. -/
theorem numeral_plainText {digits : List Char} (numeral : Numeral digits) (point : Int) :
    Numeral (Decimal.plainText digits point) := by
  rw [Decimal.plainText]
  split_ifs with small long
  · refine ⟨⟨'0', _, rfl, rfl⟩, ?_⟩
    simp only [List.forall_mem_cons, List.forall_mem_append]
    exact ⟨rfl, rfl, numeralChars_replicate _, numeral.parts⟩
  · rw [List.append_assoc]
    refine numeral.append (List.forall_mem_append.2 ⟨numeralChars_replicate _, ?_⟩)
    simp [isNumeralChar]
  · have parts : ∀ character ∈ digits.take point.natAbs ++ '.' :: digits.drop point.natAbs,
        isNumeralChar character = true := by
      rw [List.forall_mem_append, List.forall_mem_cons]
      exact ⟨fun character member => numeral.parts character (List.mem_of_mem_take member), rfl,
        fun character member => numeral.parts character (List.mem_of_mem_drop member)⟩
    obtain ⟨digit, rest, rfl, isDigit⟩ := numeral.begins
    obtain ⟨count, positive⟩ : ∃ count, point.natAbs = count + 1 :=
      ⟨point.natAbs - 1, by omega⟩
    rw [positive] at parts ⊢
    exact ⟨⟨digit, _, rfl, isDigit⟩, parts⟩

/-- Digits with an exponent are a number. -/
theorem numeral_exponentText {digits : List Char} (numeral : Numeral digits) (point : Int) :
    Numeral (Decimal.exponentText digits point) := by
  have exponent : ∀ character ∈ 'e' :: (toString (point - 1)).toList,
      isNumeralChar character = true :=
    List.forall_mem_cons.2 ⟨rfl, numeralChars_toString _⟩
  obtain ⟨⟨digit, rest, rfl, isDigit⟩, parts⟩ := numeral
  obtain ⟨isPart, later⟩ := List.forall_mem_cons.1 parts
  cases rest with
  | nil => exact Numeral.append ⟨⟨digit, [], rfl, isDigit⟩, by simpa using isPart⟩ exponent
  | cons next rest =>
    refine Numeral.append ⟨⟨digit, _, rfl, isDigit⟩, ?_⟩ exponent
    exact List.forall_mem_cons.2 ⟨isPart, List.forall_mem_cons.2 ⟨rfl, later⟩⟩

/-- The magnitude of a finite double is spelled as a number. -/
theorem numeral_magnitude (layout : Decimal.Layout) (number : Decimal.Scaled) :
    Numeral (layout.magnitude number) := by
  simp only [Decimal.Layout.magnitude]
  split_ifs
  · exact ⟨⟨'0', _, rfl, rfl⟩, by simp [isNumeralChar]⟩
  · exact numeral_plainText (numeral_toDigits _) _
  · exact numeral_exponentText (numeral_toDigits _) _

/-- A number stands on one line. -/
theorem Numeral.unbroken {characters : List Char} (numeral : Numeral characters) :
    '\n' ∉ characters := fun isThere => by cases numeral.parts _ isThere

/-- A number is read as an expression. -/
theorem Numeral.saysExpr {characters : List Char} (numeral : Numeral characters) :
    SaysExpr characters := by
  obtain ⟨first, rest, rfl, isDigit⟩ := numeral.begins
  refine saysExpr_of_first ?_ rest
  have noMark : first ≠ '@' := by
    rintro rfl
    cases isDigit
  simp [opensName, isNameStart, isDigit, noMark]

/-- The digits of an escape sequence stand on one line. -/
theorem unbroken_fourDigits {character : Char} (control : isControl character = true) :
    '\n' ∉ fourDigits character := by
  have digits : ∀ code < 160, '\n' ∉ fourDigits (Char.ofNat code) := by decide +kernel
  simp only [isControl, Bool.or_eq_true, Bool.and_eq_true, decide_eq_true_eq] at control
  have small := digits character.toNat (by omega)
  rwa [Char.ofNat_toNat] at small

/-- An escape sequence stays on its line. -/
theorem unbroken_escapeChar (quote character : Char) : '\n' ∉ escapeChar quote character := by
  by_cases isLineFeed : character = '\n'
  · subst isLineFeed
    simp [escapeChar]
  · have other : '\n' ≠ character := Ne.symm isLineFeed
    rw [escapeChar]
    split_ifs with _ _ _ _ _ control <;> simp [other]
    exact unbroken_fourDigits control

/-- A literal between quotes stands on one line, whatever it holds. -/
theorem unbroken_quoted {quote : Char} (apart : quote ≠ '\n') (characters : List Char) :
    '\n' ∉ quoted quote characters := by
  have inside : '\n' ∉ characters.flatMap (escapeChar quote) := by
    rw [List.mem_flatMap]
    rintro ⟨character, -, isThere⟩
    exact unbroken_escapeChar quote character isThere
  simp [quoted, inside, apart.symm]

/-! ## Text of expressions -/

/-- The characters stand on one line. They begin with no blank, and nothing that they follow ends
with them. -/
structure Flat (characters : List Char) : Prop where
  unbroken : '\n' ∉ characters
  begins : ∃ first rest, characters = first :: rest ∧ first ≠ ' ' ∧ first ≠ ']'

/-- The characters stand on one line, and they are read as an expression. -/
structure Written (characters : List Char) : Prop extends Flat characters where
  isExpr : SaysExpr characters

/-- What begins flat stays flat if no line break follows. -/
theorem Flat.append {first second : List Char} (flat : Flat first) (unbroken : '\n' ∉ second) :
    Flat (first ++ second) where
  unbroken := by
    rw [List.mem_append]
    exact not_or.2 ⟨flat.unbroken, unbroken⟩
  begins := by
    obtain ⟨character, rest, rfl, shown⟩ := flat.begins
    exact ⟨character, rest ++ second, rfl, shown⟩

/-- What is read as an expression goes on being one when something follows on the same line that
keeps it one. -/
theorem Written.append {first second : List Char} (written : Written first)
    (unbroken : '\n' ∉ second) (quiets : Quiets second) : Written (first ++ second) where
  toFlat := written.toFlat.append unbroken
  isExpr := written.isExpr.append quiets

/-- What begins with no name, type, blank or bracket is an expression. -/
theorem written_of_first {character : Char} {rest : List Char}
    (other : opensName character = false) (shown : character ≠ ' ' ∧ character ≠ ']')
    (unbroken : '\n' ∉ character :: rest) : Written (character :: rest) where
  unbroken := unbroken
  begins := ⟨character, rest, rfl, shown⟩
  isExpr := saysExpr_of_first other rest

/-- A name is read as an expression. -/
theorem Namelike.written {characters : List Char} (namelike : Namelike characters) :
    Written characters where
  unbroken := namelike.unbroken
  begins := by
    obtain ⟨first, rest, rfl, opens⟩ := namelike.opens
    refine ⟨first, rest, rfl, ?_, ?_⟩
    · rintro rfl
      cases opens
    · rintro rfl
      cases opens
  isExpr := namelike.saysExpr

/-- A number is read as an expression, on one line. -/
theorem Numeral.written {characters : List Char} (numeral : Numeral characters) :
    Written characters where
  unbroken := numeral.unbroken
  begins := by
    obtain ⟨first, rest, rfl, isDigit⟩ := numeral.begins
    refine ⟨first, rest, rfl, ?_, ?_⟩
    · rintro rfl
      cases isDigit
    · rintro rfl
      cases isDigit
  isExpr := numeral.saysExpr

/-- The spelling of a number is a numeral, or a word when the number is not finite. -/
theorem numberText_cases (number : Binary64) :
    Numeral (numberText number).toList ∨ numberText number = "NaN" ∨ numberText number = "inf" := by
  rw [numberText, Decimal.Layout.unsigned]
  split_ifs
  · rw [String.toList_ofList]
    exact .inl (numeral_magnitude _ _)
  · exact .inr (.inl rfl)
  · exact .inr (.inr rfl)

/-- A literal without its sign is read as an expression. -/
theorem written_unsignedText (value : Literal) : Written (unsignedText value).toList := by
  cases value with
  | null => exact (namelike_word rfl rfl rfl).written
  | bool value => cases value <;> exact (namelike_word rfl rfl rfl).written
  | int value => exact (numeral_toString _).written
  | long value =>
    have numeral : Numeral (toString value.natAbs ++ "L").toList := by
      rw [String.toList_append]
      exact (numeral_toString _).append (by simp [isNumeralChar])
    exact numeral.written
  | float value =>
    rw [unsignedText]
    rcases numberText_cases value with numeral | undefined | infinite
    · rw [String.toList_append]
      exact (numeral.append (by simp [isNumeralChar])).written
    · rw [undefined]
      exact (namelike_word rfl rfl rfl).written
    · rw [infinite]
      exact (namelike_word rfl rfl rfl).written
  | double value =>
    rw [unsignedText]
    rcases numberText_cases value with numeral | undefined | infinite
    · exact numeral.written
    · rw [undefined]
      exact (namelike_word rfl rfl rfl).written
    · rw [infinite]
      exact (namelike_word rfl rfl rfl).written
  | char value =>
    rw [unsignedText, String.toList_ofList]
    exact written_of_first (by decide) (by decide) (unbroken_quoted (by decide) _)
  | string value =>
    rw [unsignedText, String.toList_ofList]
    exact written_of_first (by decide) (by decide) (unbroken_quoted (by decide) _)

end ScriptSharp.Emit
