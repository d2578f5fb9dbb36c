import Mathlib.Tactic.SplitIfs
import ScriptSharp.Emit.Unit
import ScriptSharp.Proofs.Types.Naming

/-!
# Types that are spelled alike

A unit names a type by its simple name when it imports the namespace of the type, and so two types
of one simple name are spelled alike when both of their namespaces are imported, or one of them has
none. Where a type is the type of an attribute, it is written with its full name and without the
suffix that the name ends in. `Names.spelled_alike_iff` says for both kinds of places which types
are spelled alike, and that no others are: a spelling is split at its last dot into what it shows of
the namespace and the name.
-/

namespace ScriptSharp.Emit

/-! ## Identifiers -/

/-- What identifiers have in common: they are not empty and hold neither a dot nor the mark. -/
@[mk_iff]
structure IsSimple (name : String) : Prop where
  present : name.toList ≠ []
  undotted : '.' ∉ name.toList
  unmarked : '@' ∉ name.toList

instance {name : String} : Decidable (IsSimple name) :=
  decidable_of_iff' _ (isSimple_iff name)

section Words

variable {first second : String}

/-- A word is written behind its mark, if it has one. -/
theorem toList_escapeWord (name : String) : (escapeWord name).toList =
    (if isReservedWord name then ['@'] else []) ++ name.toList := by
  rw [escapeWord]
  split <;> simp

/-- A mark brings no dot in. -/
theorem undotted_escapeWord (simple : IsSimple first) : '.' ∉ (escapeWord first).toList := by
  rw [toList_escapeWord]
  split <;> simpa using simple.undotted

/-- The mark is no part of an identifier, so it does not hide which word is marked. -/
theorem escapeWord_inj (simpleFirst : IsSimple first) (simpleSecond : IsSimple second) :
    escapeWord first = escapeWord second ↔ first = second := by
  constructor
  · intro same
    have unmarkedFirst := simpleFirst.unmarked
    have unmarkedSecond := simpleSecond.unmarked
    rw [← String.toList_inj, toList_escapeWord, toList_escapeWord] at same
    rw [← String.toList_inj]
    split at same <;> split at same <;> simp only [List.cons_append, List.nil_append] at same
    · exact (List.cons.inj same).2
    · simp [← same] at unmarkedSecond
    · simp [same] at unmarkedFirst
    · exact same
  · exact congrArg escapeWord

/-- A word that is spelled like an identifier with something behind it is not marked. -/
theorem not_reserved_of_escapeWord {name : List Char} (simple : IsSimple second)
    (same : (escapeWord first).toList ++ name = second.toList) : isReservedWord first = false := by
  rw [Bool.eq_false_iff]
  intro reserved
  have unmarked := simple.unmarked
  rw [← same, toList_escapeWord, if_pos reserved] at unmarked
  simp at unmarked

end Words

/-! ## What a unit shows of a type -/

namespace Names

/-- The unit names the type without its namespace: it has none, or the namespace is imported. -/
def Bare (names : Names) (info : TypeInfo) : Prop :=
  ∀ space ∈ info.space, names.sees space = true

instance {names : Names} {info : TypeInfo} : Decidable (names.Bare info) :=
  inferInstanceAs (Decidable (∀ space ∈ info.space, names.sees space = true))

/-- The name of a type as the unit shows it, where it is no reserved word. -/
def shown (names : Names) (info : TypeInfo) : String :=
  if names.Bare info then info.name else info.fullName

/-- What the unit shows of the namespace. -/
def qualifier (names : Names) (info : TypeInfo) : List Char :=
  if names.Bare info then [] else info.qualifier

variable {names : Names} {info first second : TypeInfo}

/-- The qualifier of a type ends in a dot or is empty. -/
theorem isQualifier_qualifier : IsQualifier (names.qualifier info) := by
  rw [qualifier]
  split
  · simp [IsQualifier]
  · exact info.isQualifier_qualifier

/-- A shown name is the qualifier and the simple name. -/
theorem toList_shown : (names.shown info).toList = names.qualifier info ++ info.name.toList := by
  rw [shown, qualifier]
  split
  · rfl
  · exact info.toList_fullName

/-- A spelled name is the qualifier and the simple name, which may be marked. -/
theorem toList_spell :
    (names.spell info).toList = names.qualifier info ++ (escapeWord info.name).toList := by
  rw [spell, qualifier, TypeInfo.qualifier]
  cases present : info.space with
  | none => simp [Bare, present]
  | some space => by_cases sees : names.sees space = true <;> simp [Bare, present, sees]

/-- A type that the unit does not name by its simple name has a namespace. -/
theorem qualifier_ne_nil (hidden : ¬ names.Bare info) : info.qualifier ≠ [] := by
  rw [TypeInfo.qualifier]
  cases present : info.space with
  | none => simp [Bare, present] at hidden
  | some space => simp

/-- Two names are the same only behind the same qualifier. -/
theorem append_inj_of_undotted {qualifier other name rest : List Char}
    (isQualifier : IsQualifier qualifier) (isOther : IsQualifier other) (undotted : '.' ∉ name)
    (undottedRest : '.' ∉ rest) (same : qualifier ++ name = other ++ rest) :
    qualifier = other ∧ name = rest := by
  have sameName : name = rest := by
    rw [← afterLastDot_append isQualifier undotted, same, afterLastDot_append isOther undottedRest]
  rw [sameName] at same
  exact ⟨List.append_cancel_right same, sameName⟩

/-! ## Types -/

/-- Types with different full names are spelled alike when the unit names both of them by one
simple name. -/
theorem spell_eq_iff (simpleFirst : IsSimple first.name) (simpleSecond : IsSimple second.name)
    (different : first.fullName ≠ second.fullName) :
    names.spell first = names.spell second ↔
      first.name = second.name ∧ names.Bare first ∧ names.Bare second := by
  constructor
  · intro same
    rw [← String.toList_inj, toList_spell, toList_spell] at same
    obtain ⟨sameQualifier, sameWord⟩ :=
      append_inj_of_undotted isQualifier_qualifier isQualifier_qualifier
        (undotted_escapeWord simpleFirst) (undotted_escapeWord simpleSecond) same
    have sameName := (escapeWord_inj simpleFirst simpleSecond).1 (String.toList_inj.1 sameWord)
    have apart : first.qualifier ≠ second.qualifier := by
      intro sameSpace
      refine different (String.toList_inj.1 ?_)
      rw [TypeInfo.toList_fullName, TypeInfo.toList_fullName, sameSpace, sameName]
    -- Where the unit shows one of the namespaces, the other type has the same one.
    rw [qualifier, qualifier] at sameQualifier
    split_ifs at sameQualifier with bareFirst bareSecond bareSecond
    · exact ⟨sameName, bareFirst, bareSecond⟩
    · exact absurd sameQualifier.symm (qualifier_ne_nil bareSecond)
    · exact absurd sameQualifier (qualifier_ne_nil bareFirst)
    · exact absurd sameQualifier apart
  · rintro ⟨sameName, bareFirst, bareSecond⟩
    rw [← String.toList_inj, toList_spell, toList_spell, qualifier, qualifier, if_pos bareFirst,
      if_pos bareSecond, sameName]

/-! ## Attributes -/

/-- The type is spelled with its full name where it is the type of an attribute. -/
def KeepsSuffix (info : TypeInfo) : Prop :=
  withoutSuffix info.fullName.toList = info.fullName.toList

instance {info : TypeInfo} : Decidable (KeepsSuffix info) :=
  inferInstanceAs (Decidable (_ = _))

/-- The second type has the name of the first one with the suffix behind it, and the first one has
no suffix to lose. -/
def SuffixApart (first second : TypeInfo) : Prop :=
  second.fullName = first.fullName ++ "Attribute" ∧ KeepsSuffix first

/-- The suffix behind an identifier is left out. -/
theorem withoutSuffix_append {qualifier : List Char} {name : String} (simple : IsSimple name) :
    withoutSuffix (qualifier ++ name.toList ++ attributeSuffix) = qualifier ++ name.toList := by
  have ends : (qualifier ++ name.toList).getLast? ≠ some '.' := by
    rw [List.getLast?_append_of_ne_nil _ simple.present]
    exact fun isDot => simple.undotted (List.mem_of_getLast? isDot)
  have present : qualifier ++ name.toList ≠ [] :=
    List.append_ne_nil_of_right_ne_nil _ simple.present
  generalize qualifier ++ name.toList = stem at present ends ⊢
  have isSuffix : attributeSuffix.isSuffixOf (stem ++ attributeSuffix) = true := by simp
  have isStem : (stem ++ attributeSuffix).take
      ((stem ++ attributeSuffix).length - attributeSuffix.length) = stem := by simp
  simp only [withoutSuffix, isSuffix, isStem]
  simp [present, ends]

/-- A full name is kept, or it is the spelling with the suffix behind it. -/
theorem withoutSuffix_cases (fullName : List Char) : withoutSuffix fullName = fullName ∨
    fullName = withoutSuffix fullName ++ attributeSuffix := by
  simp only [withoutSuffix]
  split_ifs with ends
  · exact .inl rfl
  · obtain ⟨stem, rfl⟩ := List.isSuffixOf_iff_suffix.1 ends
    exact .inr (by simp)
  · exact .inl rfl

/-- Types whose names are the same but for the suffix are the same attribute. -/
theorem SuffixApart.alike (apart : SuffixApart first second) (simple : IsSimple first.name) :
    withoutSuffix first.fullName.toList = withoutSuffix second.fullName.toList := by
  obtain ⟨longer, keeps⟩ := apart
  have spelled : second.fullName.toList =
      first.qualifier ++ first.name.toList ++ attributeSuffix := by
    rw [longer, String.toList_append, TypeInfo.toList_fullName]
    rfl
  rw [keeps, spelled, withoutSuffix_append simple, TypeInfo.toList_fullName]

/-- Types with different full names are spelled alike as attributes when the suffix is all that
tells them apart. -/
theorem withoutSuffix_eq_iff (simpleFirst : IsSimple first.name)
    (simpleSecond : IsSimple second.name) (different : first.fullName ≠ second.fullName) :
    withoutSuffix first.fullName.toList = withoutSuffix second.fullName.toList ↔
      SuffixApart first second ∨ SuffixApart second first := by
  constructor
  · intro same
    have apart : first.fullName.toList ≠ second.fullName.toList :=
      fun sameName => different (String.toList_inj.1 sameName)
    rcases withoutSuffix_cases first.fullName.toList with keepsFirst | losesFirst <;>
      rcases withoutSuffix_cases second.fullName.toList with keepsSecond | losesSecond
    · exact absurd (keepsFirst.symm.trans (same.trans keepsSecond)) apart
    · refine .inl ⟨String.toList_inj.1 ?_, keepsFirst⟩
      rw [losesSecond, ← same, keepsFirst, String.toList_append]
      rfl
    · refine .inr ⟨String.toList_inj.1 ?_, keepsSecond⟩
      rw [losesFirst, same, keepsSecond, String.toList_append]
      rfl
    · exact absurd (losesFirst.trans (same ▸ losesSecond.symm)) apart
  · rintro (apart | apart)
    · exact apart.alike simpleFirst
    · exact (apart.alike simpleSecond).symm

/-! ## Types and attributes -/

/-- A type is spelled like an attribute when the unit shows it under the full name of the attribute,
or under that name without its suffix. A reserved word is marked as a type, and not as an
attribute. -/
theorem spell_eq_attribute_iff (simpleFirst : IsSimple first.name)
    (simpleSecond : IsSimple second.name) :
    names.spell first = String.ofList (withoutSuffix second.fullName.toList) ↔
      isReservedWord first.name = false ∧
        (second.fullName = names.shown first ∧ KeepsSuffix second ∨
          second.fullName = names.shown first ++ "Attribute") := by
  rw [← String.toList_inj, String.toList_ofList, toList_spell]
  have plain (free : isReservedWord first.name = false) : names.qualifier first ++
      (escapeWord first.name).toList = (names.shown first).toList := by
    rw [toList_escapeWord, free, toList_shown]
    rfl
  constructor
  · intro same
    -- The name of the attribute begins with the word for the type, and has no mark in it.
    have free (behind : List Char) (dotless : '.' ∉ behind) (spelled : second.fullName.toList =
        names.qualifier first ++ ((escapeWord first.name).toList ++ behind)) :
        isReservedWord first.name = false := by
      rw [TypeInfo.toList_fullName] at spelled
      have undotted : '.' ∉ (escapeWord first.name).toList ++ behind := by
        rw [List.mem_append]
        exact not_or.2 ⟨undotted_escapeWord simpleFirst, dotless⟩
      have sameName := (append_inj_of_undotted second.isQualifier_qualifier isQualifier_qualifier
        simpleSecond.undotted undotted spelled).2
      exact not_reserved_of_escapeWord simpleSecond sameName.symm
    rcases withoutSuffix_cases second.fullName.toList with keeps | loses
    · have free := free [] (by simp) (by rw [List.append_nil, same, keeps])
      refine ⟨free, .inl ⟨String.toList_inj.1 ?_, keeps⟩⟩
      rw [← plain free, same, keeps]
    · have free := free attributeSuffix (by decide) (by rw [← List.append_assoc, same, ← loses])
      refine ⟨free, .inr (String.toList_inj.1 ?_)⟩
      rw [String.toList_append, ← plain free, same]
      exact loses
  · rintro ⟨free, ⟨sameName, keeps⟩ | longer⟩
    · rw [plain free, keeps, sameName]
    · rw [plain free, longer, String.toList_append, toList_shown]
      exact (withoutSuffix_append simpleFirst).symm

end Names

/-! ## Types of a table -/

/-- Both give a spelling, and it is the same one. -/
def Alike (first second : Except Fault String) : Prop :=
  ∃ text, first = .ok text ∧ second = .ok text

/-- No two types of the table have the same full name, and the simple names are identifiers. -/
@[mk_iff]
structure Distinct (table : TypeTable) : Prop where
  fullNames : (table.toTypes.map TypeInfo.fullName).Nodup
  simple : ∀ info ∈ table.toTypes, IsSimple info.name

instance {table : TypeTable} : Decidable (Distinct table) :=
  decidable_of_iff' _ (distinct_iff table)

namespace Distinct

variable {table : TypeTable} {id other : TypeId} {info found : TypeInfo}

/-- In a table of distinct names every simple name is one. -/
theorem isSimple (distinct : Distinct table) (isThere : table.get? id = some info) :
    IsSimple info.name := by
  obtain ⟨entry, atPlace, rfl⟩ := Option.map_eq_some_iff.1 isThere
  exact distinct.simple _ (List.mem_map_of_mem (List.mem_of_getElem? atPlace))

/-- In a table of distinct names different types have different names. -/
theorem fullName_ne (distinct : Distinct table) (different : id ≠ other)
    (isThere : table.get? id = some info) (otherThere : table.get? other = some found) :
    info.fullName ≠ found.fullName := by
  have place {id : TypeId} {info : TypeInfo} (isThere : table.get? id = some info) :
      (table.toTypes.map TypeInfo.fullName)[id]? = some info.fullName := by
    rw [List.getElem?_map, TypeTable.toTypes, List.getElem?_map]
    exact congrArg (Option.map TypeInfo.fullName) isThere
  intro same
  have inside := (List.getElem?_eq_some_iff.1 (place isThere)).1
  refine different ((List.getElem?_inj inside distinct.fullNames).1 ?_)
  rw [place isThere, place otherThere, same]

end Distinct

namespace Names

variable {names : Names} {id first second : TypeId} {text : String}

/-- A type of the table is spelled. -/
theorem named_eq_ok : names.named id = .ok text ↔
    ∃ info, names.table.get? id = some info ∧ names.spell info = text := by
  rw [named]
  cases names.table.get? id <;> simp

/-- A type of the table is spelled as an attribute. -/
theorem attributeName_eq_ok : names.attributeName (.named id) = .ok text ↔
    ∃ info, names.table.get? id = some info ∧
      String.ofList (withoutSuffix info.fullName.toList) = text := by
  rw [attributeName, Ty.typeId?, Option.bind_some]
  cases missing : names.table.get? id with
  | none => simp [render, named, missing]
  | some info => simp

/-- Two spellings are alike when there are types behind both handles and they are spelled alike. -/
theorem alike_iff {left right : Except Fault String} {spellLeft spellRight : TypeInfo → String}
    (ofLeft : ∀ text, left = .ok text ↔
      ∃ info, names.table.get? first = some info ∧ spellLeft info = text)
    (ofRight : ∀ text, right = .ok text ↔
      ∃ info, names.table.get? second = some info ∧ spellRight info = text) :
    Alike left right ↔ ∃ info found, names.table.get? first = some info ∧
      names.table.get? second = some found ∧ spellLeft info = spellRight found := by
  simp only [Alike, ofLeft, ofRight]
  constructor
  · rintro ⟨_, ⟨info, isFirst, rfl⟩, found, isSecond, same⟩
    exact ⟨info, found, isFirst, isSecond, same.symm⟩
  · rintro ⟨info, found, isFirst, isSecond, same⟩
    exact ⟨_, ⟨info, isFirst, rfl⟩, found, isSecond, same.symm⟩

/-- The namespaces that a unit imports are those of the source, those that lowering needs and those
that every file has. -/
theorem mem_imports {style : Style} {unit : SourceUnit} {space : String} :
    space ∈ style.imports unit ↔
      space ∈ unit.imports ∨ space ∈ unit.implicitImports ∨ space ∈ style.baselineImports := by
  have collected (spaces seen : List String) :
      space ∈ spaces.foldl (fun seen space => if space ∈ seen then seen else seen ++ [space]) seen ↔
        space ∈ seen ∨ space ∈ spaces := by
    induction spaces generalizing seen with
    | nil => simp
    | cons first rest inductionHypothesis =>
      rw [List.foldl_cons, inductionHypothesis]
      split <;> grind
  rw [Style.imports, collected]
  simp

/-- A type is spelled without its namespace if that is imported by the source, by lowering or by the
style. -/
theorem bare_iff {style : Style} {unit : SourceUnit} {info : TypeInfo}
    (imported : names.imports = style.imports unit) : names.Bare info ↔ ∀ space ∈ info.space,
      space ∈ unit.imports ∨ space ∈ unit.implicitImports ∨ space ∈ style.baselineImports := by
  simp only [Bare, sees, imported, List.contains_iff_mem, mem_imports]

/-- Two types are spelled alike when they have the same simple name and each of them has no
namespace or one that the unit imports. As attributes they are spelled alike when the suffix is all
that tells their full names apart, and a type and an attribute are when the one is shown under the
name of the other, possibly without its suffix. Nothing else makes them alike. -/
theorem spelled_alike_iff (distinct : Distinct names.table) (different : first ≠ second) :
    (Alike (names.named first) (names.named second) ↔
        ∃ info found, names.table.get? first = some info ∧ names.table.get? second = some found ∧
          info.name = found.name ∧ names.Bare info ∧ names.Bare found) ∧
      (Alike (names.attributeName (.named first)) (names.attributeName (.named second)) ↔
        ∃ info found, names.table.get? first = some info ∧ names.table.get? second = some found ∧
          (SuffixApart info found ∨ SuffixApart found info)) ∧
      (Alike (names.named first) (names.attributeName (.named second)) ↔
        ∃ info found, names.table.get? first = some info ∧ names.table.get? second = some found ∧
          isReservedWord info.name = false ∧
            (found.fullName = names.shown info ∧ KeepsSuffix found ∨
              found.fullName = names.shown info ++ "Attribute")) ∧
      ∀ (style : Style) (unit : SourceUnit), names.imports = style.imports unit →
        ∀ info, names.Bare info ↔ ∀ space ∈ info.space,
          space ∈ unit.imports ∨ space ∈ unit.implicitImports ∨ space ∈ style.baselineImports := by
  refine ⟨(alike_iff (fun _ => named_eq_ok) fun _ => named_eq_ok).trans ?_,
    (alike_iff (fun _ => attributeName_eq_ok) fun _ => attributeName_eq_ok).trans ?_,
    (alike_iff (fun _ => named_eq_ok) fun _ => attributeName_eq_ok).trans ?_,
    fun style unit imported info => bare_iff imported⟩
  all_goals
    refine exists_congr fun info => exists_congr fun found => and_congr_right fun isFirst =>
      and_congr_right fun isSecond => ?_
    have simpleFirst := distinct.isSimple isFirst
    have simpleSecond := distinct.isSimple isSecond
    have apart := distinct.fullName_ne different isFirst isSecond
  · exact spell_eq_iff simpleFirst simpleSecond apart
  · exact String.ofList_inj.trans (withoutSuffix_eq_iff simpleFirst simpleSecond apart)
  · exact spell_eq_attribute_iff simpleFirst simpleSecond

end Names

/-! Timers of two namespaces, in a unit that imports one of them and in one that imports both. -/

namespace Timers

/-- A timer of the library and one of the program. -/
def table : TypeTable :=
  .ofTypes [⟨"Timer", some "System", .classType, none, [], []⟩,
    ⟨"Timer", some "Game", .classType, none, [], []⟩]

/-- What a unit with these imports knows about the names of types. -/
def names (imports : List String) : Names :=
  ⟨table, Style.standard.imports ⟨"Clock.js", imports, [], [], [], none⟩⟩

end Timers

/-- The two timers are told apart where one namespace is imported. -/
theorem Names.spelled_alike_iff_timers : Distinct (Timers.names ["System"]).table ∧
    (0 : TypeId) ≠ 1 ∧
      ¬ Alike ((Timers.names ["System"]).named 0) ((Timers.names ["System"]).named 1) := by
  have distinct : Distinct (Timers.names ["System"]).table := by decide +kernel
  have different : (0 : TypeId) ≠ 1 := by decide
  refine ⟨distinct, different, fun alike => ?_⟩
  obtain ⟨info, found, -, isSecond, -, -, bare⟩ :=
    (Names.spelled_alike_iff distinct different).1.1 alike
  cases isSecond
  exact absurd bare (by decide)

/-- With both namespaces imported, the two types have the same spelling. -/
theorem Names.timers_spelled_alike : Distinct Timers.table ∧
    (Timers.names ["System", "Game"]).named 0 = .ok "Timer" ∧
      (Timers.names ["System", "Game"]).named 1 = .ok "Timer" :=
  ⟨by decide +kernel, rfl, rfl⟩

end ScriptSharp.Emit
