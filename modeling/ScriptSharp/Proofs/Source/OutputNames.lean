import Mathlib.Data.List.DropRight
import ScriptSharp.Source.File

/-!
# Names of emitted files

A path is a directory with a last part behind it, and the emitted file is meant to differ from the
source in nothing but the extension of that part. `SourceFile.outputName_keeps` says what holds: the
directory stays, the new extension stands behind the last dot, and the stem stays up to one kind of
files. For the stem, a dot in front of the last part begins no extension; for the emitted name it
begins one unless it is the first character of the whole path.
-/

namespace ScriptSharp

namespace FileName

variable {name front last extension before after : List Char}

/-! ## Cutting at the last character of a kind -/

section Cut

variable {wanted : Char → Bool}

/-- A text without a wanted character is not split. -/
theorem splitLast_eq_none (absent : ∀ character ∈ name, wanted character = false) :
    splitLast wanted name = none := by
  induction name with
  | nil => rfl
  | cons first rest inductionHypothesis =>
    obtain ⟨other, others⟩ := List.forall_mem_cons.1 absent
    simp [splitLast, inductionHypothesis others, other]

/-- The cut is in front of the part that has nothing of the kind in it. -/
theorem splitLast_append {character : Char} (isWanted : wanted character = true)
    (absent : ∀ character ∈ after, wanted character = false) :
    splitLast wanted (before ++ character :: after) = some (before, after) := by
  induction before with
  | nil => simp [splitLast, splitLast_eq_none absent, isWanted]
  | cons first rest inductionHypothesis => simp [splitLast, inductionHypothesis]

/-- A list is cut unless nothing in it is of the kind. -/
theorem splitLast_cases (wanted : Char → Bool) (name : List Char) :
    (∀ character ∈ name, wanted character = false) ∨
      ∃ before character after, name = before ++ character :: after ∧ wanted character = true ∧
        ∀ character ∈ after, wanted character = false := by
  induction name with
  | nil => exact .inl (by simp)
  | cons first rest inductionHypothesis =>
    rcases inductionHypothesis with absent | ⟨before, character, after, rfl, isWanted, absent⟩
    · by_cases isWanted : wanted first = true
      · exact .inr ⟨[], first, rest, rfl, isWanted, absent⟩
      · exact .inl (List.forall_mem_cons.2 ⟨by simpa using isWanted, absent⟩)
    · exact .inr ⟨first :: before, character, after, rfl, isWanted, absent⟩

/-- A text has no dot if none of its characters is one. -/
theorem undotted_iff : '.' ∉ name ↔ ∀ character ∈ name, (character == '.') = false := by
  simp only [beq_eq_false_iff_ne]
  exact ⟨fun absent _ member same => absent (same ▸ member), fun other member => other _ member rfl⟩

/-- A text without a dot is not split. -/
theorem splitDot_eq_none (undotted : '.' ∉ name) : splitLast (· == '.') name = none :=
  splitLast_eq_none (undotted_iff.1 undotted)

/-- A text is split at its last dot. -/
theorem splitDot_append (undotted : '.' ∉ after) :
    splitLast (· == '.') (before ++ '.' :: after) = some (before, after) :=
  splitLast_append (by decide) (undotted_iff.1 undotted)

/-- A list has no dot, or a last one. -/
theorem splitDot_cases (name : List Char) :
    '.' ∉ name ∨ ∃ before after, name = before ++ '.' :: after ∧ '.' ∉ after := by
  rcases splitLast_cases (· == '.') name with absent | ⟨before, dot, after, rfl, isDot, absent⟩
  · exact .inl (undotted_iff.2 absent)
  · obtain rfl : dot = '.' := by simpa using isDot
    exact .inr ⟨before, after, rfl, undotted_iff.2 absent⟩

end Cut

/-! ## Directories -/

/-- What stands in front of the last part of a path, with the separator between them. -/
def directory (name : List Char) : List Char :=
  name.rdropWhile (!isSeparator ·)

/-- The list can stand in front of the last part of a path. -/
def IsDirectory (front : List Char) : Prop :=
  ∀ character ∈ front.getLast?, isSeparator character = true

/-- The list can be the last part of a path. -/
def IsLastPart (last : List Char) : Prop :=
  ∀ character ∈ last, isSeparator character = false

/-- The directory is what stands in front of the last part. -/
theorem directory_append (isDirectory : IsDirectory front) (isLastPart : IsLastPart last) :
    directory (front ++ last) = front := by
  have dropped : ∀ character ∈ last.reverse, (!isSeparator character) = true := by
    intro character member
    simpa using isLastPart character (List.mem_reverse.1 member)
  rw [directory, List.rdropWhile, List.reverse_append, List.dropWhile_append_of_pos dropped]
  rcases List.eq_nil_or_concat front with rfl | ⟨before, character, rfl⟩
  · rfl
  · have separates : isSeparator character = true := isDirectory character (by simp)
    simp [separates]

/-- The last part is what stands behind the directory. -/
theorem base_append (isDirectory : IsDirectory front) (isLastPart : IsLastPart last) :
    base (front ++ last) = last := by
  rw [base]
  rcases List.eq_nil_or_concat front with rfl | ⟨before, character, rfl⟩
  · rw [List.nil_append, splitLast_eq_none isLastPart]
  · have separates : isSeparator character = true := isDirectory character (by simp)
    rw [List.concat_eq_append, List.append_assoc, List.singleton_append,
      splitLast_append separates isLastPart]

/-- Every path is a directory with a last part behind it. -/
theorem exists_directory_append (name : List Char) :
    ∃ front last, name = front ++ last ∧ IsDirectory front ∧ IsLastPart last := by
  rcases splitLast_cases isSeparator name with absent | ⟨before, character, after, rfl, separates,
    absent⟩
  · exact ⟨[], name, rfl, by simp [IsDirectory], absent⟩
  · refine ⟨before ++ [character], after, by simp, ?_, absent⟩
    simpa [IsDirectory] using separates

/-- The directory of a name can stand in front of a last part. -/
theorem isDirectory_directory (name : List Char) : IsDirectory (directory name) := by
  obtain ⟨front, last, rfl, isDirectory, isLastPart⟩ := exists_directory_append name
  rwa [directory_append isDirectory isLastPart]

/-- The last part of a name can be one. -/
theorem isLastPart_base (name : List Char) : IsLastPart (base name) := by
  obtain ⟨front, last, rfl, isDirectory, isLastPart⟩ := exists_directory_append name
  rwa [base_append isDirectory isLastPart]

/-! ## Stems -/

/-- The stem is the beginning of the last part, and all of it when a dot is in front. -/
theorem stem_prefix_base (name : List Char) : stem name <+: base name := by
  rw [stem]
  rcases splitDot_cases (base name) with undotted | ⟨before, after, cut, undotted⟩
  · simp [splitDot_eq_none undotted]
  · rw [cut, splitDot_append undotted]
    cases before with
    | nil => exact List.prefix_rfl
    | cons first rest => exact List.prefix_append _ _

/-- A name with a last part has a stem. -/
theorem stem_ne_nil (named : base name ≠ []) : stem name ≠ [] := by
  rw [stem]
  rcases splitDot_cases (base name) with undotted | ⟨before, after, cut, undotted⟩
  · rwa [splitDot_eq_none undotted]
  · rw [cut, splitDot_append undotted]
    cases before <;> simp

/-- The stem of a last part with an extension is what is in front of it, if that is anything. -/
theorem stem_append (isDirectory : IsDirectory front)
    (isLastPart : IsLastPart (last ++ '.' :: after)) (undotted : '.' ∉ after) :
    stem (front ++ (last ++ '.' :: after)) = if last = [] then '.' :: after else last := by
  rw [stem, base_append isDirectory isLastPart, splitDot_append undotted]
  cases last <;> rfl

/-! ## Extensions -/

/-- The list can be an extension. -/
def IsExtension (extension : List Char) : Prop :=
  ∀ character ∈ extension, character ≠ '.' ∧ isSeparator character = false

instance : Decidable (IsExtension extension) :=
  List.decidableBAll _ extension

/-- The file lies in a directory, and the only dot of its last part is in front. -/
def IsHidden (name : List Char) : Prop :=
  directory name ≠ [] ∧ (base name).head? = some '.' ∧ '.' ∉ (base name).tail

instance : Decidable (IsHidden name) :=
  inferInstanceAs (Decidable (_ ∧ _ ∧ _))

/-- A name is hidden if it lies in a directory and its last part has no dot but one in front. -/
theorem isHidden_append (isDirectory : IsDirectory front) (isLastPart : IsLastPart last) :
    IsHidden (front ++ last) ↔ front ≠ [] ∧ last.head? = some '.' ∧ '.' ∉ last.tail := by
  rw [IsHidden, directory_append isDirectory isLastPart, base_append isDirectory isLastPart]

/-- A dot in the directory begins no extension. -/
theorem withoutExtension_undotted (isDirectory : IsDirectory front) (undotted : '.' ∉ last) :
    withoutExtension (front ++ last) = front ++ last := by
  rw [withoutExtension]
  rcases splitDot_cases front with absent | ⟨before, after, rfl, absent⟩
  · rw [splitDot_eq_none (by simp [absent, undotted])]
  · -- The directory does not end in the dot, so a separator stands behind the dot.
    have separated : (after ++ last).any isSeparator = true := by
      rcases List.eq_nil_or_concat after with rfl | ⟨middle, character, rfl⟩
      · exact absurd (isDirectory '.' (by simp)) (by decide)
      · have separates : isSeparator character = true :=
          isDirectory character (by simp [List.getLast?_cons])
        simp [separates]
    rw [List.append_assoc, List.cons_append, splitDot_append (by simp [absent, undotted])]
    cases before with
    | nil => rfl
    | cons first rest => simp only [separated, if_true]

/-- The extension is taken off behind the stem. Of a hidden file nothing but the directory is
left. -/
theorem withoutExtension_eq (name : List Char) : withoutExtension name =
    directory name ++ if IsHidden name then [] else stem name := by
  obtain ⟨front, last, rfl, isDirectory, isLastPart⟩ := exists_directory_append name
  rw [directory_append isDirectory isLastPart, stem, base_append isDirectory isLastPart]
  simp only [isHidden_append isDirectory isLastPart]
  rcases splitDot_cases last with undotted | ⟨before, after, rfl, undotted⟩
  · have shown : ¬(front ≠ [] ∧ last.head? = some '.' ∧ '.' ∉ last.tail) := fun hidden =>
      undotted (List.mem_of_head? hidden.2.1)
    rw [withoutExtension_undotted isDirectory undotted, if_neg shown, splitDot_eq_none undotted]
  · have flat : after.any isSeparator = false := by
      simpa using fun character member => isLastPart character (by simp [member])
    rw [withoutExtension, ← List.append_assoc, splitDot_append undotted, splitDot_append undotted]
    cases before with
    | nil => cases front <;> simp [flat, undotted]
    | cons first rest => cases front <;> simp [flat]

/-- The emitted file lies in the directory of the source. -/
theorem output_eq (extension name : List Char) : output extension name =
    directory name ++ ((if IsHidden name then [] else stem name) ++ '.' :: extension) := by
  rw [output, withoutExtension_eq, List.append_assoc]

/-- The last part of an output name can be one. -/
theorem isLastPart_output (isExtension : IsExtension extension) (name : List Char) :
    IsLastPart ((if IsHidden name then [] else stem name) ++ '.' :: extension) := by
  have kept : ∀ character ∈ if IsHidden name then [] else stem name,
      isSeparator character = false := by
    split
    · simp
    · exact fun character member =>
        isLastPart_base name character ((stem_prefix_base name).subset member)
  refine List.forall_mem_append.2 ⟨kept, List.forall_mem_cons.2 ⟨by decide, ?_⟩⟩
  exact fun character member => (isExtension character member).2

/-- An output lies where its source does. -/
theorem directory_output (isExtension : IsExtension extension) (name : List Char) :
    directory (output extension name) = directory name := by
  rw [output_eq]
  exact directory_append (isDirectory_directory name) (isLastPart_output isExtension name)

/-- An output has the stem of its source, unless the source is hidden. -/
theorem stem_output (isExtension : IsExtension extension) (named : base name ≠ []) :
    stem (output extension name) = if IsHidden name then '.' :: extension else stem name := by
  have undotted : '.' ∉ extension := fun member => (isExtension '.' member).1 rfl
  rw [output_eq, stem_append (isDirectory_directory name) (isLastPart_output isExtension name)
    undotted]
  split
  · rfl
  · rw [if_neg (stem_ne_nil named)]

/-- The last part of a hidden file is all stem. -/
theorem IsHidden.stem_eq (hidden : IsHidden name) : stem name = base name := by
  obtain ⟨-, isDot, undotted⟩ := hidden
  obtain ⟨rest, spelled⟩ := List.head?_eq_some_iff.1 isDot
  rw [spelled, List.tail_cons] at undotted
  have cut : splitLast (· == '.') ([] ++ '.' :: rest) = some ([], rest) := splitDot_append undotted
  rw [List.nil_append] at cut
  rw [stem, spelled, cut]

end FileName

namespace SourceFile

/-- What stands in front of the last part of a file name. -/
def directory (name : String) : String :=
  String.ofList (FileName.directory name.toList)

/-- The last part of a file name. -/
def base (name : String) : String :=
  String.ofList (FileName.base name.toList)

/-- The emitted file has the directory of the source and the new extension. It has the stem of the
source unless the source is hidden and its last part is anything but the new extension. -/
theorem outputName_keeps {extension name : String}
    (isExtension : FileName.IsExtension extension.toList) (named : base name ≠ "") :
    directory (outputName extension name) = directory name ∧
      (∃ front, outputName extension name = front ++ "." ++ extension) ∧
      (stem (outputName extension name) = stem name ↔
        (FileName.IsHidden name.toList → base name = "." ++ extension)) := by
  have present : FileName.base name.toList ≠ [] := fun absent => named (by rw [base, absent])
  refine ⟨?_, ⟨String.ofList (FileName.withoutExtension name.toList), ?_⟩, ?_⟩
  · rw [directory, outputName, String.toList_ofList, FileName.directory_output isExtension,
      directory]
  · simp [outputName, FileName.output, ← String.toList_inj]
  · rw [stem, outputName, String.toList_ofList, FileName.stem_output isExtension present, stem,
      base, String.ofList_inj]
    by_cases hidden : FileName.IsHidden name.toList
    · rw [if_pos hidden, hidden.stem_eq, ← String.toList_inj]
      simp [hidden, eq_comm]
    · simp [hidden]

/-- A directory with a dot, a last part with two dots, and separators of both kinds. -/
theorem outputName_keeps_level :
    FileName.IsExtension "cs".toList ∧ base "Levels.old\\a/level.1.js" ≠ "" ∧
      directory (outputName "cs" "Levels.old\\a/level.1.js") = "Levels.old\\a/" ∧
      stem (outputName "cs" "Levels.old\\a/level.1.js") = "level.1" := by
  have isExtension : FileName.IsExtension "cs".toList := by decide
  have named : base "Levels.old\\a/level.1.js" ≠ "" := by decide
  obtain ⟨sameDirectory, -, sameStem⟩ := outputName_keeps isExtension named
  exact ⟨isExtension, named, sameDirectory.trans (by decide),
    (sameStem.2 (by decide)).trans (by decide)⟩

/-- Of a hidden file in a directory the stem is lost. -/
theorem outputName_hidden :
    FileName.IsExtension "cs".toList ∧ base "Assets/.player" ≠ "" ∧
      outputName "cs" "Assets/.player" = "Assets/.cs" ∧
      stem (outputName "cs" "Assets/.player") = ".cs" ∧ stem "Assets/.player" = ".player" := by
  decide

end SourceFile

end ScriptSharp
