import ScriptSharp.Emit.Unit
import ScriptSharp.Proofs.Emission.StatementEnds

/-!
# Line ends of a unit

The text of a unit ends its lines where `Break.ofUnit` says: `unit_lineEnds`. These are the line
feeds behind the lines of the unit and the separators of Unicode that stand in its literals, so
that without such a separator the line feeds are all that is left. A literal with a separator in it
breaks the line that it stands on.
-/

namespace ScriptSharp.Emit

open Node

/-! ## The breaks of declarations -/

namespace Break

/-- The breaks of the line of an attribute. -/
def ofAttribute (attr : Attribute) : List Break :=
  (attr.args.flatMap fun arg => ofExpr arg.value) ++ [.added]

/-- The breaks of the body of a method. Interface members have none. -/
def ofMethodBody (kind : TypeKind) : Option (List Stmt) → List Break
  | none => []
  | some body => if kind = .interfaceType then [] else block (ofStmts body)

/-- The breaks of the lines of a member. -/
def ofMember (kind : TypeKind) : Member → List Break
  | .field field => field.attrs.flatMap ofAttribute ++ (ofOptional field.init ++ [.added])
  | .method method =>
    method.attrs.flatMap ofAttribute ++ .added :: ofMethodBody kind method.body
  | .ctor ctor => ofExprs ctor.chainArgs ++ .added :: block (ofStmts ctor.body)

/-- The breaks of the lines of the members behind `previous`. -/
def ofMembersAfter (kind : TypeKind) (previous : Member) : List Member → List Break
  | [] => []
  | next :: rest =>
    (if previous.isField && next.isField then [] else [.added]) ++
      (ofMember kind next ++ ofMembersAfter kind next rest)

/-- The breaks of the lines of members. -/
def ofMembers (kind : TypeKind) : List Member → List Break
  | [] => []
  | first :: rest => ofMember kind first ++ ofMembersAfter kind first rest

/-- The breaks of the lines between the braces of a declaration. -/
def inside (decl : TypeDecl) : List Break :=
  if decl.kind = .enumType then List.replicate decl.enumMembers.length .added
  else ofMembers decl.kind decl.members

/-- The breaks of the lines of a declaration. -/
def ofDecl (decl : TypeDecl) : List Break :=
  decl.attrs.flatMap ofAttribute ++ .added :: block (inside decl)

/-- The breaks of the lines of declarations, where `fresh` says that nothing stands before them. -/
def ofDecls (fresh : Bool) : List TypeDecl → List Break
  | [] => []
  | first :: rest => (if fresh then [] else [.added]) ++ (ofDecl first ++ ofDecls false rest)

/-- The breaks of a unit. No line feed stands behind its last line. -/
def ofUnit (style : Style) (unit : SourceUnit) : List Break :=
  (List.replicate (style.imports unit).length added ++
    ofDecls (style.imports unit).isEmpty unit.decls).dropLast

end Break

/-! ## Heads of declarations -/

/-- The spaces between the pieces of a line add no line end. -/
theorem lineEnds_words (pieces : List String) :
    lineEnds (words pieces).toList = pieces.flatMap fun piece => lineEnds piece.toList := by
  rw [words, String.toList_intercalate, lineEnds_intercalate (by decide), List.flatMap_map]

/-- Pieces without line ends make a line without line ends. -/
theorem smooth_words {pieces : List String} (each : ∀ piece ∈ pieces, Smooth piece.toList) :
    Smooth (words pieces).toList := by
  rw [Smooth, lineEnds_words, List.flatMap_eq_nil_iff]
  exact each

/-- A word or a text behind words. -/
theorem lineEnds_words_append {pieces : List String}
    (each : ∀ piece ∈ pieces, Smooth piece.toList) (last : String) :
    lineEnds (words (pieces ++ [last])).toList = lineEnds last.toList := by
  rw [lineEnds_words, List.flatMap_append, List.flatMap_eq_nil_iff.2 each, List.nil_append,
    List.flatMap_singleton]

/-- Keywords of visibility have no line end. -/
theorem smooth_visibility (visibility : Visibility) : Smooth visibility.keyword.toList := by
  cases visibility <;> decide

/-- Keywords of declarations have no line end. -/
theorem smooth_kind (kind : TypeKind) : Smooth kind.keyword.toList := by
  cases kind <;> decide

/-- An optional word has no line end if the word has none. -/
theorem smooth_wordIf {condition : Bool} {word : String} (smooth : Smooth word.toList) :
    ∀ piece ∈ wordIf condition word, Smooth piece.toList := by
  cases condition with
  | false => nofun
  | true => simpa [wordIf] using smooth

/-- The words in front of a declaration have no line end. -/
theorem smooth_declModifiers (decl : TypeDecl) :
    ∀ piece ∈ declModifiers decl, Smooth piece.toList := by
  simp only [declModifiers, List.cons_append, List.forall_mem_cons, List.forall_mem_append]
  exact ⟨smooth_visibility _, ⟨⟨smooth_wordIf (by decide), smooth_wordIf (by decide)⟩,
    smooth_wordIf (by decide)⟩, smooth_wordIf (by decide)⟩

/-- The words in front of a method have no line end. -/
theorem smooth_methodModifiers (kind : TypeKind) (modifiers : Modifiers) :
    ∀ piece ∈ methodModifiers kind modifiers, Smooth piece.toList := by
  rw [methodModifiers]
  split
  · simp
  · refine List.forall_mem_cons.2 ⟨smooth_visibility _, ?_⟩
    split_ifs <;> simp <;> decide

/-- A qualified name has no line end if the names that it is made of have none. -/
theorem smooth_fullName {info : TypeInfo} (smooth : SmoothInfo info) :
    Smooth info.fullName.toList := by
  rw [TypeInfo.fullName]
  split
  case h_1 space inSpace => exact smooth_qualified (smooth.space space inSpace) smooth.name
  case h_2 => exact smooth.name

/-- Cutting the suffix of an attribute type off brings in no line end. -/
theorem smooth_withoutSuffix {fullName : List Char} (smooth : Smooth fullName) :
    Smooth (Names.withoutSuffix fullName) := by
  have shorter (count : Nat) : Smooth (fullName.take count) := by
    rw [smooth_iff] at smooth ⊢
    exact fun character member => smooth character (List.mem_of_mem_take member)
  simp only [Names.withoutSuffix]
  split_ifs
  · exact smooth
  · exact shorter _
  · exact smooth

/-- The name of an attribute has no line end. -/
theorem smooth_attributeName {names : Names} {ty : Ty} {text : String}
    (smooth : SmoothTypes names ty.handles) (rendered : names.attributeName ty = .ok text) :
    Smooth text.toList := by
  rw [Names.attributeName] at rendered
  split at rendered
  case h_1 info found =>
    obtain rfl := Except.ok.inj rendered
    obtain ⟨id, isNominal, found⟩ := Option.bind_eq_some_iff.1 found
    have isThere : id ∈ ty.handles := by
      cases ty <;> cases isNominal <;> exact List.mem_cons_self
    rw [String.toList_ofList]
    exact smooth_withoutSuffix (smooth_fullName (smooth id isThere info found))
  case h_2 => exact smooth_type ty text smooth rendered

/-! ## Attributes and parameters -/

namespace Printer

variable {printer : Printer} {depth : Nat}

/-- The line ends in an attribute argument are those of its value. -/
theorem lineEnds_attributeArg {arg : AttributeArg} {text : String}
    (smoothName : ∀ ident ∈ arg.name, Smooth ident.name.toList)
    (unbroken : Throughout (Unbroken printer.names) (.expr arg.value))
    (emitted : printer.attributeArg depth arg = .ok text) :
    lineEnds text.toList = Break.characters (Break.ofExpr arg.value) := by
  simp only [attributeArg, bind_eq_ok, pure_eq_ok] at emitted
  obtain ⟨code, emittedValue, rfl⟩ := emitted
  have ofValue : lineEnds code.text.toList = Break.characters (Break.ofExpr arg.value) :=
    lineEnds_expr depth arg.value code unbroken emittedValue
  split
  case h_1 name named =>
    have ofName : lineEnds name.render.toList = [] := smooth_render (smoothName name named)
    simp [isLineEnd, ofName, ofValue]
  case h_2 => exact ofValue

/-- An attribute has a line of its own, with the line ends of its arguments. -/
theorem lineEnds_attributeLine {attr : Attribute} {line : Line}
    (unbroken : Throughout (Unbroken printer.names) (.attr attr))
    (emitted : printer.attributeLine depth attr = .ok line) :
    Line.ends [line] = Break.characters (Break.ofAttribute attr) := by
  simp only [attributeLine, bind_eq_ok] at emitted
  obtain ⟨name, rendered, emitted⟩ := emitted
  have ofName : lineEnds name.toList = [] := smooth_attributeName unbroken.here.types rendered
  split at emitted
  case isTrue missing =>
    obtain rfl := pure_eq_ok.1 emitted
    simp [isLineEnd, ofName, Break.ofAttribute, List.isEmpty_iff.1 missing]
  case isFalse =>
    simp only [bind_eq_ok, pure_eq_ok] at emitted
    obtain ⟨texts, emittedArgs, rfl⟩ := emitted
    have each : ∀ arg ∈ attr.args, ∀ text, printer.attributeArg depth arg = .ok text →
        lineEnds text.toList = Break.characters (Break.ofExpr arg.value) := by
      intro arg isThere text emittedArg
      refine lineEnds_attributeArg ?_ (unbroken.inside ?_) emittedArg
      · exact fun ident named =>
          unbroken.here.idents ident (List.mem_filterMap.2 ⟨arg, isThere, named⟩)
      · exact List.mem_map_of_mem (List.mem_map_of_mem isThere)
    have ofArgs := flatMap_mapM each emittedArgs
    rw [← lineEnds_list] at ofArgs
    simp only [Line.ends_cons, String.toList_append, lineEnds_append, ofName, ofArgs]
    simp [isLineEnd, Break.ofAttribute]

/-- Attributes stand one after the other. -/
theorem lineEnds_attributes {attrs : List Attribute} {lines : List Line}
    (unbroken : ∀ attr ∈ attrs, Throughout (Unbroken printer.names) (.attr attr))
    (emitted : attrs.mapM (printer.attributeLine depth) = .ok lines) :
    Line.ends lines = Break.characters (attrs.flatMap Break.ofAttribute) := by
  have each : ∀ attr ∈ attrs, ∀ line, printer.attributeLine depth attr = .ok line →
      lineEnds line.text.toList ++ ['\n'] = Break.characters (Break.ofAttribute attr) := by
    intro attr isThere line emittedLine
    have ofLine := lineEnds_attributeLine (unbroken attr isThere) emittedLine
    rwa [Line.ends_cons, Line.ends_nil] at ofLine
  exact flatMap_mapM each emitted

/-- A parameter has no line end. -/
theorem smooth_param {param : ParamDecl} {text : String}
    (smoothName : Smooth param.name.name.toList)
    (smoothType : SmoothTypes printer.names param.ty.handles)
    (emitted : printer.param param = .ok text) : Smooth text.toList := by
  simp only [Printer.param, bind_eq_ok, pure_eq_ok] at emitted
  obtain ⟨typeText, rendered, rfl⟩ := emitted
  have ofType := smooth_type param.ty typeText smoothType rendered
  refine smooth_words (List.forall_mem_append.2 ⟨?_, ?_⟩)
  · cases param.modifier <;> simp [ParamModifier.keyword?] <;> decide
  · simpa using ⟨ofType, smooth_render smoothName⟩

/-- A list of parameters has no line end. -/
theorem smooth_params {params : List ParamDecl} {text : String}
    (smoothNames : ∀ ident ∈ params.map (·.name), Smooth ident.name.toList)
    (smoothTypes : SmoothTypes printer.names (Ty.handlesAll (params.map (·.ty))))
    (emitted : printer.params params = .ok text) : Smooth text.toList := by
  simp only [Printer.params, bind_eq_ok, pure_eq_ok] at emitted
  obtain ⟨texts, emittedEach, rfl⟩ := emitted
  have each : ∀ param ∈ params, ∀ text, printer.param param = .ok text →
      lineEnds text.toList = Break.characters [] := by
    intro param isThere text emittedParam
    refine smooth_param (smoothNames _ (List.mem_map_of_mem isThere)) ?_ emittedParam
    exact smoothTypes_handlesAll.1 smoothTypes _ (List.mem_map_of_mem isThere)
  rw [Smooth, lineEnds_list, flatMap_mapM each emittedEach,
    List.flatMap_eq_nil_iff.2 fun _ _ => rfl, Break.characters_nil]

/-! ## Members -/

/-- A field has the line ends of its attributes and of its initializer, and one of its own. -/
theorem lineEnds_field {kind : TypeKind} {field : FieldDecl} {lines : List Line}
    (unbroken : Throughout (Unbroken printer.names) (.member (.field field)))
    (emitted : printer.field depth kind field = .ok lines) :
    Line.ends lines = Break.characters (Break.ofMember kind (.field field)) := by
  simp only [Printer.field, bind_eq_ok, pure_eq_ok] at emitted
  obtain ⟨attrLines, emittedAttrs, typeText, rendered, initText, emittedInit, rfl⟩ := emitted
  have below : ∀ child ∈ children (.member (.field field)),
      Throughout (Unbroken printer.names) child := fun _ => unbroken.inside
  simp only [children, parts, Member.parts, List.map_append, List.forall_mem_append] at below
  have ofAttrs := lineEnds_attributes
    (fun attr isThere => below.1 _ (List.mem_map_of_mem (List.mem_map_of_mem isThere))) emittedAttrs
  have ofInit := lineEnds_optional depth field.init initText
    (fun expr isThere => below.2 _ (mem_values (Option.mem_toList.2 isThere))) emittedInit
  have ofDeclaration := lineEnds_declarationText
    (smooth_type field.ty typeText unbroken.here.types rendered)
    (unbroken.here.idents field.name (.head _)) initText
  have smoothModifiers : ∀ piece ∈ wordIf (kind != .interfaceType)
      field.modifiers.visibility.keyword ++ wordIf field.modifiers.isStatic "static",
        Smooth piece.toList :=
    List.forall_mem_append.2 ⟨smooth_wordIf (smooth_visibility _), smooth_wordIf (by decide)⟩
  have ofWords :=
    lineEnds_words_append smoothModifiers (declarationText typeText field.name initText)
  rw [ofDeclaration, ofInit] at ofWords
  simp only [Line.ends_append, Line.ends_cons, String.toList_append, lineEnds_append, ofAttrs,
    ofWords]
  simp [isLineEnd, Break.ofMember]

/-- A method has the line ends of its attributes and of its body. Its head has none inside. -/
theorem lineEnds_method {kind : TypeKind} {method : MethodDecl} {lines : List Line}
    (unbroken : Throughout (Unbroken printer.names) (.member (.method method)))
    (emitted : printer.method depth kind method = .ok lines) :
    Line.ends lines = Break.characters (Break.ofMember kind (.method method)) := by
  simp only [Printer.method, bind_eq_ok] at emitted
  obtain ⟨attrLines, emittedAttrs, ret, rendered, params, emittedParams, emitted⟩ := emitted
  have below : ∀ child ∈ children (.member (.method method)),
      Throughout (Unbroken printer.names) child := fun _ => unbroken.inside
  simp only [children, parts, Member.parts, List.map_append, List.forall_mem_append] at below
  have ofAttrs := lineEnds_attributes
    (fun attr isThere => below.1 _ (List.mem_map_of_mem (List.mem_map_of_mem isThere))) emittedAttrs
  obtain ⟨smoothRet, smoothTypes⟩ := smoothTypes_append.1 unbroken.here.types
  obtain ⟨smoothName, smoothNames⟩ := List.forall_mem_cons.1 unbroken.here.idents
  have ofWords : lineEnds (words (methodModifiers kind method.modifiers ++ [ret])).toList = [] :=
    (lineEnds_words_append (smooth_methodModifiers kind method.modifiers) ret).trans
      (smooth_type method.ret ret smoothRet rendered)
  have ofName : lineEnds method.name.render.toList = [] := smooth_render smoothName
  have ofParams : lineEnds params.toList = [] :=
    smooth_params smoothNames smoothTypes emittedParams
  split at emitted
  case h_1 body present =>
    have ofPresent := Break.ofMethodBody.eq_2 kind body
    rw [← present] at ofPresent
    split at emitted
    case isTrue isInterface =>
      subst isInterface
      obtain rfl := pure_eq_ok.1 emitted
      simp [isLineEnd, ofAttrs, ofWords, ofName, ofParams, Break.ofMember, ofPresent]
    case isFalse isInterface =>
      simp only [bind_eq_ok, pure_eq_ok] at emitted
      obtain ⟨bodyLines, emittedBody, rfl⟩ := emitted
      rw [present] at below
      have ofBody := lineEnds_stmts (depth + 1) body bodyLines
        (fun stmt isThere => below.2 _ (mem_stmts isThere)) emittedBody
      simp [isLineEnd, ofAttrs, ofWords, ofName, ofParams, ofBody, Break.ofMember, ofPresent,
        isInterface, Break.block]
  case h_2 missing =>
    obtain rfl := pure_eq_ok.1 emitted
    simp [isLineEnd, ofAttrs, ofWords, ofName, ofParams, Break.ofMember, missing,
      Break.ofMethodBody]

/-- The head of a constructor has no line end in front of its chain. -/
theorem smooth_ctorHead {name : Ident} {ctor : CtorDecl} {text : String}
    (smoothName : Smooth name.name.toList)
    (unbroken : Unbroken printer.names (.member (.ctor ctor)))
    (emitted : printer.ctorHead name ctor = .ok text) : lineEnds text.toList = [] := by
  have ofName : lineEnds name.render.toList = [] := smooth_render smoothName
  rw [ctorHead] at emitted
  split at emitted
  case isTrue =>
    obtain rfl := pure_eq_ok.1 emitted
    simp [isLineEnd, ofName]
  case isFalse =>
    simp only [bind_eq_ok, pure_eq_ok] at emitted
    obtain ⟨params, emittedParams, rfl⟩ := emitted
    have ofParams : lineEnds params.toList = [] :=
      smooth_params unbroken.idents unbroken.types emittedParams
    have ofKeyword : lineEnds ctor.modifiers.visibility.keyword.toList = [] :=
      smooth_visibility _
    simp [isLineEnd, ofKeyword, ofName, ofParams]

/-- The line ends in a constructor chain are those of its arguments. -/
theorem lineEnds_chain {ctor : CtorDecl} {text : String}
    (unbroken : ∀ arg ∈ ctor.chainArgs, Throughout (Unbroken printer.names) (.expr arg))
    (emitted : printer.chain depth ctor.chain = .ok text) :
    lineEnds text.toList = Break.characters (Break.ofExprs ctor.chainArgs) := by
  rw [CtorDecl.chainArgs] at unbroken ⊢
  cases present : ctor.chain with
  | none =>
    rw [present] at emitted
    obtain rfl := Except.ok.inj emitted
    rfl
  | some chain =>
    rw [present] at emitted unbroken
    simp only [Printer.chain, bind_eq_ok, pure_eq_ok] at emitted
    obtain ⟨codes, emittedArgs, rfl⟩ := emitted
    have ofArgs := lineEnds_args depth chain.args codes unbroken emittedArgs
    rw [← lineEnds_commaSeparated, Code.characters] at ofArgs
    cases chain.kind <;> simp [isLineEnd, ofArgs]

/-- A constructor has the line ends of its chain and of its body. -/
theorem lineEnds_ctor {kind : TypeKind} {name : Ident} {ctor : CtorDecl} {lines : List Line}
    (smoothName : Smooth name.name.toList)
    (unbroken : Throughout (Unbroken printer.names) (.member (.ctor ctor)))
    (emitted : printer.ctor depth name ctor = .ok lines) :
    Line.ends lines = Break.characters (Break.ofMember kind (.ctor ctor)) := by
  simp only [Printer.ctor, bind_eq_ok, pure_eq_ok] at emitted
  obtain ⟨head, emittedHead, chain, emittedChain, bodyLines, emittedBody, rfl⟩ := emitted
  have below : ∀ child ∈ children (.member (.ctor ctor)),
      Throughout (Unbroken printer.names) child := fun _ => unbroken.inside
  simp only [children, parts, Member.parts, List.map_append, List.forall_mem_append] at below
  have ofHead := smooth_ctorHead smoothName unbroken.here emittedHead
  have ofChain := lineEnds_chain (fun arg isThere => below.1 _ (mem_values isThere)) emittedChain
  have ofBody := lineEnds_stmts (depth + 1) ctor.body bodyLines
    (fun stmt isThere => below.2 _ (mem_stmts isThere)) emittedBody
  simp [ofHead, ofChain, ofBody, Break.ofMember, Break.block]

/-- The lines of a member end where it has breaks. -/
theorem lineEnds_member {decl : TypeDecl} {member : Member} {lines : List Line}
    (smoothName : Smooth decl.name.name.toList)
    (unbroken : Throughout (Unbroken printer.names) (.member member))
    (emitted : printer.member depth decl member = .ok lines) :
    Line.ends lines = Break.characters (Break.ofMember decl.kind member) := by
  cases member with
  | field field => exact lineEnds_field unbroken emitted
  | method method => exact lineEnds_method unbroken emitted
  | ctor ctor => exact lineEnds_ctor smoothName unbroken emitted

/-- Members behind another one have the line ends of each, and those of the blank lines between
them. -/
theorem lineEnds_membersAfter {decl : TypeDecl} (smoothName : Smooth decl.name.name.toList)
    {previous : Member} {members : List Member} {lines : List Line}
    (unbroken : ∀ member ∈ members, Throughout (Unbroken printer.names) (.member member))
    (emitted : printer.membersAfter depth decl previous members = .ok lines) :
    Line.ends lines = Break.characters (Break.ofMembersAfter decl.kind previous members) := by
  induction members generalizing previous lines with
  | nil =>
    obtain rfl := Except.ok.inj emitted
    rfl
  | cons next rest inductionHypothesis =>
    simp only [Printer.membersAfter, bind_eq_ok, pure_eq_ok] at emitted
    obtain ⟨nextLines, emittedNext, restLines, emittedRest, rfl⟩ := emitted
    obtain ⟨unbrokenNext, unbrokenRest⟩ := List.forall_mem_cons.1 unbroken
    have ofNext := lineEnds_member smoothName unbrokenNext emittedNext
    have ofRest := inductionHypothesis unbrokenRest emittedRest
    rw [Line.ends_append, Line.ends_append, ofNext, ofRest, Break.ofMembersAfter]
    split <;> simp [Line.blank]

/-- The members of a declaration have the line ends of each, and those of the blank lines between
them. -/
theorem lineEnds_members {decl : TypeDecl} {lines : List Line}
    (smoothName : Smooth decl.name.name.toList)
    (unbroken : ∀ member ∈ decl.members, Throughout (Unbroken printer.names) (.member member))
    (emitted : printer.members depth decl = .ok lines) :
    Line.ends lines = Break.characters (Break.ofMembers decl.kind decl.members) := by
  rw [Printer.members] at emitted
  split at emitted
  case h_1 missing =>
    obtain rfl := pure_eq_ok.1 emitted
    rw [missing]
    rfl
  case h_2 first rest present =>
    simp only [bind_eq_ok, pure_eq_ok] at emitted
    obtain ⟨firstLines, emittedFirst, restLines, emittedRest, rfl⟩ := emitted
    rw [present] at unbroken ⊢
    obtain ⟨unbrokenFirst, unbrokenRest⟩ := List.forall_mem_cons.1 unbroken
    have ofFirst := lineEnds_member smoothName unbrokenFirst emittedFirst
    have ofRest := lineEnds_membersAfter smoothName unbrokenRest emittedRest
    rw [Line.ends_append, ofFirst, ofRest, Break.ofMembers, Break.characters_append]

/-! ## Declarations -/

/-- The types that a declaration extends and implements have no line end. -/
theorem smooth_supertypes {decl : TypeDecl} {texts : List String}
    (smooth : SmoothTypes printer.names (Ty.handlesAll (decl.base.toList ++ decl.interfaces)))
    (emitted : printer.supertypes decl = .ok texts) : ∀ text ∈ texts, Smooth text.toList := by
  have each := smoothTypes_handlesAll.1 smooth
  obtain ⟨ofBase, ofInterfaces⟩ := List.forall_mem_append.1 each
  have smoothInterfaces := smoothTypes_handlesAll.2 ofInterfaces
  rw [Printer.supertypes] at emitted
  split at emitted
  case h_1 _ base present =>
    simp only [bind_eq_ok, pure_eq_ok] at emitted
    obtain ⟨text, renderedBase, _, rfl, interfaceTexts, rendered, rfl⟩ := emitted
    have smoothBase := ofBase base (Option.mem_toList.2 present)
    exact List.forall_mem_append.2
      ⟨by simpa using smooth_type base text smoothBase renderedBase,
        smooth_types decl.interfaces interfaceTexts smoothInterfaces rendered⟩
  case h_2 =>
    simp only [bind_eq_ok, pure_eq_ok] at emitted
    obtain ⟨_, rfl, interfaceTexts, rendered, rfl⟩ := emitted
    exact List.forall_mem_append.2 ⟨by simp; decide,
      smooth_types decl.interfaces interfaceTexts smoothInterfaces rendered⟩
  case h_3 =>
    simp only [bind_eq_ok, pure_eq_ok] at emitted
    obtain ⟨_, rfl, interfaceTexts, rendered, rfl⟩ := emitted
    exact smooth_types decl.interfaces _ smoothInterfaces rendered

/-- The line of an enum member has a single line end. -/
theorem lineEnds_enumTexts {values : List (Ident × Int)}
    (smooth : ∀ value ∈ values, Smooth value.1.name.toList) :
    Line.ends ((enumTexts values).map (Line.mk 1)) =
      Break.characters (List.replicate values.length .added) := by
  induction values with
  | nil => rfl
  | cons value values inductionHypothesis =>
    obtain ⟨smoothFirst, smoothRest⟩ := List.forall_mem_cons.1 smooth
    have ofName : lineEnds value.1.render.toList = [] := smooth_render smoothFirst
    have ofValue : lineEnds value.2.repr.toList = [] :=
      smooth_of_numeralChars (numeralChars_toString value.2)
    have ofRest := inductionHypothesis smoothRest
    cases values with
    | nil => simp [enumTexts, isLineEnd, ofName, ofValue]
    | cons next others =>
      rw [enumTexts, List.map_cons, Line.ends_cons, ofRest]
      · simp [isLineEnd, ofName, ofValue, List.replicate_succ]
      · nofun

/-- The names of emitted enum members are declared. -/
theorem mem_enumMembers {next : Int} {members : List EnumMember} {value : Ident × Int}
    (isThere : value ∈ enumValues next members) : value.1 ∈ members.map (·.name) := by
  induction members generalizing next with
  | nil => cases isThere
  | cons member members inductionHypothesis =>
    rcases List.mem_cons.1 isThere with rfl | later
    · exact List.mem_cons_self
    · exact List.mem_cons_of_mem _ (inductionHypothesis later)

/-- Each enum member is emitted once. -/
theorem length_enumValues (next : Int) (members : List EnumMember) :
    (enumValues next members).length = members.length := by
  induction members generalizing next with
  | nil => rfl
  | cons member members inductionHypothesis => simp [enumValues, inductionHypothesis]

/-- The head of a declaration has no line end. -/
theorem smooth_declHead {decl : TypeDecl} {supertypes : List String}
    (smoothName : Smooth decl.name.name.toList) (each : ∀ text ∈ supertypes, Smooth text.toList) :
    lineEnds (if supertypes.isEmpty then words (declModifiers decl ++
        [decl.kind.keyword, decl.name.render])
      else words (declModifiers decl ++ [decl.kind.keyword, decl.name.render]) ++ " : " ++
        ", ".intercalate supertypes).toList = [] := by
  have ofWords : lineEnds (words (declModifiers decl ++
      [decl.kind.keyword, decl.name.render])).toList = [] :=
    smooth_words (List.forall_mem_append.2 ⟨smooth_declModifiers decl,
      by simpa using ⟨smooth_kind decl.kind, smooth_render smoothName⟩⟩)
  have ofTypes : lineEnds (", ".intercalate supertypes).toList = [] := smooth_list each
  split
  · exact ofWords
  · simp only [String.toList_append, lineEnds_append, ofWords, ofTypes]
    simp [isLineEnd]

/-- The lines of a declaration end where it has breaks. -/
theorem lineEnds_decl {decl : TypeDecl} {lines : List Line}
    (unbroken : Throughout (Unbroken printer.names) (.decl decl))
    (emitted : printer.decl decl = .ok lines) :
    Line.ends lines = Break.characters (Break.ofDecl decl) := by
  simp only [Printer.decl, bind_eq_ok] at emitted
  obtain ⟨attrLines, emittedAttrs, supertypes, emittedTypes, emitted⟩ := emitted
  have below : ∀ child ∈ children (.decl decl), Throughout (Unbroken printer.names) child :=
    fun _ => unbroken.inside
  simp only [children, parts, List.map_append, List.forall_mem_append] at below
  have ofAttrs := lineEnds_attributes
    (fun attr isThere => below.1 _ (List.mem_map_of_mem (List.mem_map_of_mem isThere))) emittedAttrs
  obtain ⟨smoothName, smoothMembers⟩ := List.forall_mem_cons.1 unbroken.here.idents
  have ofHead := smooth_declHead smoothName (smooth_supertypes unbroken.here.types emittedTypes)
  split at emitted
  case isTrue isEnum =>
    simp only [bind_eq_ok, pure_eq_ok] at emitted
    obtain ⟨body, rfl, rfl⟩ := emitted
    have ofBody := lineEnds_enumTexts fun value (isThere : value ∈ enumValues 0 _) =>
      smoothMembers _ (mem_enumMembers isThere)
    rw [length_enumValues] at ofBody
    simp only [Line.ends_append, Line.ends_cons, Line.ends_braced, ofAttrs, ofHead, ofBody]
    simp [Break.ofDecl, Break.block, Break.inside, isEnum]
  case isFalse other =>
    simp only [bind_eq_ok, pure_eq_ok] at emitted
    obtain ⟨body, emittedBody, rfl⟩ := emitted
    have ofBody := lineEnds_members smoothName
      (fun member isThere => below.2 _ (List.mem_map_of_mem (List.mem_map_of_mem isThere)))
      emittedBody
    simp only [Line.ends_append, Line.ends_cons, Line.ends_braced, ofAttrs, ofHead, ofBody]
    simp [Break.ofDecl, Break.block, Break.inside, other]

/-- The declarations of a unit have the line ends of each, and those of the blank lines between
them. -/
theorem lineEnds_decls {fresh : Bool} {decls : List TypeDecl} {lines : List Line}
    (unbroken : ∀ decl ∈ decls, Throughout (Unbroken printer.names) (.decl decl))
    (emitted : printer.decls fresh decls = .ok lines) :
    Line.ends lines = Break.characters (Break.ofDecls fresh decls) := by
  induction decls generalizing fresh lines with
  | nil =>
    obtain rfl := Except.ok.inj emitted
    rfl
  | cons first rest inductionHypothesis =>
    simp only [Printer.decls, bind_eq_ok, pure_eq_ok] at emitted
    obtain ⟨firstLines, emittedFirst, restLines, emittedRest, rfl⟩ := emitted
    obtain ⟨unbrokenFirst, unbrokenRest⟩ := List.forall_mem_cons.1 unbroken
    have ofFirst := lineEnds_decl unbrokenFirst emittedFirst
    have ofRest := inductionHypothesis unbrokenRest emittedRest
    rw [Line.ends_append, Line.ends_append, ofFirst, ofRest, Break.ofDecls]
    cases fresh <;> simp [Line.blank]

end Printer

/-! ## Units -/

/-- The last line of a text has no line feed behind it. -/
theorem lineEnds_text (width : Nat) (lines : List Line) :
    lineEnds (text width lines).toList = (Line.ends lines).dropLast := by
  rw [text, String.toList_intercalate]
  induction lines with
  | nil => rfl
  | cons line lines inductionHypothesis =>
    cases lines with
    | nil => simp [lineEnds_render]
    | cons next lines =>
      have present : Line.ends (next :: lines) ≠ [] := by simp
      rw [Line.ends_cons, List.dropLast_append_of_ne_nil (by simp),
        List.dropLast_cons_of_ne_nil present, ← inductionHypothesis]
      simp [isLineEnd, lineEnds_render]

/-- The lines of the imports. -/
theorem lineEnds_imports {spaces : List String} (smooth : ∀ space ∈ spaces, Smooth space.toList) :
    Line.ends (spaces.map fun space => ⟨0, "using " ++ space ++ ";"⟩) =
      Break.characters (List.replicate spaces.length .added) := by
  induction spaces with
  | nil => rfl
  | cons space spaces inductionHypothesis =>
    obtain ⟨smoothFirst, smoothRest⟩ := List.forall_mem_cons.1 smooth
    have ofFirst : lineEnds space.toList = [] := smoothFirst
    rw [List.map_cons, Line.ends_cons, inductionHypothesis smoothRest]
    simp [isLineEnd, ofFirst, List.replicate_succ]

/-! ## Where line ends come from -/

namespace Break

/-- Emission has put in all of the breaks. -/
def AllAdded (breaks : List Break) : Prop :=
  ∀ found ∈ breaks, found = .added

section AllAdded

variable {first second : List Break}

@[simp]
theorem allAdded_nil : AllAdded [] := nofun

@[simp]
theorem allAdded_cons {found : Break} :
    AllAdded (found :: first) ↔ found = .added ∧ AllAdded first :=
  List.forall_mem_cons

/-- Two lists of line ends are added by the layout if each of them is. -/
@[simp]
theorem allAdded_append : AllAdded (first ++ second) ↔ AllAdded first ∧ AllAdded second :=
  List.forall_mem_append

/-- A block adds line ends around its statements, and no others. -/
@[simp]
theorem allAdded_block : AllAdded (block first) ↔ AllAdded first := by
  simp [block]

/-- A list is laid out without other line ends if each item is. -/
@[simp]
theorem allAdded_flatMap {α : Type} {items : List α} {breaks : α → List Break} :
    AllAdded (items.flatMap breaks) ↔ ∀ item ∈ items, AllAdded (breaks item) := by
  simp only [AllAdded, List.mem_flatMap]
  exact ⟨fun all item isThere found inItem => all found ⟨item, isThere, inItem⟩,
    fun all found ⟨item, isThere, inItem⟩ => all item isThere found inItem⟩

end AllAdded

/-- Expressions in a row add no line end between them. -/
@[simp]
theorem allAdded_ofExprs {exprs : List Expr} :
    AllAdded (ofExprs exprs) ↔ ∀ expr ∈ exprs, AllAdded (ofExpr expr) := by
  induction exprs with
  | nil => simp [ofExprs]
  | cons first rest inductionHypothesis => simp [ofExprs, inductionHypothesis]

/-- Entries add no line end between keys and values. -/
@[simp]
theorem allAdded_ofEntries {entries : List (Expr × Expr)} :
    AllAdded (ofEntries entries) ↔
      ∀ entry ∈ entries, AllAdded (ofExpr entry.1) ∧ AllAdded (ofExpr entry.2) := by
  induction entries with
  | nil => simp [ofEntries]
  | cons first rest inductionHypothesis =>
    simp only [ofEntries, allAdded_append, inductionHypothesis, List.forall_mem_cons, and_assoc]

/-- An absent value has no line end, and a present one those of the value. -/
@[simp]
theorem allAdded_ofOptional {value : Option Expr} :
    AllAdded (ofOptional value) ↔ ∀ expr ∈ value, AllAdded (ofExpr expr) := by
  cases value <;> simp [ofOptional]

/-- Statements in a row add line ends of the layout only. -/
@[simp]
theorem allAdded_ofStmts {stmts : List Stmt} :
    AllAdded (ofStmts stmts) ↔ ∀ stmt ∈ stmts, AllAdded (ofStmt stmt) := by
  induction stmts with
  | nil => simp [ofStmts]
  | cons first rest inductionHypothesis => simp [ofStmts, inductionHypothesis]

/-- An `else` part adds line ends of the layout only. -/
@[simp]
theorem allAdded_ofElse {elseBody : Option (List Stmt)} :
    AllAdded (ofElse elseBody) ↔ ∀ stmt ∈ elseBody.getD [], AllAdded (ofStmt stmt) := by
  cases elseBody with
  | none => simp [ofElse]
  | some body =>
    rw [ofElse]
    split <;> simp

/-- The initializers of a loop are written without line ends of their own. -/
theorem allAdded_ofInitializers {stmts : List Stmt}
    (each : ∀ stmt ∈ stmts, AllAdded (ofStmt stmt)) : AllAdded (ofInitializers stmts) := by
  induction stmts with
  | nil => simp [ofInitializers]
  | cons first rest inductionHypothesis =>
    obtain ⟨ofFirst, ofRest⟩ := List.forall_mem_cons.1 each
    have later := inductionHypothesis ofRest
    cases first <;> simp_all [ofInitializers, ofStmt]

/-- Emission has put in all of the breaks of a node, wherever the node stands. -/
def AllAddedIn : Node → Prop
  | .expr root => AllAdded (ofExpr root)
  | .stmt root => AllAdded (ofStmt root)
  | .attr root => AllAdded (ofAttribute root)
  | .member root => ∀ kind, AllAdded (ofMember kind root)
  | .decl root => AllAdded (ofDecl root)
  | .unit root => ∀ fresh, AllAdded (ofDecls fresh root.decls)

end Break

/-- The node is no literal with a separator in it. -/
def Unseparated : Node → Prop
  | .expr (.literal _ value) => Break.ofLiteral value = []
  | _ => True

namespace Break

/-- An expression has line ends of the layout only, if its literals have no separators and its parts
have none. -/
theorem allAdded_expr {expr : Expr} (unseparated : Unseparated (.expr expr))
    (below : ∀ child ∈ children (.expr expr), AllAddedIn child) :
    AllAdded (ofExpr expr) := by
  cases expr
  case literal note value =>
    rw [ofExpr, show ofLiteral value = [] from unseparated]
    exact allAdded_nil
  case lambda note params ret body =>
    cases body <;> simpa [children, parts, Expr.parts, LambdaBody.parts, Part.value, Part.stmt,
      AllAddedIn, ofExpr, ofBody] using below
  case map note entries =>
    rw [ofExpr, allAdded_ofEntries]
    exact fun entry isThere => ⟨below _ (mem_entries isThere (.head _)),
      below _ (mem_entries isThere (.tail _ (.head _)))⟩
  all_goals simp_all [children, parts, Expr.parts, Part.value, Part.target, AllAddedIn, ofExpr]

/-- A statement has line ends of the layout only, if its parts have no others. -/
theorem allAdded_stmt {stmt : Stmt}
    (below : ∀ child ∈ children (.stmt stmt), AllAddedIn child) :
    AllAdded (ofStmt stmt) := by
  cases stmt
  case branch condition thenBody elseBody =>
    obtain ⟨ofCondition, ofThen, ofElse⟩ := forall_parts_branch below
    simp only [ofStmt, allAdded_append, allAdded_cons, allAdded_block, allAdded_ofStmts,
      allAdded_ofElse]
    exact ⟨ofCondition, trivial, ofThen, ofElse⟩
  case forLoop init condition step body =>
    obtain ⟨ofInit, ofCondition, ofStep, ofBody⟩ := forall_parts_forLoop below
    simp only [ofStmt, allAdded_append, allAdded_cons, allAdded_block, allAdded_ofStmts,
      allAdded_ofOptional, allAdded_ofExprs]
    exact ⟨allAdded_ofInitializers ofInit, ofCondition, ofStep, trivial, ofBody⟩
  all_goals simp_all [children, parts, Stmt.parts, Part.value, Part.stmt, AllAddedIn, ofStmt]

/-- An attribute has line ends of the layout only, if its arguments have no others. -/
theorem allAdded_attr {attr : Attribute}
    (below : ∀ child ∈ children (.attr attr), AllAddedIn child) :
    AllAdded (ofAttribute attr) := by
  simp_all [children, parts, Part.value, AllAddedIn, ofAttribute]

/-- The same is true of attributes in a row. -/
theorem allAdded_attrs {attrs : List Attribute}
    (each : ∀ child ∈ (attrs.map Part.attr).map (·.2), AllAddedIn child) :
    AllAdded (attrs.flatMap ofAttribute) :=
  allAdded_flatMap.2 fun attr isThere =>
    each (.attr attr) (List.mem_map_of_mem (List.mem_map_of_mem isThere))

/-- A member has line ends of the layout only, if its parts have no others. -/
theorem allAdded_member (kind : TypeKind) {member : Member}
    (below : ∀ child ∈ children (.member member), AllAddedIn child) :
    AllAdded (ofMember kind member) := by
  cases member with
  | field field =>
    simp only [children, parts, Member.parts, List.map_append, List.forall_mem_append] at below
    obtain ⟨ofAttrs, ofInit⟩ := below
    simp only [ofMember, allAdded_append, allAdded_cons, allAdded_nil, allAdded_ofOptional]
    exact ⟨allAdded_attrs ofAttrs,
      fun expr isThere => ofInit _ (mem_values (Option.mem_toList.2 isThere)), trivial, trivial⟩
  | method method =>
    simp only [children, parts, Member.parts, List.map_append, List.forall_mem_append] at below
    obtain ⟨ofAttrs, ofBody⟩ := below
    simp only [ofMember, allAdded_append, allAdded_cons]
    refine ⟨allAdded_attrs ofAttrs, trivial, ?_⟩
    cases present : method.body with
    | none => exact allAdded_nil
    | some body =>
      rw [present] at ofBody
      rw [ofMethodBody]
      split
      · exact allAdded_nil
      · exact allAdded_block.2 (allAdded_ofStmts.2 fun stmt isThere => ofBody _ (mem_stmts isThere))
  | ctor ctor =>
    simp only [children, parts, Member.parts, List.map_append, List.forall_mem_append] at below
    obtain ⟨ofArgs, ofBody⟩ := below
    simp only [ofMember, allAdded_append, allAdded_cons, allAdded_block, allAdded_ofExprs,
      allAdded_ofStmts]
    exact ⟨fun expr isThere => ofArgs _ (mem_values isThere), trivial,
      fun stmt isThere => ofBody _ (mem_stmts isThere)⟩

/-- Blank lines between members are line ends of the layout. -/
theorem allAdded_ofMembersAfter {kind : TypeKind} {previous : Member} {members : List Member}
    (each : ∀ member ∈ members, AllAdded (ofMember kind member)) :
    AllAdded (ofMembersAfter kind previous members) := by
  induction members generalizing previous with
  | nil => exact allAdded_nil
  | cons next rest inductionHypothesis =>
    obtain ⟨ofNext, ofRest⟩ := List.forall_mem_cons.1 each
    rw [ofMembersAfter, allAdded_append, allAdded_append]
    refine ⟨?_, ofNext, inductionHypothesis ofRest⟩
    split <;> simp

/-- The members of a declaration have line ends of the layout only, if each of them has no
others. -/
theorem allAdded_ofMembers {kind : TypeKind} {members : List Member}
    (each : ∀ member ∈ members, AllAdded (ofMember kind member)) :
    AllAdded (ofMembers kind members) := by
  cases members with
  | nil => exact allAdded_nil
  | cons first rest =>
    obtain ⟨ofFirst, ofRest⟩ := List.forall_mem_cons.1 each
    exact allAdded_append.2 ⟨ofFirst, allAdded_ofMembersAfter ofRest⟩

/-- A declaration has line ends of the layout only, if its parts have no others. -/
theorem allAdded_decl {decl : TypeDecl}
    (below : ∀ child ∈ children (.decl decl), AllAddedIn child) : AllAdded (ofDecl decl) := by
  simp only [children, parts, List.map_append, List.forall_mem_append] at below
  obtain ⟨ofAttrs, ofEach⟩ := below
  simp only [ofDecl, allAdded_append, allAdded_cons, allAdded_block, inside]
  refine ⟨allAdded_attrs ofAttrs, trivial, ?_⟩
  split
  · exact fun found isThere => List.eq_of_mem_replicate isThere
  · exact allAdded_ofMembers fun member isThere =>
      ofEach (.member member) (List.mem_map_of_mem (List.mem_map_of_mem isThere)) decl.kind

/-- Blank lines between declarations are line ends of the layout. -/
theorem allAdded_ofDecls (fresh : Bool) {decls : List TypeDecl}
    (each : ∀ decl ∈ decls, AllAdded (ofDecl decl)) : AllAdded (ofDecls fresh decls) := by
  induction decls generalizing fresh with
  | nil => exact allAdded_nil
  | cons first rest inductionHypothesis =>
    obtain ⟨ofFirst, ofRest⟩ := List.forall_mem_cons.1 each
    rw [ofDecls, allAdded_append, allAdded_append]
    refine ⟨?_, ofFirst, inductionHypothesis false ofRest⟩
    split <;> simp

/-- Where no literal has a separator in it, emission has put in every break. -/
theorem allAdded_of_unseparated (node : Node) (unseparated : Throughout Unseparated node) :
    AllAddedIn node := by
  induction node using Node.induct with
  | step node inductionHypothesis =>
    have below : ∀ child ∈ node.children, AllAddedIn child := fun child isThere =>
      inductionHypothesis child isThere (unseparated.inside isThere)
    cases node with
    | expr root => exact allAdded_expr unseparated.here below
    | stmt root => exact allAdded_stmt below
    | attr root => exact allAdded_attr below
    | member root => exact fun kind => allAdded_member kind below
    | decl root => exact allAdded_decl below
    | unit root =>
      simp only [children, parts, List.map_append, List.forall_mem_append] at below
      exact fun fresh => allAdded_ofDecls fresh fun decl isThere =>
        below.1 (.decl decl) (List.mem_map_of_mem (List.mem_map_of_mem isThere))

end Break

/-- The text of a unit ends lines where the unit has breaks. -/
theorem lineEnds_unitText {style : Style} {table : TypeTable} {unit : SourceUnit} {text : String}
    (unbroken : Throughout (Unbroken ⟨table, style.imports unit⟩) (.unit unit))
    (smooth : ∀ space ∈ style.imports unit, Smooth space.toList)
    (emitted : unitText style table unit = .ok text) :
    lineEnds text.toList = Break.characters (Break.ofUnit style unit) := by
  rw [unitText] at emitted
  split at emitted
  case isTrue =>
    simp only [unitLines, bind_eq_ok, pure_eq_ok] at emitted
    obtain ⟨_, ⟨declLines, emittedDecls, rfl⟩, rfl⟩ := emitted
    have below : ∀ child ∈ children (.unit unit),
        Throughout (Unbroken ⟨table, style.imports unit⟩) child := fun _ => unbroken.inside
    simp only [children, parts, List.map_append, List.forall_mem_append] at below
    have ofDecls := Printer.lineEnds_decls
      (fun decl isThere => below.1 _ (List.mem_map_of_mem (List.mem_map_of_mem isThere)))
      emittedDecls
    rw [lineEnds_text, Line.ends_append, lineEnds_imports smooth, ofDecls,
      ← Break.characters_append, Break.characters, ← List.map_dropLast]
    rfl
  case isFalse => cases emitted

/-- Where no literal of a unit has a separator in it, emission has put in every break. -/
theorem Break.allAdded_ofUnit {style : Style} {unit : SourceUnit}
    (unseparated : Throughout Unseparated (.unit unit)) :
    Break.AllAdded (Break.ofUnit style unit) := by
  intro found isThere
  have allAdded := Break.allAdded_of_unseparated (.unit unit) unseparated
  rcases List.mem_append.1 (List.dropLast_subset _ isThere) with ofImport | ofDecl
  · exact List.eq_of_mem_replicate ofImport
  · exact allAdded _ found ofDecl

/-- A literal ends lines where its value has separators in it, and nowhere else. The text of a unit
ends its lines with the line feeds that emission puts behind them, and where literals end them, so
that the line feeds are all when no literal has a separator in it. -/
theorem unit_lineEnds {style : Style} {table : TypeTable} {unit : SourceUnit} {text : String}
    (unbroken : Throughout (Unbroken ⟨table, style.imports unit⟩) (.unit unit))
    (smooth : ∀ space ∈ style.imports unit, Smooth space.toList)
    (emitted : unitText style table unit = .ok text) :
    (∀ value, lineEnds (literalCode value).characters =
        Break.characters (Break.ofLiteral value)) ∧
      lineEnds text.toList = Break.characters (Break.ofUnit style unit) ∧
      (Throughout Unseparated (.unit unit) → ∀ ending ∈ lineEnds text.toList, ending = '\n') := by
  have ofUnit := lineEnds_unitText unbroken smooth emitted
  refine ⟨lineEnds_literalCode, ofUnit, fun unseparated ending isThere => ?_⟩
  rw [ofUnit] at isThere
  obtain ⟨found, member, rfl⟩ := List.mem_map.1 isThere
  rw [Break.allAdded_ofUnit unseparated found member]
  rfl

/-! A class that greets with text in which two lines are separated, and with a separator of
paragraphs. The line feed in the text is escaped, and the separators are not. -/

namespace Greeter

/-- The class as a declaration. -/
def greeter : TypeDecl :=
  let call := Expr.invoke (Expr.noteOf .void) (Expr.localRef "say" .object) []
    [.literal (Expr.noteOf (.primitive .char)) (.char '\u2029')] none
  { id := 0, name := .plain "Greeter", kind := .classType, modifiers := .none, attrs := [],
    base := none, interfaces := [], enumMembers := [], isScript := false, span := .unknown
    members :=
      [.field ⟨.plain "text", .string,
        some (.literal (Expr.noteOf .string) (.string "one\u2028two\n")), .none, [], .unknown⟩,
       .method ⟨.plain "Greet", [⟨.plain "say", .object, .none⟩], .void, some [.expr call], .none,
        [], .unknown⟩] }

/-- The unit of the class. -/
def unit : SourceUnit := ⟨"Greeter.js", ["System"], [], [greeter], [], none⟩

/-- No name of the unit has a line end. -/
theorem unbroken : Throughout (Unbroken ⟨.ofTypes [], Style.standard.imports unit⟩)
    (.unit unit) :=
  .of_check 8 (by decide +kernel)

/-- No imported namespace has a line end. -/
theorem smooth : ∀ space ∈ Style.standard.imports unit, Smooth space.toList := by
  decide +kernel

/-- The unit is emitted. -/
theorem exists_text : ∃ text, unitText .standard (.ofTypes []) unit = .ok text := by
  have isOk : (unitText .standard (.ofTypes []) unit).isOk = true := by decide +kernel
  cases emitted : unitText .standard (.ofTypes []) unit with
  | ok text => exact ⟨text, rfl⟩
  | error fault =>
    rw [emitted] at isOk
    cases isOk

end Greeter

/-- The text of the greeter has the two separators of its literals where they stand, besides the
line ends of the layout. -/
theorem unit_lineEnds_greeter :
    Throughout (Unbroken ⟨.ofTypes [], Style.standard.imports Greeter.unit⟩)
        (.unit Greeter.unit) ∧
      (∀ space ∈ Style.standard.imports Greeter.unit, Smooth space.toList) ∧
      ∃ text, unitText .standard (.ofTypes []) Greeter.unit = .ok text ∧
        lineEnds text.toList = Break.characters
          (.replicate 6 .added ++ .lineSeparator :: .replicate 4 .added ++
            .paragraphSeparator :: .replicate 2 .added) := by
  obtain ⟨text, emitted⟩ := Greeter.exists_text
  exact ⟨Greeter.unbroken, Greeter.smooth, text, emitted,
    (unit_lineEnds Greeter.unbroken Greeter.smooth emitted).2.1⟩

/-- The separators of Unicode are no control characters, so they are not escaped: a literal that
holds one ends its line in the middle, in a unit whose names end none. -/
theorem unit_separator_kept :
    ¬ Smooth (literalCode (.string "\u2028")).characters ∧
      ¬ Smooth (literalCode (.char '\u2029')).characters ∧
      Throughout (Unbroken ⟨.ofTypes [], Style.standard.imports Greeter.unit⟩)
        (.unit Greeter.unit) ∧
      ∃ text, unitText .standard (.ofTypes []) Greeter.unit = .ok text ∧
        '\u2028' ∈ lineEnds text.toList := by
  obtain ⟨text, emitted⟩ := Greeter.exists_text
  refine ⟨by decide +kernel, by decide +kernel, Greeter.unbroken, text, emitted, ?_⟩
  rw [lineEnds_unitText Greeter.unbroken Greeter.smooth emitted]
  decide +kernel

end ScriptSharp.Emit
