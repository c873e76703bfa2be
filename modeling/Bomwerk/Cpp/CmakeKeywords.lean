import Bomwerk.Cpp.CmakeDeps
import Bomwerk.Support.KeywordArguments

/-!
# Declarations in every order of their keywords

A declaration is a name and pairs of a keyword and a value.  Each field is that
of its keyword unless a name or a value in front of another pair is taken for
the keyword.
-/

namespace Bomwerk.Cpp.CmakeDeps

open Bomwerk.Core Bomwerk.Support

inductive DeclarationKind
  | fetchContentDeclare
  | externalProjectAdd
  | cpmAddPackage
  deriving DecidableEq

def DeclarationKind.lowerName : DeclarationKind → List Char
  | fetchContentDeclare => "fetchcontent_declare".toList
  | externalProjectAdd => "externalproject_add".toList
  | cpmAddPackage => "cpmaddpackage".toList

structure Declaration where
  kind : DeclarationKind
  name : List Char
  pairs : List (List Char × List Char)

/-- Nothing of it is left to a variable. -/
def IsLiteral (text : List Char) : Prop :=
  containsUnexpandedVariable text = false

/-- The argument is the keyword, in any letter case. -/
def spells (keyword argument : List Char) : Bool :=
  SameIgnoringCase argument keyword

namespace Declaration

def keywordPairs (declaration : Declaration) : List (List Char × List Char) :=
  if declaration.kind = .cpmAddPackage then
    ("NAME".toList, declaration.name) :: declaration.pairs
  else declaration.pairs

/-- The other calls start with the name. -/
def front (declaration : Declaration) : Option (List Char) :=
  if declaration.kind = .cpmAddPackage then none else some declaration.name

/-- The arguments of the call, with its pairs in this order. -/
def argumentsIn (declaration : Declaration)
    (order : List (List Char × List Char)) : List (List Char) :=
  declaration.front.toList ++ flattened order

structure IsValid (declaration : Declaration) : Prop where
  distinct : (declaration.keywordPairs.map fun pair =>
    pair.1.map toLowerAsciiChar).Nodup
  keyword_ne : ∀ pair ∈ declaration.keywordPairs, pair.1 ≠ []
  name_literal : IsLiteral declaration.name
  literal : ∀ pair ∈ declaration.keywordPairs,
    IsLiteral pair.1 ∧ IsLiteral pair.2

/-- The value that is paired with a keyword. -/
def value (declaration : Declaration) (keyword : List Char) :
    Option (List Char) :=
  paired (spells keyword) declaration.keywordPairs

/-- What the declaration says, whatever the order of its pairs. -/
def extracted (declaration : Declaration) (madeAvailable : List (List Char)) :
    Extracted :=
  finishExtracted declaration.kind.lowerName madeAvailable
    (extractFields declaration.name declaration.value)

variable (declaration : Declaration) (order : List (List Char × List Char))

/-- In front of the pair of a keyword, the name or a value spells the keyword
and stands directly before another pair: the keyword of that pair. -/
def strayValue (keyword : List Char) : Option (List Char) :=
  stray (spells keyword) declaration.front order

/-- The repository keywords, in order up to the one that is given. -/
def strayForge : Option (ForgeKeyword × List Char) :=
  firstStray (fun forge => declaration.strayValue order forge.keyword)
    (fun forge => declaration.value forge.keyword) forgeKeywords

def strayLegacy : Option (LegacyVcsKeyword × List Char) :=
  firstStray (fun legacy => declaration.strayValue order legacy.repositoryKeyword)
    (fun legacy => declaration.value legacy.repositoryKeyword) legacyVcsKeywords

/-- `GIT_TAG`, or else `VERSION`. -/
def tagOrVersion : List Char :=
  ((declaration.value "GIT_TAG".toList).or
    (declaration.value "VERSION".toList)).getD []

/-- The legacy system of the declaration. -/
def legacyVcs? : Option LegacyVcsKeyword :=
  (firstValue (fun legacy : LegacyVcsKeyword =>
    declaration.value legacy.repositoryKeyword) legacyVcsKeywords).map Prod.fst

/-- The version keywords, in order up to the one that gives it; that of a legacy
system comes last. -/
def strayVersion : Option (List Char) :=
  match firstStray (declaration.strayValue order) declaration.value
      ["GIT_TAG".toList, "VERSION".toList] with
  | some (_, value) => some value
  | none =>
    if declaration.tagOrVersion = [] then
      declaration.legacyVcs?.bind fun legacy =>
        (declaration.strayValue order legacy.versionKeyword).map
          legacy.revision
    else none

/-- What is taken for the value of a keyword is what the field is to be. -/
structure ReadsPairs (madeAvailable : List (List Char)) : Prop where
  name : declaration.kind = .cpmAddPackage →
    ∀ value, declaration.strayValue order "NAME".toList = some value →
      (declaration.extracted madeAvailable).name = value
  gitUrl : ∀ forge value, declaration.strayForge order = some (forge, value) →
    (declaration.extracted madeAvailable).gitUrl = forge.urlPrefix ++ value
  version : ∀ value, declaration.strayVersion order = some value →
    (declaration.extracted madeAvailable).version = value
  archiveUrl : ∀ value,
    declaration.strayValue order "URL".toList = some value →
      (declaration.extracted madeAvailable).archiveUrl = value
  urlHash : ∀ value,
    declaration.strayValue order "URL_HASH".toList = some value →
      (declaration.extracted madeAvailable).urlHash = value
  legacy : ∀ legacy value,
    declaration.strayLegacy order = some (legacy, value) →
      (declaration.extracted madeAvailable).legacyVcsKind = legacy.vcsKind ∧
        (declaration.extracted madeAvailable).legacyVcsUrl = value

end Declaration

theorem keywordValue_eq_valueBehind (arguments : List (List Char))
    (keyword : List Char) :
    keywordValue arguments keyword = valueBehind (spells keyword) arguments := by
  induction arguments with
  | nil => rfl
  | cons argument arguments ih =>
    cases arguments with
    | nil => rfl
    | cons value rest =>
      rw [keywordValue, valueBehind, ih]
      simp [spells]

theorem spelledOnce_of_isValid {declaration : Declaration}
    (h : declaration.IsValid) (keyword : List Char) :
    SpelledOnce (spells keyword) declaration.keywordPairs := by
  apply spelledOnce_of_nodup h.distinct
  intro left right hleft hright
  simp only [spells, decide_eq_true_eq] at hleft hright
  exact hleft.trans hright.symm

theorem keywordValue_argumentsIn {declaration : Declaration}
    (h : declaration.IsValid) {order : List (List Char × List Char)}
    (horder : order.Perm declaration.keywordPairs) :
    keywordValue (declaration.argumentsIn order) = fun keyword =>
      (declaration.strayValue order keyword).or (declaration.value keyword) := by
  funext keyword
  rw [keywordValue_eq_valueBehind, Declaration.argumentsIn,
    valueBehind_flattened,
    paired_congr_perm horder (spelledOnce_of_isValid h keyword)]
  rfl

theorem strayValue_ne_nil {declaration : Declaration} (h : declaration.IsValid)
    {order : List (List Char × List Char)}
    (horder : order.Perm declaration.keywordPairs) {keyword value : List Char}
    (hvalue : declaration.strayValue order keyword = some value) :
    value ≠ [] := by
  obtain ⟨pair, hmem, rfl⟩ := exists_of_stray hvalue
  exact h.keyword_ne pair (horder.mem_iff.mp hmem)

/-! ## The fields -/

theorem gitUrl_extractFields (name : List Char)
    (read : List Char → Option (List Char)) :
    (extractFields name read).gitUrl =
      ((firstValue (fun forge : ForgeKeyword => read forge.keyword)
        forgeKeywords).map fun found => found.1.urlPrefix ++ found.2).getD [] := by
  simp only [extractFields, firstValue, List.map_findSome?, Option.map_map,
    Function.comp_def]

section Fields

variable {declaration : Declaration} {order : List (List Char × List Char)}

/-- What the flat list of arguments gives for a keyword. -/
def readIn (declaration : Declaration)
    (order : List (List Char × List Char)) (keyword : List Char) :
    Option (List Char) :=
  (declaration.strayValue order keyword).or (declaration.value keyword)

theorem gitUrl_eq_iff (name : List Char) :
    (extractFields name (readIn declaration order)).gitUrl =
        (extractFields declaration.name declaration.value).gitUrl ↔
      ∀ forge value, declaration.strayForge order = some (forge, value) →
        (extractFields declaration.name declaration.value).gitUrl =
          forge.urlPrefix ++ value := by
  simp only [gitUrl_extractFields, readIn, firstValue_or, Option.map_or]
  rw [getD_or_eq_iff, Declaration.strayForge]
  simp only [Option.map_eq_some_iff, forall_exists_index, and_imp, Prod.forall]
  constructor
  · intro h forge value hstray
    exact h _ forge value hstray rfl
  · rintro h _ forge value hstray rfl
    exact h forge value hstray

theorem legacy_eq_iff (name : List Char) :
    ((extractFields name (readIn declaration order)).legacyVcsKind =
        (extractFields declaration.name declaration.value).legacyVcsKind ∧
      (extractFields name (readIn declaration order)).legacyVcsUrl =
        (extractFields declaration.name declaration.value).legacyVcsUrl) ↔
      ∀ legacy value, declaration.strayLegacy order = some (legacy, value) →
        (extractFields declaration.name declaration.value).legacyVcsKind =
            legacy.vcsKind ∧
          (extractFields declaration.name declaration.value).legacyVcsUrl =
            value := by
  have hfirst := @firstValue_or (List Char) LegacyVcsKeyword
    (fun legacy => declaration.strayValue order legacy.repositoryKeyword)
    (fun legacy => declaration.value legacy.repositoryKeyword)
    legacyVcsKeywords
  have hkind : (extractFields name (readIn declaration order)).legacyVcsKind =
      (((declaration.strayLegacy order).map fun found => found.1.vcsKind).or
        ((firstValue (fun legacy : LegacyVcsKeyword =>
          declaration.value legacy.repositoryKeyword) legacyVcsKeywords).map
            fun found => found.1.vcsKind)).getD [] := by
    rw [← Option.map_or, Declaration.strayLegacy, ← hfirst]
    rfl
  have hurl : (extractFields name (readIn declaration order)).legacyVcsUrl =
      (((declaration.strayLegacy order).map Prod.snd).or
        ((firstValue (fun legacy : LegacyVcsKeyword =>
          declaration.value legacy.repositoryKeyword) legacyVcsKeywords).map
            Prod.snd)).getD [] := by
    rw [← Option.map_or, Declaration.strayLegacy, ← hfirst]
    rfl
  have hkind' := @getD_or_eq_iff _
    ((declaration.strayLegacy order).map fun found => found.1.vcsKind)
    ((firstValue (fun legacy : LegacyVcsKeyword =>
      declaration.value legacy.repositoryKeyword) legacyVcsKeywords).map
        fun found => found.1.vcsKind) []
  have hurl' := @getD_or_eq_iff _ ((declaration.strayLegacy order).map Prod.snd)
    ((firstValue (fun legacy : LegacyVcsKeyword =>
      declaration.value legacy.repositoryKeyword) legacyVcsKeywords).map
        Prod.snd) []
  rw [hkind, hurl]
  refine (and_congr hkind' hurl').trans ?_
  constructor
  · rintro ⟨hkind, hurl⟩ legacy value hstray
    exact ⟨hkind _ (by rw [hstray]; rfl), hurl _ (by rw [hstray]; rfl)⟩
  · intro h
    constructor
    · intro kind hsome
      obtain ⟨⟨legacy, value⟩, hstray, rfl⟩ := Option.map_eq_some_iff.mp hsome
      exact (h legacy value hstray).1
    · intro url hsome
      obtain ⟨⟨legacy, value⟩, hstray, rfl⟩ := Option.map_eq_some_iff.mp hsome
      exact (h legacy value hstray).2

def versionOf (read : List Char → Option (List Char))
    (legacy : Option LegacyVcsKeyword) : List Char :=
  let version := ((read "GIT_TAG".toList).or (read "VERSION".toList)).getD []
  if version = [] then
    (legacy.bind fun legacy =>
      (read legacy.versionKeyword).map legacy.revision).getD []
  else version

theorem version_extractFields (name : List Char)
    (read : List Char → Option (List Char)) :
    (extractFields name read).version =
      versionOf read ((firstValue (fun legacy : LegacyVcsKeyword =>
        read legacy.repositoryKeyword) legacyVcsKeywords).map Prod.fst) := by
  rw [extractFields, versionOf]
  dsimp only
  rw [← firstValue]
  generalize ((read "GIT_TAG".toList).or (read "VERSION".toList)).getD [] =
    version
  cases firstValue (fun legacy : LegacyVcsKeyword =>
      read legacy.repositoryKeyword) legacyVcsKeywords with
  | none =>
    by_cases hversion : version = []
    · rw [if_pos hversion, hversion]
      rfl
    · rw [if_neg hversion]
  | some found => rfl

theorem map_snd_firstValue_pair (read : List Char → Option (List Char))
    (first second : List Char) :
    (firstValue read [first, second]).map Prod.snd =
      (read first).or (read second) := by
  rw [firstValue, List.findSome?_cons, List.findSome?_cons, List.findSome?_nil]
  cases read first with
  | some value => rfl
  | none => cases read second <;> rfl

theorem versionOf_eq_iff (h : declaration.IsValid)
    (horder : order.Perm declaration.keywordPairs) :
    versionOf (readIn declaration order) declaration.legacyVcs? =
        versionOf declaration.value declaration.legacyVcs? ↔
      ∀ value, declaration.strayVersion order = some value →
        versionOf declaration.value declaration.legacyVcs? = value := by
  have hread : (readIn declaration order "GIT_TAG".toList).or
      (readIn declaration order "VERSION".toList) =
        ((firstStray (declaration.strayValue order) declaration.value
          ["GIT_TAG".toList, "VERSION".toList]).map Prod.snd).or
            ((declaration.value "GIT_TAG".toList).or
              (declaration.value "VERSION".toList)) := by
    rw [← map_snd_firstValue_pair, ← map_snd_firstValue_pair, ← Option.map_or,
      ← firstValue_or]
    rfl
  rw [Declaration.strayVersion]
  cases hstray : firstStray (declaration.strayValue order) declaration.value
      ["GIT_TAG".toList, "VERSION".toList] with
  | some found =>
    obtain ⟨keyword, value⟩ := found
    have hne : value ≠ [] :=
      strayValue_ne_nil h horder (mem_of_firstStray hstray).2
    have hversion : versionOf (readIn declaration order)
        declaration.legacyVcs? = value := by
      rw [versionOf, hread, hstray, Option.map_some, Option.some_or,
        Option.getD_some, if_neg hne]
    rw [hversion]
    simp only [Option.some.injEq, forall_eq']
    exact eq_comm
  | none =>
    rw [hstray, Option.map_none, Option.none_or] at hread
    simp only [versionOf, hread]
    rw [← Declaration.tagOrVersion]
    by_cases hempty : declaration.tagOrVersion = []
    · simp only [if_pos hempty]
      cases declaration.legacyVcs? with
      | none => simp
      | some legacy =>
        simp only [Option.bind_some, readIn, Option.map_or]
        exact getD_or_eq_iff
    · simp [hempty]

/-- A legacy system is known by its kind. -/
theorem map_fst_eq_of_vcsKind
    {left right : Option (LegacyVcsKeyword × List Char)}
    (hleft : ∀ found, left = some found → found.1 ∈ legacyVcsKeywords)
    (hright : ∀ found, right = some found → found.1 ∈ legacyVcsKeywords)
    (hkind : (left.map fun found => found.1.vcsKind).getD [] =
      (right.map fun found => found.1.vcsKind).getD []) :
    left.map Prod.fst = right.map Prod.fst := by
  have hne : ∀ legacy ∈ legacyVcsKeywords, legacy.vcsKind ≠ [] := by decide
  have hinjective : ∀ legacy ∈ legacyVcsKeywords,
      ∀ other ∈ legacyVcsKeywords, legacy.vcsKind = other.vcsKind →
        legacy = other := by
    decide
  cases left with
  | none =>
    cases right with
    | none => rfl
    | some found => exact absurd hkind.symm (hne _ (hright found rfl))
  | some found =>
    cases right with
    | none => exact absurd hkind (hne _ (hleft found rfl))
    | some other =>
      exact congrArg some (hinjective _ (hleft found rfl) _
        (hright other rfl) hkind)

theorem legacyVcs?_eq {name : List Char}
    (hkind : (extractFields name (readIn declaration order)).legacyVcsKind =
      (extractFields declaration.name declaration.value).legacyVcsKind) :
    (firstValue (fun legacy : LegacyVcsKeyword =>
      readIn declaration order legacy.repositoryKeyword) legacyVcsKeywords).map
        Prod.fst = declaration.legacyVcs? := by
  apply map_fst_eq_of_vcsKind
  · rintro ⟨legacy, value⟩ hfound
    exact (mem_of_firstValue hfound).1
  · rintro ⟨legacy, value⟩ hfound
    exact (mem_of_firstValue hfound).1
  · exact hkind

end Fields

/-! ## Literal texts -/

theorem isLiteral_iff {text : List Char} :
    IsLiteral text ↔ ∀ marker ∈ unexpandedMarkers, ¬marker <:+: text := by
  simp only [IsLiteral, containsUnexpandedVariable, List.any_eq_false,
    containsText_eq_true_iff]

theorem isLiteral_of_suffix {text rest : List Char} (h : IsLiteral text)
    (hsuffix : rest <:+ text) : IsLiteral rest := by
  rw [isLiteral_iff] at h ⊢
  intro marker hmem hinside
  exact h marker hmem (hinside.trans hsuffix.isInfix)

/-- No marker starts in a text without `$` and `%`. -/
theorem isLiteral_append {front text : List Char} (hdollar : '$' ∉ front)
    (hpercent : '%' ∉ front) (h : IsLiteral text) :
    IsLiteral (front ++ text) := by
  rw [isLiteral_iff] at h ⊢
  rintro marker hmem ⟨before, behind, heq⟩
  have hhead : ∃ first rest, marker = first :: rest ∧ first ∉ front := by
    simp only [unexpandedMarkers, List.mem_cons, List.not_mem_nil,
      or_false] at hmem
    rcases hmem with rfl | rfl | rfl | rfl | rfl | rfl
    · exact ⟨'$', _, rfl, hdollar⟩
    · exact ⟨'$', _, rfl, hdollar⟩
    · exact ⟨'$', _, rfl, hdollar⟩
    · exact ⟨'%', _, rfl, hpercent⟩
    · exact ⟨'$', _, rfl, hdollar⟩
    · exact ⟨'$', _, rfl, hdollar⟩
  obtain ⟨first, rest, rfl, hfirst⟩ := hhead
  rw [List.append_assoc] at heq
  rcases List.append_eq_append_iff.mp heq with
    ⟨middle, hfront, hmiddle⟩ | ⟨middle, _, htext⟩
  · cases middle with
    | nil => exact h _ hmem ⟨[], behind, by simpa using hmiddle⟩
    | cons other middle =>
      obtain ⟨rfl, _⟩ := List.cons.inj hmiddle
      exact hfirst (by simp [hfront])
  · exact h _ hmem ⟨middle, behind, by simpa using htext.symm⟩

theorem isLiteral_nil : IsLiteral [] := rfl

theorem isLiteral_getD {text : Option (List Char)}
    (h : ∀ value, text = some value → IsLiteral value) :
    IsLiteral (text.getD []) := by
  cases text with
  | none => exact isLiteral_nil
  | some value => exact h value rfl

theorem isLiteral_revision {revision : List Char} (h : IsLiteral revision)
    (legacy : LegacyVcsKeyword) : IsLiteral (legacy.revision revision) := by
  rw [LegacyVcsKeyword.revision, stripSvnRevisionPrefix]
  split_ifs
  · exact isLiteral_of_suffix h (List.drop_suffix 2 revision)
  · exact h
  · exact h

/-- Nothing of a literal declaration is stripped. -/
theorem stripUnresolvedFields_extractFields {name : List Char}
    {read : List Char → Option (List Char)} (hname : IsLiteral name)
    (hread : ∀ keyword value, read keyword = some value → IsLiteral value) :
    stripUnresolvedFields (extractFields name read) =
      extractFields name read := by
  have hgitUrl : IsLiteral (extractFields name read).gitUrl := by
    rw [gitUrl_extractFields]
    apply isLiteral_getD
    intro value hvalue
    obtain ⟨⟨forge, repository⟩, hfound, rfl⟩ := Option.map_eq_some_iff.mp hvalue
    obtain ⟨hforge, hrepository⟩ := mem_of_firstValue hfound
    have hprefixes : ∀ forge ∈ forgeKeywords,
        '$' ∉ forge.urlPrefix ∧ '%' ∉ forge.urlPrefix := by
      decide
    exact isLiteral_append (hprefixes forge hforge).1 (hprefixes forge hforge).2
      (hread _ _ hrepository)
  have hversion : IsLiteral (extractFields name read).version := by
    rw [version_extractFields, versionOf]
    have htag : IsLiteral (((read "GIT_TAG".toList).or
        (read "VERSION".toList)).getD []) := by
      apply isLiteral_getD
      intro value hvalue
      rcases Option.or_eq_some_iff.mp hvalue with htag | ⟨_, hversion⟩
      · exact hread _ _ htag
      · exact hread _ _ hversion
    split_ifs
    · apply isLiteral_getD
      intro value hvalue
      obtain ⟨legacy, _, hmap⟩ := Option.bind_eq_some_iff.mp hvalue
      obtain ⟨revision, hrevision, rfl⟩ := Option.map_eq_some_iff.mp hmap
      exact isLiteral_revision (hread _ _ hrevision) legacy
    · exact htag
  have harchiveUrl : IsLiteral (extractFields name read).archiveUrl :=
    isLiteral_getD (hread _)
  have hurlHash : IsLiteral (extractFields name read).urlHash :=
    isLiteral_getD (hread _)
  have hlegacyVcsUrl : IsLiteral (extractFields name read).legacyVcsUrl := by
    apply isLiteral_getD
    intro value hvalue
    obtain ⟨⟨legacy, repository⟩, hfound, rfl⟩ :=
      Option.map_eq_some_iff.mp hvalue
    exact hread _ _ (mem_of_firstValue hfound).2
  have hkeep : ∀ (label : String) (field : List Char) (stripped : List String),
      IsLiteral field → stripField label field stripped = (field, stripped) := by
    intro label field stripped hfield
    rw [stripField, if_neg (by rw [hfield]; decide)]
  rw [stripUnresolvedFields]
  simp only [hkeep _ (extractFields name read).name _ hname, hkeep _ _ _ hgitUrl,
    hkeep _ _ _ hversion, hkeep _ _ _ harchiveUrl, hkeep _ _ _ hurlHash,
    hkeep _ _ _ hlegacyVcsUrl]
  rfl

theorem expandedArgument_of_isLiteral {argument : List UInt8}
    (h : IsLiteral (byteText argument)) (table : VariableTable) :
    expandedArgument table argument = byteText argument := by
  have hnone : ¬['$', cmakeVariableDialect.openBracket] <:+:
      (String.ofList (byteText argument)).toList := by
    rw [String.toList_ofList]
    exact isLiteral_iff.mp h _ (by simp [unexpandedMarkers, cmakeVariableDialect])
  rw [expandedArgument, expandVariables_of_no_reference hnone,
    String.toList_ofList]

section Extraction

variable {declaration : Declaration} {order : List (List Char × List Char)}

theorem isLiteral_of_mem_argumentsIn (h : declaration.IsValid)
    (horder : order.Perm declaration.keywordPairs) {argument : List Char}
    (hmem : argument ∈ declaration.argumentsIn order) : IsLiteral argument := by
  rw [Declaration.argumentsIn, List.mem_append] at hmem
  rcases hmem with hfront | hpairs
  · rw [Declaration.front] at hfront
    split_ifs at hfront
    · simp at hfront
    · obtain rfl : argument = declaration.name := by simpa using hfront
      exact h.name_literal
  · obtain ⟨pair, hpair, rfl | rfl⟩ := mem_flattened_iff.mp hpairs
    · exact (h.literal pair (horder.mem_iff.mp hpair)).1
    · exact (h.literal pair (horder.mem_iff.mp hpair)).2

theorem isLiteral_readIn (h : declaration.IsValid)
    (horder : order.Perm declaration.keywordPairs) {keyword value : List Char}
    (hread : readIn declaration order keyword = some value) :
    IsLiteral value := by
  rw [readIn, Option.or_eq_some_iff] at hread
  rcases hread with hstray | ⟨_, hvalue⟩
  · obtain ⟨pair, hmem, rfl⟩ := exists_of_stray hstray
    exact (h.literal pair (horder.mem_iff.mp hmem)).1
  · obtain ⟨pair, hmem, _, rfl⟩ :=
      (paired_eq_some_iff (spelledOnce_of_isValid h keyword)).mp hvalue
    exact (h.literal pair hmem).2

def readName (declaration : Declaration)
    (order : List (List Char × List Char)) : List Char :=
  if declaration.kind = .cpmAddPackage then
    (readIn declaration order "NAME".toList).getD []
  else declaration.name

theorem isCpmCommand_lowerName (kind : DeclarationKind) :
    isCpmCommand kind.lowerName = decide (kind = .cpmAddPackage) := by
  cases kind <;> decide

theorem extractDeclaration_argumentsIn (h : declaration.IsValid)
    (horder : order.Perm declaration.keywordPairs) {command : CmakeCommand}
    (harguments :
      command.arguments.map byteText = declaration.argumentsIn order)
    (madeAvailable : List (List Char)) (table : VariableTable) :
    extractDeclaration command declaration.kind.lowerName madeAvailable table =
      finishExtracted declaration.kind.lowerName madeAvailable
        (extractFields (readName declaration order)
          (readIn declaration order)) := by
  have hexpanded : command.arguments.map (expandedArgument table) =
      declaration.argumentsIn order := by
    rw [← harguments]
    apply List.map_congr_left
    intro argument hmem
    apply expandedArgument_of_isLiteral
    apply isLiteral_of_mem_argumentsIn h horder
    rw [← harguments]
    exact List.mem_map_of_mem hmem
  have hread := keywordValue_argumentsIn h horder
  change _ = readIn declaration order at hread
  have hname : IsLiteral (readName declaration order) := by
    rw [readName]
    split_ifs
    · exact isLiteral_getD fun value hvalue => isLiteral_readIn h horder hvalue
    · exact h.name_literal
  have hstrip := stripUnresolvedFields_extractFields hname
    (fun keyword value => @isLiteral_readIn _ _ h horder keyword value)
  rw [extractDeclaration, hexpanded, isCpmCommand_lowerName]
  by_cases hkind : declaration.kind = .cpmAddPackage
  · -- at least the name and its keyword stand there
    have hpairs : declaration.keywordPairs ≠ [] := by
      simp [Declaration.keywordPairs, hkind]
    obtain ⟨⟨key, value⟩, pairs, rfl⟩ :=
      List.exists_cons_of_ne_nil (fun hnil => hpairs (by
        rw [hnil] at horder
        exact horder.symm.eq_nil) : order ≠ [])
    have hfront : declaration.argumentsIn ((key, value) :: pairs) =
        key :: value :: flattened pairs := by
      rw [Declaration.argumentsIn, Declaration.front, if_pos hkind]
      rfl
    rw [readName, if_pos hkind] at hstrip ⊢
    rw [hfront] at hread ⊢
    simp only [hkind, decide_true, hread, hstrip]
  · have hfront : (declaration.argumentsIn order).head?.getD [] =
        declaration.name := by
      rw [Declaration.argumentsIn, Declaration.front, if_neg hkind]
      rfl
    rw [readName, if_neg hkind] at hstrip ⊢
    simp only [hkind, decide_false, hread, hfront, hstrip]

/-! ## Every order -/

theorem value_name (h : declaration.kind = .cpmAddPackage) :
    declaration.value "NAME".toList = some declaration.name := by
  rw [Declaration.value, Declaration.keywordPairs, if_pos h, paired]
  rfl

theorem readName_eq (declaration : Declaration)
    (order : List (List Char × List Char)) :
    readName declaration order = ((if declaration.kind = .cpmAddPackage then
        declaration.strayValue order "NAME".toList else none).or
          (some declaration.name)).getD [] := by
  rw [readName]
  split_ifs with hkind
  · rw [readIn, value_name hkind]
  · rfl

/-- A name that is taken for another is not left empty, so it stays. -/
theorem name_finishExtracted_eq_iff (h : declaration.IsValid)
    (horder : order.Perm declaration.keywordPairs)
    (madeAvailable : List (List Char)) {read : Extracted}
    (hname : read.name = readName declaration order)
    (hgitUrl : read.gitUrl =
      (extractFields declaration.name declaration.value).gitUrl) :
    (finishExtracted declaration.kind.lowerName madeAvailable read).name =
        (declaration.extracted madeAvailable).name ↔
      (declaration.kind = .cpmAddPackage →
        ∀ value, declaration.strayValue order "NAME".toList = some value →
          (declaration.extracted madeAvailable).name = value) := by
  have hsame : ∀ name, read.name = name → name = declaration.name →
      (finishExtracted declaration.kind.lowerName madeAvailable read).name =
        (declaration.extracted madeAvailable).name := by
    rintro _ rfl heq
    rw [Declaration.extracted, finishExtracted, finishExtracted]
    simp only [heq, hgitUrl]
    rfl
  by_cases hkind : declaration.kind = .cpmAddPackage
  · cases hstray : declaration.strayValue order "NAME".toList with
    | none =>
      rw [readName_eq, if_pos hkind, hstray] at hname
      exact iff_of_true (hsame _ hname rfl) (by simp)
    | some value =>
      have hne := strayValue_ne_nil h horder hstray
      rw [readName_eq, if_pos hkind, hstray] at hname
      have hvalue : read.name = value := hname
      have hfinish : (finishExtracted declaration.kind.lowerName
          madeAvailable read).name = value := by
        rw [finishExtracted]
        simp [hvalue, hne]
      rw [hfinish]
      simp only [hkind, Option.some.injEq, forall_eq', forall_const]
      exact eq_comm
  · rw [readName_eq, if_neg hkind] at hname
    exact iff_of_true (hsame _ hname rfl) (by simp [hkind])

theorem finishExtracted_eq_iff (lowerName : List Char)
    (madeAvailable : List (List Char)) (name other : List Char)
    (read reading : List Char → Option (List Char)) :
    finishExtracted lowerName madeAvailable (extractFields name read) =
        finishExtracted lowerName madeAvailable (extractFields other reading) ↔
      (finishExtracted lowerName madeAvailable (extractFields name read)).name =
          (finishExtracted lowerName madeAvailable
            (extractFields other reading)).name ∧
        (extractFields name read).gitUrl = (extractFields other reading).gitUrl ∧
        (extractFields name read).version =
          (extractFields other reading).version ∧
        (extractFields name read).archiveUrl =
          (extractFields other reading).archiveUrl ∧
        (extractFields name read).urlHash =
          (extractFields other reading).urlHash ∧
        (extractFields name read).legacyVcsKind =
          (extractFields other reading).legacyVcsKind ∧
        (extractFields name read).legacyVcsUrl =
          (extractFields other reading).legacyVcsUrl := by
  constructor
  · intro heq
    obtain ⟨hname, hgitUrl, hversion, harchiveUrl, hurlHash, hkind, hurl, _⟩ :=
      Extracted.ext_iff.mp heq
    exact ⟨hname, hgitUrl, hversion, harchiveUrl, hurlHash, hkind, hurl⟩
  · rintro ⟨hname, hgitUrl, hversion, harchiveUrl, hurlHash, hkind, hurl⟩
    have hdeclareOnly : (finishExtracted lowerName madeAvailable
        (extractFields name read)).declareOnly =
          (finishExtracted lowerName madeAvailable
            (extractFields other reading)).declareOnly := by
      simp only [finishExtracted] at hname ⊢
      rw [hname]
    rw [Extracted.ext_iff]
    exact ⟨hname, hgitUrl, hversion, harchiveUrl, hurlHash, hkind, hurl, rfl,
      hdeclareOnly, rfl, rfl⟩

/-- In an order of its pairs a declaration gives each field the value that is
paired with its keyword, exactly when nothing else is taken for that value. -/
theorem extractDeclaration_eq_iff {declaration : Declaration}
    (h : declaration.IsValid) {order : List (List Char × List Char)}
    (horder : order.Perm declaration.keywordPairs) {command : CmakeCommand}
    (harguments :
      command.arguments.map byteText = declaration.argumentsIn order)
    (madeAvailable : List (List Char)) (table : VariableTable) :
    extractDeclaration command declaration.kind.lowerName madeAvailable table =
        declaration.extracted madeAvailable ↔
      declaration.ReadsPairs order madeAvailable := by
  have hversionOf : (extractFields declaration.name declaration.value).version =
      versionOf declaration.value declaration.legacyVcs? :=
    version_extractFields _ _
  have hversionIn : (extractFields (readName declaration order)
        (readIn declaration order)).legacyVcsKind =
      (extractFields declaration.name declaration.value).legacyVcsKind →
        (extractFields (readName declaration order)
          (readIn declaration order)).version =
            versionOf (readIn declaration order) declaration.legacyVcs? := by
    intro hkind
    rw [version_extractFields, legacyVcs?_eq hkind]
  rw [extractDeclaration_argumentsIn h horder harguments, Declaration.extracted,
    finishExtracted_eq_iff]
  constructor
  · rintro ⟨hname, hgitUrl, hversion, harchiveUrl, hurlHash, hkind, hurl⟩
    constructor
    · exact (name_finishExtracted_eq_iff h horder madeAvailable rfl hgitUrl).mp
        hname
    · exact (gitUrl_eq_iff _).mp hgitUrl
    · rw [hversionIn hkind, hversionOf] at hversion
      have hall := (versionOf_eq_iff h horder).mp hversion
      rw [← hversionOf] at hall
      exact hall
    · exact getD_or_eq_iff.mp harchiveUrl
    · exact getD_or_eq_iff.mp hurlHash
    · exact (legacy_eq_iff _).mp ⟨hkind, hurl⟩
  · rintro ⟨hname, hgitUrl, hversion, harchiveUrl, hurlHash, hlegacy⟩
    have hgitUrl := (gitUrl_eq_iff (readName declaration order)).mpr hgitUrl
    obtain ⟨hkind, hurl⟩ :=
      (legacy_eq_iff (readName declaration order)).mpr hlegacy
    refine ⟨?_, hgitUrl, ?_, getD_or_eq_iff.mpr harchiveUrl,
      getD_or_eq_iff.mpr hurlHash, hkind, hurl⟩
    · exact (name_finishExtracted_eq_iff h horder madeAvailable rfl hgitUrl).mpr
        hname
    · rw [hversionIn hkind, hversionOf]
      apply (versionOf_eq_iff h horder).mpr
      rw [← hversionOf]
      exact hversion

end Extraction

def gitPairs : List (List Char × List Char) :=
  [("GIT_REPOSITORY".toList, "https://github.com/a/b".toList),
    ("GIT_TAG".toList, "v1".toList)]

/-- A dependency with a repository and a tag. -/
def gitDeclaration (name : String) : Declaration where
  kind := .fetchContentDeclare
  name := name.toList
  pairs := gitPairs

/-- The call, with the pairs in their order. -/
def gitCommand (name : String) : CmakeCommand where
  name := text "FetchContent_Declare"
  arguments := [text name, text "GIT_REPOSITORY",
    text "https://github.com/a/b", text "GIT_TAG", text "v1"]
  line := 1

theorem gitDeclaration_isValid {name : String}
    (hname : IsLiteral name.toList) : (gitDeclaration name).IsValid where
  distinct := by
    change (gitPairs.map fun pair => pair.1.map toLowerAsciiChar).Nodup
    decide +kernel
  keyword_ne := by
    change ∀ pair ∈ gitPairs, pair.1 ≠ []
    decide +kernel
  name_literal := hname
  literal := by
    change ∀ pair ∈ gitPairs, containsUnexpandedVariable pair.1 = false ∧
      containsUnexpandedVariable pair.2 = false
    decide +kernel

theorem extractDeclaration_eq_iff_zlib :
    extractDeclaration (gitCommand "zlib") "fetchcontent_declare".toList []
        .empty =
      (gitDeclaration "zlib").extracted [] := by
  have hvalid : (gitDeclaration "zlib").IsValid :=
    gitDeclaration_isValid (by
      unfold IsLiteral
      decide +kernel)
  have harguments : (gitCommand "zlib").arguments.map byteText =
      (gitDeclaration "zlib").argumentsIn
        (gitDeclaration "zlib").keywordPairs := by
    decide +kernel
  apply (extractDeclaration_eq_iff hvalid (List.Perm.refl _) harguments []
    .empty).mpr
  have hforge : (gitDeclaration "zlib").strayForge
      (gitDeclaration "zlib").keywordPairs = none := by
    decide +kernel
  have hlegacy : (gitDeclaration "zlib").strayLegacy
      (gitDeclaration "zlib").keywordPairs = none := by
    decide +kernel
  have hversion : (gitDeclaration "zlib").strayVersion
      (gitDeclaration "zlib").keywordPairs = none := by
    decide +kernel
  have harchive : (gitDeclaration "zlib").strayValue
      (gitDeclaration "zlib").keywordPairs "URL".toList = none := by
    decide +kernel
  have hhash : (gitDeclaration "zlib").strayValue
      (gitDeclaration "zlib").keywordPairs "URL_HASH".toList = none := by
    decide +kernel
  constructor
  · intro hkind
    cases hkind
  · simp [hforge]
  · simp [hversion]
  · intro value hvalue
    rw [harchive] at hvalue
    cases hvalue
  · intro value hvalue
    rw [hhash] at hvalue
    cases hvalue
  · simp [hlegacy]

/-- A dependency called url, whose first keyword is taken for its archive. -/
theorem extractDeclaration_ne_extracted :
    ¬∀ (declaration : Declaration) (order : List (List Char × List Char))
      (command : CmakeCommand) (madeAvailable : List (List Char))
      (table : VariableTable), declaration.IsValid →
        order.Perm declaration.keywordPairs →
        command.arguments.map byteText = declaration.argumentsIn order →
          extractDeclaration command declaration.kind.lowerName madeAvailable
            table = declaration.extracted madeAvailable := by
  intro hall
  have hvalid : (gitDeclaration "url").IsValid :=
    gitDeclaration_isValid (by
      unfold IsLiteral
      decide +kernel)
  have harguments : (gitCommand "url").arguments.map byteText =
      (gitDeclaration "url").argumentsIn
        (gitDeclaration "url").keywordPairs := by
    decide +kernel
  have heq := hall (gitDeclaration "url") _ (gitCommand "url") [] .empty hvalid
    (List.Perm.refl _) harguments
  rw [extractDeclaration_argumentsIn hvalid (List.Perm.refl _) harguments] at heq
  have harchive : readIn (gitDeclaration "url")
      (gitDeclaration "url").keywordPairs "URL".toList =
        some "GIT_REPOSITORY".toList := by
    decide +kernel
  have hnone : (gitDeclaration "url").value "URL".toList = none := by
    decide +kernel
  have hurl : (readIn (gitDeclaration "url")
      (gitDeclaration "url").keywordPairs "URL".toList).getD [] =
        ((gitDeclaration "url").value "URL".toList).getD [] :=
    congrArg Extracted.archiveUrl heq
  rw [harchive, hnone] at hurl
  revert hurl
  decide

end Bomwerk.Cpp.CmakeDeps
