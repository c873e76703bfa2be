import Bomwerk.Core.BuildVariables
import Bomwerk.Core.Component
import Bomwerk.Core.GitPurl
import Bomwerk.Core.VariableExpansion
import Bomwerk.Cpp.CmakeScanner

/-!
# CMake dependency declarations

`parsers/cpp/cmake_deps.cpp`: what one declaration command says of a dependency,
and the component that is made of it.  A text of a file is its bytes.
-/

namespace Bomwerk.Cpp.CmakeDeps

open Bomwerk.Core

/-- `kShorthandForges`: the host of a prefix. -/
def shorthandForges : List (List Char × List Char) :=
  [("gh".toList, "github.com".toList), ("gl".toList, "gitlab.com".toList),
    ("bb".toList, "bitbucket.org".toList)]

structure ForgeKeyword where
  keyword : List Char
  urlPrefix : List Char

def forgeKeywords : List ForgeKeyword :=
  [⟨"GITHUB_REPOSITORY".toList, "https://github.com/".toList⟩,
    ⟨"GITLAB_REPOSITORY".toList, "https://gitlab.com/".toList⟩,
    ⟨"BITBUCKET_REPOSITORY".toList, "https://bitbucket.org/".toList⟩,
    ⟨"GIT_REPOSITORY".toList, []⟩]

structure LegacyVcsKeyword where
  repositoryKeyword : List Char
  versionKeyword : List Char
  vcsKind : List Char
  deriving DecidableEq

def legacyVcsKeywords : List LegacyVcsKeyword :=
  [⟨"SVN_REPOSITORY".toList, "SVN_REVISION".toList, "svn".toList⟩,
    ⟨"HG_REPOSITORY".toList, "HG_TAG".toList, "hg".toList⟩,
    ⟨"CVS_REPOSITORY".toList, "CVS_TAG".toList, "cvs".toList⟩]

def archiveSuffixes : List (List Char) :=
  [".tar.gz".toList, ".tgz".toList, ".tar.bz2".toList, ".tbz2".toList,
    ".tar.xz".toList, ".txz".toList, ".tar.zst".toList, ".tzst".toList,
    ".zip".toList, ".7z".toList, ".tar".toList]

def unknownComponentName : List Char := "unknown".toList

def isAllDigits (text : List Char) : Bool :=
  !text.isEmpty && text.all fun c => '0' ≤ c ∧ c ≤ '9'

/-- `equals_ascii_ignore_case`. -/
def SameIgnoringCase (left right : List Char) : Prop :=
  left.map toLowerAsciiChar = right.map toLowerAsciiChar

instance (left right : List Char) : Decidable (SameIgnoringCase left right) :=
  inferInstanceAs (Decidable (_ = _))

def keywordValue : List (List Char) → List Char → Option (List Char)
  | argument :: value :: rest, keyword =>
    if SameIgnoringCase argument keyword then some value
    else keywordValue (value :: rest) keyword
  | _, _ => none

/-- A file name less the first of the suffixes that it ends in. -/
def withoutArchiveSuffix (filename : List Char) : List Char :=
  match archiveSuffixes.find? fun suffix =>
      suffix.length < filename.length ∧ suffix <:+ filename with
  | some suffix => filename.take (filename.length - suffix.length)
  | none => filename

def guessVersionFromUrl (url : List Char) : List Char :=
  let filename := withoutArchiveSuffix ((afterLast? '/' url).getD url)
  match afterLast? '-' filename with
  | some (first :: rest) =>
    if '0' ≤ first ∧ first ≤ '9' then first :: rest else []
  | _ => []

def stripSvnRevisionPrefix (revision : List Char) : List Char :=
  if 2 < revision.length ∧
      (revision.take 2 = ['-', 'r'] ∨ revision.take 2 = ['-', 'R']) then
    revision.drop 2
  else revision

structure ForgeTarget where
  url : List Char
  version : List Char

def isKnownShorthandPrefix (shorthand : List Char) : Bool :=
  (shorthandForges.lookup shorthand).isSome

def parseCpmShorthand (argument : List Char) : Option ForgeTarget :=
  match argument.dropWhile (· ≠ ':') with
  | [] => none
  | _ :: remainder =>
    match shorthandForges.lookup (argument.takeWhile (· ≠ ':')) with
    | none => none
    | some host =>
      let path := remainder.takeWhile fun c => c ≠ '@' ∧ c ≠ '#'
      let version := (remainder.dropWhile fun c => c ≠ '@' ∧ c ≠ '#').tail
      if path = [] then none
      else some ⟨"https://".toList ++ host ++ '/' :: path, version⟩

/-! ## Declarations -/

/-- `Extracted`. -/
@[ext]
structure Extracted where
  name : List Char := []
  gitUrl : List Char := []
  version : List Char := []
  archiveUrl : List Char := []
  urlHash : List Char := []
  legacyVcsKind : List Char := []
  legacyVcsUrl : List Char := []
  unrecognizedShorthandPrefix : List Char := []
  declareOnly : Bool := false
  nameUnresolved : Bool := false
  strippedFields : List String := []
  deriving DecidableEq

/-- `strip`: a field, and the labels of the fields stripped so far. -/
def stripField (label : String) (field : List Char) (stripped : List String) :
    List Char × List String :=
  if containsUnexpandedVariable field then ([], stripped ++ [label])
  else (field, stripped)

def stripUnresolvedFields (extracted : Extracted) : Extracted :=
  let before := extracted.strippedFields
  let (name, stripped) := stripField "name" extracted.name before
  let nameUnresolved : Bool := before.length < stripped.length
  let (gitUrl, stripped) := stripField "repository" extracted.gitUrl stripped
  let (version, stripped) := stripField "version" extracted.version stripped
  let (archiveUrl, stripped) := stripField "URL" extracted.archiveUrl stripped
  let (urlHash, stripped) := stripField "URL_HASH" extracted.urlHash stripped
  let (legacyVcsUrl, stripped) :=
    stripField "repository" extracted.legacyVcsUrl stripped
  { extracted with
    name := name, gitUrl := gitUrl, version := version
    archiveUrl := archiveUrl, urlHash := urlHash, legacyVcsUrl := legacyVcsUrl
    nameUnresolved := nameUnresolved, strippedFields := stripped }

def isCpmCommand (lowerName : List Char) : Bool :=
  lowerName = "cpmaddpackage".toList || lowerName = "cpmfindpackage".toList ||
    lowerName = "cpmdeclarepackage".toList

def extractShorthand (argument : List Char) : Extracted :=
  match parseCpmShorthand argument with
  | some shorthand =>
    { gitUrl := shorthand.url, version := shorthand.version
      name := (parseGitRemote shorthand.url).repo }
  | none =>
    { name := argument
      unrecognizedShorthandPrefix :=
        if ':' ∈ argument then argument.takeWhile (· ≠ ':') else [] }

def LegacyVcsKeyword.revision (legacy : LegacyVcsKeyword)
    (revision : List Char) : List Char :=
  if legacy.vcsKind = "svn".toList then stripSvnRevisionPrefix revision
  else revision

/-- The fields of a call, where `read` gives the value of a keyword. -/
def extractFields (name : List Char)
    (read : List Char → Option (List Char)) : Extracted :=
  let gitUrl := forgeKeywords.findSome? fun forge =>
    (read forge.keyword).map (forge.urlPrefix ++ ·)
  let version :=
    ((read "GIT_TAG".toList).or (read "VERSION".toList)).getD []
  let legacy := legacyVcsKeywords.findSome? fun legacy =>
    (read legacy.repositoryKeyword).map fun repository => (legacy, repository)
  { name := name
    gitUrl := gitUrl.getD []
    version :=
      match legacy with
      | some (legacy, _) =>
        if version = [] then
          ((read legacy.versionKeyword).map legacy.revision).getD []
        else version
      | none => version
    archiveUrl := (read "URL".toList).getD []
    urlHash := (read "URL_HASH".toList).getD []
    legacyVcsKind := (legacy.map fun found => found.1.vcsKind).getD []
    legacyVcsUrl := (legacy.map Prod.snd).getD [] }

/-- A name left empty is that of the repository; and whether the dependency is
only declared. -/
def finishExtracted (lowerName : List Char) (madeAvailable : List (List Char))
    (extracted : Extracted) : Extracted :=
  let name :=
    if extracted.name = [] ∧ extracted.gitUrl ≠ [] then
      (parseGitRemote extracted.gitUrl).repo
    else extracted.name
  { extracted with
    name := name
    declareOnly :=
      if lowerName = "cpmdeclarepackage".toList then true
      else if lowerName = "fetchcontent_declare".toList then
        decide (name.map toLowerAsciiChar ∉ madeAvailable)
      else false }

def expandedArgument (table : VariableTable) (argument : List UInt8) :
    List Char :=
  (expandVariables (String.ofList (byteText argument)) table
    cmakeVariableDialect).toList

def extractDeclaration (command : CmakeCommand) (lowerName : List Char)
    (madeAvailable : List (List Char)) (table : VariableTable) :
    Extracted :=
  let arguments := command.arguments.map (expandedArgument table)
  let extracted :=
    match isCpmCommand lowerName, arguments with
    | true, [argument] => extractShorthand argument
    | true, _ =>
      extractFields ((keywordValue arguments "NAME".toList).getD [])
        (keywordValue arguments)
    | false, _ =>
      extractFields (arguments.head?.getD []) (keywordValue arguments)
  finishExtracted lowerName madeAvailable (stripUnresolvedFields extracted)

/-! ## Components -/

def buildArchivePurl (name version url checksumQualifier : List Char) :
    List Char :=
  "pkg:generic/".toList ++
    percentEncodeText (if name = [] then unknownComponentName else name) ++
    versionSuffix version ++ '?' ::
    ((if checksumQualifier = [] then []
      else "checksum=".toList ++ checksumQualifier ++ ['&']) ++
      "download_url=".toList ++ percentEncodeText url)

/-- What a `URL_HASH` with a digest of hexadecimal digits gives: the algorithm
and the digest, in lower case. -/
def urlHashParts (urlHash : List Char) : Option (List Char × List Char) :=
  match urlHash.dropWhile (· ≠ '=') with
  | _ :: first :: rest =>
    some ((urlHash.takeWhile (· ≠ '=')).map toLowerAsciiChar,
      (first :: rest).map toLowerAsciiChar)
  | _ => none

/-- The checksum qualifier of an archive, and the digest if it is one of
SHA-256; nothing if the digest is not hexadecimal. -/
def checksumOf (urlHash : List Char) : Option (List Char × List Char) :=
  match urlHashParts urlHash with
  | none => some ([], [])
  | some (algorithm, hex) =>
    if isHexDigits (String.ofList hex) then
      some (algorithm ++ ':' :: hex,
        if algorithm = "sha256".toList then hex else [])
    else none

def loweredByOne : Confidence → Confidence
  | .high => .medium
  | _ => .low

/-- `result.warn`, with the ecosystem of this producer. -/
def cmakeWarning (code : WarningCode) (message : List Char)
    (affectedPath : List Char) : Warning where
  code := code
  message := String.ofList message
  ecosystem := "cmake"
  affectedPath := String.ofList affectedPath

/-- What a branch of `component_from_declaration` settles. -/
structure Settled where
  version : List Char
  purl : List Char
  supplier : List Char := []
  sha256 : List Char := []
  confidence : Confidence
  warnings : List Warning := []

/-- `pkg:generic/<name>[@<version>]`. -/
def genericPurlText (name version : List Char) : List Char :=
  "pkg:generic/".toList ++ percentEncodeText name ++ versionSuffix version

def settleRepository (extracted : Extracted) (name : List Char) : Settled :=
  let version := normalizedObjectId extracted.version
  { version := version
    purl := buildGitPurl extracted.gitUrl version name
    supplier := (parseGitRemote extracted.gitUrl).owner
    confidence :=
      if isHexObjectId (String.ofList version) then .high else .medium }

def settleArchive (extracted : Extracted) (sourceLabel name : List Char) :
    Settled :=
  let version :=
    if extracted.version = [] then guessVersionFromUrl extracted.archiveUrl
    else extracted.version
  let checksum := checksumOf extracted.urlHash
  let qualifier := (checksum.map Prod.fst).getD []
  { version := version
    purl := buildArchivePurl name version extracted.archiveUrl qualifier
    sha256 := (checksum.map Prod.snd).getD []
    confidence := if qualifier = [] then .medium else .high
    warnings :=
      if checksum.isSome then []
      else
        [cmakeWarning .malformedEntrySkipped
          ("cmake: '".toList ++ sourceLabel ++ "' dependency '".toList ++ name ++
            ("' has a URL_HASH value that is not valid hex; " ++
              "ignoring the checksum").toList) []] }

def settleLegacyVcs (extracted : Extracted) (name : List Char) : Settled where
  version := extracted.version
  purl := genericPurlText name extracted.version ++ "?vcs_url=".toList ++
    percentEncodeText
      (extracted.legacyVcsKind ++ '+' :: extracted.legacyVcsUrl)
  confidence :=
    if extracted.legacyVcsKind = "svn".toList ∧
      isAllDigits extracted.version = true then .high else .medium

def settleGeneric (extracted : Extracted) (sourceLabel name : List Char) :
    Settled where
  version := extracted.version
  purl := genericPurlText name extracted.version
  confidence := .low
  warnings :=
    if extracted.strippedFields = [] then
      [cmakeWarning .dependencyMissingSource
        ("cmake: '".toList ++ sourceLabel ++ "' declares '".toList ++ name ++
          ("' with no repository or URL; " ++
            "reported as a generic component").toList) []]
    else []

/-- The branch for what the declaration has. -/
def settle (extracted : Extracted) (sourceLabel name : List Char) : Settled :=
  if extracted.gitUrl ≠ [] then settleRepository extracted name
  else if extracted.archiveUrl ≠ [] then
    settleArchive extracted sourceLabel name
  else if extracted.legacyVcsUrl ≠ [] then settleLegacyVcs extracted name
  else settleGeneric extracted sourceLabel name

/-- The warning about a shorthand that CPM does not define. -/
def shorthandWarnings (extracted : Extracted) (sourceLabel : List Char) :
    List Warning :=
  if extracted.unrecognizedShorthandPrefix = [] then []
  else
    [cmakeWarning .dependencyMissingSource
      ("cmake: '".toList ++ sourceLabel ++ "' uses a ".toList ++
        (if isKnownShorthandPrefix extracted.unrecognizedShorthandPrefix then
          "malformed CPM shorthand (empty owner/repo) for prefix".toList
        else "CPM shorthand with an unrecognized prefix".toList) ++
        " '".toList ++ extracted.unrecognizedShorthandPrefix ++
        ":'; treated as a bare package name".toList) []]

/-- The warning of a declaration that gives no component. -/
def skippedWarning (extracted : Extracted)
    (commandName sourceLabel location : List Char) : Option Warning :=
  if extracted.nameUnresolved ∧ extracted.gitUrl = [] then
    some (cmakeWarning .unresolvedVariableOrInterpolation
      ("cmake: ".toList ++ location ++ ": ".toList ++ commandName ++
        " call has a name that is an unresolved variable; skipped".toList)
      sourceLabel)
  else if extracted.gitUrl = [] ∧ extracted.archiveUrl = [] ∧
      extracted.legacyVcsUrl = [] ∧ extracted.name = [] then
    some (if extracted.strippedFields = [] then
        cmakeWarning .dependencyMissingSource
          ("cmake: '".toList ++ sourceLabel ++ "' has a ".toList ++
            commandName ++
            " call with no name, repository or URL; skipped".toList) []
      else
        cmakeWarning .unresolvedVariableOrInterpolation
          ("cmake: ".toList ++ location ++ ": ".toList ++ commandName ++
            (" call has no name and its repository or URL is an unresolved " ++
              "variable; skipped").toList) sourceLabel)
  else none

/-- `report_stripped_fields`. -/
def strippedWarnings (extracted : Extracted)
    (name sourceLabel location : List Char) : List Warning :=
  if extracted.strippedFields = [] then []
  else
    [cmakeWarning .unresolvedVariableOrInterpolation
      ("cmake: ".toList ++ location ++ ": dependency '".toList ++
        escapedForDiagnostic name ++
        "' has an unresolved variable in its ".toList ++
        (String.intercalate ", " extracted.strippedFields).toList ++
        "; left out of its identity, reported at low confidence".toList)
      sourceLabel]

/-- The confidence, lowered for what cannot be trusted. -/
def settledConfidence (extracted : Extracted) (wellFormed : Bool)
    (confidence : Confidence) : Confidence :=
  let confidence :=
    if extracted.strippedFields = [] then confidence else .low
  let confidence :=
    if extracted.declareOnly then loweredByOne confidence else confidence
  if wellFormed then confidence else .low

def componentFromDeclaration (command : CmakeCommand)
    (sourceLabel lowerName : List Char) (madeAvailable : List (List Char))
    (table : VariableTable) : Option Component × List Warning :=
  let extracted := extractDeclaration command lowerName madeAvailable table
  let location := sourceLabel ++ ':' :: (toString command.line).toList
  let commandName := byteText command.name
  let warnings := shorthandWarnings extracted sourceLabel
  match skippedWarning extracted commandName sourceLabel location with
  | some warning => (none, warnings ++ [warning])
  | none =>
    let name :=
      if extracted.name = [] then unknownComponentName else extracted.name
    let settled := settle extracted sourceLabel name
    let purl := String.ofList settled.purl
    let detail := sourceLabel ++ " -> ".toList ++ commandName ++
      '(' :: name ++ [')'] ++
      (if extracted.declareOnly then " [declared, not confirmed built]".toList
        else []) ++
      (if command.wellFormed then []
        else " [from a malformed declaration]".toList)
    (some
      { name := String.ofList name
        version := String.ofList settled.version
        purl := purl
        supplier := String.ofList settled.supplier
        sha256 := String.ofList settled.sha256
        evidence := [⟨.manifest, String.ofList detail,
          settledConfidence extracted command.wellFormed
            settled.confidence⟩] },
      warnings ++ settled.warnings ++
        strippedWarnings extracted name sourceLabel location ++
        (if (parsePurl purl).complete then []
          else
            [cmakeWarning .purlValidationFailed
              ("cmake: '".toList ++ sourceLabel ++
                "' produced an unparsable purl '".toList ++ settled.purl ++
                ['\'']) []]))

/-! ## What a declaration never does -/

theorem not_containsUnexpandedVariable_infix {part text : List Char}
    (hpart : part <:+: text) (htext : containsUnexpandedVariable text = false) :
    containsUnexpandedVariable part = false := by
  simp only [containsUnexpandedVariable, List.any_eq_false,
    containsText_eq_true_iff] at htext ⊢
  exact fun marker hmem hin => htext marker hmem (hin.trans hpart)

theorem not_containsUnexpandedVariable_normalizedObjectId {text : List Char}
    (htext : containsUnexpandedVariable text = false) :
    containsUnexpandedVariable (normalizedObjectId text) = false := by
  by_cases hid : isHexObjectId (String.ofList text) = true
  · have hmarkers : unexpandedMarkers.all (fun marker =>
        '$' ∈ marker ∨ '%' ∈ marker) = true := by decide
    simp only [containsUnexpandedVariable, List.any_eq_false,
      containsText_eq_true_iff]
    intro marker hmem hin
    rcases of_decide_eq_true (List.all_eq_true.mp hmarkers marker hmem) with
      h | h
    · exact notMem_normalizedObjectId (by decide) (by decide) hid (hin.subset h)
    · exact notMem_normalizedObjectId (by decide) (by decide) hid (hin.subset h)
  · rwa [normalizedObjectId, if_neg hid]

theorem afterLast?_suffix {mark : Char} {text behind : List Char}
    (h : afterLast? mark text = some behind) : behind <:+ text := by
  rw [afterLast?] at h
  split_ifs at h
  obtain rfl := Option.some.inj h
  simpa using List.reverse_suffix.mpr
    (List.takeWhile_prefix (l := text.reverse) (· ≠ mark))

theorem isInfix_guessVersionFromUrl (url : List Char) :
    guessVersionFromUrl url <:+: url := by
  have hname : (afterLast? '/' url).getD url <:+: url := by
    cases h : afterLast? '/' url with
    | none => exact List.infix_refl url
    | some name => exact (afterLast?_suffix h).isInfix
  have hstem : ∀ filename, withoutArchiveSuffix filename <:+: filename := by
    intro filename
    rw [withoutArchiveSuffix]
    split
    · exact (List.take_prefix _ _).isInfix
    · exact List.infix_refl _
  unfold guessVersionFromUrl
  dsimp only
  split
  · rename_i hversion
    split_ifs
    · exact ((afterLast?_suffix hversion).isInfix.trans (hstem _)).trans hname
    · exact List.nil_infix
  · exact List.nil_infix

theorem not_containsUnexpandedVariable_extractDeclaration
    (command : CmakeCommand) (lowerName : List Char)
    (madeAvailable : List (List Char)) (table : VariableTable) :
    let extracted := extractDeclaration command lowerName madeAvailable table
    containsUnexpandedVariable extracted.version = false ∧
      containsUnexpandedVariable extracted.archiveUrl = false := by
  have hstrip : ∀ label field stripped, containsUnexpandedVariable
      (stripField label field stripped).1 = false := by
    intro label field stripped
    rw [stripField]
    split_ifs with h
    · rfl
    · simpa using h
  exact ⟨hstrip .., hstrip ..⟩

theorem not_containsUnexpandedVariable_settle {extracted : Extracted}
    (hversion : containsUnexpandedVariable extracted.version = false)
    (hurl : containsUnexpandedVariable extracted.archiveUrl = false)
    (sourceLabel name : List Char) : containsUnexpandedVariable
      (settle extracted sourceLabel name).version = false := by
  unfold settle
  split_ifs
  · exact not_containsUnexpandedVariable_normalizedObjectId hversion
  · unfold settleArchive
    dsimp only
    split_ifs
    · exact not_containsUnexpandedVariable_infix
        (isInfix_guessVersionFromUrl _) hurl
    · exact hversion
  · exact hversion
  · exact hversion

/-- No version of a component carries an unexpanded variable.  A declaration
without a component, or with a field left out, is never passed over in silence,
and what is left of one with a field left out, or without its end, is of low
confidence. -/
theorem componentFromDeclaration_honest (command : CmakeCommand)
    (sourceLabel lowerName : List Char) (madeAvailable : List (List Char))
    (table : VariableTable) :
    let extracted := extractDeclaration command lowerName madeAvailable table
    let found := componentFromDeclaration command sourceLabel lowerName
      madeAvailable table
    (found.1 = none → found.2 ≠ []) ∧
      (extracted.strippedFields ≠ [] → ∃ warning ∈ found.2,
        warning.code = .unresolvedVariableOrInterpolation) ∧
      ∀ component ∈ found.1,
        containsUnexpandedVariable component.version.toList = false ∧
          (extracted.strippedFields ≠ [] ∨ command.wellFormed = false →
            component.evidence.map Evidence.confidence = [.low]) := by
  intro extracted found
  obtain ⟨hversion, hurl⟩ := not_containsUnexpandedVariable_extractDeclaration
    command lowerName madeAvailable table
  simp only [found, componentFromDeclaration]
  cases hskipped : skippedWarning extracted (byteText command.name) sourceLabel
      (sourceLabel ++ ':' :: (toString command.line).toList) with
  | some warning =>
    refine ⟨by simp, fun hstripped => ⟨warning, by simp, ?_⟩, nofun⟩
    rw [skippedWarning, if_neg hstripped] at hskipped
    split_ifs at hskipped <;> exact (Option.some.inj hskipped) ▸ rfl
  | none =>
    refine ⟨nofun, fun hstripped => ?_, ?_⟩
    · rw [strippedWarnings, if_neg hstripped]
      exact ⟨_, List.mem_append_left _ (List.mem_append_right _
        (List.mem_singleton_self _)), rfl⟩
    · intro component hcomponent
      obtain rfl := Option.some.inj hcomponent
      refine ⟨?_, fun hlow => ?_⟩
      · rw [String.toList_ofList]
        exact not_containsUnexpandedVariable_settle hversion hurl ..
      · simp only [List.map_cons, List.map_nil, settledConfidence]
        rcases hlow with hstripped | hbroken
        · rw [if_neg hstripped]
          split_ifs <;> rfl
        · simp [hbroken]

end Bomwerk.Cpp.CmakeDeps
