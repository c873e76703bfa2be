import Bomwerk.Core.Component
import Bomwerk.Core.GitUrl
import Bomwerk.Core.YamlSubset
import Bomwerk.Support.IndentedBlocks
import Mathlib.Data.List.Infix

/-!
# GitHub Actions

`parsers/ci/github_actions.cpp`: the references a workflow file makes to actions.
A text of a file is its bytes.
-/

namespace Bomwerk.Ci.GithubActions

open Bomwerk.Core Bomwerk.Support

def usesKey : List Char := "uses".toList

/-- `without_inline_comment`, the rule of `core::yaml_subset`. -/
def withoutInlineComment (content : List Char) : List Char :=
  YamlSubset.withoutComment content

/-- `parse_key_value`: the key without its quotes and the trimmed value. -/
def parseKeyValue (content : List Char) : Option (List Char × List Char) :=
  (YamlSubset.splitKey? content).map fun (key, value) =>
    (YamlSubset.unquoted (trimmed key), trimmed value)

/-- What the loop of `scan_workflow_file` takes a line for. -/
inductive LineReading
  | nothing
  | blockScalar
  | uses (value : List Char)
  deriving DecidableEq, Repr

/-- The content behind the marker of a sequence item; a bare dash leaves
nothing. -/
def withoutSequenceMarker (content : List Char) : List Char :=
  if content = ['-'] then []
  else if ['-', ' '].isPrefixOf content then trimmed (content.drop 2)
  else content

def contentReading (content : List Char) : LineReading :=
  match parseKeyValue content with
  | none => .nothing
  | some (key, value) =>
    if YamlSubset.opensBlockScalar value then .blockScalar
    else if key = usesKey then .uses (YamlSubset.unquoted value)
    else .nothing

/-- A line that is neither blank nor in the body of a block scalar. -/
def lineReading (rawLine : List Char) : LineReading :=
  let behind := rawLine.drop (leadingSpaceCount rawLine)
  if behind = [] ∨ behind.head? = some '\t' then .nothing
  else
    contentReading
      (withoutSequenceMarker (trimmed (withoutInlineComment behind)))

/-- One round of the loop; the state is `block_scalar_indentation`. -/
def readLine (blockScalarIndentation : Option Nat) (rawLine : List Char) :
    Option Nat × LineReading :=
  if trimmed rawLine = [] then (blockScalarIndentation, .nothing)
  else
    let indentation := leadingSpaceCount rawLine
    if blockScalarIndentation.any (· < indentation) then
      (blockScalarIndentation, .nothing)
    else
      let reading := lineReading rawLine
      (if reading = .blockScalar then some indentation else none, reading)

/-! ## One reference -/

/-- The loop of `is_valid_github_login`. -/
def areLoginCharacters : (previousWasHyphen : Bool) → List Char → Bool
  | _, [] => true
  | previousWasHyphen, c :: rest =>
    if c = '-' then !previousWasHyphen && areLoginCharacters true rest
    else c.isAlphanum && areLoginCharacters false rest

def isValidGithubLogin (owner : List Char) : Bool :=
  owner ≠ [] ∧ owner.length ≤ 39 ∧ owner.head? ≠ some '-' ∧
    owner.getLast? ≠ some '-' ∧ areLoginCharacters false owner

inductive UsesTargetKind
  | githubAction
  | localAction
  | dockerAction
  | unresolvableOwner
  deriving DecidableEq, Repr

def classifyUsesTarget (value owner : List Char) : UsesTargetKind :=
  if "./".toList.isPrefixOf value ∨ "../".toList.isPrefixOf value then
    .localAction
  else if "docker://".toList.isPrefixOf value then .dockerAction
  else if isValidGithubLogin owner then .githubAction
  else .unresolvableOwner

structure ActionReference where
  owner : List Char := []
  repo : List Char := []
  ref : List Char := []
  hasRefSeparator : Bool := false
  deriving DecidableEq, Repr

def splitActionReference (value : List Char) : ActionReference :=
  let remainder := value.takeWhile (· ≠ '@')
  let afterOwner := remainder.dropWhile (· ≠ '/')
  let path : ActionReference :=
    match afterOwner with
    | [] => {}
    | _ :: afterOwner =>
      { owner := remainder.takeWhile (· ≠ '/')
        repo := afterOwner.takeWhile (· ≠ '/') }
  match value.dropWhile (· ≠ '@') with
  | [] => path
  | _ :: ref => { path with ref := ref, hasRefSeparator := true }

def containsUnresolvedExpression (text : List Char) : Bool :=
  ['$', '\x7b', '\x7b'] <:+: text

def buildGithubActionPurl (owner repo refForPurl : List Char) : List Char :=
  "pkg:github/".toList ++
    percentEncodePurlNamespace (owner.map toLowerAsciiChar) ++
    '/' :: percentEncodeText (repo.map toLowerAsciiChar) ++
    versionSuffix refForPurl

def actionsWarning (code : WarningCode) (message : List Char) : Warning where
  code := code
  message := "github-actions: " ++ String.ofList message
  ecosystem := "github-actions"

/-- The version, the ref that goes into the purl and the confidence. -/
structure SettledRef where
  version : List Char
  purlRef : List Char := []
  confidence : Confidence := .low

def settleRef (parsed : ActionReference) : SettledRef :=
  if parsed.hasRefSeparator = false ∨ parsed.ref = [] ∨
      containsUnresolvedExpression parsed.ref then
    { version := parsed.ref }
  else if isHexObjectId (String.ofList parsed.ref) then
    { version := normalizedObjectId parsed.ref
      purlRef := normalizedObjectId parsed.ref
      confidence := .high }
  else
    { version := parsed.ref, purlRef := parsed.ref, confidence := .medium }

def refWarnings (parsed : ActionReference) (rawValue sourceLabel : List Char) :
    List Warning :=
  if parsed.hasRefSeparator = false ∨ parsed.ref = [] ∨
      containsUnresolvedExpression parsed.ref then
    [actionsWarning .unpinnedOrUnresolvedRef
      ('\'' :: sourceLabel ++ "' dependency 'uses: ".toList ++ rawValue ++
        "' has ".toList ++
        (if containsUnresolvedExpression parsed.ref then
          "an unresolved ref".toList else "no pinned ref".toList) ++
        "; reported at low confidence".toList)]
  else []

def skippedReference (rawValue sourceLabel reason : List Char) : Warning :=
  actionsWarning .dependencyMissingSource
    ('\'' :: sourceLabel ++ "' has 'uses: ".toList ++ rawValue ++
      "' with ".toList ++ reason ++ "; skipped".toList)

def componentFromUsesReference (rawValue sourceLabel : List Char) :
    Option Component × List Warning :=
  let parsed := splitActionReference rawValue
  match classifyUsesTarget rawValue parsed.owner with
  | .localAction | .dockerAction => (none, [])
  | .unresolvableOwner =>
    (none, [skippedReference rawValue sourceLabel
      "an owner that is not a valid GitHub login".toList])
  | .githubAction =>
    if parsed.repo = [] ∨ containsUnresolvedExpression parsed.repo then
      (none, [skippedReference rawValue sourceLabel
        "no resolvable owner/repo".toList])
    else
      let settled := settleRef parsed
      let purl :=
        buildGithubActionPurl parsed.owner parsed.repo settled.purlRef
      (some
        { name := String.ofList parsed.repo
          version := String.ofList settled.version
          supplier := String.ofList parsed.owner
          purl := String.ofList purl
          evidence := [⟨.manifest,
            String.ofList (sourceLabel ++ " -> uses: ".toList ++ rawValue),
            settled.confidence⟩] },
        refWarnings parsed rawValue sourceLabel ++
          if (parsePurl (String.ofList purl)).complete then []
          else
            [actionsWarning .purlValidationFailed
              ('\'' :: sourceLabel ++ "' produced an unparsable purl '".toList ++
                purl ++ ['\''])])

/-- What a scan carries from file to file. -/
structure ScanState where
  usesBudget : Nat
  budgetWarned : Bool := false
  components : List Component := []
  warnings : List Warning := []

/-- The rest of a round, at a line that is a `uses` entry. -/
def recordUses (sourceLabel : List Char) (state : ScanState)
    (value : List Char) : ScanState :=
  if value = [] then
    { state with
      warnings := state.warnings ++ [actionsWarning .malformedEntrySkipped
          ('\'' :: sourceLabel ++
            "' has a 'uses:' line with no value; skipped".toList)] }
  else if state.usesBudget = 0 then
    if state.budgetWarned then state
    else
      { state with
        budgetWarned := true
        warnings := state.warnings ++ [actionsWarning .entryLimitReached
            ("reference limit reached; remaining 'uses:' entries " ++
              "skipped").toList] }
  else
    let (component, warnings) := componentFromUsesReference value sourceLabel
    { state with
      usesBudget := state.usesBudget - 1
      components := state.components ++ component.toList
      warnings := state.warnings ++ warnings }

def scanLines (sourceLabel : List Char) :
    (blockScalarIndentation : Option Nat) → List (List Char) → ScanState →
      ScanState
  | _, [], state => state
  | blockScalarIndentation, rawLine :: lines, state =>
    let (blockScalarIndentation, reading) :=
      readLine blockScalarIndentation rawLine
    scanLines sourceLabel blockScalarIndentation lines
      (match reading with
        | .uses value => recordUses sourceLabel state value
        | _ => state)

def utf8Bom : List Char := ['\xEF', '\xBB', '\xBF']

def withoutUtf8Bom (bytes : List Char) : List Char :=
  if utf8Bom.isPrefixOf bytes then bytes.drop utf8Bom.length else bytes

def scanWorkflowFile (bytes sourceLabel : List Char) (state : ScanState) :
    ScanState :=
  scanLines sourceLabel none ((withoutUtf8Bom bytes).splitOn '\n') state

def readings : Option Nat → List (List Char) → List LineReading
  | _, [] => []
  | blockScalarIndentation, rawLine :: lines =>
    (readLine blockScalarIndentation rawLine).2 ::
      readings (readLine blockScalarIndentation rawLine).1 lines

/-- The value of a line that is considered a `uses` entry. -/
def LineReading.usesValue? : LineReading → Option (List Char)
  | uses value => some value
  | _ => none

/-- The readings are all the scan knows of the file. -/
theorem scanLines_eq_foldl (sourceLabel : List Char)
    (blockScalarIndentation : Option Nat) (lines : List (List Char))
    (state : ScanState) :
    scanLines sourceLabel blockScalarIndentation lines state =
      ((readings blockScalarIndentation lines).filterMap
        LineReading.usesValue?).foldl (recordUses sourceLabel) state := by
  induction lines generalizing blockScalarIndentation state with
  | nil => rfl
  | cons rawLine lines ih =>
    rw [scanLines, readings, List.filterMap_cons]
    rcases readLine blockScalarIndentation rawLine with ⟨next, reading⟩
    simp only [ih]
    cases reading with
    | nothing => rfl
    | blockScalar => rfl
    | uses value => rfl

def isBlankLine (rawLine : List Char) : Bool :=
  trimmed rawLine = []

def opensBlockScalarLine (rawLine : List Char) : Bool :=
  lineReading rawLine = .blockScalar

/-- In the body of what the scan takes for a block scalar. -/
def IsSkipped (lines : List (List Char)) (indentation : Nat) : Prop :=
  IsInBlock isBlankLine leadingSpaceCount opensBlockScalarLine lines indentation

theorem readLine_fst (blockScalarIndentation : Option Nat)
    (rawLine : List Char) :
    (readLine blockScalarIndentation rawLine).1 =
      blockStep isBlankLine leadingSpaceCount opensBlockScalarLine
        blockScalarIndentation rawLine := by
  rw [readLine, blockStep, isBlankLine, opensBlockScalarLine]
  simp only [decide_eq_true_eq]
  split_ifs <;> rfl

theorem readings_append_cons (before : List (List Char)) (rawLine : List Char)
    (after : List (List Char)) (blockScalarIndentation : Option Nat) :
    readings blockScalarIndentation (before ++ rawLine :: after) =
      readings blockScalarIndentation before ++
        (readLine (before.foldl (blockStep isBlankLine leadingSpaceCount
          opensBlockScalarLine) blockScalarIndentation) rawLine).2 ::
          readings (readLine (before.foldl (blockStep isBlankLine
            leadingSpaceCount opensBlockScalarLine) blockScalarIndentation)
              rawLine).1 after := by
  induction before generalizing blockScalarIndentation with
  | nil => rfl
  | cons line before ih =>
    rw [List.cons_append, readings, ih, readings, List.foldl_cons,
      readLine_fst, List.cons_append]

theorem length_readings (blockScalarIndentation : Option Nat)
    (lines : List (List Char)) :
    (readings blockScalarIndentation lines).length = lines.length := by
  induction lines generalizing blockScalarIndentation with
  | nil => rfl
  | cons line lines ih => rw [readings, List.length_cons, ih, List.length_cons]

end Bomwerk.Ci.GithubActions
