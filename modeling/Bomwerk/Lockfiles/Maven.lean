import Bomwerk.Core.BuildVariables
import Bomwerk.Lockfiles.Producer
import Bomwerk.Support.OrderedMap

/-!
# pom.xml and gradle.lockfile

`parsers/lockfiles/maven.cpp`.  Both files are byte texts.
-/

namespace Bomwerk.Lockfiles.Maven

open Bomwerk.Core Bomwerk.Core.XmlScan Bomwerk.Support

def pomName : String := "pom.xml"

def gradleLockfileName : String := "gradle.lockfile"

def mavenTestScope : String := "test"

def testConfigurationPrefix : String := "test"

def gradleEmptyCoordinate : List Char := "empty".toList

def warning (code : WarningCode) (message : String) : Warning where
  code := code
  message := "maven: " ++ message
  ecosystem := "maven"

def firstElementText (xml : List Char) (tagName : String) :
    Option (List Char) :=
  (findElement tagName.toList xml).map fun element => trimmed element.innerText

def firstPomLicenseName (xml : List Char) : Option (List Char) := do
  let licensesBlock ← findElement "licenses".toList xml
  let licenseEntry ← findElement "license".toList licensesBlock.innerText
  firstElementText licenseEntry.innerText "name"

/-- The span of an element that was found in a text. -/
def spanOf (xml : List Char) (element : ElementMatch) : List Char :=
  (xml.drop element.before.length).take
    (xml.length - element.before.length - element.rest.length)

/-- The loop of `remove_elements`; every turn consumes a character. -/
def removeElementsFrom (tagName : List Char) :
    (fuel : Nat) → List Char → List Char
  | 0, _ => []
  | fuel + 1, xml =>
    match findElement tagName xml with
    | none => xml
    | some element =>
      element.before ++ newlinesOf (spanOf xml element) ++
        removeElementsFrom tagName fuel element.rest

def removeElements (xml : List Char) (tagName : String) : List Char :=
  removeElementsFrom tagName.toList xml.length xml

abbrev Properties := OrderedMap String (List Char)

def collectPomProperties (xml : List Char) : Properties :=
  match findElement "properties".toList xml with
  | none => ∅
  | some block =>
    (childElements block.innerText).foldl
      (fun properties child =>
        properties.insertIfNew (String.ofList child.name) child.text) ∅

def minPropertyReferenceLength : Nat := 3

structure PropertyResolution where
  value : List Char
  propertyName : List Char := []
  resolved : Bool := false

def referenceOpen : List Char := ['$', '{']

def resolvePropertyReference (rawText : List Char) (properties : Properties) :
    PropertyResolution :=
  if minPropertyReferenceLength ≤ rawText.length ∧
      rawText.take 2 = referenceOpen ∧ rawText.getLast? = some '}' then
    let propertyName := (rawText.drop 2).dropLast
    match properties[String.ofList propertyName]? with
    | none => { value := rawText, propertyName := propertyName }
    | some value =>
      if value ≠ [] ∧ !containsText referenceOpen value then
        { value := value, propertyName := propertyName, resolved := true }
      else { value := rawText, propertyName := propertyName }
  else { value := rawText, resolved := !containsText referenceOpen rawText }

def isUsableLiteral (resolution : PropertyResolution) : Bool :=
  resolution.resolved && resolution.value ≠ [] &&
    !containsUnexpandedVariable resolution.value

def setProperty (properties : Properties) (name : String)
    (text : Option (List Char)) : Properties :=
  match text with
  | some text => if text = [] then properties else properties.insert name text
  | none => properties

def setResolved (properties : Properties) (name : String)
    (resolution : PropertyResolution) : Properties :=
  if isUsableLiteral resolution then
    properties.insert name resolution.value
  else properties

/-- The component of `emit_maven_component`, before its purl is
canonicalized. -/
def mavenComponent (groupId artifactId version : List Char) (scope : Scope)
    (confidence : Confidence) (detail : String) : Component where
  name := String.ofList (groupId ++ [':'] ++ artifactId)
  version := String.ofList version
  purl := String.ofList
    ("pkg:maven/".toList ++ percentEncodeText groupId ++ ['/'] ++
      percentEncodeText artifactId ++
        if version = [] then [] else '@' :: percentEncodeText version)
  supplier := String.ofList groupId
  scope := scope
  evidence := [⟨.manifest, detail, confidence⟩]

/-! ## pom.xml -/

/-- What `parse_pom` computes before it looks at the dependencies. -/
structure Pom where
  /-- The text without parent, dependency management and exclusions. -/
  working : List Char
  /-- The properties, the pseudo-properties among them. -/
  properties : Properties
  ownGroupId : PropertyResolution
  ownArtifactId : PropertyResolution
  ownVersion : PropertyResolution
  license : Option (List Char)

/-- A coordinate, or the parent's when there is none. -/
def orParent (own parent : Option (List Char)) : Option (List Char) :=
  match own with
  | some text => if text = [] then parent else some text
  | none => parent

def readPom (bytes : List UInt8) : Pom :=
  let cleaned := stripCommentsAndUnwrapCdata (byteText bytes)
  let parent := findElement "parent".toList cleaned
  let parentGroupId := parent.bind (firstElementText ·.innerText "groupId")
  let parentVersion := parent.bind (firstElementText ·.innerText "version")
  let working := removeElements (removeElements (removeElements cleaned
    "parent") "dependencyManagement") "exclusions"
  let coordinateRegion :=
    match splitAtFirst "<dependencies".toList working with
    | some (region, _) => region
    | none => working
  let projectGroupId :=
    orParent (firstElementText coordinateRegion "groupId") parentGroupId
  let projectVersion :=
    orParent (firstElementText coordinateRegion "version") parentVersion
  let projectArtifactId := firstElementText coordinateRegion "artifactId"
  let properties := setProperty (setProperty (collectPomProperties working)
    "project.parent.version" parentVersion)
    "project.parent.groupId" parentGroupId
  let ownGroupId :=
    resolvePropertyReference (projectGroupId.getD []) properties
  let ownArtifactId :=
    resolvePropertyReference (projectArtifactId.getD []) properties
  let ownVersion :=
    resolvePropertyReference (projectVersion.getD []) properties
  { working := working
    properties := setResolved (setResolved (setResolved properties
      "project.version" ownVersion) "project.groupId" ownGroupId)
      "project.artifactId" ownArtifactId
    ownGroupId := ownGroupId
    ownArtifactId := ownArtifactId
    ownVersion := ownVersion
    license := firstPomLicenseName coordinateRegion }

/-- The component that the pom itself is. -/
def Pom.ownIdentity (pom : Pom) (label : String) : Option Component :=
  if isUsableLiteral pom.ownGroupId ∧ isUsableLiteral pom.ownArtifactId ∧
      isUsableLiteral pom.ownVersion then
    let isInterpolated := pom.ownGroupId.propertyName ≠ [] ∨
      pom.ownArtifactId.propertyName ≠ [] ∨ pom.ownVersion.propertyName ≠ []
    some
      { mavenComponent pom.ownGroupId.value pom.ownArtifactId.value
          pom.ownVersion.value .required
          (if isInterpolated then .medium else .high)
          (label ++ " own-identity") with
        license := String.ofList (pom.license.getD []) }
  else none

/-- The bodies of the `<dependency>` elements, each with its line; every turn
of the loop consumes a character. -/
def dependencyElements : (fuel : Nat) → (line : Nat) → List Char →
    List (Nat × List Char)
  | 0, _, _ => []
  | fuel + 1, line, working =>
    match findElement "dependency".toList working with
    | none => []
    | some element =>
      let start := line + element.before.count '\n'
      (start, element.innerText) :: dependencyElements fuel
          (start + (spanOf working element).count '\n') element.rest

/-- `groupId:artifactId` in a diagnostic. -/
def diagnosticName (groupId artifactId : List Char) : String :=
  String.ofList (escapedForDiagnostic groupId) ++ ":" ++
    String.ofList (escapedForDiagnostic artifactId)

def propertyNote (field : String) (resolution : PropertyResolution) : String :=
  if resolution.propertyName = [] then ""
  else " " ++ field ++ "-from-property " ++
    String.ofList resolution.propertyName

def declaredScopeOf (declaredScope optionalFlag : Option (List Char)) : Scope :=
  if declaredScope.any fun text =>
      equalsAsciiIgnoreCase (String.ofList text) mavenTestScope then .excluded
  else if optionalFlag.any fun text =>
      equalsAsciiIgnoreCase (String.ofList text) "true" then .optional
  else .required

/-- The component of a dependency whose identity resolved; an unresolved
version is left out. -/
def dependencyComponent (label : String) (body : List Char)
    (groupId artifactId version : PropertyResolution) : Component :=
  let declaredScope := firstElementText body "scope"
  let scope := declaredScopeOf declaredScope (firstElementText body "optional")
  let resolvedVersion := isUsableLiteral version
  let detail := label ++ (match declaredScope with
    | some text =>
      if text ≠ [] ∧ scope ≠ .excluded then " scope=" ++ String.ofList text
      else ""
    | none => "") ++
    propertyNote "groupId" groupId ++ propertyNote "artifactId" artifactId ++
    if resolvedVersion then propertyNote "version" version else ""
  mavenComponent groupId.value artifactId.value
    (if resolvedVersion then version.value else []) scope
    (if resolvedVersion then .medium else .low) detail

/-- One turn of the loop over the dependencies, before the package limit. -/
def readDependency (label : String) (properties : Properties) (line : Nat)
    (body : List Char) : Reading :=
  let groupId := (firstElementText body "groupId").getD []
  let artifactId := (firstElementText body "artifactId").getD []
  if groupId = [] ∨ artifactId = [] then
    { outcome := .skipped .malformed }
  else
    let groupIdResolution := resolvePropertyReference groupId properties
    let artifactIdResolution := resolvePropertyReference artifactId properties
    let location := label ++ ":" ++ toString line
    if !isUsableLiteral groupIdResolution ∨
        !isUsableLiteral artifactIdResolution then
      { warnings := [warning .unresolvedVariableOrInterpolation
          (location ++ ": dependency '" ++ diagnosticName groupId artifactId ++
            "' has an unresolved groupId/artifactId; skipped")]
        outcome := .ignored }
    else
      let declaredVersion := (firstElementText body "version").getD []
      if declaredVersion = [] then { outcome := .skipped .unresolved }
      else
        let version := resolvePropertyReference declaredVersion properties
        { warnings :=
            if isUsableLiteral version then []
            else [warning .unresolvedVariableOrInterpolation
              (location ++ ": dependency '" ++
                diagnosticName groupId artifactId ++
                "' has an unresolved version '" ++
                String.ofList (escapedForDiagnostic declaredVersion) ++
                "'; kept without a version at low confidence")]
          outcome := .valid (some (dependencyComponent label body
            groupIdResolution artifactIdResolution version)) }

/-- The warnings behind the loop over the dependencies. -/
def pomSummary (label : String) (skipped : List SkipReason) : List Warning :=
  (if skipped.count .malformed = 0 then []
    else [warning .malformedEntrySkipped
      (toString (skipped.count .malformed) ++
        " dependency element(s) without groupId/artifactId skipped: " ++
        label)]) ++
    if skipped.count .unresolved = 0 then []
    else [warning .entriesSkippedUnresolved
      (toString (skipped.count .unresolved) ++
        " dependency(ies) without a version skipped: " ++ label)]

/-- `parse_pom`, before any limit. -/
def pomManifest (label : String) (bytes : List UInt8) : Manifest :=
  let pom := readPom bytes
  let ownIdentity := pom.ownIdentity label
  { warnings :=
      if ownIdentity.isSome then []
      else [warning .selfIdentityUnresolvable
        (label ++ ": pom lacks a resolvable groupId/artifactId/version, " ++
          "self-identity skipped")]
    ownIdentity := ownIdentity
    entries :=
      (dependencyElements pom.working.length 1 pom.working).map
        fun (line, body) => readDependency label pom.properties line body
    summary := fun _ => pomSummary label }

def configurationTokens (configurations : List Char) : List (List Char) :=
  ((configurations.splitOn ',').map trimmed).filter (· ≠ [])

/-- A configuration whose name starts with `test`. -/
def isTestConfiguration (token : List Char) : Bool :=
  testConfigurationPrefix.length ≤ token.length &&
    equalsAsciiIgnoreCase
      (String.ofList (token.take testConfigurationPrefix.length))
      testConfigurationPrefix

/-- One turn of the loop over the lines, before the package limit. -/
def readLockLine (label : String) (rawLine : List Char) : Outcome :=
  let line := trimmed rawLine
  if line = [] ∨ line.head? = some '#' then .ignored
  else if '=' ∉ line then .skipped .malformed
  else
    let coordinate := line.takeWhile (· ≠ '=')
    let configurations := (line.dropWhile (· ≠ '=')).tail
    if coordinate = gradleEmptyCoordinate then .ignored
    else
      match coordinate.splitOn ':' with
      | [groupId, artifactId, version] =>
        if groupId = [] ∨ artifactId = [] ∨ version = [] then
          .skipped .malformed
        else
          let tokens := configurationTokens configurations
          .valid (some (mavenComponent groupId artifactId version
            (if tokens ≠ [] ∧ tokens.all isTestConfiguration then .excluded
              else .required)
            .high
            (if tokens = [] then label
              else label ++ " (configurations " ++
                String.ofList configurations ++ ")")))
      | _ => .skipped .malformed

/-- `parse_gradle_lockfile`, before any limit. -/
def gradleManifest (label : String) (bytes : List UInt8) : Manifest where
  entries := ((byteText bytes).splitOn '\n').map fun line =>
    { outcome := readLockLine label line }
  summary _ skipped :=
    if skipped = [] then []
    else [warning .malformedEntrySkipped
      (toString skipped.length ++ " malformed line(s) skipped: " ++ label)]

/-- The `parse` of maven. -/
def producer : Producer where
  ecosystem := "maven"
  fileKind := "maven"
  accepts path := path.filename = pomName ∨ path.filename = gradleLockfileName
  keepsFirstPart path := path.filename = gradleLockfileName
  manifest path bytes :=
    if path.filename = pomName then pomManifest path.genericString bytes
    else gradleManifest path.genericString bytes

end Bomwerk.Lockfiles.Maven
