import Bomwerk.Core.Component
import Bomwerk.Core.Json
import Bomwerk.Core.NormalPath

/-!
# The CycloneDX reader

`sbom/read.cpp`: a document that may come from anywhere becomes a component
list and the identity of the product it describes.
-/

namespace Bomwerk.Sbom

open Bomwerk.Core

def stringField (node : Json) (key : String) : String :=
  (node.findString? key).getD ""

/-! ## One component -/

def escapedLocationWarning (location : String) : Warning where
  code := .sbomComponentEntrySkipped
  message :=
    "component evidence location \"" ++ location ++
      "\" is not a relative path inside the repo (no absolute, no \"..\"), " ++
      "ignored; this component cannot be matched against a build trace"

/-- `evidence.occurrences[0].location`, empty when any level is absent. -/
def occurrenceLocation (componentJson : Json) : String :=
  match componentJson.find? "evidence" with
  | some evidence =>
    match evidence.findArray? "occurrences" with
    | some (first :: _) => stringField first "location"
    | _ => ""
  | none => ""

def occurrenceRoot (componentJson : Json) : Result FsPath :=
  let location := occurrenceLocation componentJson
  if location = "" then { value := .empty }
  else
    let root := (FsPath.ofString location).normalizedSubtreePath
    if root.isContainedRelativePath then { value := root }
    else
      { value := .empty
        warnings := [escapedLocationWarning location] }

def maxRestoredFingerprintEvidence : Nat := 8

/-- What the loop over `properties` restores. -/
structure RestoredProperties where
  cpeProvenance : CpeProvenance := .unspecified
  fingerprintDetails : List String := []
  deriving DecidableEq

/-- One turn of the loop over `properties`. -/
def restoreProperty (restored : RestoredProperties) (entry : Json) :
    RestoredProperties :=
  let name := stringField entry "name"
  let value := stringField entry "value"
  if name = cpeProvenancePropertyName ∧
      value = CpeProvenance.synthesizedWildcardVendor.text then
    { restored with cpeProvenance := .synthesizedWildcardVendor }
  else if name = fingerprintPropertyName ∧ value ≠ "" ∧
      restored.fingerprintDetails.length < maxRestoredFingerprintEvidence then
    { restored with
      fingerprintDetails := restored.fingerprintDetails ++ [value] }
  else restored

def restoreProperties (componentJson : Json) : RestoredProperties :=
  match componentJson.findArray? "properties" with
  | some entries => entries.foldl restoreProperty {}
  | none => {}

/-- `supplier.name`. -/
def readSupplier (componentJson : Json) : String :=
  match componentJson.find? "supplier" with
  | some supplier => stringField supplier "name"
  | none => ""

/-- The digest of the first SHA-256 entry of `hashes`, if it is one. -/
def readSha256 (componentJson : Json) : String :=
  match componentJson.findArray? "hashes" with
  | some hashes =>
    match hashes.find? fun entry => stringField entry "alg" = "SHA-256" with
    | some entry =>
      let candidate := stringField entry "content"
      if candidate.length = 64 && isHexDigits candidate then candidate
      else ""
    | none => ""
  | none => ""

/-- `licenses[0].license.name`. -/
def readLicense (componentJson : Json) : String :=
  match componentJson.findArray? "licenses" with
  | some (first :: _) =>
    match first.find? "license" with
    | some license => stringField license "name"
    | none => ""
  | _ => ""

def scopeFromText (scopeText : String) : Scope :=
  if scopeText = "optional" then .optional
  else if scopeText = "excluded" then .excluded
  else .required

/-- The warning about a scope the reader does not know. -/
def scopeWarnings (purl name scopeText : String) : List Warning :=
  if scopeText = "optional" ∨ scopeText = "excluded" ∨ scopeText = "" then []
  else
    [{ code := .sbomComponentEntrySkipped
       message :=
        "component \"" ++ (if purl = "" then name else purl) ++
          "\" has unrecognized scope \"" ++ scopeText ++
          "\", treated as required" }]

/-- What every component read from a document carries. -/
def sbomInputEvidence : Evidence :=
  { source := .manifest, detail := "SBOM input", confidence := .high }

/-- Content-match evidence, as it is restored. -/
def fingerprintEvidence (detail : String) : Evidence :=
  { source := .fingerprint, detail := detail, confidence := .low }

def componentFromJson (componentJson : Json) : Result Component :=
  let properties := restoreProperties componentJson
  let name := stringField componentJson "name"
  let purl := stringField componentJson "purl"
  let scopeText := stringField componentJson "scope"
  let root := occurrenceRoot componentJson
  { value :=
      { name := name
        version := stringField componentJson "version"
        supplier := readSupplier componentJson
        license := readLicense componentJson
        purl := purl
        cpe := stringField componentJson "cpe"
        cpeProvenance := properties.cpeProvenance
        sha256 := readSha256 componentJson
        root := root.value
        evidence :=
          sbomInputEvidence ::
            properties.fingerprintDetails.map fingerprintEvidence
        scope := scopeFromText scopeText }
    warnings := scopeWarnings purl name scopeText ++ root.warnings }

/-! ## The document -/

structure SbomDocument where
  components : List Component := []
  productId : String := ""
  productVersion : String := ""
  manufacturerName : String := ""
  manufacturerEmail : String := ""
  generatedTimestamp : String := ""
  serialNumber : String := ""
  deriving DecidableEq

/-- The first address among the contacts of a manufacturer. -/
def contactEmail (manufacturer : Json) : String :=
  match manufacturer.findArray? "contact" with
  | some contacts =>
    (contacts.map (stringField · "email")).find? (· ≠ "") |>.getD ""
  | none => ""

/-- The part of the reader that looks at `metadata`. -/
def readMetadata (metadata : Json) (read : SbomDocument) : SbomDocument :=
  let product := (metadata.find? "component").getD .null
  let manufacturer := (metadata.find? "manufacturer").getD .null
  { read with
    generatedTimestamp := stringField metadata "timestamp"
    productId := stringField product "name"
    productVersion := stringField product "version"
    manufacturerName := stringField manufacturer "name"
    manufacturerEmail := contactEmail manufacturer }

def documentHeader (document : Json) : SbomDocument :=
  let header : SbomDocument :=
    { serialNumber := stringField document "serialNumber" }
  match document.find? "metadata" with
  | some metadata => readMetadata metadata header
  | none => header

/-- The text about entries that are not objects. -/
def skippedEntriesMessage (skipped : Nat) : String :=
  toString skipped ++ " component entr" ++
    (if skipped = 1 then "y" else "ies") ++ " skipped (not a JSON object)"

/-- The part of the reader that looks at `components`. -/
def readComponents (entries : List Json) (header : SbomDocument) :
    Result SbomDocument :=
  let read := (entries.filter Json.isObject).map componentFromJson
  let skipped := entries.countP fun entry => !entry.isObject
  let result : Result SbomDocument :=
    { value := header, warnings := read.flatMap Result.warnings }
  let result := result.warnIf (0 < skipped) .sbomComponentEntrySkipped
    (skippedEntriesMessage skipped)
  { result with
    value :=
      { result.value with components := mergeAll (read.map Result.value) } }

def readCyclonedx (bytes : JsonText) : Result SbomDocument :=
  match bytes with
  | none =>
    Result.warn { value := {} } .invalidJson
      "SBOM document is not valid JSON, not read"
  | some document =>
    if exceedsJsonNestingDepth document then
      Result.warn { value := {} } .jsonNestingDepthExceeded
        "SBOM document nested too deeply, not read"
    else if !document.isObject then
      Result.warn { value := {} } .invalidJson
        "SBOM document is not valid JSON, not read"
    else
      match document.findArray? "components" with
      | some entries => readComponents entries (documentHeader document)
      | none =>
        Result.warn { value := documentHeader document }
          .sbomDocumentInvalid "SBOM document has no components array"

end Bomwerk.Sbom

/-!
## What the reader accepts

Whatever the bytes of a document are, the components read from it are located
at inner paths if they are located at all, and nothing has judged them yet.
-/

namespace Bomwerk.Sbom

open Bomwerk.Core Bomwerk.Support

/-- A root the reader may give a component. -/
def IsAcceptedRoot (root : FsPath) : Prop :=
  root = .empty ∨ root.IsInner

theorem IsAcceptedRoot.isInner {root : FsPath} (hroot : IsAcceptedRoot root)
    (hnonempty : root.isEmpty = false) : root.IsInner := by
  rcases hroot with rfl | hinner
  · exact absurd hnonempty (by decide)
  · exact hinner

theorem IsAcceptedRoot.normalizedSubtreePath_eq {root : FsPath}
    (hroot : IsAcceptedRoot root) : root.normalizedSubtreePath = root := by
  rcases hroot with rfl | hinner
  · decide
  · exact hinner.normalizedSubtreePath_eq

theorem isAcceptedRoot_occurrenceRoot (componentJson : Json) :
    IsAcceptedRoot (occurrenceRoot componentJson).value := by
  simp only [occurrenceRoot]
  split
  · exact Or.inl rfl
  split
  · rename_i hcontained
    exact Or.inr (FsPath.isInner_normalizedSubtreePath hcontained)
  · exact Or.inl rfl

/-- What holds of every component the reader returns. -/
structure IsRead (component : Component) : Prop where
  root : IsAcceptedRoot component.root
  used : component.usedInBuild = true

theorem isRead_componentFromJson (componentJson : Json) :
    IsRead (componentFromJson componentJson).value where
  root := isAcceptedRoot_occurrenceRoot componentJson
  used := rfl

theorem IsRead.mergeInto {existing component : Component}
    (hexisting : IsRead existing) (hcomponent : IsRead component) :
    IsRead (mergeInto existing component) where
  root := by
    simp only [Core.mergeInto]
    split
    · exact hcomponent.root
    · exact hexisting.root
  used := by simp [Core.mergeInto, hexisting.used]

theorem components_readCyclonedx (bytes : JsonText) :
    (readCyclonedx bytes).value.components = [] ∨
      ∃ entries : List Json, (readCyclonedx bytes).value.components =
        mergeAll (entries.map fun entry => (componentFromJson entry).value) := by
  have hheader : ∀ document, (documentHeader document).components = [] := by
    intro document
    unfold documentHeader
    split <;> rfl
  unfold readCyclonedx
  split
  · exact Or.inl rfl
  split
  · exact Or.inl rfl
  split
  · exact Or.inl rfl
  split
  · rename_i entries _
    refine Or.inr ⟨entries.filter Json.isObject, ?_⟩
    simp only [readComponents, List.map_map]
    rfl
  · exact Or.inl (hheader _)

/-- A property of what is read from one entry that a merge keeps holds of every
component of a document. -/
theorem readCyclonedx_induction {motive : Component → Prop}
    (hentry : ∀ entry, motive (componentFromJson entry).value.normalized)
    (hmerge : ∀ entry existing, motive existing →
      motive (mergeInto existing (componentFromJson entry).value))
    (bytes : JsonText) :
    ∀ component ∈ (readCyclonedx bytes).value.components, motive component := by
  rcases components_readCyclonedx bytes with hnone | ⟨entries, hentries⟩
  · simp [hnone]
  rw [hentries]
  apply mergeAll_induction
  · intro component hmem
    obtain ⟨entry, -, rfl⟩ := List.mem_map.mp hmem
    exact hentry entry
  · intro component hmem existing hexisting
    obtain ⟨entry, -, rfl⟩ := List.mem_map.mp hmem
    exact hmerge entry existing hexisting

theorem isRead_of_mem_readCyclonedx {bytes : JsonText} {component : Component}
    (hmem : component ∈ (readCyclonedx bytes).value.components) :
    IsRead component := by
  apply readCyclonedx_induction (motive := IsRead) _ _ bytes component hmem
  · intro entry
    obtain ⟨hroot, hused⟩ := isRead_componentFromJson entry
    exact ⟨hroot, hused⟩
  · intro entry existing hexisting
    exact hexisting.mergeInto (isRead_componentFromJson entry)

end Bomwerk.Sbom
