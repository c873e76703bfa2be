import Bomwerk.Output.Cyclonedx
import Bomwerk.Sbom.Read

/-!
# Reading back a written document

The reader is meant to be the inverse of the writer.  This module computes what
it returns on a written document, field by field, and characterises the merged
lists that come back as they were.
-/

namespace Bomwerk.Sbom

open Bomwerk.Core Bomwerk.Output

/-! ## What a written component reads back as -/

/-- The content-match evidence that survives: the first few details that are
not empty. -/
def restoredFingerprints (component : Component) : List String :=
  ((evidenceDetails .fingerprint component).filter (· ≠ "")).take
    maxRestoredFingerprintEvidence

/-- The root a written location reads back as. -/
def restoredRoot (root : FsPath) : FsPath :=
  if root.isEmpty then .empty
  else if root.normalizedSubtreePath.isContainedRelativePath then
    root.normalizedSubtreePath
  else .empty

/-- A component after writing and reading. -/
def restored (component : Component) : Component :=
  { component with
    sha256 := if isValidSha256 component.sha256 then component.sha256 else ""
    root := restoredRoot component.root
    evidence :=
      sbomInputEvidence ::
        (restoredFingerprints component).map fingerprintEvidence
    usedInBuild := true }

section Component

variable (environment : WriterEnvironment) (component : Component)
  (coverage : MatchCoverage)

@[simp] theorem stringField_property_name (name value : String) :
    stringField (property name value) "name" = name := by
  simp [stringField, property, Json.findString?, Json.asString?]

@[simp] theorem stringField_property_value (name value : String) :
    stringField (property name value) "value" = value := by
  simp [stringField, property, Json.findString?, Json.asString?]

theorem stringField_of_find? {node : Json} {key text : String}
    (hfind : node.find? key =
      if text ≠ "" then some (.string text) else none) :
    stringField node key = text := by
  by_cases htext : text = "" <;>
    simp_all [stringField, Json.findString?, Json.asString?]

theorem stringField_componentToJson :
    let componentJson := componentToJson environment component coverage
    stringField componentJson "name" = component.name ∧
      stringField componentJson "version" = component.version ∧
      stringField componentJson "purl" = component.purl ∧
      stringField componentJson "cpe" = component.cpe ∧
      stringField componentJson "scope" =
        if component.scope = .required then "" else component.scope.text := by
  refine ⟨?_, ?_, ?_, ?_, ?_⟩
  · simp [stringField, componentToJson, Json.findString?, Json.asString?]
  · exact stringField_of_find? (by simp [componentToJson])
  · exact stringField_of_find? (by simp [componentToJson])
  · exact stringField_of_find? (by simp [componentToJson])
  · by_cases hscope : component.scope = .required <;>
      simp [stringField, componentToJson, Json.findString?, Json.asString?,
        hscope]

theorem readSupplier_componentToJson :
    readSupplier (componentToJson environment component coverage) =
      component.supplier := by
  by_cases hsupplier : component.supplier = "" <;>
    simp [readSupplier, componentToJson, hsupplier, stringField,
      Json.findString?, Json.asString?]

theorem readSha256_componentToJson :
    readSha256 (componentToJson environment component coverage) =
      if isValidSha256 component.sha256 then component.sha256 else "" := by
  by_cases hvalid : isValidSha256 component.sha256 = true
  · obtain ⟨hlength, hhex⟩ : component.sha256.length = 64 ∧
        isHexDigits component.sha256 = true := by
      simpa [isValidSha256] using hvalid
    simp [readSha256, componentToJson, Json.findArray?, hvalid, stringField,
      Json.findString?, Json.asString?, hlength, hhex]
  · simp [readSha256, componentToJson, Json.findArray?, hvalid]

theorem readLicense_componentToJson :
    readLicense (componentToJson environment component coverage) =
      component.license := by
  by_cases hlicense : component.license = "" <;>
    simp [readLicense, componentToJson, hlicense, stringField,
      Json.findArray?, Json.findString?, Json.asString?]

theorem scopeFromText_text (scope : Scope) :
    scopeFromText (if scope = .required then "" else scope.text) = scope := by
  cases scope <;> simp [scopeFromText, Scope.text]

theorem occurrenceLocation_componentToJson :
    occurrenceLocation (componentToJson environment component coverage) =
      if component.root.isEmpty then "" else component.root.genericString := by
  by_cases hroot : component.root.isEmpty = true <;>
    simp [occurrenceLocation, componentToJson, hroot, stringField,
      Json.findArray?, Json.findString?, Json.asString?]

theorem isEmpty_iff_genericString {root : FsPath} :
    root.isEmpty = true ↔ root.genericString = "" := by
  constructor
  · intro hempty
    simp only [FsPath.isEmpty, Bool.and_eq_true, Bool.not_eq_eq_eq_not,
      Bool.not_true, List.isEmpty_iff] at hempty
    have htrailing : root.trailing = false := by
      by_contra htrailing
      exact root.trailing_names (by simpa using htrailing) hempty.2
    simp [FsPath.genericString, hempty, htrailing, List.intercalate]
  · intro htext
    rw [← FsPath.ofString_genericString root, htext]
    decide

theorem occurrenceRoot_componentToJson :
    (occurrenceRoot (componentToJson environment component coverage)).value =
      restoredRoot component.root := by
  simp only [occurrenceRoot, occurrenceLocation_componentToJson, restoredRoot]
  by_cases hroot : component.root.isEmpty = true
  · simp [hroot]
  · have htext : component.root.genericString ≠ "" := fun h =>
      hroot (isEmpty_iff_genericString.mpr h)
    simp only [hroot, if_false, Bool.false_eq_true, htext,
      FsPath.ofString_genericString]
    split <;> rfl

end Component

theorem fingerprintPropertyName_ne :
    fingerprintPropertyName ≠ cpeProvenancePropertyName := by
  decide

theorem foldl_restoreProperty_fingerprint (details : List String)
    (start : RestoredProperties) :
    (details.map (property fingerprintPropertyName)).foldl restoreProperty
        start =
      { start with
        fingerprintDetails := start.fingerprintDetails ++
          (details.filter (· ≠ "")).take
            (maxRestoredFingerprintEvidence -
              start.fingerprintDetails.length) } := by
  induction details generalizing start with
  | nil => simp
  | cons detail details ih =>
    rw [List.map_cons, List.foldl_cons, ih]
    by_cases hdetail : detail = ""
    · simp [restoreProperty, hdetail, fingerprintPropertyName_ne]
    · by_cases hroom : start.fingerprintDetails.length <
          maxRestoredFingerprintEvidence
      · obtain ⟨room, hlength⟩ := Nat.exists_eq_add_of_lt hroom
        have hleft : maxRestoredFingerprintEvidence -
            start.fingerprintDetails.length = room + 1 := by omega
        have hnext : maxRestoredFingerprintEvidence -
            (start.fingerprintDetails.length + 1) = room := by omega
        simp [restoreProperty, hdetail, hroom, hleft, hnext,
          fingerprintPropertyName_ne]
      · have hleft : maxRestoredFingerprintEvidence -
            start.fingerprintDetails.length = 0 := by omega
        simp [restoreProperty, hroom, hleft, fingerprintPropertyName_ne]

theorem foldl_restoreProperty_binary (details : List String)
    (start : RestoredProperties) :
    (details.map (property "bomwerk:binary")).foldl restoreProperty start =
      start := by
  induction details with
  | nil => rfl
  | cons detail details ih =>
    simpa [restoreProperty, fingerprintPropertyName,
      cpeProvenancePropertyName] using ih

theorem restoreProperties_componentToJson (environment : WriterEnvironment)
    (component : Component) (coverage : MatchCoverage) :
    restoreProperties (componentToJson environment component coverage) =
      { cpeProvenance := component.cpeProvenance
        fingerprintDetails := restoredFingerprints component } := by
  have hentries :
      restoreProperties (componentToJson environment component coverage) =
        (componentProperties component coverage).foldl restoreProperty {} := by
    cases hproperties : componentProperties component coverage <;>
      simp [restoreProperties, componentToJson, hproperties, Json.findArray?]
  have hcoverage : (if coverage ≠ .matched then
      [property "bomwerk:match-coverage" coverage.text]
      else []).foldl restoreProperty {} = {} := by
    split <;> simp [restoreProperty, fingerprintPropertyName,
      cpeProvenancePropertyName]
  have hprovenance : (if component.cpeProvenance ≠ .unspecified then
      [property cpeProvenancePropertyName component.cpeProvenance.text]
      else []).foldl restoreProperty {} =
        { cpeProvenance := component.cpeProvenance } := by
    cases component.cpeProvenance <;>
      simp [restoreProperty, CpeProvenance.text]
  rw [hentries, componentProperties, List.foldl_append, List.foldl_append,
    List.foldl_append, hcoverage, hprovenance, foldl_restoreProperty_binary,
    foldl_restoreProperty_fingerprint]
  simp [restoredFingerprints]

theorem componentFromJson_componentToJson (environment : WriterEnvironment)
    (component : Component) (coverage : MatchCoverage) :
    (componentFromJson
      (componentToJson environment component coverage)).value =
        restored component := by
  obtain ⟨hname, hversion, hpurl, hcpe, hscope⟩ :=
    stringField_componentToJson environment component coverage
  simp only [componentFromJson, hname, hversion, hpurl, hcpe, hscope,
    readSupplier_componentToJson, readSha256_componentToJson,
    readLicense_componentToJson, scopeFromText_text,
    occurrenceRoot_componentToJson, restoreProperties_componentToJson,
    restored]

/-! ## The document -/

section Document

variable (environment : WriterEnvironment) (components : List Component)
  (tool : ToolInfo) (releaseMeta : ReleaseMeta) (craMetadata : CraMetadata)

theorem documentHeader_cyclonedxDocument :
    documentHeader (cyclonedxDocument environment components tool releaseMeta
      craMetadata) =
      { productId := releaseMeta.productId
        productVersion :=
          if releaseMeta.productId = "" then "" else releaseMeta.version
        manufacturerName := craMetadata.manufacturerName
        manufacturerEmail :=
          if craMetadata.manufacturerName = "" then ""
          else craMetadata.manufacturerEmail
        generatedTimestamp := environment.timestamp
        serialNumber := serialNumberFor environment components } := by
  have hproduct : stringField (productComponent environment releaseMeta
      craMetadata) "version" = releaseMeta.version :=
    stringField_of_find? (by simp [productComponent])
  have hemail : contactEmail (manufacturer craMetadata) =
      craMetadata.manufacturerEmail := by
    by_cases h : craMetadata.manufacturerEmail = "" <;>
      simp [contactEmail, manufacturer, Json.findArray?, stringField,
        Json.findString?, Json.asString?, h]
  have hproductName : stringField (productComponent environment releaseMeta
      craMetadata) "name" = releaseMeta.productId := by
    simp [productComponent, stringField, Json.findString?, Json.asString?]
  have hmanufacturer : stringField (manufacturer craMetadata) "name" =
      craMetadata.manufacturerName := by
    simp [manufacturer, stringField, Json.findString?, Json.asString?]
  have hmetadata : (cyclonedxDocument environment components tool releaseMeta
      craMetadata).find? "metadata" =
        some (documentMetadata environment components tool releaseMeta
          craMetadata) := by
    simp [cyclonedxDocument]
  have hserial : stringField (cyclonedxDocument environment components tool
      releaseMeta craMetadata) "serialNumber" =
        serialNumberFor environment components := by
    simp [cyclonedxDocument, stringField, Json.findString?, Json.asString?]
  have htimestamp : stringField (documentMetadata environment components tool
      releaseMeta craMetadata) "timestamp" = environment.timestamp := by
    simp [documentMetadata, stringField, Json.findString?, Json.asString?]
  have hnull : ∀ key, stringField .null key = "" := fun _ => rfl
  have hnullContact : contactEmail .null = "" := rfl
  simp only [documentHeader, hmetadata, readMetadata, hserial, htimestamp]
  by_cases hid : releaseMeta.productId = "" <;>
    by_cases hname : craMetadata.manufacturerName = "" <;>
    simp [documentMetadata, hid, hname, hproduct, hproductName, hemail,
      hmanufacturer, hnull, hnullContact]

theorem isObject_componentToJson (component : Component)
    (coverage : MatchCoverage) :
    (componentToJson environment component coverage).isObject = true := by
  simp [componentToJson]

theorem readCyclonedx_writeCyclonedx :
    (readCyclonedx (writeCyclonedx environment components tool releaseMeta
      craMetadata)).value =
      { documentHeader (cyclonedxDocument environment components tool
          releaseMeta craMetadata) with
        components :=
          mergeAll ((componentsByIdentity components).map restored) } := by
  have hdepth : exceedsJsonNestingDepth (cyclonedxDocument environment
      components tool releaseMeta craMetadata) = false := by
    have h := depth_cyclonedxDocument environment components tool releaseMeta
      craMetadata
    exact decide_eq_false (not_lt.mpr (h.trans (by decide)))
  have hobject : (cyclonedxDocument environment components tool releaseMeta
      craMetadata).isObject = true := by
    simp [cyclonedxDocument]
  have hentries : (cyclonedxDocument environment components tool releaseMeta
      craMetadata).findArray? "components" =
        some (componentsJson environment components) := by
    simp [Json.findArray?, cyclonedxDocument]
  have hfilter : (componentsJson environment components).filter Json.isObject =
      componentsJson environment components := by
    rw [List.filter_eq_self]
    intro entry hentry
    obtain ⟨component, -, rfl⟩ := List.mem_map.mp hentry
    exact isObject_componentToJson environment component _
  have hread : ((componentsJson environment components).map
      componentFromJson).map Result.value =
        (componentsByIdentity components).map restored := by
    rw [componentsJson, List.map_map, List.map_map]
    exact List.map_congr_left fun component _ =>
      componentFromJson_componentToJson environment component _
  simp only [writeCyclonedx, Json.dump, readCyclonedx, hdepth, hobject,
    hentries, readComponents, hfilter, hread, Result.warnIf_value,
    Bool.false_eq_true, Bool.not_true, if_false]

end Document

/-- The components of a document that was written and read back. -/
def readBack (environment : WriterEnvironment) (components : List Component)
    (tool : ToolInfo) (releaseMeta : ReleaseMeta)
    (craMetadata : CraMetadata) : List Component :=
  (readCyclonedx (writeCyclonedx environment components tool releaseMeta
    craMetadata)).value.components

section ReadBack

variable (environment : WriterEnvironment) {components : List Component}
  (tool : ToolInfo) (releaseMeta : ReleaseMeta) (craMetadata : CraMetadata)

theorem readBack_eq :
    readBack environment components tool releaseMeta craMetadata =
      mergeAll ((componentsByIdentity components).map restored) := by
  rw [readBack, readCyclonedx_writeCyclonedx]

theorem map_componentIdentity_restored (components : List Component) :
    (components.map restored).map componentIdentity =
      components.map componentIdentity := by
  rw [List.map_map]
  rfl

theorem componentsByIdentity_of_increasing
    (hincreasing : IdentityIncreasing components) :
    componentsByIdentity components = components := by
  refine List.Pairwise.insertionSort_eq ?_
  exact (List.pairwise_map.mp hincreasing).imp le_of_lt

theorem identityIncreasing_componentsByIdentity
    (hnodup : (components.map componentIdentity).Nodup) :
    IdentityIncreasing (componentsByIdentity components) := by
  have hsorted : ((componentsByIdentity components).map
      componentIdentity).Pairwise (· ≤ ·) :=
    List.pairwise_map.mpr (List.pairwise_insertionSort IdentityLe components)
  have hwritten : ((componentsByIdentity components).map
      componentIdentity).Nodup :=
    ((List.perm_insertionSort IdentityLe components).map _).nodup_iff.mpr
      hnodup
  exact (hsorted.and hwritten).imp fun h => lt_of_le_of_ne h.1 h.2

/-- Components of different identities come back one by one, in identity
order. -/
theorem readBack_of_nodup
    (hnodup : (components.map componentIdentity).Nodup) :
    readBack environment components tool releaseMeta craMetadata =
      (componentsByIdentity components).map fun component =>
        (restored component).normalized := by
  have hrestored :
      IdentityIncreasing ((componentsByIdentity components).map restored) := by
    rw [IdentityIncreasing, map_componentIdentity_restored]
    exact identityIncreasing_componentsByIdentity hnodup
  rw [readBack_eq, mergeAll_of_identityIncreasing hrestored, List.map_map]
  rfl

theorem readBack_of_increasing (hincreasing : IdentityIncreasing components) :
    readBack environment components tool releaseMeta craMetadata =
      components.map fun component => (restored component).normalized := by
  rw [readBack_of_nodup environment tool releaseMeta craMetadata
      (hincreasing.imp fun h => h.ne),
    componentsByIdentity_of_increasing hincreasing]

/-- When nothing goes missing, the components come back in identity order. -/
theorem identityIncreasing_readBack
    (hlength : (readBack environment components tool releaseMeta
      craMetadata).length = components.length) :
    IdentityIncreasing
      (readBack environment components tool releaseMeta craMetadata) := by
  have hperm : (componentsByIdentity components).Perm components :=
    List.perm_insertionSort _ _
  have hnodup : (components.map componentIdentity).Nodup := by
    rw [readBack_eq] at hlength
    rw [← (hperm.map componentIdentity).nodup_iff,
      ← map_componentIdentity_restored]
    apply nodup_of_length_mergeAll
    rw [hlength, List.length_map, hperm.length_eq]
  have hidentities : (readBack environment components tool releaseMeta
      craMetadata).map componentIdentity =
        (componentsByIdentity components).map componentIdentity := by
    rw [readBack_of_nodup environment tool releaseMeta craMetadata hnodup,
      List.map_map]
    rfl
  rw [IdentityIncreasing, hidentities]
  exact identityIncreasing_componentsByIdentity hnodup

end ReadBack

/-! ## The round trip -/

/-- The fields both sides of the round trip are about agree. -/
structure SameFields (left right : Component) : Prop where
  name : left.name = right.name
  version : left.version = right.version
  purl : left.purl = right.purl
  cpe : left.cpe = right.cpe
  cpeProvenance : left.cpeProvenance = right.cpeProvenance
  supplier : left.supplier = right.supplier
  sha256 : left.sha256 = right.sha256
  license : left.license = right.license
  scope : left.scope = right.scope
  root : left.root = right.root

/-- The digest is absent or a SHA-256, the root absent or a normalised path
inside the repository. -/
structure IsWellFormed (component : Component) : Prop where
  sha256 : component.sha256 = "" ∨ isValidSha256 component.sha256 = true
  root : component.root = .empty ∨
    (component.root.normalizedSubtreePath = component.root ∧
      component.root.isContainedRelativePath = true)

/-- The same components come back in the same order. -/
def RoundTrips (environment : WriterEnvironment) (components : List Component)
    (tool : ToolInfo) (releaseMeta : ReleaseMeta)
    (craMetadata : CraMetadata) : Prop :=
  List.Forall₂ SameFields
    (readBack environment components tool releaseMeta craMetadata) components

theorem SameFields.componentIdentity_eq {left right : Component}
    (hsame : SameFields left right) :
    componentIdentity left = componentIdentity right := by
  simp only [componentIdentity, hsame.name, hsame.version, hsame.purl]

theorem restoredRoot_of_wellFormed {component : Component}
    (hwellFormed : IsWellFormed component) :
    restoredRoot component.root = component.root := by
  rcases hwellFormed.root with hempty | ⟨hnormal, hcontained⟩
  · rw [hempty]
    decide
  · by_cases hempty : component.root.isEmpty = true
    · simp [FsPath.isContainedRelativePath, hempty] at hcontained
    · simp [restoredRoot, hempty, hnormal, hcontained]

theorem sameFields_restored {component : Component}
    (hwellFormed : IsWellFormed component) :
    SameFields (restored component).normalized component where
  name := rfl
  version := rfl
  purl := rfl
  cpe := rfl
  cpeProvenance := rfl
  supplier := rfl
  sha256 := by
    rcases hwellFormed.sha256 with hempty | hvalid
    · simp [restored, Component.normalized, hempty]
    · simp [restored, Component.normalized, hvalid]
  license := rfl
  scope := rfl
  root := restoredRoot_of_wellFormed hwellFormed

theorem roundTrips_of_identityIncreasing (environment : WriterEnvironment)
    {components : List Component} (tool : ToolInfo) (releaseMeta : ReleaseMeta)
    (craMetadata : CraMetadata)
    (hwellFormed : ∀ component ∈ components, IsWellFormed component)
    (hincreasing : IdentityIncreasing components) :
    RoundTrips environment components tool releaseMeta craMetadata := by
  rw [RoundTrips, readBack_of_increasing environment tool releaseMeta
    craMetadata hincreasing, List.forall₂_map_left_iff, List.forall₂_same]
  intro component hcomponent
  exact sameFields_restored (hwellFormed component hcomponent)

/-- A merged list comes back as it was exactly when it stands in identity
order.  Merging can break that order: it fills an empty name or version of a
component without a purl, and so changes the identity under which the
component was filed. -/
theorem roundTrips_iff_identityIncreasing (environment : WriterEnvironment)
    (detected : List Component) (tool : ToolInfo) (releaseMeta : ReleaseMeta)
    (craMetadata : CraMetadata)
    (hwellFormed : ∀ component ∈ mergeAll detected, IsWellFormed component) :
    RoundTrips environment (mergeAll detected) tool releaseMeta craMetadata ↔
      IdentityIncreasing (mergeAll detected) := by
  constructor
  · intro hround
    have hidentities : (readBack environment (mergeAll detected) tool
        releaseMeta craMetadata).map componentIdentity =
          (mergeAll detected).map componentIdentity := by
      rw [← List.forall₂_eq_eq_eq, List.forall₂_map_left_iff,
        List.forall₂_map_right_iff]
      exact hround.imp fun _ _ hsame => hsame.componentIdentity_eq
    have hincreasing := identityIncreasing_readBack environment tool
      releaseMeta craMetadata hround.length_eq
    rwa [IdentityIncreasing, hidentities] at hincreasing
  · exact roundTrips_of_identityIncreasing environment tool releaseMeta
      craMetadata hwellFormed

/-- A component with every optional field. -/
def sampleComponent : Component where
  name := "zlib"
  version := "1.3"
  supplier := "zlib authors"
  license := "Zlib"
  purl := "pkg:generic/zlib@1.3"
  cpe := "cpe:2.3:a:*:zlib:1.3:*:*:*:*:*:*:*"
  cpeProvenance := .synthesizedWildcardVendor
  sha256 := String.ofList (List.replicate 64 'a')
  root := .ofString "third_party/zlib"
  evidence :=
    [{ source := .fingerprint, detail := "11 of 14 files", confidence := .high }]
  scope := .optional

def sampleEnvironment : WriterEnvironment where
  uuid text := text
  timestamp := "2026-01-01T00:00:00Z"

theorem roundTrips_iff_identityIncreasing_sample :
    RoundTrips sampleEnvironment (mergeAll [sampleComponent, { name := "app" }])
        ⟨"bomwerk", "1"⟩ {} {} ↔
      IdentityIncreasing (mergeAll [sampleComponent, { name := "app" }]) := by
  refine roundTrips_iff_identityIncreasing _ _ _ _ _ ?_
  intro component hcomponent
  have hall : ∀ component ∈ mergeAll [sampleComponent, { name := "app" }],
      (component.sha256 = "" ∨ isValidSha256 component.sha256 = true) ∧
        (component.root = .empty ∨
          (component.root.normalizedSubtreePath = component.root ∧
            component.root.isContainedRelativePath = true)) := by
    decide
  exact ⟨(hall component hcomponent).1, (hall component hcomponent).2⟩

/-- The first two share an identity, and merging them yields that of the
third. -/
def driftingComponents : List Component :=
  [{ version := "scope/lib@1" }, { name := "@scope/lib", version := "1" },
    { name := "@scope/lib", version := "scope/lib@1" }]

/-- One of two merged components is lost on the way. -/
theorem not_roundTrips_of_drift :
    (∀ component ∈ mergeAll driftingComponents,
      component.sha256 = "" ∧ component.root = .empty) ∧
    (mergeAll driftingComponents).length = 2 ∧
    ¬ RoundTrips sampleEnvironment (mergeAll driftingComponents)
      ⟨"bomwerk", "1"⟩ {} {} := by
  refine ⟨by decide, by decide, fun hround => ?_⟩
  have hlength := hround.length_eq
  have hread : (readBack sampleEnvironment (mergeAll driftingComponents)
      ⟨"bomwerk", "1"⟩ {} {}).length = 1 := by
    decide
  have hwritten : (mergeAll driftingComponents).length = 2 := by decide
  omega

end Bomwerk.Sbom
