import Bomwerk.Core.Component
import Bomwerk.Core.Json

/-!
# The CycloneDX writer

`output/cyclonedx.cpp`: a component list, the identity of the product and the
manufacturer become one CycloneDX document.  Deriving an identifier from a text
(`uuidv5` in the purl namespace) and the clock are parameters.
-/

namespace Bomwerk.Output

open Bomwerk.Core

structure ToolInfo where
  name : String
  version : String
  deriving DecidableEq, Repr

/-- What the writer takes from outside its arguments. -/
structure WriterEnvironment where
  /-- `uuidv5(purl_namespace(), text).to_string()`. -/
  uuid : String → String
  /-- `current_timestamp_iso8601()`. -/
  timestamp : String

/-- `is_valid_sha256`.  Hexadecimal digits are one byte each. -/
def isValidSha256 (sha256 : String) : Bool :=
  sha256.length = 64 && isHexDigits sha256

/-- One entry of a `properties` array. -/
def property (name value : String) : Json :=
  Json.null
    |>.set "name" (.string name)
    |>.set "value" (.string value)

def evidenceDetails (source : Source) (component : Component) : List String :=
  (component.evidence.filter (·.source = source)).map Evidence.detail

/-- The `properties` of a component: coverage, CPE provenance, then binary and
content-match evidence. -/
def componentProperties (component : Component) (coverage : MatchCoverage) :
    List Json :=
  (if coverage ≠ .matched then
    [property "bomwerk:match-coverage" coverage.text] else []) ++
  (if component.cpeProvenance ≠ .unspecified then
    [property cpeProvenancePropertyName component.cpeProvenance.text]
    else []) ++
  (evidenceDetails .binary component).map (property "bomwerk:binary") ++
  (evidenceDetails .fingerprint component).map (property fingerprintPropertyName)

section Environment

variable (environment : WriterEnvironment)

def bomRefFor (component : Component) : String :=
  environment.uuid (componentIdentity component)

def productBomRefFor (releaseMeta : ReleaseMeta) : String :=
  environment.uuid
    ("product:" ++ releaseMeta.productId ++ "@" ++ releaseMeta.version)

def componentToJson (component : Component) (coverage : MatchCoverage) : Json :=
  let properties := componentProperties component coverage
  Json.null
    |>.set "type" (.string "library")
    |>.set "bom-ref" (.string (bomRefFor environment component))
    |>.set "name" (.string component.name)
    |>.setIf (component.version ≠ "") "version" (.string component.version)
    |>.setIf (component.purl ≠ "") "purl" (.string component.purl)
    |>.setIf (component.cpe ≠ "") "cpe" (.string component.cpe)
    |>.setIf (component.scope ≠ .required) "scope"
        (.string component.scope.text)
    |>.setIf (component.supplier ≠ "") "supplier"
        (Json.null.set "name" (.string component.supplier))
    |>.setIf (isValidSha256 component.sha256) "hashes"
        (.array
          [Json.null
            |>.set "alg" (.string "SHA-256")
            |>.set "content" (.string component.sha256)])
    |>.setIf (component.license ≠ "") "licenses"
        (.array
          [Json.null.set "license"
            (Json.null.set "name" (.string component.license))])
    |>.setIf (!component.root.isEmpty) "evidence"
        (Json.null.set "occurrences"
          (.array
            [Json.null.set "location"
              (.string component.root.genericString)]))
    |>.setIf (!properties.isEmpty) "properties" (.array properties)

/-! ## The document -/

/-- The entries of `coverage_summary_properties`, from the classification of
every component. -/
def coverageSummary (coverages : List MatchCoverage) : List (String × Nat) :=
  let matchable := coverages.count .matched
  [("bomwerk:coverage:components", coverages.length),
    ("bomwerk:coverage:matchable", matchable),
    ("bomwerk:coverage:no-identifier", coverages.count .noIdentifier),
    ("bomwerk:coverage:unmapped-purl-type", coverages.count .unmappedPurlType),
    ("bomwerk:coverage:unmatched", coverages.length - matchable),
    ("bomwerk:coverage:unversioned-purl", coverages.count .unversionedPurl)]

/-- The order in which the components are written. -/
def IdentityLe (left right : Component) : Prop :=
  componentIdentity left ≤ componentIdentity right

instance : DecidableRel IdentityLe := fun left right =>
  inferInstanceAs (Decidable (componentIdentity left ≤ componentIdentity right))

instance : Std.Total IdentityLe where
  total left right :=
    le_total (componentIdentity left) (componentIdentity right)

instance : IsTrans Component IdentityLe where
  trans _ _ _ := le_trans

def componentsByIdentity (components : List Component) : List Component :=
  components.insertionSort IdentityLe

def serialNumberFor (components : List Component) : String :=
  let identities := (components.map componentIdentity).insertionSort (· ≤ ·)
  "urn:uuid:" ++
    environment.uuid (String.join (identities.map fun id => id ++ "\n"))

/-- `metadata.component`. -/
def productComponent (releaseMeta : ReleaseMeta) (craMetadata : CraMetadata) :
    Json :=
  Json.null
    |>.set "type" (.string "application")
    |>.set "bom-ref" (.string (productBomRefFor environment releaseMeta))
    |>.set "name" (.string releaseMeta.productId)
    |>.setIf (releaseMeta.version ≠ "") "version" (.string releaseMeta.version)
    |>.set "purl"
        (.string ("pkg:generic/" ++ percentEncode releaseMeta.productId ++
          "@" ++ percentEncode releaseMeta.version))
    |>.setIf (craMetadata.manufacturerName ≠ "") "supplier"
        (Json.null.set "name" (.string craMetadata.manufacturerName))

/-- `metadata.manufacturer`. -/
def manufacturer (craMetadata : CraMetadata) : Json :=
  Json.null
    |>.set "name" (.string craMetadata.manufacturerName)
    |>.setIf (craMetadata.manufacturerEmail ≠ "") "contact"
        (.array
          [Json.null.set "email" (.string craMetadata.manufacturerEmail)])

/-- `bom["metadata"]`. -/
def documentMetadata (components : List Component) (tool : ToolInfo)
    (releaseMeta : ReleaseMeta) (craMetadata : CraMetadata) : Json :=
  let toolEntry :=
    Json.null
      |>.set "type" (.string "application")
      |>.set "name" (.string tool.name)
      |>.set "version" (.string tool.version)
  let coverages := components.map fun component =>
    classifyMatchCoverage component.purl
  Json.null
    |>.set "timestamp" (.string environment.timestamp)
    |>.set "tools" (Json.null.set "components" (.array [toolEntry]))
    |>.setIf (releaseMeta.productId ≠ "") "component"
        (productComponent environment releaseMeta craMetadata)
    |>.setIf (craMetadata.manufacturerName ≠ "") "manufacturer"
        (manufacturer craMetadata)
    |>.set "properties"
        (.array ((coverageSummary coverages).map fun entry =>
          property entry.1 (toString entry.2)))

/-- `dependencies_json`: every component without dependencies of its own,
behind the product that depends on all of them. -/
def dependencies (components : List Component) (releaseMeta : ReleaseMeta) :
    List Json :=
  let refs := (componentsByIdentity components).map (bomRefFor environment)
  (if productBomRefFor environment releaseMeta ≠ "" ∧
      releaseMeta.productId ≠ "" then
    [Json.null
      |>.set "ref" (.string (productBomRefFor environment releaseMeta))
      |>.set "dependsOn" (.array (refs.map Json.string))]
    else []) ++
  refs.map fun ref => Json.null.set "ref" (.string ref)

def componentsJson (components : List Component) : List Json :=
  (componentsByIdentity components).map fun component =>
    componentToJson environment component (classifyMatchCoverage component.purl)

/-- The document `write_cyclonedx` builds. -/
def cyclonedxDocument (components : List Component) (tool : ToolInfo)
    (releaseMeta : ReleaseMeta) (craMetadata : CraMetadata) : Json :=
  Json.null
    |>.set "bomFormat" (.string "CycloneDX")
    |>.set "specVersion" (.string "1.6")
    |>.set "version" (.integer 1)
    |>.set "serialNumber" (.string (serialNumberFor environment components))
    |>.set "components" (.array (componentsJson environment components))
    |>.set "dependencies" (.array (dependencies environment components releaseMeta))
    |>.set "metadata"
        (documentMetadata environment components tool releaseMeta craMetadata)

def writeCyclonedx (components : List Component) (tool : ToolInfo)
    (releaseMeta : ReleaseMeta) (craMetadata : CraMetadata) : JsonText :=
  (cyclonedxDocument environment components tool releaseMeta craMetadata).dump

end Environment

/-! ## Nesting -/

section Depth

open Json

theorem depth_array_le {items : List Json} {n : Nat}
    (hitems : ∀ item ∈ items, item.depth ≤ n) :
    (Json.array items).depth ≤ n + 1 := by
  simpa [depth] using itemsDepth_le_iff.mpr hitems

theorem depth_set_string_le {document : Json} {n : Nat} (hn : 1 ≤ n)
    (hdocument : document.depth ≤ n) (key text : String) :
    (document.set key (.string text)).depth ≤ n :=
  depth_set_le hdocument (by simpa [depth] using hn) key

theorem depth_property (name value : String) :
    (property name value).depth ≤ 1 := by
  apply_rules [depth_set_string_le] <;> simp [depth]

theorem depth_singleton_array {item : Json} {n : Nat}
    (hitem : item.depth ≤ n) : (Json.array [item]).depth ≤ n + 1 :=
  depth_array_le (by simpa using hitem)

theorem depth_componentProperties {component : Component}
    {coverage : MatchCoverage} :
    ∀ entry ∈ componentProperties component coverage, entry.depth ≤ 1 := by
  intro entry hentry
  simp only [componentProperties, List.mem_append, List.mem_map] at hentry
  rcases hentry with ((hentry | hentry) | ⟨_, -, rfl⟩) | ⟨_, -, rfl⟩
  · split at hentry <;> simp_all [depth_property]
  · split at hentry <;> simp_all [depth_property]
  · exact depth_property _ _
  · exact depth_property _ _

variable (environment : WriterEnvironment)

theorem depth_componentToJson (component : Component)
    (coverage : MatchCoverage) :
    (componentToJson environment component coverage).depth ≤ 4 := by
  have hproperties :
      (Json.array (componentProperties component coverage)).depth ≤ 2 :=
    depth_array_le depth_componentProperties
  have hhashes : (Json.array
      [Json.null
        |>.set "alg" (.string "SHA-256")
        |>.set "content" (.string component.sha256)]).depth ≤ 2 := by
    refine depth_singleton_array ?_
    apply_rules [depth_set_string_le] <;> simp [depth]
  unfold componentToJson
  refine depth_setIf_le ?_ (by omega) _ _
  apply_rules [depth_setIf_le, depth_set_string_le] <;> first
      | omega
      | simp [depth, itemsDepth, membersDepth, Json.set]

theorem depth_componentsJson {components : List Component} :
    ∀ entry ∈ componentsJson environment components, entry.depth ≤ 4 := by
  intro entry hentry
  obtain ⟨component, -, rfl⟩ := List.mem_map.mp hentry
  exact depth_componentToJson environment component _

theorem depth_dependencies {components : List Component}
    {releaseMeta : ReleaseMeta} :
    ∀ entry ∈ dependencies environment components releaseMeta,
      entry.depth ≤ 2 := by
  intro entry hentry
  rcases List.mem_append.mp hentry with hentry | hentry
  · have hrefs : (Json.array (((componentsByIdentity components).map
        (bomRefFor environment)).map Json.string)).depth ≤ 1 := by
      refine depth_array_le fun item hitem => ?_
      obtain ⟨ref, -, rfl⟩ := List.mem_map.mp hitem
      simp [depth]
    split at hentry
    · obtain rfl := List.mem_singleton.mp hentry
      refine depth_set_le (depth_set_le ?_ ?_ _) (by omega) _ <;>
        simp [depth]
    · simp at hentry
  · obtain ⟨ref, -, rfl⟩ := List.mem_map.mp hentry
    simp [Json.set, depth, membersDepth]

theorem depth_documentMetadata (components : List Component) (tool : ToolInfo)
    (releaseMeta : ReleaseMeta) (craMetadata : CraMetadata) :
    (documentMetadata environment components tool releaseMeta
      craMetadata).depth ≤ 5 := by
  have hproperties : ∀ entries : List (String × Nat),
      (Json.array (entries.map fun entry =>
        property entry.1 (toString entry.2))).depth ≤ 2 := by
    intro entries
    refine depth_array_le fun item hitem => ?_
    obtain ⟨entry, -, rfl⟩ := List.mem_map.mp hitem
    exact depth_property _ _
  have hproduct :
      (productComponent environment releaseMeta craMetadata).depth ≤ 3 := by
    unfold productComponent
    apply_rules [depth_setIf_le, depth_set_le] <;>
      simp [depth, membersDepth, Json.set]
  have hmanufacturer : (manufacturer craMetadata).depth ≤ 3 := by
    unfold manufacturer
    apply_rules [depth_setIf_le, depth_set_le] <;>
      simp [depth, itemsDepth, membersDepth, Json.set]
  have htool : (Json.array
      [Json.null
        |>.set "type" (.string "application")
        |>.set "name" (.string tool.name)
        |>.set "version" (.string tool.version)]).depth ≤ 2 := by
    refine depth_singleton_array ?_
    apply_rules [depth_set_string_le] <;> simp [depth]
  have hnull : Json.null.depth ≤ 3 := by simp [depth]
  have htools :=
    depth_set_le hnull (Nat.add_le_add_right htool 1) "components"
  unfold documentMetadata
  refine depth_set_le (depth_setIf_le (depth_setIf_le (depth_set_le ?_
    (by omega) _) (by omega) _ _) (by omega) _ _)
    ((Nat.add_le_add_right (hproperties _) 1).trans (by decide)) _
  apply_rules [depth_set_string_le] <;> simp [depth]

/-- A written document is nested far less deeply than a reader allows. -/
theorem depth_cyclonedxDocument (components : List Component)
    (tool : ToolInfo) (releaseMeta : ReleaseMeta)
    (craMetadata : CraMetadata) :
    (cyclonedxDocument environment components tool releaseMeta
      craMetadata).depth ≤ 6 := by
  have hcomponents :
      (Json.array (componentsJson environment components)).depth ≤ 5 :=
    depth_array_le (depth_componentsJson environment)
  have hdependencies :
      (Json.array (dependencies environment components
        releaseMeta)).depth ≤ 3 :=
    depth_array_le (depth_dependencies environment)
  have hmetadata := depth_documentMetadata environment components tool
    releaseMeta craMetadata
  unfold cyclonedxDocument
  refine depth_set_le (depth_set_le (depth_set_le ?_ (by omega) _)
    (by omega) _) (by omega) _
  apply_rules [depth_set_le] <;> simp [depth]

end Depth
end Bomwerk.Output
