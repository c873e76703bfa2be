import Bomwerk.Output.Cyclonedx
import Bomwerk.Support.ReferenceGraph

/-!
# References inside a document

The reference graph of a CycloneDX document, read back from its `bom-ref`,
`ref` and `dependsOn` members, and when the one of a written document is sound.
A component without a purl may carry the very name that the product's reference
is derived from, and then the two references are one.
-/

namespace Bomwerk.Output

open Bomwerk.Core Bomwerk.Support

/-- `dependsOn`; an entry without one depends on nothing. -/
def readTargets (entry : Json) : Option (List String) :=
  match entry.find? "dependsOn" with
  | none => some []
  | some (.array targets) => targets.mapM Json.asString?
  | some _ => none

def readDependency (entry : Json) : Option (String × List String) := do
  let ref ← entry.findString? "ref"
  let targets ← readTargets entry
  pure (ref, targets)

/-- The reference of `metadata.component`, when there is one. -/
def readProductRef (document : Json) : Option (Option String) :=
  match (document.find? "metadata").bind (·.find? "component") with
  | none => some none
  | some product => (product.findString? "bom-ref").map some

/-- The reference graph of a document; nothing when a reference is missing or
is not a text. -/
def readReferences (document : Json) : Option (ReferenceGraph String) := do
  let root ← readProductRef document
  let components ← document.findArray? "components"
  let nodes ← components.mapM (·.findString? "bom-ref")
  let dependencies ← document.findArray? "dependencies"
  let entries ← dependencies.mapM readDependency
  pure { root, nodes, entries }

/-! ## The graph of a written document -/

/-- The name that the product's reference is derived from. -/
def productIdentity (releaseMeta : ReleaseMeta) : String :=
  "product:" ++ releaseMeta.productId ++ "@" ++ releaseMeta.version

section Environment

variable (environment : WriterEnvironment)

theorem productBomRefFor_eq (releaseMeta : ReleaseMeta) :
    productBomRefFor environment releaseMeta =
      environment.uuid (productIdentity releaseMeta) := rfl

/-- The reference of the product, when the document has one. -/
def writtenRoot (releaseMeta : ReleaseMeta) : Option String :=
  if releaseMeta.productId ≠ "" then
    some (productBomRefFor environment releaseMeta) else none

/-- The references of the components, in the order they are written. -/
def writtenNodes (components : List Component) : List String :=
  (componentsByIdentity components).map (bomRefFor environment)

theorem writtenNodes_perm (components : List Component) :
    (writtenNodes environment components).Perm
      (components.map (bomRefFor environment)) :=
  (List.perm_insertionSort IdentityLe components).map _

theorem mapM_bomRef_componentsJson (components : List Component) :
    (componentsJson environment components).mapM (·.findString? "bom-ref") =
      some (writtenNodes environment components) := by
  rw [componentsJson, List.mapM_map]
  refine Json.mapM_eq_some_map fun component hcomponent => ?_
  simp [componentToJson, Json.findString?, Json.asString?]

theorem readDependency_leaf (ref : String) :
    readDependency (Json.null.set "ref" (.string ref)) = some (ref, []) := by
  simp [readDependency, readTargets, Json.findString?, Json.asString?]

theorem readDependency_product (ref : String) (targets : List String) :
    readDependency
        (Json.null
          |>.set "ref" (.string ref)
          |>.set "dependsOn" (.array (targets.map Json.string))) =
      some (ref, targets) := by
  simp [readDependency, readTargets, Json.findString?, Json.asString?,
    Json.mapM_asString?_string]

theorem mapM_readDependency_dependencies (components : List Component)
    {releaseMeta : ReleaseMeta}
    (href : productBomRefFor environment releaseMeta ≠ "") :
    (dependencies environment components releaseMeta).mapM readDependency =
      some (ReferenceGraph.star (writtenRoot environment releaseMeta)
        (writtenNodes environment components)).entries := by
  have hleaves :
      ((writtenNodes environment components).map fun ref =>
        Json.null.set "ref" (.string ref)).mapM readDependency =
      some ((writtenNodes environment components).map (·, [])) := by
    rw [List.mapM_map]
    exact Json.mapM_eq_some_map fun ref _ => readDependency_leaf ref
  unfold dependencies
  rw [← writtenNodes]
  by_cases hproduct : releaseMeta.productId = ""
  · simp only [hproduct, ne_eq, not_true, and_false, if_false,
      List.nil_append, hleaves]
    simp [ReferenceGraph.star, writtenRoot, hproduct]
  · simp only [href, hproduct, ne_eq, not_false_eq_true, and_self, if_true,
      List.singleton_append, List.mapM_cons]
    rw [readDependency_product, hleaves]
    simp [ReferenceGraph.star, writtenRoot, hproduct]

theorem readProductRef_document (components : List Component)
    (tool : ToolInfo) (releaseMeta : ReleaseMeta)
    (craMetadata : CraMetadata) :
    readProductRef
        (cyclonedxDocument environment components tool releaseMeta
          craMetadata) = some (writtenRoot environment releaseMeta) := by
  by_cases hproduct : releaseMeta.productId = "" <;>
    simp [readProductRef, cyclonedxDocument, documentMetadata, writtenRoot,
      productComponent, hproduct, Json.findString?, Json.asString?]

/-- A written document is the star of the product over its components. -/
theorem readReferences_document (components : List Component)
    (tool : ToolInfo) {releaseMeta : ReleaseMeta} (craMetadata : CraMetadata)
    (href : productBomRefFor environment releaseMeta ≠ "") :
    readReferences
        (cyclonedxDocument environment components tool releaseMeta
          craMetadata) =
      some (.star (writtenRoot environment releaseMeta)
        (writtenNodes environment components)) := by
  have hcomponents :
      (cyclonedxDocument environment components tool releaseMeta
        craMetadata).findArray? "components" =
      some (componentsJson environment components) := by
    simp [cyclonedxDocument, Json.findArray?]
  have hdependencies :
      (cyclonedxDocument environment components tool releaseMeta
        craMetadata).findArray? "dependencies" =
      some (dependencies environment components releaseMeta) := by
    simp [cyclonedxDocument, Json.findArray?]
  simp only [readReferences, readProductRef_document, hcomponents,
    hdependencies, Option.bind_eq_bind, Option.bind_some,
    mapM_bomRef_componentsJson,
    mapM_readDependency_dependencies environment components href]
  rfl

theorem readReferences_written (components : List Component)
    (tool : ToolInfo) {releaseMeta : ReleaseMeta} (craMetadata : CraMetadata)
    (href : productBomRefFor environment releaseMeta ≠ "") :
    (writeCyclonedx environment components tool releaseMeta
      craMetadata).bind readReferences =
      some (.star (writtenRoot environment releaseMeta)
        (writtenNodes environment components)) :=
  readReferences_document environment components tool craMetadata href

/-! ## Soundness -/

/-- The references of a text are those of these components, and sound. -/
def ReferencesSound (components : List Component) (text : JsonText) : Prop :=
  ∃ graph, text.bind readReferences = some graph ∧
    graph.nodes.Perm (components.map (bomRefFor environment)) ∧ graph.Sound

def referenceNames (components : List Component) (releaseMeta : ReleaseMeta) :
    List String :=
  productIdentity releaseMeta :: components.map componentIdentity

theorem nodup_writtenNodes {components : List Component}
    {releaseMeta : ReleaseMeta}
    (hidentities : (components.map componentIdentity).Nodup)
    (hinjective : Set.InjOn environment.uuid
      {name | name ∈ referenceNames components releaseMeta}) :
    (writtenNodes environment components).Nodup := by
  rw [(writtenNodes_perm environment components).nodup_iff]
  have hrefs : components.map (bomRefFor environment) =
      (components.map componentIdentity).map environment.uuid := by
    rw [List.map_map]
    rfl
  rw [hrefs]
  refine List.Nodup.map_on ?_ hidentities
  intro left hleft right hright heq
  exact hinjective (List.mem_cons_of_mem _ hleft)
    (List.mem_cons_of_mem _ hright) heq

theorem product_mem_writtenNodes_iff {components : List Component}
    {releaseMeta : ReleaseMeta}
    (hinjective : Set.InjOn environment.uuid
      {name | name ∈ referenceNames components releaseMeta}) :
    productBomRefFor environment releaseMeta ∈
        writtenNodes environment components ↔
      productIdentity releaseMeta ∈ components.map componentIdentity := by
  rw [(writtenNodes_perm environment components).mem_iff, productBomRefFor_eq]
  constructor
  · intro hmem
    obtain ⟨component, hcomponent, heq⟩ := List.mem_map.mp hmem
    have hidentity : componentIdentity component ∈
        components.map componentIdentity := List.mem_map_of_mem hcomponent
    have hname := hinjective (List.mem_cons_of_mem _ hidentity)
      List.mem_cons_self heq
    rwa [← hname]
  · intro hmem
    obtain ⟨component, hcomponent, hname⟩ := List.mem_map.mp hmem
    rw [← hname]
    exact List.mem_map_of_mem hcomponent

theorem referencesSound_written_iff_nodup (components : List Component)
    (tool : ToolInfo) {releaseMeta : ReleaseMeta} (craMetadata : CraMetadata)
    (href : productBomRefFor environment releaseMeta ≠ "") :
    ReferencesSound environment components
        (writeCyclonedx environment components tool releaseMeta craMetadata) ↔
      ((writtenRoot environment releaseMeta).toList ++
        writtenNodes environment components).Nodup := by
  unfold ReferencesSound
  rw [readReferences_written environment components tool craMetadata href,
    ← ReferenceGraph.sound_star_iff]
  constructor
  · rintro ⟨graph, hgraph, -, hsound⟩
    obtain rfl := Option.some.inj hgraph
    exact hsound
  · intro hsound
    exact ⟨_, rfl, writtenNodes_perm environment components, hsound⟩

/-- The references of a document whose components have distinct identities are
sound exactly when no component is named as the product is. -/
theorem referencesSound_written_iff (components : List Component)
    (tool : ToolInfo) (releaseMeta : ReleaseMeta) (craMetadata : CraMetadata)
    (hidentities : (components.map componentIdentity).Nodup)
    (hinjective : Set.InjOn environment.uuid
      {name | name ∈ referenceNames components releaseMeta})
    (href : environment.uuid (productIdentity releaseMeta) ≠ "") :
    ReferencesSound environment components
        (writeCyclonedx environment components tool releaseMeta craMetadata) ↔
      releaseMeta.productId = "" ∨
        ∀ component ∈ components,
          componentIdentity component ≠ productIdentity releaseMeta := by
  rw [referencesSound_written_iff_nodup environment components tool
    craMetadata href]
  have hnodes := nodup_writtenNodes environment hidentities hinjective
  by_cases hproduct : releaseMeta.productId = ""
  · simp [writtenRoot, hproduct, hnodes]
  · have hmem := product_mem_writtenNodes_iff environment hinjective
    simp [writtenRoot, hproduct, hnodes, hmem]

end Environment

/-- An environment in which a reference is its own name, behind a prefix. -/
def namedEnvironment : WriterEnvironment where
  uuid name := "urn:uuid:" ++ name
  timestamp := "1970-01-01T00:00:00Z"

theorem uuid_namedEnvironment_injective :
    Function.Injective namedEnvironment.uuid := by
  intro left right heq
  have hlist := congrArg String.toList heq
  exact String.toList_inj.mp (by simpa [namedEnvironment] using hlist)

theorem referencesSound_written_iff_zlib :
    ReferencesSound namedEnvironment
      [{ name := "zlib", version := "1.3" }, { name := "curl" }]
      (writeCyclonedx namedEnvironment
        [{ name := "zlib", version := "1.3" }, { name := "curl" }]
        { name := "bomwerk", version := "1.0" }
        { productId := "app", version := "1.0" } {}) :=
  (referencesSound_written_iff namedEnvironment _ _ _ _ (by decide)
    uuid_namedEnvironment_injective.injOn (by decide)).mpr
    (Or.inr (by decide))

def productNamesake : Component where
  name := "product:app"
  version := "1.0"

/-- The product and its namesake get one reference. -/
theorem not_referencesSound_productNamesake :
    Function.Injective namedEnvironment.uuid ∧
      ([productNamesake].map componentIdentity).Nodup ∧
      ¬ ReferencesSound namedEnvironment [productNamesake]
        (writeCyclonedx namedEnvironment [productNamesake]
          { name := "bomwerk", version := "1.0" }
          { productId := "app", version := "1.0" } {}) := by
  refine ⟨uuid_namedEnvironment_injective, by simp, ?_⟩
  rw [referencesSound_written_iff_nodup namedEnvironment _ _ _ (by decide)]
  decide

end Bomwerk.Output
