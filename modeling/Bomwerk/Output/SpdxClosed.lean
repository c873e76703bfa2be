import Bomwerk.Output.References
import Bomwerk.Output.Spdx

/-!
# Closed SPDX documents

What the packages, relationships and license definitions of an SPDX 2.3 document
say about each other, read back from the document, and that a written document
is closed and does not depend on the order of the components.
-/

namespace Bomwerk.Output

open Bomwerk.Core Bomwerk.Support

/-- The parts of a document that refer to each other. -/
structure SpdxGraph where
  /-- The identifier of each package, and the license it declares. -/
  packages : List (String × String)
  /-- Source, kind and target. -/
  relationships : List (String × String × String)
  /-- Identifier and text. -/
  extracted : List (String × String)

def readPackage (entry : Json) : Option (String × String) := do
  let id ← entry.findString? "SPDXID"
  let declared ← entry.findString? "licenseDeclared"
  pure (id, declared)

def readRelationship (entry : Json) : Option (String × String × String) := do
  let source ← entry.findString? "spdxElementId"
  let kind ← entry.findString? "relationshipType"
  let target ← entry.findString? "relatedSpdxElement"
  pure (source, kind, target)

def readExtractedInfo (entry : Json) : Option (String × String) := do
  let id ← entry.findString? "licenseId"
  let text ← entry.findString? "extractedText"
  pure (id, text)

/-- A document without definitions has no member for them. -/
def readExtractedInfos (document : Json) : Option (List (String × String)) :=
  match document.find? "hasExtractedLicensingInfos" with
  | none => some []
  | some (.array infos) => infos.mapM readExtractedInfo
  | some _ => none

def readSpdx (document : Json) : Option SpdxGraph := do
  let packages ← document.findArray? "packages"
  let packages ← packages.mapM readPackage
  let relationships ← document.findArray? "relationships"
  let relationships ← relationships.mapM readRelationship
  let extracted ← readExtractedInfos document
  pure { packages, relationships, extracted }

namespace SpdxGraph

variable (graph : SpdxGraph)

def packageIds : List String := graph.packages.map Prod.fst

/-- The targets of the `DESCRIBES` relationships. -/
def described : List String :=
  (graph.relationships.filter fun relationship =>
    relationship.2.1 = "DESCRIBES").map fun relationship => relationship.2.2

/-- Identifiers are unique, every package is described once and nothing else
is, and every definition is used. -/
structure IsClosed : Prop where
  nodup_packageIds : graph.packageIds.Nodup
  mem_packageIds : ∀ target ∈ graph.described, target ∈ graph.packageIds
  count_described : ∀ id ∈ graph.packageIds, graph.described.count id = 1
  used : ∀ info ∈ graph.extracted,
    ∃ package ∈ graph.packages, package.2 = info.1

/-- What may be declared for a license text. -/
inductive Declares (license : String) : String → Prop
  | noAssertion : license = "" → Declares license noAssertion
  | listed {id : String} : canonicalSpdxLicenseId license = some id →
      id ∈ spdxLicenseIds → Declares license id
  /-- There is one definition of the reference, with this text. -/
  | extracted {ordinal : Nat} :
      (graph.extracted.filter fun info => info.1 = licenseRefId ordinal) =
        [(licenseRefId ordinal, license)] →
      Declares license (licenseRefId ordinal)

/-- The packages are those of the components, and each of them declares the
license of its component. -/
structure IsGraphOf (environment : WriterEnvironment)
    (components : List Component) : Prop where
  packageIds_perm : graph.packageIds.Perm
    (components.map (packageId environment))
  declares : ∀ package ∈ graph.packages, ∃ component ∈ components,
    package.1 = packageId environment component ∧
      graph.Declares component.license package.2

end SpdxGraph

section Licenses

variable {components : List Component} {component : Component}

theorem toList_licenseRefId (ordinal : Nat) :
    (licenseRefId ordinal).toList =
      "LicenseRef-declared-".toList ++ Nat.toDigits 10 ordinal := by
  unfold licenseRefId
  rw [String.toList_append]
  exact congrArg _ (Nat.toList_repr)

theorem licenseRefId_injective : Function.Injective licenseRefId := by
  intro left right heq
  have hlist := congrArg String.toList heq
  rw [toList_licenseRefId, toList_licenseRefId,
    List.append_cancel_left_eq] at hlist
  have hvalue := congrArg (Nat.ofDigitChars 10 · 0) hlist
  simpa only [Nat.ofDigitChars_ten_toDigits] using hvalue

theorem mem_unmatchedTexts_iff {license : String} :
    license ∈ unmatchedTexts components ↔ isUnmatchedLicense license = true ∧
        ∃ component ∈ components, component.license = license := by
  have hkeys : license ∈ (unmatchedTexts components).map id ↔
      license ∈ ((components.map Component.license).filter
        isUnmatchedLicense).map id := map_key_mem_sortUnique_iff
  rw [List.map_id, List.map_id] at hkeys
  rw [hkeys, List.mem_filter, List.mem_map, and_comm]

theorem nodup_unmatchedTexts : (unmatchedTexts components).Nodup := by
  have hsorted : (unmatchedTexts components).Pairwise
      fun left right => id left < id right :=
    pairwise_lt_sortUnique (fun _ _ hle => hle) _
  exact hsorted.imp fun hlt => ne_of_lt hlt

/-- The definitions of a written document. -/
def writtenInfos (components : List Component) : List (String × String) :=
  (licenseRefIdsForUnmatchedLicenses components).map Prod.swap

/-- What the second pass declares for a component of the first one. -/
theorem exists_licenseDeclaredFor (hcomponent : component ∈ components)
    (graph : SpdxGraph) (hextracted : graph.extracted = writtenInfos components) :
    ∃ declared, licenseDeclaredFor component
          (licenseRefIdsForUnmatchedLicenses components) = some declared ∧
        graph.Declares component.license declared := by
  rw [licenseDeclaredFor]
  split_ifs with hempty
  · exact ⟨_, rfl, .noAssertion hempty⟩
  cases hcanonical : canonicalSpdxLicenseId component.license with
  | some id =>
    exact ⟨id, rfl, .listed hcanonical
      (mem_of_canonicalSpdxLicenseId hcanonical)⟩
  | none =>
    have hunmatched : isUnmatchedLicense component.license = true := by
      simp [isUnmatchedLicense, hempty, hcanonical]
    have hmem := mem_unmatchedTexts_iff.mpr
      ⟨hunmatched, component, hcomponent, rfl⟩
    obtain ⟨declared, hlookup, hentry⟩ :=
      @exists_lookup_numbered _ _ licenseRefId 1 _ _ _ _ hmem
    obtain ⟨ordinal, rfl⟩ := exists_of_mem_numbered hentry
    refine ⟨_, hlookup, .extracted ?_⟩
    rw [hextracted, writtenInfos, List.filter_map]
    exact congrArg (List.map Prod.swap) (filter_snd_eq_singleton
      (nodup_map_snd_numbered licenseRefId_injective) hentry)

/-- A text that is defined is looked up under its own reference. -/
theorem lookup_of_mem_writtenInfos {info : String × String}
    (hinfo : info ∈ writtenInfos components) :
    (licenseRefIdsForUnmatchedLicenses components).lookup info.2 =
        some info.1 ∧ info.2 ∈ unmatchedTexts components := by
  obtain ⟨entry, hentry, rfl⟩ := List.mem_map.mp hinfo
  have hkeys : (licenseRefIdsForUnmatchedLicenses components).map Prod.fst =
      unmatchedTexts components := map_fst_numbered
  have hmem : entry.1 ∈ unmatchedTexts components := by
    rw [← hkeys]
    exact List.mem_map_of_mem hentry
  obtain ⟨value, hlookup, hfound⟩ :=
    @exists_lookup_numbered _ _ licenseRefId 1 _ _ _ _ hmem
  have hnodup : ((licenseRefIdsForUnmatchedLicenses components).map
      Prod.fst).Nodup := hkeys ▸ nodup_unmatchedTexts
  have hsame : (entry.1, value) = entry :=
    List.inj_on_of_nodup_map hnodup hfound hentry rfl
  refine ⟨hlookup.trans ?_, hmem⟩
  exact congrArg (fun entry => some entry.2) hsame

end Licenses

/-! ## The graph of a written document -/

section Environment

variable (environment : WriterEnvironment)

/-- What is declared for a component in a document of the components. -/
def writtenDeclared (components : List Component) (component : Component) :
    String :=
  (licenseDeclaredFor component
    (licenseRefIdsForUnmatchedLicenses components)).getD noAssertion

def writtenGraph (components : List Component) : SpdxGraph where
  packages := (componentsByIdentity components).map fun component =>
    (packageId environment component, writtenDeclared components component)
  relationships := (componentsByIdentity components).map fun component =>
    (spdx23DocumentId, "DESCRIBES", packageId environment component)
  extracted := writtenInfos components

variable {components : List Component} {component : Component}

theorem mem_componentsByIdentity :
    component ∈ componentsByIdentity components ↔ component ∈ components :=
  List.mem_insertionSort IdentityLe

theorem licenseDeclaredFor_eq_some (hcomponent : component ∈ components) :
    licenseDeclaredFor component
        (licenseRefIdsForUnmatchedLicenses components) =
      some (writtenDeclared components component) := by
  obtain ⟨declared, hdeclared, -⟩ := exists_licenseDeclaredFor hcomponent
    ⟨[], [], writtenInfos components⟩ rfl
  rw [writtenDeclared, hdeclared, Option.getD_some]

theorem declares_writtenDeclared (hcomponent : component ∈ components) :
    (writtenGraph environment components).Declares component.license
      (writtenDeclared components component) := by
  obtain ⟨declared, hdeclared, hdeclares⟩ :=
    exists_licenseDeclaredFor hcomponent (writtenGraph environment components)
      rfl
  rwa [writtenDeclared, hdeclared, Option.getD_some]

def writtenPackages (components : List Component) : List Json :=
  (componentsByIdentity components).map fun component =>
    packageToJson environment component (writtenDeclared components component)

theorem mapM_packageFor (components : List Component) :
    (componentsByIdentity components).mapM (packageFor environment
        (licenseRefIdsForUnmatchedLicenses components)) =
      some (writtenPackages environment components) := by
  apply Json.mapM_eq_some_map
  intro component hcomponent
  rw [mem_componentsByIdentity] at hcomponent
  rw [packageFor, licenseDeclaredFor_eq_some hcomponent]
  rfl

theorem readPackage_packageToJson (component : Component) (declared : String) :
    readPackage (packageToJson environment component declared) =
      some (packageId environment component, declared) := by
  simp [readPackage, packageToJson, Json.findString?, Json.asString?]

theorem readRelationship_describes (id : String) :
    readRelationship (describesRelationship id) =
      some (spdx23DocumentId, "DESCRIBES", id) := by
  simp [readRelationship, describesRelationship, Json.findString?,
    Json.asString?]

theorem readExtractedInfo_extractedInfo (entry : String × String) :
    readExtractedInfo (extractedInfo entry) = some entry.swap := by
  simp [readExtractedInfo, extractedInfo, Json.findString?, Json.asString?]
  rfl

theorem mapM_readPackage (components : List Component) :
    (writtenPackages environment components).mapM readPackage =
      some (writtenGraph environment components).packages := by
  rw [writtenPackages, List.mapM_map]
  exact Json.mapM_eq_some_map fun component _ =>
    readPackage_packageToJson environment component _

theorem mapM_readRelationship (components : List Component) :
    ((componentsByIdentity components).map fun component =>
        describesRelationship (packageId environment component)).mapM
      readRelationship =
      some (writtenGraph environment components).relationships := by
  rw [List.mapM_map]
  exact Json.mapM_eq_some_map fun component _ =>
    readRelationship_describes (packageId environment component)

theorem mapM_readExtractedInfo (components : List Component) :
    ((licenseRefIdsForUnmatchedLicenses components).map extractedInfo).mapM
      readExtractedInfo = some (writtenInfos components) := by
  rw [List.mapM_map]
  exact Json.mapM_eq_some_map fun entry _ =>
    readExtractedInfo_extractedInfo entry

theorem readExtractedInfos_document (components : List Component)
    (tool : ToolInfo) (releaseMeta : ReleaseMeta) (packages : List Json) :
    readExtractedInfos (spdx23DocumentWith environment components tool
      releaseMeta packages) = some (writtenInfos components) := by
  rw [← mapM_readExtractedInfo]
  have hfind : (spdx23DocumentWith environment components tool releaseMeta
      packages).find? "hasExtractedLicensingInfos" =
        if (licenseRefIdsForUnmatchedLicenses components).isEmpty then none
        else some (.array ((licenseRefIdsForUnmatchedLicenses components).map
          extractedInfo)) := by
    cases hrefs : licenseRefIdsForUnmatchedLicenses components <;>
      simp [spdx23DocumentWith, hrefs]
  rw [readExtractedInfos, hfind]
  cases licenseRefIdsForUnmatchedLicenses components with
  | nil => rfl
  | cons entry entries => rfl

theorem readSpdx_document (components : List Component) (tool : ToolInfo)
    (releaseMeta : ReleaseMeta) :
    readSpdx (spdx23DocumentWith environment components tool releaseMeta
        (writtenPackages environment components)) =
      some (writtenGraph environment components) := by
  have hpackages : (spdx23DocumentWith environment components tool releaseMeta
      (writtenPackages environment components)).findArray? "packages" =
        some (writtenPackages environment components) := by
    simp [spdx23DocumentWith, Json.findArray?]
  have hrelationships : (spdx23DocumentWith environment components tool
      releaseMeta (writtenPackages environment components)).findArray?
        "relationships" =
        some ((componentsByIdentity components).map fun component =>
          describesRelationship (packageId environment component)) := by
    simp [spdx23DocumentWith, Json.findArray?]
  simp only [readSpdx, hpackages, hrelationships, Option.bind_eq_bind,
    Option.bind_some, mapM_readPackage, mapM_readRelationship,
    readExtractedInfos_document]
  rfl

theorem spdx23Document_eq_some (components : List Component) (tool : ToolInfo)
    (releaseMeta : ReleaseMeta) :
    spdx23Document environment components tool releaseMeta =
      some (spdx23DocumentWith environment components tool releaseMeta
        (writtenPackages environment components)) := by
  rw [spdx23Document, mapM_packageFor, Option.map_some]

variable {permuted : List Component}

theorem componentsByIdentity_perm (hperm : permuted.Perm components)
    (hidentities : (components.map componentIdentity).Nodup) :
    componentsByIdentity permuted = componentsByIdentity components := by
  have hsorted : ((componentsByIdentity permuted).Perm
      (componentsByIdentity components)) :=
    (List.perm_insertionSort IdentityLe permuted).trans
      (hperm.trans (List.perm_insertionSort IdentityLe components).symm)
  refine hsorted.eq_of_pairwise ?_
    (List.pairwise_insertionSort IdentityLe permuted)
    (List.pairwise_insertionSort IdentityLe components)
  intro left right hleft hright hle hge
  rw [mem_componentsByIdentity, hperm.mem_iff] at hleft
  rw [mem_componentsByIdentity] at hright
  exact List.inj_on_of_nodup_map hidentities hleft hright (le_antisymm hle hge)

theorem unmatchedTexts_perm (hperm : permuted.Perm components) :
    unmatchedTexts permuted = unmatchedTexts components := by
  rw [unmatchedTexts, unmatchedTexts]
  apply sortUnique_perm
  · exact fun _ _ hle => hle
  · exact (hperm.map Component.license).filter isUnmatchedLicense

theorem documentUuid_perm (hperm : permuted.Perm components) :
    documentUuid environment permuted = documentUuid environment components := by
  have hsorted : (permuted.map componentIdentity).insertionSort (· ≤ ·) =
      (components.map componentIdentity).insertionSort (· ≤ ·) :=
    List.Perm.eq_of_pairwise (fun _ _ _ _ => le_antisymm)
      (List.pairwise_insertionSort _ _) (List.pairwise_insertionSort _ _)
      ((List.perm_insertionSort _ _).trans ((hperm.map componentIdentity).trans
        (List.perm_insertionSort _ _).symm))
  rw [documentUuid, documentUuid, hsorted]

theorem spdx23Document_perm (hperm : permuted.Perm components)
    (hidentities : (components.map componentIdentity).Nodup)
    (tool : ToolInfo) (releaseMeta : ReleaseMeta) :
    spdx23Document environment permuted tool releaseMeta =
      spdx23Document environment components tool releaseMeta := by
  have hrefs : licenseRefIdsForUnmatchedLicenses permuted =
      licenseRefIdsForUnmatchedLicenses components := by
    rw [licenseRefIdsForUnmatchedLicenses, unmatchedTexts_perm hperm]
    rfl
  have hwith : spdx23DocumentWith environment permuted tool releaseMeta =
      spdx23DocumentWith environment components tool releaseMeta := by
    funext packages
    rw [spdx23DocumentWith, spdx23DocumentWith, hrefs,
      componentsByIdentity_perm hperm hidentities,
      documentUuid_perm environment hperm]
  rw [spdx23Document, spdx23Document, hrefs, hwith,
    componentsByIdentity_perm hperm hidentities]

/-! ## Closed documents -/

theorem packageIds_writtenGraph (components : List Component) :
    (writtenGraph environment components).packageIds =
      (componentsByIdentity components).map (packageId environment) := by
  rw [SpdxGraph.packageIds, writtenGraph, List.map_map]
  rfl

theorem packageIds_writtenGraph_perm (components : List Component) :
    (writtenGraph environment components).packageIds.Perm
      (components.map (packageId environment)) := by
  rw [packageIds_writtenGraph]
  exact (List.perm_insertionSort IdentityLe components).map _

theorem described_writtenGraph (components : List Component) :
    (writtenGraph environment components).described =
      (writtenGraph environment components).packageIds := by
  rw [packageIds_writtenGraph, SpdxGraph.described, List.filter_eq_self.mpr]
  · rw [writtenGraph, List.map_map]
    rfl
  · intro relationship hrelationship
    obtain ⟨component, -, rfl⟩ := List.mem_map.mp hrelationship
    exact decide_eq_true rfl

theorem nodup_packageIds
    (hidentities : (components.map componentIdentity).Nodup)
    (hinjective : Set.InjOn environment.uuid
      {identity | identity ∈ components.map componentIdentity}) :
    (writtenGraph environment components).packageIds.Nodup := by
  rw [(packageIds_writtenGraph_perm environment components).nodup_iff]
  have hids : components.map (packageId environment) =
      (components.map componentIdentity).map
        fun identity => spdx23PackageIdPrefix ++ environment.uuid identity := by
    rw [List.map_map]
    rfl
  rw [hids]
  refine List.Nodup.map_on ?_ hidentities
  intro left hleft right hright heq
  have hlist := congrArg String.toList heq
  rw [String.toList_append, String.toList_append,
    List.append_cancel_left_eq, String.toList_inj] at hlist
  exact hinjective hleft hright hlist

theorem exists_package_of_mem_writtenInfos {info : String × String}
    (hinfo : info ∈ writtenInfos components) :
    ∃ package ∈ (writtenGraph environment components).packages,
      package.2 = info.1 := by
  obtain ⟨hlookup, hmem⟩ := lookup_of_mem_writtenInfos hinfo
  obtain ⟨hunmatched, component, hcomponent, hlicense⟩ :=
    mem_unmatchedTexts_iff.mp hmem
  rw [← hlicense] at hlookup hunmatched
  rw [isUnmatchedLicense, Bool.and_eq_true, decide_eq_true_iff,
    Option.isNone_iff_eq_none] at hunmatched
  refine ⟨_, List.mem_map_of_mem (mem_componentsByIdentity.mpr hcomponent), ?_⟩
  rw [writtenDeclared, licenseDeclaredFor, if_neg hunmatched.1, hunmatched.2]
  exact congrArg (Option.getD · noAssertion) hlookup

theorem isClosed_writtenGraph
    (hidentities : (components.map componentIdentity).Nodup)
    (hinjective : Set.InjOn environment.uuid
      {identity | identity ∈ components.map componentIdentity}) :
    (writtenGraph environment components).IsClosed := by
  have hnodup := nodup_packageIds environment hidentities hinjective
  refine ⟨hnodup, ?_, ?_, ?_⟩
  · intro target htarget
    rwa [described_writtenGraph] at htarget
  · intro id hid
    rw [described_writtenGraph]
    exact List.count_eq_one_of_mem hnodup hid
  · intro info hinfo
    exact exists_package_of_mem_writtenInfos environment hinfo

theorem isGraphOf_writtenGraph (components : List Component) :
    (writtenGraph environment components).IsGraphOf environment components := by
  refine ⟨packageIds_writtenGraph_perm environment components, ?_⟩
  intro package hpackage
  obtain ⟨component, hcomponent, rfl⟩ := List.mem_map.mp hpackage
  rw [mem_componentsByIdentity] at hcomponent
  exact ⟨component, hcomponent, rfl,
    declares_writtenDeclared environment hcomponent⟩

end Environment

/-- A component without a license, one with a listed license and two with a
license of their own. -/
def licensedComponents : List Component :=
  [{ name := "zlib", license := "BSD-style" }, { name := "curl" },
    { name := "jansson", license := "mit" },
    { name := "expat", license := "Custom" }]

end Bomwerk.Output
