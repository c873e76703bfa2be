import Bomwerk.Output.Cyclonedx
import Bomwerk.Output.SpdxLicenseIds
import Bomwerk.Support.Numbering
import Bomwerk.Support.SortUnique

/-!
# The SPDX 2.3 writer

The part of `output/spdx.cpp` behind `write_spdx_2_3`.  License texts that are
no identifier of the list are numbered in a first pass and looked up in a second
one; a lookup that finds nothing throws, which is nothing here.
-/

namespace Bomwerk.Output

open Bomwerk.Core Bomwerk.Support

def noAssertion : String := "NOASSERTION"

def defaultDocumentName : String := "bomwerk-sbom"

def spdx23DocumentId : String := "SPDXRef-DOCUMENT"

def spdx23PackageIdPrefix : String := "SPDXRef-Package-"

def spdx23NamespacePrefix : String := "https://bomwerk.dev/spdx/2.3/"

def documentNameFor (releaseMeta : ReleaseMeta) : String :=
  if releaseMeta.productId = "" then defaultDocumentName
  else releaseMeta.productId

/-- A text that needs a reference: not empty, and not on the list. -/
def isUnmatchedLicense (license : String) : Bool :=
  license ≠ "" && (canonicalSpdxLicenseId license).isNone

/-- `unmatched_texts`, in the order of the set. -/
def unmatchedTexts (components : List Component) : List String :=
  sortUnique (· ≤ ·) id
    ((components.map Component.license).filter isUnmatchedLicense)

def licenseRefId (ordinal : Nat) : String :=
  "LicenseRef-declared-" ++ toString ordinal

/-- `license_ref_ids_for_unmatched_licenses`, in the order of the map. -/
def licenseRefIdsForUnmatchedLicenses (components : List Component) :
    List (String × String) :=
  numbered licenseRefId 1 (unmatchedTexts components)

/-- `license_declared_for`; nothing where `at` throws. -/
def licenseDeclaredFor (component : Component)
    (licenseRefIds : List (String × String)) : Option String :=
  if component.license = "" then some noAssertion
  else
    match canonicalSpdxLicenseId component.license with
    | some canonical => some canonical
    | none => licenseRefIds.lookup component.license

/-! ## The document -/

/-- One entry of `externalRefs`. -/
def externalRef (category type locator : String) : Json :=
  Json.null
    |>.set "referenceCategory" (.string category)
    |>.set "referenceType" (.string type)
    |>.set "referenceLocator" (.string locator)

def externalRefs (component : Component) : List Json :=
  (if component.purl ≠ "" then
    [externalRef "PACKAGE-MANAGER" "purl" component.purl] else []) ++
  if component.cpe ≠ "" then
    [externalRef "SECURITY" "cpe23" component.cpe] else []

/-- One entry of `hasExtractedLicensingInfos`. -/
def extractedInfo (entry : String × String) : Json :=
  Json.null
    |>.set "licenseId" (.string entry.2)
    |>.set "extractedText" (.string entry.1)

/-- One entry of `relationships`. -/
def describesRelationship (packageId : String) : Json :=
  Json.null
    |>.set "spdxElementId" (.string spdx23DocumentId)
    |>.set "relationshipType" (.string "DESCRIBES")
    |>.set "relatedSpdxElement" (.string packageId)

def creationInfo (timestamp : String) (tool : ToolInfo) : Json :=
  Json.null
    |>.set "created" (.string timestamp)
    |>.set "creators"
        (.array
          [.string ("Tool: " ++ tool.name ++ "-" ++ tool.version),
            .string ("Organization: " ++ tool.name)])

section Environment

variable (environment : WriterEnvironment)

def componentUuid (component : Component) : String :=
  environment.uuid (componentIdentity component)

def documentUuid (components : List Component) : String :=
  let identities := (components.map componentIdentity).insertionSort (· ≤ ·)
  environment.uuid (String.join (identities.map fun id => id ++ "\n"))

def packageId (component : Component) : String :=
  spdx23PackageIdPrefix ++ componentUuid environment component

/-- `package`, with what it declares for its license. -/
def packageToJson (component : Component) (licenseDeclared : String) : Json :=
  Json.null
    |>.set "SPDXID" (.string (packageId environment component))
    |>.set "name" (.string component.name)
    |>.set "downloadLocation" (.string noAssertion)
    |>.set "filesAnalyzed" (.boolean false)
    |>.set "licenseConcluded" (.string noAssertion)
    |>.set "licenseDeclared" (.string licenseDeclared)
    |>.set "copyrightText" (.string noAssertion)
    |>.setIf (component.version ≠ "") "versionInfo" (.string component.version)
    |>.setIf (component.supplier ≠ "") "supplier"
        (.string ("Organization: " ++ component.supplier))
    |>.setIf (isValidSha256 component.sha256) "checksums"
        (.array
          [Json.null
            |>.set "algorithm" (.string "SHA256")
            |>.set "checksumValue" (.string component.sha256)])
    |>.setIf (!(externalRefs component).isEmpty) "externalRefs"
        (.array (externalRefs component))

/-- One round of the loop over the components. -/
def packageFor (licenseRefIds : List (String × String))
    (component : Component) : Option Json :=
  (licenseDeclaredFor component licenseRefIds).map
    (packageToJson environment component)

/-- The document of `write_spdx_2_3` around its packages. -/
def spdx23DocumentWith (components : List Component) (tool : ToolInfo)
    (releaseMeta : ReleaseMeta) (packages : List Json) : Json :=
  let licenseRefIds := licenseRefIdsForUnmatchedLicenses components
  let relationships := (componentsByIdentity components).map fun component =>
    describesRelationship (packageId environment component)
  Json.null
    |>.set "spdxVersion" (.string "SPDX-2.3")
    |>.set "dataLicense" (.string "CC0-1.0")
    |>.set "SPDXID" (.string spdx23DocumentId)
    |>.set "name" (.string (documentNameFor releaseMeta))
    |>.set "documentNamespace"
        (.string (spdx23NamespacePrefix ++ documentUuid environment components))
    |>.set "creationInfo" (creationInfo environment.timestamp tool)
    |>.set "packages" (.array packages)
    |>.set "relationships" (.array relationships)
    |>.setIf (!licenseRefIds.isEmpty) "hasExtractedLicensingInfos"
        (.array (licenseRefIds.map extractedInfo))

/-- The document of `write_spdx_2_3`. -/
def spdx23Document (components : List Component) (tool : ToolInfo)
    (releaseMeta : ReleaseMeta) : Option Json :=
  let licenseRefIds := licenseRefIdsForUnmatchedLicenses components
  ((componentsByIdentity components).mapM
    (packageFor environment licenseRefIds)).map
      (spdx23DocumentWith environment components tool releaseMeta)

/-- `write_spdx_2_3`; nothing where it throws. -/
def writeSpdx23 (components : List Component) (tool : ToolInfo)
    (releaseMeta : ReleaseMeta) : Option JsonText :=
  (spdx23Document environment components tool releaseMeta).map Json.dump

end Environment

end Bomwerk.Output
