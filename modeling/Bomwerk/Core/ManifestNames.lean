import Mathlib.Data.String.Basic

/-!
# Manifest names

The name families of `core/manifest_names.cpp`.
-/

namespace Bomwerk.Core

def requirementsManifestName : String := "requirements.txt"

def textFileExtension : List Char := ".txt".toList

def csprojManifestName : String := ".csproj"

def requirementsPrefixFamilyMarkers : List (List Char) :=
  ["requirements-".toList, "requirements_".toList, "requirements.".toList]

def requirementsSuffixFamilyMarkers : List (List Char) :=
  [".requirements.txt".toList]

def properlyEndsWith (name marker : List Char) : Bool :=
  marker.length < name.length && marker.isSuffixOf name

def matchesManifestName (actualFilename manifestName : String) : Bool :=
  let actual := actualFilename.toList
  if actualFilename = manifestName then true
  else if manifestName = csprojManifestName then
    properlyEndsWith actual csprojManifestName.toList
  else if manifestName ≠ requirementsManifestName then false
  else
    requirementsPrefixFamilyMarkers.any (fun marker =>
      marker.length + textFileExtension.length < actual.length &&
        marker.isPrefixOf actual && textFileExtension.isSuffixOf actual) ||
      requirementsSuffixFamilyMarkers.any (properlyEndsWith actual)

end Bomwerk.Core
