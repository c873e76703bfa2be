import Bomwerk.Lockfiles.Npm
import Bomwerk.Vuln.Endpoints

/-!
# Licenses in registry answers

The `extract_*_license` functions of `vuln/license_enrichment.cpp`, one for
each registry, and the payload that the cache keeps of an answer.  What was
extracted is read back from that payload.
-/

namespace Bomwerk.Vuln.License

open Bomwerk.Core Bomwerk.Support
open Bomwerk.Lockfiles.Npm (behindLast?)

def maxLicenseTextBytes : Nat := 1024

def maxLicenseValues : Nat := 64

structure ExtractedLicense where
  text : String := ""
  usableShape : Bool := false
  deriving DecidableEq, Repr

def boundedString? (value : Json) : Option String :=
  value.asString?.bind fun raw =>
    let text := String.ofList (trimmed raw.toList)
    if maxLicenseTextBytes < text.utf8ByteSize then none else some text

/-- The loop that joins sorted texts, with the bound checked behind each. -/
def joinBounded? (separator : String) (joined : String) :
    List String → Option String
  | [] => some joined
  | text :: texts =>
    let next := (if joined = "" then "" else joined ++ separator) ++ text
    if maxLicenseTextBytes < next.utf8ByteSize then none
    else joinBounded? separator next texts

/-- `find` of a member that is not `null`. -/
def findPresent? (document : Json) (key : String) : Option Json :=
  (document.find? key).filter fun
    | .null => false
    | _ => true

def joinLicenseValues? (values : Json) : Option String :=
  match values with
  | .array items =>
    if maxLicenseValues < items.length then none
    else
      (items.mapM boundedString?).bind fun licenses =>
        joinBounded? " OR " ""
          (sortUnique (· ≤ ·) id (licenses.filter (· ≠ "")))
  | _ => none

def extractCratesIoLicense (document : Json) : ExtractedLicense :=
  match (document.find? "version").filter Json.isObject with
  | none => {}
  | some version =>
    match findPresent? version "license" with
    | none => { usableShape := true }
    | some license =>
      match boundedString? license with
      | none => {}
      | some text => { text := text, usableShape := true }

/-- The loop over the two text fields of `extract_pypi_license`: the first text
that says something, and whether a field before it is no bounded text. -/
def textField (info : Json) (anyMalformed : Bool) :
    List String → Option String × Bool
  | [] => (none, anyMalformed)
  | fieldName :: fieldNames =>
    match findPresent? info fieldName with
    | none => textField info anyMalformed fieldNames
    | some field =>
      match boundedString? field with
      | none => textField info true fieldNames
      | some text =>
        if text ≠ "" && !equalsAsciiIgnoreCase text "unknown" then
          (some text, anyMalformed)
        else textField info anyMalformed fieldNames

/-- The license of one classifier, if it names one. -/
def classifierLeaf? (classifier : String) : Option String :=
  if startsWith classifier "License :: " then
    ((behindLast? " :: ".toList classifier.toList).map String.ofList).filter
      (· ≠ "OSI Approved")
  else none

def extractPyPiLicense (document : Json) : ExtractedLicense :=
  match (document.find? "info").filter Json.isObject with
  | none => {}
  | some info =>
    match textField info false ["license_expression", "license"] with
    | (some text, _) => { text := text, usableShape := true }
    | (none, anyMalformed) =>
      match findPresent? info "classifiers" with
      | none => { usableShape := !anyMalformed }
      | some (.array items) =>
        if maxLicenseValues < items.length then {}
        else
          match (items.mapM boundedString?).bind fun classifiers =>
              joinBounded? "; " "" (sortUnique (· ≤ ·) id
                (classifiers.filterMap classifierLeaf?)) with
          | none => {}
          | some text =>
            { text := text
              usableShape := !(text = "" && anyMalformed) }
      | some _ => {}

def extractRubyGemsLicense (document : Json) : ExtractedLicense :=
  if !document.isObject then {}
  else
    match findPresent? document "licenses" with
    | none => { usableShape := true }
    | some licenses =>
      match joinLicenseValues? licenses with
      | none => {}
      | some text => { text := text, usableShape := true }

def extractLicense (registry : RegistryKind) (payload : JsonText) :
    ExtractedLicense :=
  match parseBoundedJson payload with
  | none => {}
  | some document =>
    match registry with
    | .cratesIo => extractCratesIoLicense document
    | .pyPi => extractPyPiLicense document
    | .rubyGems => extractRubyGemsLicense document

def cachePayloadFor (license : String) : JsonText :=
  (Json.null.set "license" (.string license)).dump

def extractCachedLicense (payload : JsonText) : ExtractedLicense :=
  match (parseBoundedJson payload).filter Json.isObject with
  | none => {}
  | some document =>
    match (document.find? "license").bind boundedString? with
    | none => {}
    | some text => { text := text, usableShape := true }

/-! ## Reading back -/

theorem utf8Len_trimmed_le (text : List Char) :
    String.utf8Len (trimmed text) ≤ String.utf8Len text := by
  have hsub : (trimmed text).Sublist text :=
    (List.rdropWhile_prefix _ _).sublist.trans (List.dropWhile_sublist _)
  exact String.utf8Len_le_of_sublist hsub

theorem utf8ByteSize_of_boundedString? {value : Json} {text : String}
    (htext : boundedString? value = some text) :
    text.utf8ByteSize ≤ maxLicenseTextBytes := by
  obtain ⟨raw, -, hraw⟩ := Option.bind_eq_some_iff.mp htext
  dsimp only at hraw
  split_ifs at hraw with hbound
  exact Option.some.inj hraw ▸ not_lt.mp hbound

theorem utf8ByteSize_of_joinBounded? {separator joined text : String}
    {texts : List String} (hjoined : joined.utf8ByteSize ≤ maxLicenseTextBytes)
    (htext : joinBounded? separator joined texts = some text) :
    text.utf8ByteSize ≤ maxLicenseTextBytes := by
  induction texts generalizing joined with
  | nil => exact Option.some.inj htext ▸ hjoined
  | cons head texts ih =>
    simp only [joinBounded?] at htext
    split_ifs at htext with hempty hbound hbound
    · exact ih (not_lt.mp hbound) htext
    · exact ih (not_lt.mp hbound) htext

theorem utf8ByteSize_empty_le : "".utf8ByteSize ≤ maxLicenseTextBytes := by
  decide

theorem utf8ByteSize_of_joined {separator text : String} {texts : List String}
    (htext : joinBounded? separator "" texts = some text) :
    text.utf8ByteSize ≤ maxLicenseTextBytes :=
  utf8ByteSize_of_joinBounded? utf8ByteSize_empty_le htext

theorem utf8ByteSize_of_textField {info : Json} {anyMalformed flag : Bool}
    {fieldNames : List String} {text : String}
    (htext : textField info anyMalformed fieldNames = (some text, flag)) :
    text.utf8ByteSize ≤ maxLicenseTextBytes := by
  induction fieldNames generalizing anyMalformed with
  | nil => simp [textField] at htext
  | cons fieldName fieldNames ih =>
    unfold textField at htext
    split at htext
    · exact ih htext
    · split at htext
      · exact ih htext
      · rename_i hbounded
        split_ifs at htext
        · simp only [Prod.mk.injEq, Option.some.injEq] at htext
          exact htext.1 ▸ utf8ByteSize_of_boundedString? hbounded
        · exact ih htext

theorem utf8ByteSize_extractCratesIoLicense (document : Json) :
    (extractCratesIoLicense document).text.utf8ByteSize ≤
      maxLicenseTextBytes := by
  unfold extractCratesIoLicense
  split
  · exact utf8ByteSize_empty_le
  · split
    · exact utf8ByteSize_empty_le
    · split
      · exact utf8ByteSize_empty_le
      · rename_i hbounded
        exact utf8ByteSize_of_boundedString? hbounded

theorem utf8ByteSize_extractPyPiLicense (document : Json) :
    (extractPyPiLicense document).text.utf8ByteSize ≤ maxLicenseTextBytes := by
  unfold extractPyPiLicense
  split
  · exact utf8ByteSize_empty_le
  · split
    · rename_i htext
      exact utf8ByteSize_of_textField htext
    · split
      · exact utf8ByteSize_empty_le
      · split_ifs
        · exact utf8ByteSize_empty_le
        · split
          · exact utf8ByteSize_empty_le
          · rename_i hjoined
            obtain ⟨_, -, hjoined⟩ := Option.bind_eq_some_iff.mp hjoined
            exact utf8ByteSize_of_joined hjoined
      · exact utf8ByteSize_empty_le

theorem utf8ByteSize_extractRubyGemsLicense (document : Json) :
    (extractRubyGemsLicense document).text.utf8ByteSize ≤
      maxLicenseTextBytes := by
  unfold extractRubyGemsLicense joinLicenseValues?
  split_ifs
  · exact utf8ByteSize_empty_le
  · split
    · exact utf8ByteSize_empty_le
    · split
      · exact utf8ByteSize_empty_le
      · rename_i hjoined
        split at hjoined
        · split_ifs at hjoined
          obtain ⟨_, -, hjoined⟩ := Option.bind_eq_some_iff.mp hjoined
          exact utf8ByteSize_of_joined hjoined
        · simp at hjoined

theorem utf8ByteSize_extractLicense (registry : RegistryKind)
    (payload : JsonText) :
    (extractLicense registry payload).text.utf8ByteSize ≤
      maxLicenseTextBytes := by
  unfold extractLicense
  split
  · exact utf8ByteSize_empty_le
  · cases registry
    · exact utf8ByteSize_extractCratesIoLicense _
    · exact utf8ByteSize_extractPyPiLicense _
    · exact utf8ByteSize_extractRubyGemsLicense _

theorem extractCachedLicense_cachePayloadFor {license : String}
    (hbound : license.utf8ByteSize ≤ maxLicenseTextBytes) :
    extractCachedLicense (cachePayloadFor license) =
      { text := String.ofList (trimmed license.toList), usableShape := true } := by
  have hparsed : parseBoundedJson (cachePayloadFor license) =
      some (.object [("license", .string license)]) :=
    parseBoundedJson_dump (by
      simp [Json.set, Json.depth, Json.membersDepth, maxJsonNestingDepth])
  have hsize : (String.ofList (trimmed license.toList)).utf8ByteSize ≤
      maxLicenseTextBytes := by
    have htrimmed := utf8Len_trimmed_le license.toList
    rw [← String.utf8Len_toList, String.toList_ofList]
    rw [← String.utf8Len_toList] at hbound
    exact htrimmed.trans hbound
  have hbounded : boundedString? (.string license) =
      some (String.ofList (trimmed license.toList)) := by
    simp [boundedString?, Json.asString?, not_lt.mpr hsize]
  have hobject : (some (Json.object [("license", .string license)])).filter
      Json.isObject = some (.object [("license", .string license)]) := rfl
  have hfind : (Json.object [("license", .string license)]).find? "license" =
      some (.string license) := by simp [Json.find?]
  simp only [extractCachedLicense, hparsed, hobject, hfind, Option.bind_some,
    hbounded]

theorem usableShape_cachePayloadFor (registry : RegistryKind)
    (body : JsonText) :
    (extractCachedLicense (cachePayloadFor
      (extractLicense registry body).text)).usableShape = true := by
  rw [extractCachedLicense_cachePayloadFor
    (utf8ByteSize_extractLicense registry body)]

end Bomwerk.Vuln.License
