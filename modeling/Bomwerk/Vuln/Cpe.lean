import Bomwerk.Core.AsciiCase
import Bomwerk.Core.Component

/-!
# CPE identifiers

`vuln/cpe.cpp`: the identifiers the rewriting commands fill in before they
write a document.
-/

namespace Bomwerk.Vuln

open Bomwerk.Core

def isSafeCpeCharacter (c : Char) : Bool :=
  ('a' ≤ c ∧ c ≤ 'z') ∨ ('0' ≤ c ∧ c ≤ '9') ∨
    c = '.' ∨ c = '_' ∨ c = '+' ∨ c = '-'

def maxCpeSegmentBytes : Nat := 128

def validatedSegment (segment : String) : Option String :=
  let lowercased := toLowerAscii segment
  if segment = "" ∨ maxCpeSegmentBytes < segment.utf8ByteSize ∨
      lowercased.toList.any (fun c => !isSafeCpeCharacter c) then none
  else some lowercased

def cpeMatchStringFor (purl : String) : Option String := do
  let identityPart := purlIdentityPart purl
  guard (startsWith identityPart "pkg:")
  let product ← validatedSegment (purlNameOf identityPart)
  let version ← validatedSegment (purlVersionOf identityPart)
  return "cpe:2.3:a:" ++ "*" ++ ":" ++ product ++ ":" ++ version

def cpeIdentifierFor (purl : String) : Option String :=
  (cpeMatchStringFor purl).map (· ++ ":*:*:*:*:*:*:*")

inductive CpePopulationScope
  | unmappedOnly
  | allVersioned
  deriving DecidableEq, Repr

/-- The body of the loop of `populate_cpe_identifiers`. -/
def populateCpe (scope : CpePopulationScope) (component : Component) :
    Component :=
  if component.cpe ≠ "" then component
  else if scope = .unmappedOnly ∧
      classifyMatchCoverage component.purl ≠ .unmappedPurlType then component
  else
    match cpeIdentifierFor component.purl with
    | none => component
    | some identifier =>
      { component with
        cpe := identifier
        cpeProvenance :=
          if scope = .allVersioned then .synthesizedWildcardVendor
          else component.cpeProvenance }

def populateCpeIdentifiers (components : List Component)
    (scope : CpePopulationScope) : List Component :=
  components.map (populateCpe scope)

theorem populateCpe_frame (scope : CpePopulationScope)
    (component : Component) :
    ∃ cpe provenance, populateCpe scope component =
      { component with cpe := cpe, cpeProvenance := provenance } := by
  unfold populateCpe
  split
  · exact ⟨_, _, rfl⟩
  split
  · exact ⟨_, _, rfl⟩
  split
  · exact ⟨_, _, rfl⟩
  · exact ⟨_, _, rfl⟩

end Bomwerk.Vuln

/-!
## The form of a CPE match string

What `cpe_match_string_for` returns is made of two segments of harmless
characters, and does not depend on letter case, qualifiers or subpath.
-/

namespace Bomwerk.Vuln

open Bomwerk.Core

/-- A segment that holds no mark of the CPE syntax. -/
structure IsSafeSegment (segment : String) : Prop where
  ne_empty : segment ≠ ""
  length_le : segment.length ≤ maxCpeSegmentBytes
  safe : ∀ c ∈ segment.toList, isSafeCpeCharacter c = true
  unmarked : ∀ mark ∈ ['*', '?', ':', '\\'], mark ∉ segment.toList

theorem notMem_of_isSafe {text : List Char}
    (hsafe : ∀ c ∈ text, isSafeCpeCharacter c = true) {mark : Char}
    (hmark : mark ∈ ['*', '?', ':', '\\']) : mark ∉ text := by
  intro hmem
  have hunsafe : ['*', '?', ':', '\\'].all
      (fun mark => !isSafeCpeCharacter mark) = true := by
    decide
  have hnot := List.all_eq_true.mp hunsafe mark hmark
  rw [hsafe mark hmem] at hnot
  exact absurd hnot (by decide)

theorem validatedSegment_eq_some_iff {segment lowercased : String} :
    validatedSegment segment = some lowercased ↔
      segment ≠ "" ∧ segment.utf8ByteSize ≤ maxCpeSegmentBytes ∧
        (∀ c ∈ (toLowerAscii segment).toList, isSafeCpeCharacter c = true) ∧
        toLowerAscii segment = lowercased := by
  rw [validatedSegment]
  simp only [Option.ite_none_left_eq_some, not_or, not_lt, Option.some.injEq,
    List.any_eq_true, Bool.not_eq_true', not_exists, not_and,
    Bool.not_eq_false, and_assoc]

theorem length_le_utf8ByteSize (text : String) :
    text.length ≤ text.utf8ByteSize := by
  have hle : ∀ chars : List Char, chars.length ≤ String.utf8Len chars := by
    intro chars
    induction chars with
    | nil => exact le_rfl
    | cons c chars ih =>
      have hpos := c.utf8Size_pos
      rw [List.length_cons, String.utf8Len_cons]
      omega
  rw [← String.length_toList, ← String.utf8Len_toList]
  exact hle text.toList

theorem isSafeSegment_of_validatedSegment {segment lowercased : String}
    (hvalid : validatedSegment segment = some lowercased) :
    IsSafeSegment lowercased := by
  obtain ⟨hne, hsize, hsafe, rfl⟩ := validatedSegment_eq_some_iff.mp hvalid
  constructor
  · rwa [ne_eq, toLowerAscii_eq_empty_iff]
  · have hlength := length_le_utf8ByteSize (toLowerAscii segment)
    rw [utf8ByteSize_toLowerAscii] at hlength
    omega
  · exact hsafe
  · intro mark hmark
    exact notMem_of_isSafe hsafe hmark

theorem validatedSegment_congr {left right : String}
    (hlower : toLowerAscii left = toLowerAscii right) :
    validatedSegment left = validatedSegment right := by
  have hempty : left = "" ↔ right = "" := by
    rw [← toLowerAscii_eq_empty_iff, hlower, toLowerAscii_eq_empty_iff]
  have hsize : left.utf8ByteSize = right.utf8ByteSize := by
    rw [← utf8ByteSize_toLowerAscii, hlower, utf8ByteSize_toLowerAscii]
  simp only [validatedSegment, hempty, hsize, hlower]

theorem cpeMatchStringFor_eq_some_iff {purl matchString : String} :
    cpeMatchStringFor purl = some matchString ↔
      startsWith (purlIdentityPart purl) "pkg:" = true ∧
        ∃ product version,
          validatedSegment (purlNameOf (purlIdentityPart purl)) = some product ∧
            validatedSegment (purlVersionOf (purlIdentityPart purl)) =
              some version ∧
            "cpe:2.3:a:*:" ++ product ++ ":" ++ version = matchString := by
  have hscheme : ("cpe:2.3:a:" ++ "*" ++ ":" : String) = "cpe:2.3:a:*:" := by
    decide
  rw [cpeMatchStringFor]
  simp only [hscheme, Option.bind_eq_bind, Option.bind_eq_some_iff,
    Option.guard_eq_some', exists_const, pure, Option.some.injEq]
  constructor
  · rintro ⟨hpkg, product, hproduct, version, hversion, rfl⟩
    exact ⟨hpkg, product, version, hproduct, hversion, rfl⟩
  · rintro ⟨hpkg, product, version, hproduct, hversion, rfl⟩
    exact ⟨hpkg, product, hproduct, version, hversion, rfl⟩

theorem cpeMatchStringFor_eq_none {purl : String}
    (hpkg : ¬ startsWith (purlIdentityPart purl) "pkg:" = true) :
    cpeMatchStringFor purl = none := by
  rw [Option.eq_none_iff_forall_ne_some]
  intro matchString hmatch
  exact hpkg (cpeMatchStringFor_eq_some_iff.mp hmatch).1

/-- The safe form: any vendor, a product and a version. -/
def IsSafeForm (matchString : String) : Prop :=
  ∃ product version, IsSafeSegment product ∧ IsSafeSegment version ∧
    matchString = "cpe:2.3:a:*:" ++ product ++ ":" ++ version

theorem isSafeForm_of_mem_cpeMatchStringFor {purl matchString : String}
    (hmatch : cpeMatchStringFor purl = some matchString) :
    IsSafeForm matchString := by
  obtain ⟨-, product, version, hproduct, hversion, rfl⟩ :=
    cpeMatchStringFor_eq_some_iff.mp hmatch
  exact ⟨product, version, isSafeSegment_of_validatedSegment hproduct,
    isSafeSegment_of_validatedSegment hversion, rfl⟩

/-- The match string does not tell purls apart that are one but for letter
case. -/
theorem cpeMatchStringFor_congr {left right : String}
    (hsame : SameUpToCase left right) :
    cpeMatchStringFor left = cpeMatchStringFor right := by
  have hpkg : startsWith (purlIdentityPart left) "pkg:" =
      startsWith (purlIdentityPart right) "pkg:" := by
    rw [Bool.eq_iff_iff, startsWith_pkg_iff, startsWith_pkg_iff, hsame.scheme]
  by_cases hleft : startsWith (purlIdentityPart left) "pkg:" = true
  · have hright := hpkg ▸ hleft
    have hname := validatedSegment_congr
      (toLowerAscii_purlNameOf_congr hleft hright hsame.lowercase)
    have hversion : validatedSegment (purlVersionOf (purlIdentityPart left)) =
        validatedSegment (purlVersionOf (purlIdentityPart right)) := by
      apply validatedSegment_congr
      rw [toLowerAscii_purlVersionOf, toLowerAscii_purlVersionOf,
        hsame.lowercase]
    simp only [cpeMatchStringFor, hpkg, hname, hversion]
  · have hright : ¬ startsWith (purlIdentityPart right) "pkg:" = true := by
      rwa [← hpkg]
    rw [cpeMatchStringFor_eq_none hleft, cpeMatchStringFor_eq_none hright]

/-- What `cpe_match_string_for` returns is of the safe form, and purls that
are one but for letter case, qualifiers and subpath get one match string. -/
theorem cpeMatchStringFor_safe :
    (∀ purl matchString, cpeMatchStringFor purl = some matchString →
      IsSafeForm matchString) ∧
    ∀ left right, SameUpToCase left right →
      cpeMatchStringFor left = cpeMatchStringFor right :=
  ⟨fun _ _ => isSafeForm_of_mem_cpeMatchStringFor,
    fun _ _ => cpeMatchStringFor_congr⟩

theorem cpeMatchStringFor_safe_openssl :
    IsSafeForm "cpe:2.3:a:*:openssl:3.2.0" ∧
      cpeMatchStringFor "pkg:Generic/OpenSSL@3.2.0?vcs_url=x#lib" =
        cpeMatchStringFor "pkg:generic/openssl@3.2.0" :=
  ⟨cpeMatchStringFor_safe.1 "pkg:generic/openssl@3.2.0" _ (by decide +kernel),
    cpeMatchStringFor_safe.2 _ _
      ⟨by decide +kernel, by decide +kernel⟩⟩

end Bomwerk.Vuln
