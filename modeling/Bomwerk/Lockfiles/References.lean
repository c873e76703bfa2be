import Bomwerk.Core.AsciiCase
import Bomwerk.Core.TextPieces
import Bomwerk.Lockfiles.Identity
import Bomwerk.Lockfiles.Pnpm
import Bomwerk.Lockfiles.Python

/-!
# Package references

The components of python and of the npm family are put together from the
parts of a package reference that a file spells.
-/

namespace Bomwerk.Lockfiles

open Bomwerk.Core

/-! ## npm -/

/-- The scope with nothing behind it, `@scope/`. -/
def IsScopeAlone (packageName : List Char) : Prop :=
  packageName.head? = some '@' ∧ packageName.dropWhile (· ≠ '/') = ['/']

instance (packageName : List Char) : Decidable (IsScopeAlone packageName) :=
  inferInstanceAs (Decidable (_ ∧ _))

/-- A component of the npm family, by the name and the version that the file
spells. -/
structure IsNpmReference (component : Component)
    (packageName version : List Char) : Prop where
  packageName_ne_nil : packageName ≠ []
  isByteText_packageName : IsByteText packageName
  isByteText_version : IsByteText version
  purl : component.purl = String.ofList (Npm.buildNpmPurl packageName version)
  name : component.name = String.ofList packageName
  version : component.version = String.ofList version

namespace Npm

variable {packageName version : List Char}

def purlParts (hname : IsByteText packageName) (hversion : IsByteText version) :
    PurlParts where
  type := "npm".toList
  scope? :=
    if isScoped packageName then some (packageName.takeWhile (· ≠ '/'))
    else none
  name :=
    if isScoped packageName then (packageName.dropWhile (· ≠ '/')).tail
    else packageName
  version? := some version
  type_ne_nil := by decide
  lowercase_type := by simp
  isByteText_scope := by
    intro scope hscope
    split_ifs at hscope
    · obtain rfl := Option.some.inj hscope
      exact hname.takeWhile _
    · simp at hscope
  isByteText_name := by
    split_ifs
    · exact (hname.dropWhile _).tail
    · exact hname
  isByteText_version := isByteText_of_mem_some hversion

theorem buildNpmPurl_eq (hname : IsByteText packageName)
    (hversion : IsByteText version) :
    buildNpmPurl packageName version = (purlParts hname hversion).text := by
  have htype : "pkg:npm/".toList = "pkg:".toList ++ "npm".toList ++ ['/'] := by
    decide
  unfold buildNpmPurl npmPurl
  rw [htype, PurlParts.text, PurlParts.path, PurlParts.suffix]
  dsimp only [purlParts]
  split_ifs
  · simp only [List.append_assoc, List.cons_append, List.nil_append]
  · simp only [List.append_assoc, List.cons_append, List.nil_append]

theorem dropWhile_slash {text : List Char} (hslash : '/' ∈ text) :
    text.dropWhile (· ≠ '/') = '/' :: (text.dropWhile (· ≠ '/')).tail := by
  induction text with
  | nil => simp at hslash
  | cons c text ih =>
    by_cases hc : c = '/'
    · subst c
      simp
    · have hlater : '/' ∈ text := by
        simpa [Ne.symm hc] using hslash
      simpa [hc] using ih hlater

theorem takeWhile_append_slash {text : List Char} (hslash : '/' ∈ text) :
    text.takeWhile (· ≠ '/') ++ '/' :: (text.dropWhile (· ≠ '/')).tail =
      text := by
  rw [← dropWhile_slash hslash, List.takeWhile_append_dropWhile]

theorem isScoped_iff {packageName : List Char} :
    isScoped packageName = true ↔
      packageName.head? = some '@' ∧ '/' ∈ packageName := by
  simp [isScoped]

theorem fullName_purlParts (hname : IsByteText packageName)
    (hversion : IsByteText version) :
    (purlParts hname hversion).fullName = packageName := by
  simp only [PurlParts.fullName, purlParts]
  split_ifs with hscoped
  · simpa using takeWhile_append_slash (isScoped_iff.mp hscoped).2
  · rfl

/-- Two packages of the registry share a purl only if they share the name and the
version. -/
theorem buildNpmPurl_eq_iff (packageName version packageName' version' :
    List UInt8) :
    buildNpmPurl (byteText packageName) (byteText version) =
        buildNpmPurl (byteText packageName') (byteText version') ↔
      packageName = packageName' ∧ version = version' := by
  have hbytes : Function.Injective byteText :=
    List.map_injective_iff.mpr fun left right h => by
      have hnat := congrArg Char.toNat h
      rwa [toNat_charOfByte, toNat_charOfByte, UInt8.toNat_inj] at hnat
  have hname := isByteText_byteText
  constructor
  · intro h
    rw [buildNpmPurl_eq (hname _) (hname _),
      buildNpmPurl_eq (hname _) (hname _)] at h
    have hpath := congrArg (fun text =>
      percentDecodeText (purlPathOf (String.ofList text))) h
    have hversion := congrArg (fun text =>
      percentDecodeText (purlVersionOf (String.ofList text)).toList) h
    simp only [PurlParts.purlPathOf_text, PurlParts.percentDecodeText_path,
      fullName_purlParts, PurlParts.percentDecodeText_purlVersionOf]
      at hpath hversion
    exact ⟨hbytes hpath, hbytes hversion⟩
  · rintro ⟨rfl, rfl⟩
    rfl

/-- Only a scope alone leaves the purl without a name. -/
theorem name_purlParts_ne_nil_iff (hne : packageName ≠ [])
    (hname : IsByteText packageName) (hversion : IsByteText version) :
    (purlParts hname hversion).name ≠ [] ↔ ¬ IsScopeAlone packageName := by
  simp only [purlParts, IsScopeAlone]
  split_ifs with hscoped
  · obtain ⟨hhead, hslash⟩ := isScoped_iff.mp hscoped
    rw [dropWhile_slash hslash]
    simp [hhead]
  · have hnot : ¬ (packageName.head? = some '@' ∧
        packageName.dropWhile (· ≠ '/') = ['/']) := by
      rintro ⟨hhead, hdrop⟩
      apply hscoped
      have hmem : '/' ∈ packageName.dropWhile (· ≠ '/') := by
        rw [hdrop]
        simp
      exact isScoped_iff.mpr
        ⟨hhead, (List.dropWhile_sublist _).subset hmem⟩
    exact iff_of_true hne hnot

end Npm

theorem IsNpmReference.carries {component : Component}
    {packageName version : List Char}
    (href : IsNpmReference component packageName version) :
    Carries component (Npm.purlParts href.isByteText_packageName
      href.isByteText_version) where
  purl := by
    rw [href.purl, Npm.buildNpmPurl_eq href.isByteText_packageName
      href.isByteText_version]
  name := by rw [href.name, String.toList_ofList, Npm.fullName_purlParts]
  version := by
    rw [href.version, String.toList_ofList]
    rfl

/-- A reference of the npm family is well identified, but for a scope
alone. -/
theorem IsNpmReference.isWellIdentified_iff {component : Component}
    {packageName version : List Char}
    (href : IsNpmReference component packageName version) :
    IsWellIdentified component ↔ ¬ IsScopeAlone packageName := by
  rw [href.carries.isWellIdentified_iff,
    Npm.name_purlParts_ne_nil_iff href.packageName_ne_nil]

/-- A name that normalizes to something. -/
def NamesProject (declaredName : List Char) : Prop :=
  ∃ c ∈ declaredName, Python.isNameSeparator c = false

instance (declaredName : List Char) : Decidable (NamesProject declaredName) :=
  inferInstanceAs (Decidable (∃ c ∈ declaredName, _))

namespace Python

theorem normalizeNameFrom_eq_nil_iff (previousWasSeparator : Bool)
    (declaredName : List Char) :
    normalizeNameFrom previousWasSeparator declaredName = [] ↔
      ¬ NamesProject declaredName := by
  induction declaredName generalizing previousWasSeparator with
  | nil => simp [normalizeNameFrom, NamesProject]
  | cons c rest ih =>
    cases hc : isNameSeparator c with
    | true =>
      simp only [normalizeNameFrom, hc, if_true, ih]
      simp [NamesProject, hc]
    | false => simp [normalizeNameFrom, NamesProject, hc]

theorem isByteText_normalizeNameFrom (previousWasSeparator : Bool)
    {declaredName : List Char} (hname : IsByteText declaredName) :
    IsByteText (normalizeNameFrom previousWasSeparator declaredName) := by
  induction declaredName generalizing previousWasSeparator with
  | nil => simp [normalizeNameFrom, IsByteText]
  | cons c rest ih =>
    have hrest : IsByteText rest := hname.tail
    simp only [normalizeNameFrom]
    split_ifs
    · exact ih true hrest
    · intro d hd
      rw [List.singleton_append, List.mem_cons, List.mem_cons] at hd
      rcases hd with rfl | rfl | hd
      · decide
      · exact toNat_toLowerAsciiChar_lt (hname c (by simp))
      · exact ih false hrest d hd
    · intro d hd
      rw [List.nil_append, List.mem_cons] at hd
      rcases hd with rfl | hd
      · exact toNat_toLowerAsciiChar_lt (hname c (by simp))
      · exact ih false hrest d hd

/-- A package whose texts come out of a file. -/
structure Package.IsByteText (package : Package) : Prop where
  declaredName : Core.IsByteText package.declaredName
  version : Core.IsByteText package.version

def purlParts (package : Package) (hpackage : package.IsByteText) :
    PurlParts where
  type := "pypi".toList
  name := normalizePypiName package.declaredName
  version? := if package.version = [] then none else some package.version
  type_ne_nil := by decide
  lowercase_type := by simp
  isByteText_scope := isByteText_of_mem_none
  isByteText_name := isByteText_normalizeNameFrom _ hpackage.declaredName
  isByteText_version := by
    intro version hversion
    split_ifs at hversion
    · simp at hversion
    · obtain rfl := Option.some.inj hversion
      exact hpackage.version

theorem Package.carries {package : Package} (hpackage : package.IsByteText)
    (label : String) :
    Carries (package.component label) (purlParts package hpackage) := by
  have htype : "pkg:pypi/".toList = "pkg:".toList ++ "pypi".toList ++ ['/'] := by
    decide
  constructor
  · dsimp only [Package.component]
    unfold buildPypiPurl
    rw [htype, PurlParts.text, PurlParts.path, PurlParts.suffix]
    dsimp only [purlParts]
    split_ifs
    · simp only [List.append_assoc, List.cons_append, List.nil_append,
        List.append_nil]
    · simp only [List.append_assoc, List.cons_append, List.nil_append]
  · simp [Package.component, PurlParts.fullName, purlParts]
  · simp only [Package.component, purlParts, String.toList_ofList]
    split_ifs with hversion
    · exact hversion
    · rfl

/-- A python package is well identified, but for a name of separators
only. -/
theorem Package.isWellIdentified_iff {package : Package}
    (hpackage : package.IsByteText) (label : String) :
    IsWellIdentified (package.component label) ↔
      NamesProject package.declaredName := by
  rw [(Package.carries hpackage label).isWellIdentified_iff]
  exact (not_congr (normalizeNameFrom_eq_nil_iff false _)).trans not_not

end Python
end Bomwerk.Lockfiles
