import Bomwerk.Lockfiles.Pnpm
import Bomwerk.Lockfiles.WrittenYarn

/-!
# Installed packages in pnpm-lock.yaml

pnpm names an entry after the package itself, with the checksum of its tarball
in a flow mapping.
-/

namespace Bomwerk.Lockfiles.Registry

open Bomwerk.Core Bomwerk.Core.YamlSubset Bomwerk.Support

variable (package : RegistryPackage)

/-! ## Keys -/

theorem isDescriptorCharacter_of_mem_pnpmKey {c : Char}
    (hc : c ∈ pnpmKey package) : isDescriptorCharacter c = true := by
  rw [pnpmKey, List.mem_append, List.mem_cons] at hc
  rcases hc with hname | rfl | hversion
  · exact isDescriptorCharacter_of_mem_text hname
  · decide
  · exact isDescriptorCharacter_of_mem_version hversion

theorem pnpmKey_ne_nil : pnpmKey package ≠ [] :=
  List.append_ne_nil_of_left_ne_nil package.realName.text_ne_nil _

theorem isAsciiBlank_eq_false_of_mem_pnpmKey {c : Char}
    (hc : c ∈ pnpmKey package) : isAsciiBlank c = false := by
  rw [pnpmKey, List.mem_append, List.mem_cons] at hc
  rcases hc with hname | rfl | hversion
  · have hletter := package.realName.isNameCharacter_of_mem_text hname
    simp only [RegistryName.isNameCharacter, Bool.or_eq_true,
      decide_eq_true_eq] at hletter
    rcases hletter with (h | rfl) | rfl
    · exact isAsciiBlank_eq_false_of_isUnreserved h
    · decide
    · decide
  · decide
  · rcases Bool.or_eq_true_iff.mp
      (package.isVersionCharacter_version c hversion) with h | h
    · exact isAsciiBlank_eq_false_of_isUnreserved h
    · obtain rfl := of_decide_eq_true h
      decide

theorem isSpellable_pnpmKey :
    IsSpellable (pnpmQuote? (pnpmKey package)) (pnpmKey package) where
  ne_nil := pnpmKey_ne_nil package
  isSolid _ := isSolid_of_forall (pnpmKey_ne_nil package)
    fun _ => isAsciiBlank_eq_false_of_mem_pnpmKey package
  isQuote := by
    intro quote hquote
    rw [pnpmQuote?] at hquote
    split_ifs at hquote
    · exact absurd hquote (Option.not_mem_none _)
    · obtain rfl := Option.mem_some_iff.mp hquote
      decide
  plain _ hc := plain_of_isDescriptorCharacter
    (isDescriptorCharacter_of_mem_pnpmKey package hc)

theorem notMem_pnpmKey {c : Char} (hname : RegistryName.isNameCharacter c = false)
    (hversion : isVersionCharacter c = false) : c ∉ pnpmKey package := by
  have hat : c ≠ '@' := by
    rintro rfl
    exact absurd hname (by decide)
  rw [pnpmKey, List.mem_append, List.mem_cons]
  rintro (h | rfl | h)
  · exact absurd (package.realName.isNameCharacter_of_mem_text h) (by simp [hname])
  · exact hat rfl
  · exact absurd (package.isVersionCharacter_version c h) (by simp [hversion])

theorem opensMapping_of_isAlphanum {c : Char} (hc : c.isAlphanum = true) :
    opensMapping c = true := by
  have hdash : c ≠ '-' := ne_of_test hc (by decide)
  have hdot : c ≠ '.' := ne_of_test hc (by decide)
  have hbracket : c ≠ '[' := ne_of_test hc (by decide)
  have hanchor : c ≠ '&' := ne_of_test hc (by decide)
  have halias : c ≠ '*' := ne_of_test hc (by decide)
  have htag : c ≠ '!' := ne_of_test hc (by decide)
  simp [opensMapping, isAnchorAliasTag, hdash, hdot, hbracket, hanchor, halias,
    htag]

theorem opensMapping_spelled_pnpmKey :
    ∀ c ∈ (spelled (pnpmQuote? (pnpmKey package)) (pnpmKey package)).head?,
      opensMapping c = true := by
  intro c hc
  rw [pnpmQuote?] at hc
  split_ifs at hc with hletter
  · rw [Option.any_eq_true] at hletter
    obtain ⟨first, hfirst, halphanum⟩ := hletter
    have hc : (pnpmKey package).head? = some c := hc
    obtain rfl := Option.some.inj (hfirst.symm.trans hc)
    exact opensMapping_of_isAlphanum halphanum
  · obtain rfl : '\'' = c := Option.some.inj hc
    decide

theorem splitPackageKey_pnpmKey :
    Pnpm.splitPackageKey (pnpmKey package) =
      some (package.realName.text, package.version) := by
  obtain ⟨first, rest, htext, -, hslash, -⟩ :=
    package.realName.exists_text_eq_cons
  have hhead : (pnpmKey package).head? ≠ some '/' := by
    rw [pnpmKey, htext]
    simpa using hslash
  have hplain : ∀ c ∈ pnpmKey package, decide (c ≠ '(') = true := by
    intro c hc
    rw [decide_eq_true_eq]
    rintro rfl
    exact notMem_pnpmKey package (by decide) (by decide) hc
  have hat : '@' ∉ package.version := fun hmem =>
    absurd (package.isVersionCharacter_version _ hmem) (by decide)
  rw [Pnpm.splitPackageKey, if_neg hhead, List.takeWhile_eq_self_iff.mpr hplain,
    pnpmKey, afterLast?_append _ hat, beforeLast_append _ hat]
  simp [package.realName.text_ne_nil, package.version_ne_nil]

/-- The text between the braces of a resolution. -/
def pnpmInterior : List Char :=
  Pnpm.integrityField ++ ':' :: ' ' :: package.integrity

def pnpmResolution : List Char :=
  '{' :: (pnpmInterior package ++ ['}'])

theorem isSolid_integrity : IsSolid package.integrity := by
  apply isSolid_of_forall package.integrity_ne_nil
  intro c hc
  rcases Bool.or_eq_true_iff.mp (package.isIntegrityCharacter_integrity c hc)
    with h | h
  · exact isAsciiBlank_eq_false_of_isUnreserved h
  · have hmem := List.contains_iff_mem.mp h
    simp only [List.mem_cons, List.not_mem_nil, or_false] at hmem
    rcases hmem with rfl | rfl | rfl <;> decide

theorem isSolid_pnpmInterior : IsSolid (pnpmInterior package) := by
  have hfield : ∃ c ∈ (Pnpm.integrityField ++ [':', ' ']).head?,
      isAsciiBlank c = false :=
    ⟨'i', rfl, by decide⟩
  have hinterior := (isSolid_integrity package).append hfield
  rwa [List.append_assoc] at hinterior

theorem notMem_integrity {c : Char} (hc : isIntegrityCharacter c = false) :
    c ∉ package.integrity := fun hmem =>
  absurd (package.isIntegrityCharacter_integrity c hmem) (by simp [hc])

theorem notMem_pnpmInterior {c : Char}
    (hfield : c ∉ Pnpm.integrityField ++ [':', ' '])
    (hc : isIntegrityCharacter c = false) : c ∉ pnpmInterior package := by
  have hinterior : pnpmInterior package =
      Pnpm.integrityField ++ [':', ' '] ++ package.integrity := by
    rw [List.append_assoc]
    rfl
  rw [hinterior, List.mem_append, not_or]
  exact ⟨hfield, notMem_integrity package hc⟩

theorem flowMappingField_pnpmInterior :
    Pnpm.flowMappingField (pnpmInterior package) Pnpm.integrityField =
      package.integrity := by
  have hplain : ∀ c ∈ pnpmInterior package, isQuote c = false ∧
      ∀ previous rest, Pnpm.isComma previous c rest = false := by
    intro c hc
    have hdouble : c ≠ '"' := by
      rintro rfl
      exact notMem_pnpmInterior package (by decide) (by decide) hc
    have hsingle : c ≠ '\'' := by
      rintro rfl
      exact notMem_pnpmInterior package (by decide) (by decide) hc
    have hcomma : c ≠ ',' := by
      rintro rfl
      exact notMem_pnpmInterior package (by decide) (by decide) hc
    simp [isQuote, Pnpm.isComma, hdouble, hsingle, hcomma]
  have hsegments : Pnpm.flowSegments ((pnpmInterior package).length + 1)
      (pnpmInterior package) = [pnpmInterior package] := by
    rw [Pnpm.flowSegments, splitOutsideQuotes_of_forall hplain]
    simp only [(isSolid_pnpmInterior package).trimmed_eq]
  have hname : ∀ c ∈ Pnpm.integrityField, decide (c ≠ ':') = true :=
    List.all_eq_true.mp (by decide)
  have hfield : (pnpmInterior package).takeWhile (· ≠ ':') =
      Pnpm.integrityField := by
    rw [pnpmInterior, List.takeWhile_append_of_pos hname]
    simp
  have hvalue : (pnpmInterior package).dropWhile (· ≠ ':') =
      ':' :: ' ' :: package.integrity := by
    rw [pnpmInterior, List.dropWhile_append_of_pos hname]
    simp
  have hcolon : ':' ∈ pnpmInterior package := by
    simp [pnpmInterior]
  have htrimmed : trimmed Pnpm.integrityField = Pnpm.integrityField := by
    decide
  have hintegrity : trimmed (' ' :: package.integrity) = package.integrity :=
    @trimmed_replicate_append 1 _ (isSolid_integrity package)
  rw [Pnpm.flowMappingField, hsegments, List.find?_cons_of_pos]
  · simp only [hvalue, List.tail_cons, hintegrity]
  · simp only [hcolon, hfield, htrimmed, and_self, decide_true]

theorem getLast?_pnpmResolution :
    (pnpmResolution package).getLast? = some '}' :=
  List.getLast?_eq_some_iff.mpr ⟨'{' :: pnpmInterior package, rfl⟩

theorem nodeOf_pnpmResolution :
    nodeOf 4 Pnpm.resolutionKey (pnpmResolution package) =
      { indentation := 4, key := Pnpm.resolutionKey,
        value := pnpmInterior package, opensBlock := false,
        isFlowMapping := true } := by
  have hflow : isFlowMapping (pnpmResolution package) = true := by
    rw [isFlowMapping, getLast?_pnpmResolution]
    simp [pnpmResolution]
  have hinterior : (pnpmResolution package).tail.dropLast =
      pnpmInterior package :=
    List.dropLast_concat
  rw [nodeOf, hflow, if_pos rfl, hinterior,
    (isSolid_pnpmInterior package).trimmed_eq]
  simp [pnpmResolution]

/-- What the lines of a package are read as. -/
def pnpmResults : List LineResult :=
  [.node (nodeOf 2 (pnpmKey package) []),
    .node (nodeOf 4 Pnpm.resolutionKey (pnpmResolution package)), .nothing]

theorem readLine_pnpmKey :
    readLine none ("  ".toList ++ spelled (pnpmQuote? (pnpmKey package))
        (pnpmKey package) ++ [':']) =
      (none, .node (nodeOf 2 (pnpmKey package) [])) := by
  have hindentation : "  ".toList = List.replicate 2 ' ' := by decide
  have hread := readLine_key (isSpellable_pnpmKey package)
    (fun _ => notMem_pnpmKey package (by decide) (by decide))
    (opensMapping_spelled_pnpmKey package) 2
  rw [hindentation, List.append_assoc]
  exact hread

theorem readLine_pnpmResolution :
    readLine none ("    resolution: \x7bintegrity: ".toList ++
        package.integrity ++ ['}']) =
      (none, .node (nodeOf 4 Pnpm.resolutionKey
        (pnpmResolution package))) := by
  have hline : "    resolution: \x7bintegrity: ".toList ++
      package.integrity ++ ['}'] =
        "    resolution: ".toList ++ pnpmResolution package := by
    have hopen : "    resolution: \x7bintegrity: ".toList =
        "    resolution: ".toList ++
          '{' :: (Pnpm.integrityField ++ [':', ' ']) := by
      decide
    rw [hopen, pnpmResolution, pnpmInterior]
    simp only [List.append_assoc, List.cons_append, List.nil_append]
  have hsolid : IsSolid (pnpmResolution package) := by
    constructor
    · exact ⟨'{', rfl, by decide⟩
    · exact ⟨'}', getLast?_pnpmResolution package, by decide⟩
  rw [hline]
  apply readLine_field_of_eq (by decide) isSpellable_resolution (by decide)
    ((Option.all_eq_true opensMapping _).mp (by decide)) hsolid
  · have hinterior : '#' ∉ pnpmInterior package :=
      notMem_pnpmInterior package (by decide) (by decide)
    simp [pnpmResolution, hinterior]
  · intro c hc
    obtain rfl : '{' = c := Option.some.inj hc
    decide

theorem map_readLine_pnpmLines :
    (pnpmLines package).map (readLine none) =
      (pnpmResults package).map (Prod.mk none) := by
  have hempty : readLine none [] = (none, .nothing) := rfl
  rw [pnpmLines, pnpmResults]
  simp only [List.map_cons, List.map_nil, readLine_pnpmKey,
    readLine_pnpmResolution, hempty]

/-- The state of the loop between two packages. -/
def pnpmState : Pnpm.LoopState where
  insidePackages := true
  versionSupported := true

def pnpmComponent (label : String) (package : RegistryPackage) : Component :=
  Yarn.npmComponent package.realName.text package.version
    (label ++ " (integrity " ++ String.ofList package.integrity ++ ")")

/-- The entry of a package is closed by its resolution. -/
theorem readings_lockEntries_pnpmResults (label : String)
    (lines : List LineResult) :
    (Pnpm.lockEntries label pnpmState
        (pnpmResults package ++ lines)).readings =
      { outcome := .valid (some (pnpmComponent label package)) } ::
        (Pnpm.lockEntries label pnpmState lines).readings := by
  have houtcome : Pnpm.resolutionOutcome label
      (nodeOf 4 Pnpm.resolutionKey (pnpmResolution package))
        (package.realName.text, package.version) =
      .valid (some (pnpmComponent label package)) := by
    rw [nodeOf_pnpmResolution, Pnpm.resolutionOutcome]
    simp only [flowMappingField_pnpmInterior, package.integrity_ne_nil,
      if_true, if_false]
    rfl
  rw [pnpmResults]
  simp only [List.cons_append, List.nil_append, Pnpm.lockEntries]
  simp [nodeOf, pnpmState, Pnpm.documentIndentation, Pnpm.entryKeyIndentation,
    Pnpm.entryFieldIndentation, splitPackageKey_pnpmKey,
    Pnpm.closePendingEntry, Pnpm.LockEntries.prepend]
  exact houtcome

/-- What the lines of the header are read as. -/
def pnpmHeaderResults : List LineResult :=
  [.node (nodeOf 0 Pnpm.lockfileVersionKey "'9.0'".toList), .nothing,
    .node (nodeOf 0 Pnpm.packagesKey []), .nothing]

theorem map_readLine_pnpmHeader :
    pnpmHeader.map (readLine none) = pnpmHeaderResults.map (Prod.mk none) := by
  decide +kernel

theorem lineResults_pnpmFile (packages : List RegistryPackage) :
    readLines none (pnpmHeader ++ packages.flatMap pnpmLines ++ [[]]) =
      pnpmHeaderResults ++ (packages.flatMap pnpmResults ++ [.nothing]) :=
  readLines_lock map_readLine_pnpmHeader map_readLine_pnpmLines packages

theorem readings_lockEntries_flatMap (label : String)
    (packages : List RegistryPackage) :
    (Pnpm.lockEntries label pnpmState
        (packages.flatMap pnpmResults ++ [.nothing])).readings =
      packages.map fun package =>
        { outcome := .valid (some (pnpmComponent label package)) } := by
  induction packages with
  | nil => rfl
  | cons package packages ih =>
    rw [List.flatMap_cons, List.append_assoc,
      readings_lockEntries_pnpmResults, ih, List.map_cons]

theorem lockEntries_header (label : String) (lines : List LineResult) :
    Pnpm.lockEntries label {} (pnpmHeaderResults ++ lines) =
      Pnpm.lockEntries label pnpmState lines :=
  rfl

theorem isLine_pnpmKey : isLine (pnpmKey package) = true := by
  rw [pnpmKey, isLine_append, isLine_cons, isLine_text, package.isLine_version]
  decide

theorem isLine_pnpmLines :
    ∀ line ∈ pnpmLines package, isLine line = true := by
  have hspelled : isLine (spelled (pnpmQuote? (pnpmKey package))
      (pnpmKey package)) = true := by
    apply isLine_spelled _ (isLine_pnpmKey package)
    intro quote hquote
    have hisQuote := (isSpellable_pnpmKey package).isQuote quote hquote
    rw [isQuote, decide_eq_true_eq] at hisQuote
    rcases hisQuote with rfl | rfl <;> decide
  intro line hline
  rw [pnpmLines, List.mem_cons, List.mem_cons, List.mem_singleton] at hline
  rcases hline with rfl | rfl | rfl
  · rw [isLine_append, isLine_append, hspelled]
    decide
  · rw [isLine_append, isLine_append, package.isLine_integrity]
    decide
  · decide

theorem isLine_pnpmLock (packages : List RegistryPackage) :
    ∀ line ∈ pnpmHeader ++ packages.flatMap pnpmLines, isLine line = true :=
  forall_isLine_lock (by decide +kernel) isLine_pnpmLines packages

theorem readsPackages_pnpmLock (packages : List RegistryPackage)
    (path : FsPath) :
    ReadsPackages (Pnpm.producer.manifest path (pnpmLock packages)).entries
      packages (pnpmComponent path.genericString)
      RegistryPackage.realName := by
  constructor
  · refine ⟨[], by simp, ?_⟩
    simp only [Pnpm.producer, Pnpm.lockManifest, lineResults]
    rw [pnpmLock, splitOn_byteText_asciiBytes (isLine_pnpmLock packages),
      lineResults_pnpmFile, lockEntries_header, readings_lockEntries_flatMap,
      List.nil_append]
  · intro package _
    exact Yarn.isNpmReference_npmComponent package.realName.text_ne_nil
      (isByteText_of_isLine (isLine_text _))
      (isByteText_of_isLine package.isLine_version) _

theorem returnsPurls_pnpmLock (packages : List RegistryPackage)
    {path : FsPath} {options : ParseOptions}
    (hpath : path.filename = "pnpm-lock.yaml")
    (hfits : Fits options packages.length (pnpmLock packages)) :
    ReturnsPurls Pnpm.producer options path (pnpmLock packages)
      (realPurls packages) := by
  have hreads := readsPackages_pnpmLock packages path
  apply hreads.returnsPurls Pnpm.isUnlimited_producer
    Pnpm.hasNoOwnIdentity_producer _ hfits
  exact decide_eq_true hpath

end Bomwerk.Lockfiles.Registry
