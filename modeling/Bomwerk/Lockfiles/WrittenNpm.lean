import Bomwerk.Lockfiles.OneFile
import Bomwerk.Lockfiles.Readings
import Bomwerk.Lockfiles.Registry

/-!
# Installed packages in package-lock.json

The parser takes the name of a package from the key it is installed under; the
name that an alias stands for is in its entry and is not read.
-/

namespace Bomwerk.Lockfiles.Registry

open Bomwerk.Core Bomwerk.Support

def purlsUnder (nameOf : RegistryPackage → RegistryName)
    (packages : List RegistryPackage) : Set String :=
  {purl | ∃ package ∈ packages, package.purl (nameOf package) = purl}

section Run

variable {producer : Producer} {options : ParseOptions} {path : FsPath}
  {bytes : List UInt8} {packages : List RegistryPackage}
  {component : RegistryPackage → Component}
  {nameOf : RegistryPackage → RegistryName} {ignored : List Reading}

/-- A file that is read as one component for each package, besides what is
ignored. -/
structure ReadsPackages (entries : List Reading)
    (packages : List RegistryPackage)
    (component : RegistryPackage → Component)
    (nameOf : RegistryPackage → RegistryName) : Prop where
  entries_eq : ∃ ignored : List Reading,
    (∀ reading ∈ ignored, reading.outcome = .ignored) ∧
      entries = ignored ++ packages.map fun package =>
        { outcome := .valid (some (component package)) }
  isNpmReference : ∀ package ∈ packages,
    IsNpmReference (component package) (nameOf package).text package.version

theorem ReadsPackages.throwsNowhere {entries : List Reading}
    (hreads : ReadsPackages entries packages component nameOf) :
    ThrowsNowhere entries := by
  obtain ⟨ignored, hignored, rfl⟩ := hreads.entries_eq
  intro reading hreading
  rcases List.mem_append.mp hreading with h | h
  · rw [hignored reading h]
    simp
  · obtain ⟨package, -, rfl⟩ := List.mem_map.mp h
    simp

theorem ReadsPackages.validEntries_eq {entries : List Reading}
    (hreads : ReadsPackages entries packages component nameOf) :
    validEntries entries = (packages.map component).map some := by
  obtain ⟨ignored, hignored, rfl⟩ := hreads.entries_eq
  have hnone : ignored.filterMap Reading.validEntry? = [] := by
    rw [List.filterMap_eq_nil_iff]
    intro reading hreading
    simp [Reading.validEntry?, hignored reading hreading]
  rw [validEntries, List.filterMap_append, hnone, List.nil_append,
    List.filterMap_map, List.map_map, ← List.filterMap_eq_map]
  apply List.filterMap_congr
  intro package hpackage
  have hcanonical :=
    (hreads.isNpmReference package hpackage).carries.canonicalized_eq
  change some (some (canonicalized (component package))) = _
  rw [hcanonical]
  rfl

theorem ReadsPackages.purlsOf_eq {entries : List Reading}
    (hreads : ReadsPackages entries packages component nameOf) :
    purlsOf (packages.map component) = purlsUnder nameOf packages := by
  ext purl
  constructor
  · rintro ⟨_, hcomponent, rfl⟩
    obtain ⟨package, hpackage, rfl⟩ := List.mem_map.mp hcomponent
    exact ⟨package, hpackage,
      (hreads.isNpmReference package hpackage).purl.symm⟩
  · rintro ⟨package, hpackage, rfl⟩
    exact ⟨_, List.mem_map_of_mem hpackage,
      (hreads.isNpmReference package hpackage).purl⟩

theorem ReadsPackages.returnsPurls
    (hreads : ReadsPackages (producer.manifest path bytes).entries packages
      component nameOf)
    (hunlimited : producer.IsUnlimited) (hown : producer.HasNoOwnIdentity)
    (haccepts : producer.accepts path = true)
    (hfits : Fits options packages.length bytes) :
    ReturnsPurls producer options path bytes (purlsUnder nameOf packages) := by
  rw [← hreads.purlsOf_eq]
  apply returnsPurls_of_validEntries hunlimited hown haccepts
  · simpa using hfits
  · exact hreads.throwsNowhere
  · exact hreads.validEntries_eq
  · intro other hother
    obtain ⟨package, hpackage, rfl⟩ := List.mem_map.mp hother
    exact ⟨_, (hreads.isNpmReference package hpackage).carries⟩

end Run

theorem isByteText_of_isLine {text : List Char} (htext : isLine text = true) :
    IsByteText text := by
  intro c hc
  have hline := List.all_eq_true.mp htext c hc
  simp only [isLineCharacter, Bool.and_eq_true, decide_eq_true_eq] at hline
  omega

theorem utf8Text_ofList {text : List Char} (htext : isLine text = true) :
    utf8Text (String.ofList text) = text := by
  have hbytes : text.flatMap String.utf8EncodeChar = textBytes text := by
    rw [textBytes, List.map_eq_flatMap]
    apply List.flatMap_congr
    intro c hc
    have hline := List.all_eq_true.mp htext c hc
    simp only [isLineCharacter, Bool.and_eq_true, decide_eq_true_eq] at hline
    exact utf8EncodeChar_of_lt hline.1
  rw [utf8Text, String.toList_ofList, hbytes,
    byteText_textBytes (isByteText_of_isLine htext)]

theorem isAsciiBlank_eq_false_of_isUnreserved {c : Char}
    (hc : isUnreserved c = true) : isAsciiBlank c = false := by
  by_contra hblank
  rw [Bool.not_eq_false, isAsciiBlank, decide_eq_true_eq] at hblank
  rcases hblank with rfl | rfl | rfl | rfl <;> exact absurd hc (by decide)

theorem RegistryPackage.isSolid_version (package : RegistryPackage) :
    IsSolid package.version := by
  apply isSolid_of_forall package.version_ne_nil
  intro c hc
  rcases Bool.or_eq_true_iff.mp (package.isVersionCharacter_version c hc) with
    h | h
  · exact isAsciiBlank_eq_false_of_isUnreserved h
  · obtain rfl := of_decide_eq_true h
    decide

/-- The scope of the name it is installed under does not end like the folder of
all packages. -/
def HasPlainScope (package : RegistryPackage) : Prop :=
  ∀ scope ∈ package.installName.scope?, ¬ "node_modules".toList <:+ scope

theorem behindLast?_of_not_infix {pattern text : List Char}
    (hpattern : pattern ≠ []) (htext : ¬ pattern <:+: text) :
    Npm.behindLast? pattern text = none := by
  induction text with
  | nil => rw [Npm.behindLast?, if_neg hpattern]
  | cons c text ih =>
    have hlater : ¬ pattern <:+: text := fun hinner =>
      htext (List.infix_cons hinner)
    have hhere : pattern.isPrefixOf (c :: text) ≠ true := fun hstart =>
      htext (List.isPrefixOf_iff_prefix.mp hstart).isInfix
    rw [Npm.behindLast?, ih hlater]
    simp [hhere]

theorem notMem_slash_of_isUnreserved {text : List Char}
    (htext : ∀ c ∈ text, isUnreserved c = true) : '/' ∉ text :=
  fun hmem => absurd (htext _ hmem) (by decide)

theorem not_infix_installName {package : RegistryPackage}
    (hscope : HasPlainScope package) :
    ¬ ("node_modules".toList ++ ['/']) <:+: package.installName.text := by
  have hbase : '/' ∉ package.installName.base :=
    notMem_slash_of_isUnreserved package.installName.isUnreserved_base
  rw [RegistryName.text]
  cases hname : package.installName.scope? with
  | none => exact not_infix_of_notMem hbase
  | some scope =>
    have hslash : '/' ∉ scope := notMem_slash_of_isUnreserved
      (package.installName.isUnreserved_scope scope hname)
    dsimp only
    rw [← List.cons_append, infix_append_terminator_iff (by decide)
      (by simp [hslash]), List.suffix_cons_iff]
    rintro ((heq | hsuffix) | hinner)
    · exact absurd (List.cons.inj heq).1 (by decide)
    · exact hscope scope hname hsuffix
    · exact not_infix_of_notMem hbase hinner

/-- The last segment stands behind a word and its separator when no such pair
stands in it. -/
theorem behindLast?_word {c : Char} {word text : List Char}
    (hword : '/' ∉ c :: word) (htext : ¬ (c :: word ++ ['/']) <:+: text) :
    Npm.behindLast? (c :: word ++ ['/']) (c :: word ++ '/' :: text) =
      some text := by
  have hlater : ¬ (c :: word ++ ['/']) <:+: (word ++ '/' :: text) := by
    rw [infix_append_terminator_iff hword fun hmem =>
      hword (List.mem_cons_of_mem _ hmem)]
    rintro (hsuffix | hinner)
    · have hle := hsuffix.length_le
      rw [List.length_cons] at hle
      omega
    · exact htext hinner
  have hstart : (c :: word ++ ['/']).isPrefixOf (c :: word ++ '/' :: text) =
      true :=
    List.isPrefixOf_iff_prefix.mpr ⟨text, by simp⟩
  have hcons : c :: word ++ '/' :: text = c :: (word ++ '/' :: text) := rfl
  rw [hcons] at hstart ⊢
  rw [Npm.behindLast?, behindLast?_of_not_infix (by simp) hlater]
  dsimp only
  rw [if_pos hstart]
  simp

theorem packageNameFromKey_lockKey {package : RegistryPackage}
    (hscope : HasPlainScope package) :
    Npm.packageNameFromKey ("node_modules/".toList ++
      package.installName.text) = package.installName.text := by
  have hsegment : Npm.nodeModulesSegment =
      'n' :: "ode_modules".toList ++ ['/'] := by
    decide
  have hkey : "node_modules/".toList ++ package.installName.text =
      'n' :: "ode_modules".toList ++ '/' :: package.installName.text :=
    List.append_assoc ('n' :: "ode_modules".toList) ['/']
      package.installName.text
  have hword : '/' ∉ 'n' :: "ode_modules".toList := by decide
  unfold Npm.packageNameFromKey
  rw [hsegment, hkey,
    behindLast?_word hword (not_infix_installName hscope), Option.getD_some]

/-! ## The document -/

section Document

variable {package : RegistryPackage}

theorem find?_lockEntry (key : String) :
    (lockEntry package).find? key =
      if key = "integrity" then some (.string (String.ofList package.integrity))
      else if key = "name" then
        if package.isAlias then
          some (.string (String.ofList package.realName.text)) else none
      else if key = "version" then
        some (.string (String.ofList package.version))
      else none := by
  have hbeq : ∀ name : String, (key == name) = decide (key = name) := by
    intro name
    exact beq_eq_decide key name
  rw [lockEntry]
  simp only [Json.find?]
  split_ifs <;> simp_all [List.lookup_cons]

def lockComponent (label : String) (package : RegistryPackage) : Component :=
  (Npm.component? label package.installName.text package.version
    (lockEntry package)).getD {}

theorem component?_lockEntry (label : String) (package : RegistryPackage) :
    Npm.component? label package.installName.text package.version
        (lockEntry package) = some (lockComponent label package) := by
  have hdev : Npm.booleanValue (lockEntry package) "dev" = some false := by
    rw [Npm.booleanValue, find?_lockEntry]
    rfl
  rw [lockComponent, Npm.component?, hdev]
  rfl

theorem readEntry_lockEntry (hscope : HasPlainScope package) (label : String) :
    Npm.readEntry label (lockKey package) (lockEntry package) =
      .valid (some (lockComponent label package)) := by
  have hkey : utf8Text (lockKey package) =
      "node_modules/".toList ++ package.installName.text := by
    apply utf8Text_ofList
    rw [isLine_append, isLine_text]
    decide
  have hne : lockKey package ≠ "" := by
    apply ne_of_apply_ne String.toList
    unfold lockKey
    rw [String.toList_ofList]
    exact List.append_ne_nil_of_left_ne_nil (by decide) _
  have hlink : Npm.booleanValue (lockEntry package) "link" = some false := by
    rw [Npm.booleanValue, find?_lockEntry]
    rfl
  have hversion : (lockEntry package).findString? "version" =
      some (String.ofList package.version) := by
    rw [Json.findString?, find?_lockEntry]
    rfl
  have hobject : (lockEntry package).isObject = true := rfl
  simp only [Npm.readEntry, hne, hobject, hlink, hversion, hkey,
    packageNameFromKey_lockKey hscope, package.installName.text_ne_nil,
    Bool.not_true, Bool.false_eq_true, if_false]
  rw [utf8Text_ofList package.isLine_version,
    package.isSolid_version.trimmed_eq, component?_lockEntry]

end Document

theorem readsPackages_packageLock {parseJson : List UInt8 → Option Json}
    {packages : List RegistryPackage} {bytes : List UInt8}
    (hlock : IsPackageLock parseJson packages bytes)
    (hscopes : ∀ package ∈ packages, HasPlainScope package) (label : String) :
    ReadsPackages (Npm.packageLock parseJson label bytes).entries packages
      (lockComponent label) RegistryPackage.installName := by
  have hobject : (some (packageLockDocument packages)).filter Json.isObject =
      some (packageLockDocument packages) := rfl
  have hversion : ¬ Npm.lockfileVersion (packageLockDocument packages) <
      Npm.minSupportedLockfileVersion := by
    have hthree : Npm.lockfileVersion (packageLockDocument packages) = 3 := rfl
    rw [hthree]
    decide
  have hpackages : (packageLockDocument packages).find? "packages" =
      some (.object (("", .object []) ::
        packages.map fun package => (lockKey package, lockEntry package))) :=
    rfl
  constructor
  · refine ⟨[{ outcome := .ignored }], by simp, ?_⟩
    simp only [Npm.packageLock, hlock.shallow, hlock.value, hobject, hversion,
      hpackages, Bool.false_eq_true, if_false, List.map_cons, List.map_map,
      List.singleton_append]
    congr 1
    apply List.map_congr_left
    intro package hpackage
    exact congrArg (fun outcome => ({ outcome := outcome } : Reading))
      (readEntry_lockEntry (hscopes package hpackage) label)
  · intro package _
    exact Npm.isNpmReference_of_mem_component? package.installName.text_ne_nil
      (isByteText_of_isLine (isLine_text _))
      (isByteText_of_isLine package.isLine_version)
      (component?_lockEntry label package)

/-- The purls of a package-lock.json are those of the names that the packages
are installed under. -/
theorem returnsPurls_packageLock {parseJson : List UInt8 → Option Json}
    {packages : List RegistryPackage} {bytes : List UInt8} {path : FsPath}
    {options : ParseOptions} (hlock : IsPackageLock parseJson packages bytes)
    (hscopes : ∀ package ∈ packages, HasPlainScope package)
    (hpath : path.filename = "package-lock.json")
    (hfits : Fits options packages.length bytes) :
    ReturnsPurls (Npm.producer parseJson) options path bytes
      (installPurls packages) := by
  have hreads := readsPackages_packageLock hlock hscopes path.genericString
  apply hreads.returnsPurls (isUnlimited_producerOf parseJson .packageLock)
    (Npm.hasNoOwnIdentity_producer parseJson) _ hfits
  exact decide_eq_true hpath

end Bomwerk.Lockfiles.Registry
