import Bomwerk.Lockfiles.WrittenPnpm

/-!
# Four lockfiles of one installation

What the producers of the npm family return for the same packages.  They agree
when no package is an alias; for an alias package-lock.json and Yarn Classic
give the name it is installed under, Yarn Berry and pnpm the package itself.
-/

namespace Bomwerk.Lockfiles.Registry

open Bomwerk.Core Bomwerk.Support

/-! ## The four runs -/

theorem installPurls_eq_realPurls {packages : List RegistryPackage}
    (hplain : ∀ package ∈ packages, package.isAlias = false) :
    installPurls packages = realPurls packages := by
  have hpurl : ∀ package ∈ packages,
      package.installPurl = package.realPurl := by
    intro package hpackage
    have hnames := hplain package hpackage
    simp only [RegistryPackage.isAlias, ne_eq, decide_not,
      Bool.not_eq_false', decide_eq_true_eq] at hnames
    rw [RegistryPackage.installPurl, RegistryPackage.realPurl, hnames]
  ext purl
  constructor
  · rintro ⟨package, hpackage, rfl⟩
    exact ⟨package, hpackage, (hpurl package hpackage).symm⟩
  · rintro ⟨package, hpackage, rfl⟩
    exact ⟨package, hpackage, hpurl package hpackage⟩

/-- Where the four lockfiles lie. -/
structure LockPaths where
  packageLock : FsPath
  classicLock : FsPath
  berryLock : FsPath
  pnpmLock : FsPath
  filename_packageLock : packageLock.filename = "package-lock.json"
  filename_classicLock : classicLock.filename = "yarn.lock"
  filename_berryLock : berryLock.filename = "yarn.lock"
  filename_pnpmLock : pnpmLock.filename = "pnpm-lock.yaml"

/-- Each of the four lockfiles is within the limits. -/
structure AllFit (options : ParseOptions) (packages : List RegistryPackage)
    (bytes : List UInt8) : Prop where
  packageLock : Fits options packages.length bytes
  classicLock : Fits options packages.length (classicLock packages)
  berryLock : Fits options packages.length (berryLock packages)
  pnpmLock : Fits options packages.length (pnpmLock packages)

/-- The purls that each producer returns for the packages. -/
theorem returnsPurls_lockfiles {parseJson : List UInt8 → Option Json}
    {packages : List RegistryPackage} {bytes : List UInt8}
    {options : ParseOptions} (paths : LockPaths)
    (hlock : IsPackageLock parseJson packages bytes)
    (hscopes : ∀ package ∈ packages, HasPlainScope package)
    (hfits : AllFit options packages bytes) :
    ReturnsPurls (Npm.producer parseJson) options paths.packageLock bytes
        (installPurls packages) ∧
      ReturnsPurls Yarn.producer options paths.classicLock
        (classicLock packages) (installPurls packages) ∧
      ReturnsPurls Yarn.producer options paths.berryLock
        (berryLock packages) (realPurls packages) ∧
      ReturnsPurls Pnpm.producer options paths.pnpmLock (pnpmLock packages)
        (realPurls packages) ∧
      ((∀ package ∈ packages, package.isAlias = false) →
        installPurls packages = realPurls packages) := by
  refine ⟨?_, ?_, ?_, ?_, installPurls_eq_realPurls⟩
  · exact returnsPurls_packageLock hlock hscopes paths.filename_packageLock
      hfits.packageLock
  · exact returnsPurls_classicLock packages paths.filename_classicLock
      hfits.classicLock
  · exact returnsPurls_berryLock packages paths.filename_berryLock
      hfits.berryLock
  · exact returnsPurls_pnpmLock packages paths.filename_pnpmLock hfits.pnpmLock

/-- An alias, as `npm install foo@npm:bar@1.0.0` makes one. -/
def aliasedBar : RegistryPackage where
  installName :=
    { base := "foo".toList
      base_ne_nil := by decide
      isUnreserved_scope := by simp
      isUnreserved_base := List.all_eq_true.mp (by decide) }
  realName :=
    { base := "bar".toList
      base_ne_nil := by decide
      isUnreserved_scope := by simp
      isUnreserved_base := List.all_eq_true.mp (by decide) }
  version := "1.0.0".toList
  range := "1.0.0".toList
  integrity := "sha512-AAAA".toList
  version_ne_nil := by decide
  isVersionCharacter_version := List.all_eq_true.mp (by decide)
  isRangeCharacter_range := List.all_eq_true.mp (by decide)
  integrity_ne_nil := by decide
  isIntegrityCharacter_integrity := List.all_eq_true.mp (by decide)

def rootPaths : LockPaths where
  packageLock := .ofString "package-lock.json"
  classicLock := .ofString "yarn.lock"
  berryLock := .ofString "yarn.lock"
  pnpmLock := .ofString "pnpm-lock.yaml"
  filename_packageLock := by decide +kernel
  filename_classicLock := by decide +kernel
  filename_berryLock := by decide +kernel
  filename_pnpmLock := by decide +kernel

def aliasedBarText : List UInt8 :=
  textBytes ("\x7b\"lockfileVersion\":3,\"packages\":\x7b\"\":\x7b\x7d," ++
    "\"node_modules/foo\":\x7b\"integrity\":\"sha512-AAAA\"," ++
    "\"name\":\"bar\",\"version\":\"1.0.0\"\x7d\x7d\x7d").toList

/-- A reading of JSON that knows the one text. -/
def readAliasedBar (bytes : List UInt8) : Option Json :=
  if bytes = aliasedBarText then some (packageLockDocument [aliasedBar])
  else none

theorem returnsPurls_lockfiles_aliasedBar :
    ReturnsPurls (Npm.producer readAliasedBar) {} rootPaths.packageLock
        aliasedBarText (installPurls [aliasedBar]) ∧
      ReturnsPurls Yarn.producer {} rootPaths.classicLock
        (classicLock [aliasedBar]) (installPurls [aliasedBar]) ∧
      ReturnsPurls Yarn.producer {} rootPaths.berryLock
        (berryLock [aliasedBar]) (realPurls [aliasedBar]) ∧
      ReturnsPurls Pnpm.producer {} rootPaths.pnpmLock
        (pnpmLock [aliasedBar]) (realPurls [aliasedBar]) ∧
      ((∀ package ∈ [aliasedBar], package.isAlias = false) →
        installPurls [aliasedBar] = realPurls [aliasedBar]) := by
  apply returnsPurls_lockfiles
  · have hbytes : Npm.withoutUtf8Bom aliasedBarText = aliasedBarText := by
      decide +kernel
    constructor
    · rw [hbytes, readAliasedBar, if_pos rfl]
    · decide +kernel
  · intro package hpackage
    obtain rfl := List.mem_singleton.mp hpackage
    intro scope hscope
    exact absurd hscope (Option.not_mem_none _)
  · constructor <;> constructor <;> decide +kernel

theorem fits_classicLock_aliasedBar :
    Fits {} [aliasedBar].length (classicLock [aliasedBar]) := by
  constructor <;> decide +kernel

theorem fits_berryLock_aliasedBar :
    Fits {} [aliasedBar].length (berryLock [aliasedBar]) := by
  constructor <;> decide +kernel

/-- The two formats of Yarn give different purls for the alias. -/
theorem not_returnsPurls_aliasedBar :
    ¬ ∃ purls,
      ReturnsPurls Yarn.producer {} rootPaths.classicLock
          (classicLock [aliasedBar]) purls ∧
        ReturnsPurls Yarn.producer {} rootPaths.berryLock
          (berryLock [aliasedBar]) purls := by
  rintro ⟨purls, hclassic, hberry⟩
  have hinstall := hclassic.unique (returnsPurls_classicLock [aliasedBar]
    rootPaths.filename_classicLock fits_classicLock_aliasedBar)
  have hreal := hberry.unique (returnsPurls_berryLock [aliasedBar]
    rootPaths.filename_berryLock fits_berryLock_aliasedBar)
  have hmem : aliasedBar.installPurl ∈ realPurls [aliasedBar] := by
    rw [← hreal, hinstall]
    exact ⟨aliasedBar, by simp, rfl⟩
  obtain ⟨package, hpackage, hpurl⟩ := hmem
  obtain rfl := List.mem_singleton.mp hpackage
  exact absurd hpurl (by decide +kernel)

end Bomwerk.Lockfiles.Registry
