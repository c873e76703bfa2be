import Bomwerk.Lockfiles.Npm
import Bomwerk.Lockfiles.UnexhaustedRuns

/-!
# Lockfiles that the npm parser survives

`parse_package_lock` checks the type of most members of an entry, and reads
`link` and `dev` by `value(key, false)`, which throws on a stored value of
another type.  It returns on a lockfile, and emits for each entry what the
entry alone decides, exactly when these two members are booleans wherever they
are read.
-/

namespace Bomwerk.Lockfiles.Npm

open Bomwerk.Core

def HasBoolean (entry : Json) (key : String) : Prop :=
  ∀ value, entry.find? key = some value → ∃ flag, value = .boolean flag

/-- The member has the value true. -/
def IsSet (entry : Json) (key : String) : Prop :=
  entry.find? key = some (.boolean true)

def NamesPackage (packagesKey : String) (entry : Json) : Prop :=
  (entry.findString? "version").isSome ∧
    packageNameFromKey (utf8Text packagesKey) ≠ []

/-- Every boolean member that the parser reads from the entry is a boolean:
`link` of each object that is not the root project, and `dev` of each package
that is no link. -/
def IsSurvivable (packagesKey : String) (entry : Json) : Prop :=
  packagesKey ≠ "" → entry.isObject = true →
    HasBoolean entry "link" ∧
      (¬IsSet entry "link" → NamesPackage packagesKey entry →
        HasBoolean entry "dev")

/-- What one entry of the packages map adds to the components. -/
def entryEmission? (label packagesKey : String) (entry : Json) :
    Option Emission :=
  Reading.emission? { outcome := readEntry label packagesKey entry }

theorem booleanValue_eq_none_iff {entry : Json} {key : String} :
    booleanValue entry key = none ↔ ¬HasBoolean entry key := by
  rw [booleanValue, HasBoolean]
  rcases hfind : entry.find? key with _ | value
  · simp
  · cases value <;> simp

theorem booleanValue_eq_some_true_iff {entry : Json} {key : String} :
    booleanValue entry key = some true ↔ IsSet entry key := by
  rw [booleanValue, IsSet]
  rcases hfind : entry.find? key with _ | value
  · simp
  · cases value <;> simp

/-- The library throws on an entry exactly when it is not survivable. -/
theorem throws_readEntry_iff (label packagesKey : String) (entry : Json) :
    (Reading.Throws { outcome := readEntry label packagesKey entry }) ↔
      ¬IsSurvivable packagesKey entry := by
  rw [Reading.Throws, IsSurvivable, readEntry]
  by_cases hkey : packagesKey = ""
  · simp [hkey]
  by_cases hobject : entry.isObject = true
  swap
  · simp [hkey, hobject]
  simp only [hkey, hobject, if_false, Bool.not_true, Bool.false_eq_true,
    ne_eq, not_false_eq_true, forall_true_left]
  rcases hlink : booleanValue entry "link" with _ | link
  · have hlink := booleanValue_eq_none_iff.mp hlink
    simp [hlink]
  have hboolean : HasBoolean entry "link" := by
    by_contra hnot
    rw [booleanValue_eq_none_iff.mpr hnot] at hlink
    cases hlink
  cases link with
  | true =>
    have hset := booleanValue_eq_some_true_iff.mp hlink
    simp [hset, hboolean]
  | false =>
    have hunset : ¬IsSet entry "link" := by
      rw [← booleanValue_eq_some_true_iff, hlink]
      simp
    simp only [hboolean, hunset, true_and, not_false_eq_true,
      forall_true_left, NamesPackage]
    rcases entry.findString? "version" with _ | version
    · simp
    · by_cases hname : packageNameFromKey (utf8Text packagesKey) = []
      · simp [hname]
      · simp [hname, component?, booleanValue_eq_none_iff]

/-! ## Documents -/

section Documents

variable (parseJson : List UInt8 → Option Json)

/-- The entries of the packages map, where the parser comes to them. -/
def packagesOf (bytes : List UInt8) : List (String × Json) :=
  let jsonBytes := withoutUtf8Bom bytes
  if JsonUtils.exceedsJsonNestingDepth jsonBytes maxJsonNestingDepth then []
  else
    match (parseJson jsonBytes).filter Json.isObject with
    | none => []
    | some lockfile =>
      if lockfileVersion lockfile < minSupportedLockfileVersion then []
      else
        match lockfile.find? "packages" with
        | some (.object packages) => packages
        | _ => []

/-- The parser returns on the document whatever state it meets it in and, when
the budget is not exhausted, adds for each entry of the packages map what that
entry alone decides. -/
def Survives (label : String) (bytes : List UInt8) : Prop :=
  ∀ (limit : Nat) (state : ParseState), ∃ behind,
      parseManifest "npm" limit (packageLock parseJson label bytes) state =
          some behind ∧
        ((packagesOf parseJson bytes).length ≤ state.packageBudget →
          behind.emitted =
            state.emitted ++ (packagesOf parseJson bytes).filterMap
              fun (packagesKey, entry) =>
                entryEmission? label packagesKey entry)

variable {parseJson}

theorem packageLock_entries (label : String) (bytes : List UInt8) :
    (packageLock parseJson label bytes).entries =
        (packagesOf parseJson bytes).map (fun (packagesKey, entry) =>
          { outcome := readEntry label packagesKey entry }) ∧
      (packageLock parseJson label bytes).ownIdentity = none := by
  rw [packageLock, packagesOf]
  dsimp only
  by_cases hdepth : JsonUtils.exceedsJsonNestingDepth
      (withoutUtf8Bom bytes) maxJsonNestingDepth = true
  · simp [hdepth]
  rcases hlockfile : (parseJson (withoutUtf8Bom bytes)).filter Json.isObject
    with _ | lockfile
  · simp [hdepth]
  by_cases hversion : lockfileVersion lockfile < minSupportedLockfileVersion
  · simp [hdepth, hversion]
  simp only [hdepth, hversion, if_false, Bool.false_eq_true]
  rcases lockfile.find? "packages" with _ | packages
  · exact ⟨rfl, rfl⟩
  · cases packages <;> exact ⟨rfl, rfl⟩

/-- A run that the budget does not end comes to every entry. -/
theorem isSurvivable_of_survives {label : String} {bytes : List UInt8}
    (hsurvives : Survives parseJson label bytes) :
    ∀ entry ∈ packagesOf parseJson bytes, IsSurvivable entry.1 entry.2 := by
  have hentries := (@packageLock_entries parseJson label bytes).1
  have hown := (@packageLock_entries parseJson label bytes).2
  intro entry hentry
  by_contra hnot
  -- A budget of one package for each entry brings the loop to this one.
  obtain ⟨behind, hparse, -⟩ := hsurvives 0
    { packageBudget := (packagesOf parseJson bytes).length }
  have hthrows := (throws_readEntry_iff label entry.1 entry.2).mpr hnot
  have hmem : ({ outcome := readEntry label entry.1 entry.2 } : Reading) ∈
      (packageLock parseJson label bytes).entries := by
    rw [hentries]
    exact List.mem_map.mpr ⟨entry, hentry, rfl⟩
  rw [parseManifest, hown] at hparse
  have hnone := @parseEntries_eq_none "npm" 0 _ _ hmem hthrows
    (ParseState.absorb
      { packageBudget := (packagesOf parseJson bytes).length }
      (packageLock parseJson label bytes).warnings)
    (by rw [hentries, List.length_map]; exact le_refl _) []
  rw [hnone] at hparse
  cases hparse

theorem survives_of_isSurvivable (label : String) {bytes : List UInt8}
    (hsurvivable : ∀ entry ∈ packagesOf parseJson bytes,
      IsSurvivable entry.1 entry.2) : Survives parseJson label bytes := by
  have hentries := (@packageLock_entries parseJson label bytes).1
  have hown := (@packageLock_entries parseJson label bytes).2
  intro limit state
  have hthrows : ∀ reading ∈ (packageLock parseJson label bytes).entries,
      ¬reading.Throws := by
    rw [hentries]
    intro reading hreading
    obtain ⟨entry, hentry, rfl⟩ := List.mem_map.mp hreading
    rw [throws_readEntry_iff, not_not]
    exact hsurvivable entry hentry
  by_cases hbudget :
      (packagesOf parseJson bytes).length ≤ state.packageBudget
  · have hlength : (packageLock parseJson label bytes).entries.length ≤
        state.packageBudget := by
      rw [hentries, List.length_map]
      exact hbudget
    obtain ⟨behind, -, hparse, hemitted, -⟩ :=
      @parseManifest_of_budget "npm" limit _ hown hthrows _ hlength
    refine ⟨behind, hparse, fun _ => ?_⟩
    rw [hemitted, hentries, List.filterMap_map]
    rfl
  · obtain ⟨loop, hloop⟩ := @exists_parseEntries "npm" limit _ hthrows
      (state.absorb (packageLock parseJson label bytes).warnings) []
    exact ⟨_, by rw [parseManifest, hown, hloop]; rfl,
      fun h => absurd h hbudget⟩

/-- The parser survives a document exactly when every entry of its packages map
has booleans where it reads booleans. -/
theorem survives_iff (parseJson : List UInt8 → Option Json) (label : String)
    (bytes : List UInt8) :
    Survives parseJson label bytes ↔
      ∀ entry ∈ packagesOf parseJson bytes,
        IsSurvivable entry.1 entry.2 :=
  ⟨isSurvivable_of_survives, survives_of_isSurvivable label⟩

/-- A lockfile whose only package has a `link` member without a value. -/
theorem not_survives :
    ¬Survives
      (fun _ => some (.object
        [("lockfileVersion", .integer 3),
          ("packages", .object
            [("node_modules/a", .object
              [("link", .null), ("version", .string "1.0")])])]))
      "package-lock.json"
      ("\x7b\"lockfileVersion\":3,\"packages\":\x7b\"node_modules/a\":\x7b".toList ++
        "\"link\":null,\"version\":\"1.0\"\x7d\x7d\x7d".toList |>.map
          Char.toUInt8) := by
  intro hsurvives
  obtain ⟨hlink, -⟩ := isSurvivable_of_survives hsurvives
    ("node_modules/a", .object [("link", .null), ("version", .string "1.0")])
    (by
      rw [packagesOf]
      -- The text is not nested too deeply.
      rw [show JsonUtils.exceedsJsonNestingDepth _ maxJsonNestingDepth = false
        from by decide +kernel]
      exact List.mem_singleton.mpr rfl)
    (by decide) rfl
  obtain ⟨flag, hflag⟩ := hlink .null rfl
  cases hflag

end Documents
end Bomwerk.Lockfiles.Npm
