import Bomwerk.Lockfiles.Readings
import Mathlib.Data.List.Forall2

/-!
# Well-identified components

Every component that python, package-lock.json, yarn.lock and pnpm-lock.yaml
return is well identified, but for the names that leave nothing behind: a
scope alone, and a PyPI name of separators only.
-/

namespace Bomwerk.Lockfiles

open Bomwerk.Core

/-- The producers of registry packages. -/
inductive RegistryKind
  | python
  | packageLock
  | yarn
  | pnpm
  deriving DecidableEq, Repr

section Kinds

variable (parseJson : List UInt8 → Option Json)
  (parseToml : List UInt8 → Option Toml)

def registryProducer : RegistryKind → Producer
  | .python => Python.producer parseToml
  | .packageLock => Npm.producer parseJson
  | .yarn => Yarn.producer
  | .pnpm => Pnpm.producer

/-- The names as a file spells them, one for each valid entry.  The npm family
keeps a name as it is spelled; python normalizes it. -/
def spelledNames (kind : RegistryKind) (path : FsPath) (bytes : List UInt8) :
    List (List Char) :=
  match kind with
  | .python =>
    ((Python.fileEntries parseToml path bytes).getD []).filterMap
      Python.Entry.declaredName?
  | kind =>
    (validEntries ((registryProducer parseJson parseToml kind).manifest path
      bytes).entries).map fun entry =>
        (entry.map fun component => component.name.toList).getD []

/-- A name that a package can have, as far as its purl goes. -/
def IsPackageName : RegistryKind → List Char → Prop
  | .python, declaredName => NamesProject declaredName
  | _, packageName => ¬ IsScopeAlone packageName

theorem isUnlimited_registryProducer (kind : RegistryKind) :
    (registryProducer parseJson parseToml kind).IsUnlimited := by
  cases kind with
  | python => exact Python.isUnlimited_producer
  | packageLock =>
    exact fun path bytes => Npm.isUnlimited_packageLock parseJson _ bytes
  | yarn => exact Yarn.isUnlimited_producer
  | pnpm => exact Pnpm.isUnlimited_producer

theorem hasNoOwnIdentity_registryProducer (kind : RegistryKind) :
    (registryProducer parseJson parseToml kind).HasNoOwnIdentity := by
  cases kind with
  | python => exact Python.hasNoOwnIdentity_producer
  | packageLock => exact Npm.hasNoOwnIdentity_producer parseJson
  | yarn => exact Yarn.hasNoOwnIdentity_producer
  | pnpm => exact Pnpm.hasNoOwnIdentity_producer

end Kinds

/-! ## Names and entries -/

/-- The entry is put together from parts, and well identified exactly where its
name is one. -/
def SpelledAs (kind : RegistryKind) (name : List Char)
    (entry : Option Component) : Prop :=
  ∀ component ∈ entry, (∃ parts, Carries component parts) ∧
    (IsWellIdentified component ↔ IsPackageName kind name)

theorem reference_of_mem_validEntries {readings : List Reading}
    (hreadings : ∀ reading ∈ readings, IsNpmReading reading) :
    ∀ entry ∈ validEntries readings, ∀ component ∈ entry, ∃ packageName version,
        IsNpmReference component packageName version := by
  intro entry hentry component hcomponent
  obtain ⟨reading, hreading, hvalid⟩ := List.mem_filterMap.mp hentry
  unfold Reading.validEntry? at hvalid
  split at hvalid
  · rename_i component? houtcome
    obtain rfl := Option.some.inj hvalid
    obtain ⟨original, horiginal, rfl⟩ := Option.mem_map.mp hcomponent
    obtain ⟨packageName, version, href⟩ :=
      (hreadings reading hreading).reference component? houtcome original
        horiginal
    rw [href.carries.canonicalized_eq]
    exact ⟨packageName, version, href⟩
  · simp at hvalid

theorem forall₂_spelledAs_npm {kind : RegistryKind} (hkind : kind ≠ .python)
    {readings : List Reading}
    (hreadings : ∀ reading ∈ readings, IsNpmReading reading) :
    List.Forall₂ (SpelledAs kind)
      ((validEntries readings).map fun entry =>
        (entry.map fun component => component.name.toList).getD [])
      (validEntries readings) := by
  rw [List.forall₂_map_left_iff, List.forall₂_same]
  intro entry hentry component hcomponent
  obtain ⟨packageName, version, href⟩ :=
    reference_of_mem_validEntries hreadings entry hentry component hcomponent
  obtain rfl := Option.mem_def.mp hcomponent
  refine ⟨⟨_, href.carries⟩, ?_⟩
  have hname : IsPackageName kind packageName = ¬ IsScopeAlone packageName := by
    cases kind with
    | python => exact absurd rfl hkind
    | packageLock => rfl
    | yarn => rfl
    | pnpm => rfl
  rw [Option.map_some, Option.getD_some, href.name, String.toList_ofList,
    hname, href.isWellIdentified_iff]

theorem forall₂_spelledAs_python {entries : List Python.Entry}
    (hentries : ∀ entry ∈ entries, entry.IsByteText) (label : String) :
    List.Forall₂ (SpelledAs .python)
      (entries.filterMap Python.Entry.declaredName?)
      (validEntries (entries.map fun entry =>
        { outcome := entry.outcome label })) := by
  induction entries with
  | nil => exact .nil
  | cons entry entries ih =>
    rw [List.forall_mem_cons] at hentries
    cases entry with
    | ignored => exact ih hentries.2
    | skipped reason => exact ih hentries.2
    | package declared =>
      have hdeclared := hentries.1 declared rfl
      have hcarries := Python.Package.carries hdeclared label
      refine .cons ?_ (ih hentries.2)
      intro component hcomponent
      obtain rfl := Option.some.inj hcomponent
      rw [hcarries.canonicalized_eq]
      exact ⟨⟨_, hcarries⟩, Python.Package.isWellIdentified_iff hdeclared label⟩

section Run

variable (parseJson : List UInt8 → Option Json)
  (parseToml : List UInt8 → Option Toml) (kind : RegistryKind)
  (options : ParseOptions) (contents : FsPath → Option (List UInt8))
  (files : List FsPath)

/-- The names of one file go with its entries. -/
theorem forall₂_spelledAs (path : FsPath) (bytes : List UInt8) :
    List.Forall₂ (SpelledAs kind)
      (spelledNames parseJson parseToml kind path bytes)
      (validEntries ((registryProducer parseJson parseToml kind).manifest path
        bytes).entries) := by
  cases kind with
  | python =>
    simp only [spelledNames, registryProducer, Python.producer, Python.manifest]
    cases hentries : Python.fileEntries parseToml path bytes with
    | none => exact .nil
    | some entries =>
      exact forall₂_spelledAs_python
        (Python.Entry.isByteText_of_mem_fileEntries hentries) _
  | packageLock =>
    exact forall₂_spelledAs_npm (by decide)
      Npm.isNpmReading_of_mem_packageLock
  | yarn =>
    exact forall₂_spelledAs_npm (by decide) Yarn.isNpmReading_of_mem_manifest
  | pnpm =>
    exact forall₂_spelledAs_npm (by decide) Pnpm.isNpmReading_of_mem_manifest

/-- The names of the files within the file limit, as far as the size limit lets
them be read. -/
def admittedNames : List (List Char) :=
  (admittedFiles (registryProducer parseJson parseToml kind) options
    files).flatMap fun path =>
      match parsedBytes (registryProducer parseJson parseToml kind) options
          contents path with
      | none => []
      | some bytes => spelledNames parseJson parseToml kind path bytes

theorem forall₂_admittedNames :
    List.Forall₂ (SpelledAs kind)
      (admittedNames parseJson parseToml kind options contents files)
      (validEntries (admittedReadings
        (registryProducer parseJson parseToml kind) options contents
          files)) := by
  unfold admittedNames admittedReadings readingsOfFiles
  induction admittedFiles (registryProducer parseJson parseToml kind) options
      files with
  | nil => exact .nil
  | cons path files ih =>
    rw [List.flatMap_cons, List.flatMap_cons, validEntries_append]
    refine List.rel_append ?_ ih
    unfold readingsOf
    cases parsedBytes (registryProducer parseJson parseToml kind) options
        contents path with
    | none => exact .nil
    | some bytes => exact forall₂_spelledAs parseJson parseToml kind path bytes

/-- Every component that a run returns is well identified. -/
def IdentitiesHold (producer : Producer) (options : ParseOptions)
    (contents : FsPath → Option (List UInt8)) (files : List FsPath) : Prop :=
  ∀ result, parse producer options contents files = some result →
    ∀ component ∈ result.value, IsWellIdentified component

theorem forall_iff_of_forall₂ {α β : Type*} {r : α → β → Prop}
    {p : α → Prop} {q : β → Prop} (h : ∀ a b, r a b → (q b ↔ p a))
    {left : List α} {right : List β} (hrel : List.Forall₂ r left right) :
    (∀ b ∈ right, q b) ↔ ∀ a ∈ left, p a := by
  induction hrel with
  | nil => simp
  | cons hab _ ih =>
    rw [List.forall_mem_cons, List.forall_mem_cons, h _ _ hab, ih]

/-- What a run returns is well identified exactly where the JSON library throws
or each name within the limits is one that a package can have. -/
theorem identitiesHold_iff :
    IdentitiesHold (registryProducer parseJson parseToml kind) options contents
        files ↔
      throwsWithin options.maxTotalPackages (admittedReadings
          (registryProducer parseJson parseToml kind) options contents
            files) = true ∨
        ∀ name ∈ (admittedNames parseJson parseToml kind options contents
            files).take options.maxTotalPackages,
          IsPackageName kind name := by
  have hunlimited := isUnlimited_registryProducer parseJson parseToml kind
  have hown := hasNoOwnIdentity_registryProducer parseJson parseToml kind
  obtain ⟨hnone, hsome⟩ := @parseUnmerged_spec
    (registryProducer parseJson parseToml kind) options contents files
      hunlimited
  cases hstate : parseUnmerged (registryProducer parseJson parseToml kind)
      options contents files with
  | none =>
    refine iff_of_true ?_ (.inl (hnone.mp hstate))
    intro result hresult
    simp [parse, hstate] at hresult
  | some state =>
    have hreturns : ¬ throwsWithin options.maxTotalPackages
        (admittedReadings (registryProducer parseJson parseToml kind) options
          contents files) = true := by
      rw [← hnone, hstate]
      simp
    have hemitted := emitted_parseUnmerged hunlimited hown hstate
    have hnames : List.Forall₂ (fun name component =>
        SpelledAs kind name (some component))
        ((admittedNames parseJson parseToml kind options contents
          files).take options.maxTotalPackages)
        (state.emitted.map Emission.component) := by
      rw [← List.forall₂_map_right_iff, hemitted]
      exact List.forall₂_take _
        (forall₂_admittedNames parseJson parseToml kind options contents
          files)
    have hcarried : ∀ component ∈ state.emitted.map Emission.component,
        ∃ parts, Carries component parts :=
      (forall_iff_of_forall₂ (p := fun _ => True)
        (fun _ _ h => iff_true_intro (h _ rfl).1) hnames).mpr
          fun _ _ => trivial
    have hvalue : IdentitiesHold (registryProducer parseJson parseToml kind)
        options contents files ↔
          ∀ component ∈ mergeAll (state.emitted.map Emission.component),
            IsWellIdentified component := by
      simp [IdentitiesHold, parse, hstate]
    rw [hvalue, forall_mem_mergeAll_iff hcarried,
      or_iff_right hreturns]
    exact forall_iff_of_forall₂ (fun _ _ h => (h _ rfl).2) hnames

end Run

/-- A requirements file whose one name normalizes to nothing. -/
theorem not_identitiesHold_separators :
    ¬ IdentitiesHold (registryProducer (fun _ => none) (fun _ => none) .python)
      {} (fun _ => some ("_==1.0".toList.map Char.toUInt8))
      [.ofString "requirements.txt"] := by
  intro hholds
  have hrun : (parse (registryProducer (fun _ => none) (fun _ => none) .python)
      {} (fun _ => some ("_==1.0".toList.map Char.toUInt8))
      [.ofString "requirements.txt"]).map (fun result =>
        result.value.map Component.name) = some [""] := by
    decide +kernel
  cases hparse : parse (registryProducer (fun _ => none) (fun _ => none)
      .python) {} (fun _ => some ("_==1.0".toList.map Char.toUInt8))
      [.ofString "requirements.txt"] with
  | none =>
    rw [hparse] at hrun
    simp at hrun
  | some result =>
    rw [hparse, Option.map_some, Option.some.injEq] at hrun
    cases hvalue : result.value with
    | nil => simp [hvalue] at hrun
    | cons component rest =>
      rw [hvalue, List.map_cons, List.cons.injEq] at hrun
      exact (hholds result hparse component (by simp [hvalue])).name hrun.1

end Bomwerk.Lockfiles
