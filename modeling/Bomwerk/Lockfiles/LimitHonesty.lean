import Bomwerk.Lockfiles.Limits

/-!
# Honest limits

The package limit is applied and reported as it should be.  The limits on the
number and the size of files warn, but leave `complete` as it is.
-/

namespace Bomwerk.Lockfiles

open Bomwerk.Core

theorem unlimited_nil : Unlimited [] := by
  simp [Unlimited]

theorem unlimited_singleton {warning : Warning}
    (hcode : isLimitCode warning.code = false) : Unlimited [warning] := by
  simpa [Unlimited] using hcode

theorem Npm.isUnlimited_packageLock (parseJson : List UInt8 → Option Json)
    (label : String) (bytes : List UInt8) :
    (Npm.packageLock parseJson label bytes).IsUnlimited := by
  have hfailed : ∀ (code : WarningCode) (message : String),
      isLimitCode code = false →
        Manifest.IsUnlimited { warnings := [Npm.warning code message] } := by
    intro code message hcode
    exact ⟨unlimited_singleton hcode, by simp, fun _ _ => unlimited_nil⟩
  simp only [Npm.packageLock]
  split
  · exact hfailed _ _ rfl
  split
  · exact hfailed _ _ rfl
  split
  · exact hfailed _ _ rfl
  split
  · refine ⟨unlimited_nil, ?_, ?_⟩
    · intro reading hreading
      obtain ⟨entry, -, rfl⟩ := List.mem_map.mp hreading
      exact unlimited_nil
    · intro _ skipped
      dsimp only
      split
      · exact unlimited_nil
      · exact unlimited_singleton rfl
  · exact hfailed _ _ rfl

theorem Maven.unlimited_readDependency (label : String)
    (properties : Maven.Properties) (line : Nat) (body : List Char) :
    Unlimited (Maven.readDependency label properties line body).warnings := by
  simp only [Maven.readDependency]
  split
  · exact unlimited_nil
  split
  · exact unlimited_singleton rfl
  split
  · exact unlimited_nil
  · dsimp only
    split
    · exact unlimited_nil
    · exact unlimited_singleton rfl

theorem unlimited_append {left right : List Warning} (hleft : Unlimited left)
    (hright : Unlimited right) : Unlimited (left ++ right) := by
  intro warning hwarning
  rcases List.mem_append.mp hwarning with h | h
  · exact hleft warning h
  · exact hright warning h

theorem Maven.isUnlimited_pomManifest (label : String) (bytes : List UInt8) :
    (Maven.pomManifest label bytes).IsUnlimited := by
  refine ⟨?_, ?_, ?_⟩
  · simp only [Maven.pomManifest]
    split
    · exact unlimited_nil
    · exact unlimited_singleton rfl
  · intro reading hreading
    obtain ⟨⟨line, body⟩, -, rfl⟩ := List.mem_map.mp hreading
    exact Maven.unlimited_readDependency _ _ _ _
  · intro _ skipped
    simp only [Maven.pomManifest, Maven.pomSummary]
    apply unlimited_append
    · split
      · exact unlimited_nil
      · exact unlimited_singleton rfl
    · split
      · exact unlimited_nil
      · exact unlimited_singleton rfl

theorem Maven.isUnlimited_gradleManifest (label : String)
    (bytes : List UInt8) : (Maven.gradleManifest label bytes).IsUnlimited := by
  refine ⟨unlimited_nil, ?_, ?_⟩
  · intro reading hreading
    obtain ⟨line, -, rfl⟩ := List.mem_map.mp hreading
    exact unlimited_nil
  · intro _ skipped
    simp only [Maven.gradleManifest]
    split
    · exact unlimited_nil
    · exact unlimited_singleton rfl

/-! ## The claim about limits -/

/-- The producers that share one package budget over their files. -/
inductive LockfileKind
  | packageLock
  | maven
  deriving DecidableEq, Repr

def producerOf (parseJson : List UInt8 → Option Json) :
    LockfileKind → Producer
  | .packageLock => Npm.producer parseJson
  | .maven => Maven.producer

theorem isUnlimited_producerOf (parseJson : List UInt8 → Option Json)
    (kind : LockfileKind) : (producerOf parseJson kind).IsUnlimited := by
  intro path bytes
  cases kind with
  | packageLock => exact Npm.isUnlimited_packageLock parseJson _ bytes
  | maven =>
    simp only [producerOf, Maven.producer]
    split
    · exact Maven.isUnlimited_pomManifest _ bytes
    · exact Maven.isUnlimited_gradleManifest _ bytes

section Honesty

variable (producer : Producer) (options : ParseOptions)
  (contents : FsPath → Option (List UInt8)) (files : List FsPath)

def admittedFiles : List FsPath :=
  openedFiles producer files options.maxScannedFiles

/-- The entries of the files within the file limit, as far as the size limit
lets them be read. -/
def admittedReadings : List Reading :=
  readingsOfFiles producer options contents
    (admittedFiles producer options files)

/-- The package limit leaves an entry out. -/
def PackageLimitCuts : Prop :=
  options.maxTotalPackages <
    (validEntries (admittedReadings producer options contents files)).length

def FileLimitCuts : Prop :=
  options.maxScannedFiles < (files.filter producer.accepts).length

/-- The size limit leaves out a file, or an entry of one. -/
def SizeLimitCuts : Prop :=
  ∃ path ∈ admittedFiles producer options files, ∃ bytes,
    contents path = some bytes ∧ options.maxFileBytes < bytes.length ∧
      (producer.keepsFirstPart path = false ∨
        validEntries (producer.manifest path bytes).entries ≠
          validEntries (readingsOf producer options contents path))

/-- The run returns; the first entries within the package limit are emitted;
each limit is reported only where it cuts, the package limit at most once; and
the result is incomplete exactly where a limit has left something out. -/
def LimitsHonest : Prop :=
  ∃ state, parseUnmerged producer options contents files = some state ∧
    state.dependencies.map some =
      (validEntries (admittedReadings producer options contents files)).take
        options.maxTotalPackages ∧
    (Warns state.warnings .entryLimitReached →
      PackageLimitCuts producer options contents files) ∧
    (Warns state.warnings .fileLimitReached →
      FileLimitCuts producer options files) ∧
    (Warns state.warnings .fileSizeLimitExceeded →
      ∃ path ∈ admittedFiles producer options files,
        IsOversized options contents path) ∧
    countLimitWarnings state.warnings ≤ 1 ∧
    (state.complete = false ↔ PackageLimitCuts producer options contents files ∨
        FileLimitCuts producer options files ∨
        SizeLimitCuts producer options contents files)

variable {producer options contents files}

/-- What a run makes of its files, and when it throws. -/
theorem parseUnmerged_spec (hproducer : producer.IsUnlimited) :
    (parseUnmerged producer options contents files = none ↔
      throwsWithin options.maxTotalPackages
        (admittedReadings producer options contents files) = true) ∧
    ∀ state, parseUnmerged producer options contents files = some state →
      FilesParsed producer options contents files options.maxScannedFiles []
        { packageBudget := options.maxTotalPackages } state := by
  have hstart : Accounted options.maxTotalPackages []
      { packageBudget := options.maxTotalPackages } := by
    constructor <;> simp [ParseState.dependencies, countLimitWarnings]
  obtain ⟨hnone, hsome⟩ := @parseFiles_spec producer options contents []
    { packageBudget := options.maxTotalPackages } hproducer files 0 hstart
  rw [Nat.sub_zero] at hsome hnone
  refine ⟨?_, hsome⟩
  rw [parseUnmerged, hnone]
  simp [admittedReadings, admittedFiles]

theorem warns_entryLimitReached_iff {warnings : List Warning} :
    Warns warnings .entryLimitReached ↔ 0 < countLimitWarnings warnings := by
  simp [Warns, countLimitWarnings, List.countP_pos_iff]

theorem limitsHonest_iff_of_isUnlimited (hproducer : producer.IsUnlimited) :
    LimitsHonest producer options contents files ↔
      throwsWithin options.maxTotalPackages
        (admittedReadings producer options contents files) = false ∧
      (PackageLimitCuts producer options contents files ∨
        ¬ (FileLimitCuts producer options files ∨
          SizeLimitCuts producer options contents files)) := by
  obtain ⟨hnone, hsome⟩ := @parseUnmerged_spec producer options contents files
    hproducer
  constructor
  · rintro ⟨state, hstate, -, -, -, -, -, hcomplete⟩
    have hparsed : Accounted options.maxTotalPackages (validEntries
        (admittedReadings producer options contents files)) state :=
      (hsome state hstate).accounted
    have hreturns : throwsWithin options.maxTotalPackages
        (admittedReadings producer options contents files) ≠ true := by
      rw [ne_eq, ← hnone, hstate]
      simp
    refine ⟨by simpa using hreturns, ?_⟩
    by_contra hcut
    obtain ⟨hpackages, hfiles⟩ := not_or.mp hcut
    have hincomplete := hcomplete.mpr (.inr (not_not.mp hfiles))
    rw [hparsed.complete, decide_eq_false_iff_not] at hincomplete
    exact hpackages (Nat.lt_of_not_le hincomplete)
  · rintro ⟨hreturns, hcut⟩
    obtain ⟨state, hstate⟩ : ∃ state,
        parseUnmerged producer options contents files = some state := by
      cases hrun : parseUnmerged producer options contents files with
      | none =>
        rw [hnone, hreturns] at hrun
        exact absurd hrun (by simp)
      | some state => exact ⟨state, rfl⟩
    obtain ⟨haccounted, hfileLimit, hsizeLimit⟩ := hsome state hstate
    have hparsed : Accounted options.maxTotalPackages (validEntries
        (admittedReadings producer options contents files)) state := haccounted
    have hpackages : state.complete = false ↔
        PackageLimitCuts producer options contents files := by
      rw [hparsed.complete, decide_eq_false_iff_not, not_le]
      rfl
    refine ⟨state, hstate, hparsed.dependencies, ?_, ?_, ?_, ?_, ?_⟩
    · rw [warns_entryLimitReached_iff, hparsed.limitWarnings]
      intro hpos
      by_contra hcuts
      rw [if_pos (Nat.le_of_not_lt hcuts)] at hpos
      exact absurd hpos (by simp)
    · rintro ⟨warning, hwarning, hcode⟩
      rcases hfileLimit warning hwarning hcode with h | h
      · simp at h
      · exact h
    · rintro ⟨warning, hwarning, hcode⟩
      rcases hsizeLimit warning hwarning hcode with h | h
      · simp at h
      · exact h
    · rw [hparsed.limitWarnings]
      split <;> omega
    · rw [hpackages]
      constructor
      · exact .inl
      · rintro (h | h)
        · exact h
        · exact hcut.resolve_right (not_not.mpr h)

end Honesty

def leftPadLock : Json :=
  .object [("lockfileVersion", .integer 3),
    ("packages", .object [("node_modules/left-pad",
      .object [("version", .string "1.3.0")])])]

def leftPadText : List UInt8 :=
  ("\x7b\"lockfileVersion\":3,\"packages\":\x7b\"node_modules/left-pad\":" ++
    "\x7b\"version\":\"1.3.0\"\x7d\x7d\x7d").toList.map Char.toUInt8

/-- A reading of JSON that knows the one text. -/
def readLeftPad (bytes : List UInt8) : Option Json :=
  if bytes = leftPadText then some leftPadLock else none

end Bomwerk.Lockfiles
