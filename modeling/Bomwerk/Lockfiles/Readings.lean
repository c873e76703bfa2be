import Bomwerk.Lockfiles.References

/-!
# What the producers read

The entries that package-lock.json, yarn.lock, pnpm-lock.yaml and the files of
python yield: each one leaves the limits to the loops, and a valid one holds a
reference to a package, cut out of the bytes of its file.
-/

namespace Bomwerk.Lockfiles

open Bomwerk.Core

/-! ## Entries of the npm family -/

/-- An entry that leaves the limits to the loops and, when it is valid, refers
to a package. -/
structure IsNpmReading (reading : Reading) : Prop where
  unlimited : Unlimited reading.warnings
  reference : ∀ component?, reading.outcome = .valid component? →
    ∀ component ∈ component?, ∃ packageName version,
      IsNpmReference component packageName version

theorem isNpmReading_of_not_valid {outcome : Outcome}
    (houtcome : ∀ component?, outcome ≠ .valid component?) :
    IsNpmReading { outcome := outcome } where
  unlimited := unlimited_nil
  reference component? h := absurd h (houtcome component?)

theorem isNpmReading_skipped (reason : SkipReason) :
    IsNpmReading { outcome := .skipped reason } :=
  isNpmReading_of_not_valid (by simp)

namespace Npm

theorem isNpmReference_of_mem_component? {label : String}
    {packageName version : List Char} {entry : Json} {component : Component}
    (hne : packageName ≠ []) (hname : IsByteText packageName)
    (hversion : IsByteText version)
    (hmem : component ∈ component? label packageName version entry) :
    IsNpmReference component packageName version := by
  obtain ⟨dev, -, rfl⟩ := Option.map_eq_some_iff.mp hmem
  exact ⟨hne, hname, hversion, rfl, rfl, rfl⟩

theorem behindLast?_subset {pattern text behind : List Char}
    (hbehind : behindLast? pattern text = some behind) : behind ⊆ text := by
  induction text with
  | nil =>
    simp only [behindLast?] at hbehind
    split_ifs at hbehind
    obtain rfl := Option.some.inj hbehind
    exact List.Subset.refl _
  | cons c text ih =>
    simp only [behindLast?] at hbehind
    split at hbehind
    · rename_i later hlater
      obtain rfl := Option.some.inj hbehind
      exact List.Subset.trans (ih hlater) (List.subset_cons_self _ _)
    · split_ifs at hbehind
      obtain rfl := Option.some.inj hbehind
      exact List.drop_subset _ _

theorem isByteText_packageNameFromKey {packagesKey : List Char}
    (hkey : IsByteText packagesKey) :
    IsByteText (packageNameFromKey packagesKey) := by
  rw [packageNameFromKey]
  cases hbehind : behindLast? nodeModulesSegment packagesKey with
  | none => exact isByteText_nil
  | some behind => exact hkey.mono (behindLast?_subset hbehind)

theorem isNpmReading_readEntry (label packagesKey : String) (entry : Json) :
    IsNpmReading { outcome := readEntry label packagesKey entry } := by
  refine ⟨unlimited_nil, ?_⟩
  intro component? houtcome component hmem
  simp only [readEntry] at houtcome
  split_ifs at houtcome with hkey hobject hne
  · split at houtcome
    · simp at houtcome
    · simp at houtcome
    split at houtcome
    · simp at houtcome
    · simp at houtcome
  · split at houtcome
    · simp at houtcome
    · simp at houtcome
    split at houtcome
    · simp at houtcome
    rename_i version _
    obtain rfl := Outcome.valid.inj houtcome
    exact ⟨_, _, isNpmReference_of_mem_component? hne
      (isByteText_packageNameFromKey (isByteText_utf8Text packagesKey))
      (isByteText_utf8Text version).trimmed hmem⟩

theorem isNpmReading_of_mem_packageLock
    {parseJson : List UInt8 → Option Json} {label : String}
    {bytes : List UInt8} :
    ∀ reading ∈ (packageLock parseJson label bytes).entries,
      IsNpmReading reading := by
  intro reading hreading
  simp only [packageLock] at hreading
  split at hreading
  · simp at hreading
  split at hreading
  · simp at hreading
  split at hreading
  · simp at hreading
  split at hreading
  · obtain ⟨⟨packagesKey, entry⟩, -, rfl⟩ := List.mem_map.mp hreading
    exact isNpmReading_readEntry label packagesKey entry
  · simp at hreading

theorem hasNoOwnIdentity_producer (parseJson : List UInt8 → Option Json) :
    (producer parseJson).HasNoOwnIdentity := by
  intro path bytes
  simp only [producer, packageLock]
  split
  · rfl
  split
  · rfl
  split
  · rfl
  split
  · rfl
  · rfl

end Npm

/-! ## yarn.lock -/

namespace Yarn

theorem percentEncodePurlNamespace_of_notMem {text : List Char}
    (htext : '/' ∉ text) :
    percentEncodePurlNamespace text = percentEncodeText text := by
  rw [percentEncodePurlNamespace, List.splitOn_eq_singleton htext]
  simp

theorem buildNpmPurl_eq (packageName version : List Char) :
    buildNpmPurl packageName version =
      Npm.buildNpmPurl packageName version := by
  have hscope : '/' ∉ packageName.takeWhile (· ≠ '/') := by
    intro hmem
    exact absurd (List.mem_takeWhile_imp hmem) (by simp)
  unfold buildNpmPurl Npm.buildNpmPurl Npm.npmPurl
  rw [percentEncodePurlNamespace_of_notMem hscope]

theorem isNpmReference_npmComponent {packageName version : List Char}
    (hne : packageName ≠ []) (hname : IsByteText packageName)
    (hversion : IsByteText version) (detail : String) :
    IsNpmReference (npmComponent packageName version detail) packageName
      version where
  packageName_ne_nil := hne
  isByteText_packageName := hname
  isByteText_version := hversion
  purl := by
    rw [← buildNpmPurl_eq]
    rfl
  name := rfl
  version := rfl

theorem isNpmReading_npmComponent {packageName version : List Char}
    (hne : packageName ≠ []) (hname : IsByteText packageName)
    (hversion : IsByteText version) (detail : String) :
    IsNpmReading
      { outcome := .valid (some (npmComponent packageName version detail)) } := by
  refine ⟨unlimited_nil, ?_⟩
  intro component? houtcome component hmem
  obtain rfl := Outcome.valid.inj houtcome
  obtain rfl := Option.some.inj hmem
  exact ⟨_, _, isNpmReference_npmComponent hne hname hversion detail⟩

structure IsByteLocator (locator : Locator) : Prop where
  packageName_ne_nil : locator.packageName ≠ []
  packageName : IsByteText locator.packageName
  selector : IsByteText locator.selector

theorem isByteLocator_splitLocatorFrom {name text : List Char}
    {locator : Locator} (hne : name ≠ []) (hname : IsByteText name)
    (htext : IsByteText text)
    (hlocator : splitLocatorFrom name text = some locator) :
    IsByteLocator locator := by
  induction text generalizing name with
  | nil => simp [splitLocatorFrom] at hlocator
  | cons c rest ih =>
    have hrest : IsByteText rest := htext.tail
    have hmore : IsByteText (name ++ [c]) :=
      hname.append (htext.mono (by simp))
    rw [splitLocatorFrom.eq_def] at hlocator
    dsimp only at hlocator
    split at hlocator
    · rename_i selector hselector
      split_ifs at hlocator
      · obtain rfl := Option.some.inj hlocator
        have htail : IsByteText (':' :: selector) :=
          hselector ▸ hrest.dropWhile _
        exact ⟨hne, hname, htail.tail⟩
      · exact ih (by simp) hmore hrest hlocator
    · exact ih (by simp) hmore hrest hlocator

theorem isByteLocator_splitLocator {text : List Char} {locator : Locator}
    (htext : IsByteText text) (hlocator : splitLocator text = some locator) :
    IsByteLocator locator := by
  cases text with
  | nil => simp [splitLocator] at hlocator
  | cons c rest =>
    exact isByteLocator_splitLocatorFrom (by simp) (htext.mono (by simp))
      htext.tail hlocator

theorem isNpmReading_locatorOutcome {locator : Locator}
    (hlocator : IsByteLocator locator) (label : String)
    (patchNote : List Char) :
    IsNpmReading { outcome := locatorOutcome label locator patchNote } := by
  unfold locatorOutcome
  split_ifs
  · exact isNpmReading_of_not_valid (by simp)
  · exact isNpmReading_skipped _
  · exact isNpmReading_skipped _
  · exact isNpmReading_npmComponent hlocator.packageName_ne_nil
      hlocator.packageName hlocator.selector _
  · exact isNpmReading_npmComponent hlocator.packageName_ne_nil
      hlocator.packageName hlocator.selector _

theorem isNpmReading_readResolution {value : List Char}
    (hvalue : IsByteText value) (label : String) :
    IsNpmReading { outcome := readResolution label value } := by
  unfold readResolution
  split
  · exact isNpmReading_skipped _
  · rename_i locator hlocator
    split_ifs
    · split
      · exact isNpmReading_skipped _
      · rename_i underlying patchNote hunderlying
        have hsplit := congrArg Prod.fst hunderlying
        exact isNpmReading_locatorOutcome (isByteLocator_splitLocator
          (isByteText_percentDecodeText _) hsplit) label patchNote
    · exact isNpmReading_locatorOutcome
        (isByteLocator_splitLocator hvalue hlocator) label []

theorem isNpmReading_of_mem_berryEntries {label : String}
    {insideMetadata : Bool} {lines : List YamlSubset.LineResult}
    (hlines : ∀ node, .node node ∈ lines → YamlSubset.IsByteNode node) :
    ∀ reading ∈ berryEntries label insideMetadata lines,
      IsNpmReading reading := by
  induction lines generalizing insideMetadata with
  | nil => simp [berryEntries]
  | cons line lines ih =>
    have hlater : ∀ insideMetadata,
        ∀ reading ∈ berryEntries label insideMetadata lines,
          IsNpmReading reading := fun insideMetadata =>
      @ih insideMetadata fun node hnode => hlines node (by simp [hnode])
    cases line with
    | nothing => exact hlater insideMetadata
    | unsupported =>
      rw [berryEntries, List.forall_mem_cons]
      exact ⟨isNpmReading_skipped _, hlater insideMetadata⟩
    | node node =>
      rw [berryEntries]
      split_ifs
      · exact hlater _
      · exact hlater _
      · rw [List.forall_mem_cons]
        exact ⟨isNpmReading_readResolution
          (hlines node (by simp)).value label, hlater _⟩

theorem isByteText_descriptorName {descriptor : List Char}
    (hdescriptor : IsByteText descriptor) :
    IsByteText (descriptorName descriptor) := by
  cases descriptor with
  | nil => exact isByteText_nil
  | cons c rest =>
    rw [descriptorName]
    split_ifs
    · exact hdescriptor.mono (List.cons_subset_cons _
        (List.takeWhile_sublist _).subset)
    · exact isByteText_nil

theorem isByteText_entryName {line : List Char} (hline : IsByteText line) :
    IsByteText (entryName line) :=
  isByteText_descriptorName (YamlSubset.isByteText_unquoted
    (hline.dropLast.takeWhile _).trimmed)

theorem isNpmReading_of_mem_classicEntries {label : String}
    {pendingName : List Char} {lines : List (List Char)}
    (hpending : IsByteText pendingName)
    (hlines : ∀ line ∈ lines, IsByteText line) :
    ∀ reading ∈ classicEntries label pendingName lines,
      IsNpmReading reading := by
  induction lines generalizing pendingName with
  | nil =>
    rw [classicEntries]
    split_ifs
    · simp
    · simp [isNpmReading_skipped]
  | cons rawLine lines ih =>
    rw [List.forall_mem_cons] at hlines
    have hline : IsByteText (trimmed rawLine) := hlines.1.trimmed
    have hlater : ∀ {pendingName}, IsByteText pendingName →
        ∀ reading ∈ classicEntries label pendingName lines,
          IsNpmReading reading := fun hpending => ih hpending hlines.2
    simp only [classicEntries]
    split_ifs with hblank hkey hnone hcolon hname hcolon hname hfield hversion
    · exact hlater hpending
    · simpa [isNpmReading_skipped] using hlater isByteText_nil
    · simpa [isNpmReading_skipped] using
        hlater (isByteText_entryName hline)
    · simpa using hlater (isByteText_entryName hline)
    · simpa [isNpmReading_skipped] using hlater isByteText_nil
    · simpa [isNpmReading_skipped] using
        hlater (isByteText_entryName hline)
    · simpa [isNpmReading_skipped] using
        hlater (isByteText_entryName hline)
    · exact hlater hpending
    · rw [List.forall_mem_cons]
      exact ⟨isNpmReading_skipped _, hlater isByteText_nil⟩
    · rw [List.forall_mem_cons]
      refine ⟨isNpmReading_npmComponent ?_ hpending ?_ label,
        hlater isByteText_nil⟩
      · tauto
      · exact YamlSubset.isByteText_unquoted (hline.drop _).trimmed

theorem isNpmReading_of_mem_manifest {path : FsPath} {bytes : List UInt8} :
    ∀ reading ∈ (producer.manifest path bytes).entries,
      IsNpmReading reading := by
  have htext : IsByteText (byteText bytes) := isByteText_byteText bytes
  simp only [producer]
  split
  · exact isNpmReading_of_mem_classicEntries isByteText_nil
      fun _ hline => htext.of_mem_splitOn hline
  · exact isNpmReading_of_mem_berryEntries fun _ hnode =>
      YamlSubset.isByteNode_of_mem_lineResults htext hnode

theorem unlimited_skipWarning {skipped : List SkipReason}
    {reason : SkipReason} {code : WarningCode} {message label : String}
    (hcode : isLimitCode code = false) :
    Unlimited (skipWarning skipped reason code message label) := by
  unfold skipWarning
  split_ifs
  · exact unlimited_nil
  · exact unlimited_singleton hcode

theorem unlimited_warnSkipCounts (label : String)
    (skipped : List SkipReason) :
    Unlimited (warnSkipCounts label skipped) := by
  unfold warnSkipCounts
  repeat' apply unlimited_append
  all_goals exact unlimited_skipWarning rfl

theorem isUnlimited_producer : producer.IsUnlimited := by
  intro path bytes
  refine ⟨?_, fun reading hreading =>
    (isNpmReading_of_mem_manifest reading hreading).unlimited, ?_⟩
  · simp only [producer]
    split
    · exact unlimited_nil
    · exact unlimited_nil
  · intro _ skipped
    simp only [producer]
    split
    · exact unlimited_warnSkipCounts _ skipped
    · simp only [berryManifest]
      apply unlimited_append
      · apply unlimited_append
        · split
          · exact unlimited_nil
          · exact unlimited_singleton rfl
        · exact unlimited_warnSkipCounts _ skipped
      · exact unlimited_skipWarning rfl

theorem hasNoOwnIdentity_producer : producer.HasNoOwnIdentity := by
  intro path bytes
  simp only [producer]
  split
  · rfl
  · rfl

end Yarn

/-! ## pnpm-lock.yaml -/

namespace Pnpm

/-- What a pending entry holds. -/
def IsBytePending (pending : Option (List Char × List Char)) : Prop :=
  ∀ entry ∈ pending, entry.1 ≠ [] ∧ IsByteText entry.1 ∧ IsByteText entry.2

theorem isBytePending_none : IsBytePending none := by
  simp [IsBytePending]

theorem isBytePending_splitPackageKey {key : List Char}
    (hkey : IsByteText key) : IsBytePending (splitPackageKey key) := by
  intro entry hentry
  have hspelled : IsByteText ((if key.head? = some '/' then key.tail
      else key).takeWhile (· ≠ '(')) := by
    split_ifs
    · exact hkey.tail.takeWhile _
    · exact hkey.takeWhile _
  simp only [splitPackageKey] at hentry
  generalize (if key.head? = some '/' then key.tail
    else key).takeWhile (· ≠ '(') = spelled at hentry hspelled
  split at hentry
  · simp at hentry
  · rename_i version hversion
    split_ifs at hentry with hempty
    · simp at hentry
    obtain rfl := Option.some.inj hentry
    obtain ⟨hname, -⟩ := not_or.mp hempty
    exact ⟨hname, hspelled.mono (beforeLast_subset _ _),
      hspelled.mono (afterLast?_subset hversion)⟩

theorem isNpmReading_of_mem_closePendingEntry
    {pending : Option (List Char × List Char)} :
    ∀ reading ∈ closePendingEntry pending, IsNpmReading reading := by
  unfold closePendingEntry
  split_ifs
  · simp [isNpmReading_skipped]
  · simp

theorem isNpmReading_resolutionOutcome {pending : List Char × List Char}
    (hpending : IsBytePending (some pending)) (label : String)
    (node : YamlSubset.Node) :
    IsNpmReading { outcome := resolutionOutcome label node pending } := by
  obtain ⟨hne, hname, hversion⟩ := hpending pending rfl
  simp only [resolutionOutcome]
  generalize (if node.isFlowMapping = true
    then flowMappingField node.value integrityField else []) = integrity
  split_ifs
  · exact isNpmReading_skipped _
  · exact Yarn.isNpmReading_npmComponent hne hname hversion _

theorem isNpmReading_unsupportedVersion (label : String)
    (node : YamlSubset.Node) :
    IsNpmReading (unsupportedVersion label node) where
  unlimited := unlimited_singleton rfl
  reference component? h := by simp [unsupportedVersion] at h

theorem isNpmReading_of_mem_prepend {readings : List Reading}
    {entries : LockEntries}
    (hreadings : ∀ reading ∈ readings, IsNpmReading reading)
    (hentries : ∀ reading ∈ entries.readings, IsNpmReading reading) :
    ∀ reading ∈ (entries.prepend readings).readings, IsNpmReading reading := by
  intro reading hreading
  rcases List.mem_append.mp hreading with h | h
  · exact hreadings reading h
  · exact hentries reading h

theorem isNpmReading_of_mem_lockEntries {label : String} {state : LoopState}
    {lines : List YamlSubset.LineResult}
    (hpending : IsBytePending state.pending)
    (hlines : ∀ node, .node node ∈ lines → YamlSubset.IsByteNode node) :
    ∀ reading ∈ (lockEntries label state lines).readings,
      IsNpmReading reading := by
  induction lines generalizing state with
  | nil => exact isNpmReading_of_mem_closePendingEntry
  | cons line lines ih =>
    have hlater : ∀ {state : LoopState}, IsBytePending state.pending →
        ∀ reading ∈ (lockEntries label state lines).readings,
          IsNpmReading reading := fun hpending =>
      ih hpending fun node hnode => hlines node (by simp [hnode])
    have hskipped : ∀ reason : SkipReason, ∀ reading ∈
        ([{ outcome := .skipped reason }] : List Reading),
          IsNpmReading reading := by
      simp [isNpmReading_skipped]
    cases line with
    | nothing => exact hlater hpending
    | unsupported =>
      exact isNpmReading_of_mem_prepend (hskipped _) (hlater hpending)
    | node node =>
      have hnode := hlines node (by simp)
      have hclosed := @isNpmReading_of_mem_closePendingEntry state.pending
      simp only [lockEntries]
      split_ifs
      · exact isNpmReading_of_mem_prepend hclosed
          (hlater isBytePending_none)
      · rw [List.forall_mem_append, List.forall_mem_singleton]
        exact ⟨hclosed, isNpmReading_unsupportedVersion label node⟩
      · exact isNpmReading_of_mem_prepend hclosed
          (hlater isBytePending_none)
      · exact isNpmReading_of_mem_prepend hclosed
          (hlater isBytePending_none)
      · split
        · apply isNpmReading_of_mem_prepend
          · rw [List.forall_mem_append]
            exact ⟨hclosed, hskipped _⟩
          · exact hlater isBytePending_none
        · rename_i entry hentry
          exact isNpmReading_of_mem_prepend hclosed
            (hlater (hentry ▸ isBytePending_splitPackageKey hnode.key))
      · exact hlater hpending
      · split
        · exact hlater hpending
        · rename_i pending hsome
          apply isNpmReading_of_mem_prepend
          · rw [List.forall_mem_singleton]
            exact isNpmReading_resolutionOutcome (hsome ▸ hpending)
              label node
          · exact hlater isBytePending_none

theorem isNpmReading_of_mem_manifest {path : FsPath} {bytes : List UInt8} :
    ∀ reading ∈ (producer.manifest path bytes).entries, IsNpmReading reading :=
  isNpmReading_of_mem_lockEntries isBytePending_none fun _ hnode =>
    YamlSubset.isByteNode_of_mem_lineResults (isByteText_byteText bytes) hnode

theorem unlimited_skipWarning {skipped : List SkipReason}
    {reason : SkipReason} {code : WarningCode} {message label : String}
    (hcode : isLimitCode code = false) :
    Unlimited (skipWarning skipped reason code message label) := by
  unfold skipWarning
  split_ifs
  · exact unlimited_nil
  · exact unlimited_singleton hcode

theorem unlimited_summaryOf (label : String)
    (lines : List YamlSubset.LineResult) (skipped : List SkipReason) :
    Unlimited (summaryOf label lines skipped) := by
  unfold summaryOf
  split_ifs
  · exact unlimited_singleton rfl
  · repeat' apply unlimited_append
    all_goals exact unlimited_skipWarning rfl

theorem isUnlimited_producer : producer.IsUnlimited := by
  intro path bytes
  refine ⟨unlimited_nil, fun reading hreading =>
    (isNpmReading_of_mem_manifest reading hreading).unlimited, ?_⟩
  intro limitReached skipped
  simp only [producer, lockManifest]
  split
  · exact unlimited_nil
  · exact unlimited_summaryOf _ _ skipped

theorem hasNoOwnIdentity_producer : producer.HasNoOwnIdentity :=
  fun _ _ => rfl

end Pnpm

/-! ## python -/

namespace Python

def Entry.declaredName? : Entry → Option (List Char)
  | package declared => some declared.declaredName
  | _ => none

/-- What a package of a file holds. -/
def Entry.IsByteText (entry : Entry) : Prop :=
  ∀ declared, entry = package declared → declared.IsByteText

theorem Entry.isByteText_lockPackage (node : Toml) (scope : Scope) :
    (lockPackage node scope).IsByteText := by
  intro declared hdeclared
  simp only [lockPackage] at hdeclared
  split at hdeclared
  · simp at hdeclared
  · obtain rfl := Entry.package.inj hdeclared
    exact ⟨isByteText_utf8Text _, (isByteText_utf8Text _).trimmed⟩

theorem Entry.isByteText_readUvEntry (node : Toml) :
    (readUvEntry node).IsByteText := by
  unfold readUvEntry
  split_ifs
  · simp [Entry.IsByteText]
  · simp [Entry.IsByteText]
  · exact isByteText_lockPackage node _

theorem Entry.isByteText_readPoetryEntry (node : Toml) :
    (readPoetryEntry node).IsByteText := by
  unfold readPoetryEntry
  split_ifs
  · simp [Entry.IsByteText]
  · exact isByteText_lockPackage node _

theorem beforeComment_subset (previous : Option Char) (line : List Char) :
    beforeComment previous line ⊆ line := by
  induction line generalizing previous with
  | nil => simp [beforeComment]
  | cons c rest ih =>
    rw [beforeComment]
    split_ifs
    · simp
    · exact List.cons_subset_cons _ (ih (some c))

theorem isByteText_requirementText {rawLine : List Char}
    (hline : Core.IsByteText rawLine) :
    Core.IsByteText (requirementText rawLine) := by
  have htext : Core.IsByteText (trimmed (beforeComment none rawLine)) :=
    (hline.mono (beforeComment_subset none rawLine)).trimmed
  simp only [requirementText]
  split_ifs
  · exact htext.dropLast.trimmed
  · exact htext

theorem isByteText_pinnedVersion {constraint : List Char}
    (hconstraint : Core.IsByteText constraint) :
    Core.IsByteText (pinnedVersion constraint) := by
  have hcandidate : ∀ count,
      Core.IsByteText (trimmed (constraint.drop count)) :=
    fun count => (hconstraint.drop count).trimmed
  simp only [pinnedVersion]
  generalize (if ['=', '=', '='].isPrefixOf constraint = true then 3
    else 2) = count
  split_ifs
  · exact isByteText_nil
  · exact hcandidate count
  · exact isByteText_nil

theorem isByteText_splitExtras {rest extras constraint : List Char}
    (hrest : Core.IsByteText rest)
    (hsplit : splitExtras rest = some (extras, constraint)) :
    Core.IsByteText constraint := by
  unfold splitExtras at hsplit
  split at hsplit
  · rename_i inner
    split_ifs at hsplit
    obtain ⟨-, rfl⟩ := Prod.mk.inj (Option.some.inj hsplit)
    exact ((hrest.tail.dropWhile _).tail).trimmed
  · obtain ⟨-, rfl⟩ := Prod.mk.inj (Option.some.inj hsplit)
    exact hrest

theorem Entry.isByteText_readRequirement {rawLine : List Char}
    (hline : Core.IsByteText rawLine) :
    (readRequirement rawLine).IsByteText := by
  have htext := isByteText_requirementText hline
  intro declared hdeclared
  simp only [readRequirement] at hdeclared
  split_ifs at hdeclared
  split at hdeclared
  · simp at hdeclared
  · rename_i extras constraint hsplit
    obtain rfl := Entry.package.inj hdeclared
    have hrequirement := (htext.takeWhile (· ≠ ';')).trimmed
    have hconstraint := isByteText_splitExtras
      (hrequirement.dropWhile _).trimmed hsplit
    exact ⟨hrequirement.takeWhile _, isByteText_pinnedVersion hconstraint⟩

variable {parseToml : List UInt8 → Option Toml}

theorem Entry.isByteText_of_mem_fileEntries {path : FsPath}
    {bytes : List UInt8} {entries : List Entry}
    (hentries : fileEntries parseToml path bytes = some entries) :
    ∀ entry ∈ entries, entry.IsByteText := by
  intro entry hentry
  unfold fileEntries lockEntries at hentries
  split_ifs at hentries
  · obtain ⟨document, -, rfl⟩ := Option.map_eq_some_iff.mp hentries
    obtain ⟨node, -, rfl⟩ := List.mem_map.mp hentry
    exact isByteText_readUvEntry node
  · obtain ⟨document, -, rfl⟩ := Option.map_eq_some_iff.mp hentries
    obtain ⟨node, -, rfl⟩ := List.mem_map.mp hentry
    exact isByteText_readPoetryEntry node
  · obtain rfl := Option.some.inj hentries
    obtain ⟨line, hline, rfl⟩ := List.mem_map.mp hentry
    exact isByteText_readRequirement
      ((isByteText_byteText bytes).of_mem_splitOn hline)

theorem unlimited_skipSummary (path : FsPath) (skipped : List SkipReason) :
    Unlimited (skipSummary path skipped) := by
  unfold skipSummary
  split_ifs
  · exact unlimited_nil
  · exact unlimited_singleton rfl
  · exact unlimited_singleton rfl

theorem isUnlimited_producer : (producer parseToml).IsUnlimited := by
  intro path bytes
  simp only [producer, manifest]
  split
  · exact ⟨unlimited_singleton rfl, by simp, fun _ _ => unlimited_nil⟩
  · refine ⟨unlimited_nil, ?_, fun _ skipped =>
      unlimited_skipSummary path skipped⟩
    intro reading hreading
    obtain ⟨entry, -, rfl⟩ := List.mem_map.mp hreading
    exact unlimited_nil

theorem hasNoOwnIdentity_producer :
    (producer parseToml).HasNoOwnIdentity := by
  intro path bytes
  simp only [producer, manifest]
  split
  · rfl
  · rfl

end Python
end Bomwerk.Lockfiles
