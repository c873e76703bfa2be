import Bomwerk.Binscan.ArchiveRead
import Bomwerk.Binscan.ElfRead
import Bomwerk.Binscan.SharedObjectIndex
import Bomwerk.Core.FileIndex
import Bomwerk.Support.SortUnique
import Bomwerk.Support.Tally
import Mathlib.Data.Fintype.Basic

/-!
# The scan of the build artifacts

`map_binaries_to_roots` of `binscan/binary_map.cpp`: every artifact is opened,
counted, and attributed to the component roots.  The files are given by what
they hold, under their absolute paths; nothing stands for a file that cannot be
read, and a file does not change between two reads of one run.
-/

namespace Bomwerk.Binscan

open Bomwerk.Core Bomwerk.Support

inductive ArtifactKind
  | unreadable
  | unrecognized
  | elf
  | archive
  deriving DecidableEq, Repr

structure ScannedArtifact where
  path : FsPath
  kind : ArtifactKind := .unrecognized
  shape : ElfShape := .notElf
  soname : List UInt8 := []
  needed : List (List UInt8) := []
  members : List (List UInt8) := []
  symbols : List (List UInt8) := []
  neededTruncated : Bool := false
  membersTruncated : Bool := false
  symbolsTruncated : Bool := false
  symbolsUnavailable : Bool := false

structure BinaryScanCounters where
  artifactsScanned : Nat := 0
  elfArtifacts : Nat := 0
  dynamicArtifacts : Nat := 0
  staticArtifacts : Nat := 0
  relocatableArtifacts : Nat := 0
  malformedArtifacts : Nat := 0
  dynamicWithoutNeeded : Nat := 0
  archives : Nat := 0
  unrecognizedArtifacts : Nat := 0
  unreadableArtifacts : Nat := 0
  truncatedSamples : Nat := 0
  deriving DecidableEq, Repr

/-- `BinaryMap`, with the parts that speak about the artifacts. -/
structure BinaryScan extends BinaryMap where
  artifacts : List ScannedArtifact := []
  unmatchedSonames : OrderedSet (List UInt8) := ∅
  counters : BinaryScanCounters := {}

inductive MagicKind
  | unreadable
  | elf
  | archive
  | unrecognized
  deriving DecidableEq, Repr

def magicPeekBytes : Nat := 8

/-- `peek_magic`, without its warning. -/
def peekMagic (file : Option (List UInt8)) : MagicKind :=
  match file with
  | none => .unreadable
  | some bytes =>
    let head := bytes.take magicPeekBytes
    if magic.isPrefixOf head then .elf
    else if archiveMagic.isPrefixOf head then .archive
    else .unrecognized

def BinaryScanCounters.addElf (counters : BinaryScanCounters)
    (image : ElfImage) : BinaryScanCounters :=
  let counters := { counters with elfArtifacts := counters.elfArtifacts + 1 }
  match image.shape with
  | .staticExecutable =>
    { counters with staticArtifacts := counters.staticArtifacts + 1 }
  | .relocatable =>
    { counters with
      relocatableArtifacts := counters.relocatableArtifacts + 1 }
  | .dynamic =>
    let counters :=
      { counters with dynamicArtifacts := counters.dynamicArtifacts + 1 }
    if image.namesUnavailable then
      { counters with malformedArtifacts := counters.malformedArtifacts + 1 }
    else if image.needed.isEmpty then
      { counters with
        dynamicWithoutNeeded := counters.dynamicWithoutNeeded + 1 }
    else counters
  | _ => { counters with malformedArtifacts := counters.malformedArtifacts + 1 }

def ScannedArtifact.ofElf (path : FsPath) (image : ElfImage) :
    ScannedArtifact where
  path := path
  kind := .elf
  shape := image.shape
  soname := image.soname
  needed := image.needed
  symbols := image.exportedSymbols
  neededTruncated := image.neededTruncated
  symbolsTruncated := image.symbolsTruncated
  symbolsUnavailable := image.symbolsUnavailable

def ScannedArtifact.ofArchive (path : FsPath) (contents : ArchiveContents) :
    ScannedArtifact where
  path := path
  kind := .archive
  members := contents.memberNames
  symbols := contents.indexedSymbols
  membersTruncated := contents.membersTruncated
  symbolsTruncated := contents.symbolsTruncated
  symbolsUnavailable := contents.symbolsUnavailable

def ScannedArtifact.sampleWasTruncated (artifact : ScannedArtifact) : Bool :=
  artifact.neededTruncated || artifact.membersTruncated ||
    artifact.symbolsTruncated

/-- A name of the image, as the names of files are written. -/
def nameText? (name : List UInt8) : Option String :=
  String.fromUTF8? ⟨name.toArray⟩

/-- One turn of the loop over the needed sonames. -/
def attributeSoname (sharedObjects : SharedObjectIndex)
    (relativePath : FsPath) (scan : BinaryScan) (soname : List UInt8) :
    BinaryScan :=
  let answer := (nameText? soname).bind fun text =>
    (sharedObjects.rootForSoname text).map fun root => (text, root)
  match answer with
  | none =>
    { scan with
      unmatchedSonames := scan.unmatchedSonames.insert soname }
  | some (text, root) =>
    { scan with
      evidenceByRoot := updateAt scan.evidenceByRoot root fun existing =>
        let evidence : BinaryEvidence := existing.getD { root := root }
        { evidence with
          root := root
          neededSonames :=
            if evidence.neededSonames.contains text then
              evidence.neededSonames
            else evidence.neededSonames ++ [text]
          firstDeclaringArtifact :=
            if evidence.firstDeclaringArtifact.isEmpty then relativePath
            else evidence.firstDeclaringArtifact } }

/-- What an artifact adds to the evidence of the root it lies under. -/
def addContained (artifact : ScannedArtifact) (evidence : BinaryEvidence) :
    BinaryEvidence :=
  if artifact.kind = .archive ∧ artifact.members ≠ [] then
    { evidence with
      archiveMemberCount := evidence.archiveMemberCount + artifact.members.length
      firstMember :=
        if evidence.firstMember = "" then
          (artifact.members.head?.bind nameText?).getD ""
        else evidence.firstMember }
  else if artifact.kind = .elf then
    { evidence with
      sharedObjectCount := evidence.sharedObjectCount + 1
      firstSharedObject :=
        if evidence.firstSharedObject.isEmpty then artifact.path
        else evidence.firstSharedObject }
  else evidence

/-- The part of a turn that attributes an artifact by its own location. -/
def attributeLocation (componentRoots : OrderedSet FsPath)
    (artifact : ScannedArtifact) (scan : BinaryScan) : BinaryScan :=
  let isContainedBinary :=
    artifact.kind = .archive ∨
      (artifact.kind = .elf ∧ artifact.shape = .dynamic)
  if isContainedBinary then
    match longestEnclosingRoot artifact.path componentRoots with
    | none => scan
    | some root =>
      { scan with
        evidenceByRoot := updateAt scan.evidenceByRoot root fun existing =>
          let evidence : BinaryEvidence := existing.getD { root := root }
          addContained artifact { evidence with root := root } }
  else scan

/-- The end of a turn, for an artifact that was read. -/
def recordArtifact (sharedObjects : SharedObjectIndex)
    (componentRoots : OrderedSet FsPath) (artifact : ScannedArtifact)
    (scan : BinaryScan) : BinaryScan :=
  let counters :=
    if artifact.sampleWasTruncated then
      { scan.counters with
        truncatedSamples := scan.counters.truncatedSamples + 1 }
    else scan.counters
  let scan := artifact.needed.foldl
    (attributeSoname sharedObjects artifact.path)
    { scan with counters := counters }
  let scan := attributeLocation componentRoots artifact scan
  { scan with artifacts := scan.artifacts ++ [artifact] }

/-! ## The scan -/

section Scan

variable (contents : FsPath → Option (List UInt8)) (scanRoot : FsPath)
  (componentRoots : OrderedSet FsPath)

/-- The file that a relative path names. -/
def fileAt (relativePath : FsPath) : Option (List UInt8) :=
  contents (scanRoot.append relativePath)

/-- One turn of the loop of `map_binaries_to_roots`. -/
def scanArtifact (sharedObjects : SharedObjectIndex)
    (outcome : Result BinaryScan) (relativePath : FsPath) :
    Result BinaryScan :=
  let absolutePath := (scanRoot.append relativePath).genericString
  let file := fileAt contents scanRoot relativePath
  let scan := outcome.value
  let counters :=
    { scan.counters with
      artifactsScanned := scan.counters.artifactsScanned + 1 }
  match peekMagic file with
  | .unreadable =>
    { outcome.warn .binaryUnreadable (relativePath.genericString ++
        ": named by the build trace but cannot be read now; skipped") with
      value :=
        { scan with
          artifacts := scan.artifacts ++
            [{ path := relativePath, kind := .unreadable }]
          counters :=
            { counters with
              unreadableArtifacts := counters.unreadableArtifacts + 1 } } }
  | .unrecognized =>
    { outcome with
      value :=
        { scan with
          artifacts := scan.artifacts ++ [{ path := relativePath }]
          counters :=
            { counters with
              unrecognizedArtifacts :=
                counters.unrecognizedArtifacts + 1 } } }
  | .elf =>
    let image := readElf absolutePath file
    { outcome.absorb image.warnings with
      value := recordArtifact sharedObjects componentRoots
        (.ofElf relativePath image.value)
        { scan with counters := counters.addElf image.value } }
  | .archive =>
    let archive := readArchive absolutePath file
    { outcome.absorb archive.warnings with
      value := recordArtifact sharedObjects componentRoots
        (.ofArchive relativePath archive.value)
        { scan with
          counters :=
            { counters with archives := counters.archives + 1 } } }

/-- `kBinaryEvidenceLimited` under a condition. -/
def limitedIf (outcome : Result BinaryScan) (condition : Bool)
    (message : String) : Result BinaryScan :=
  outcome.warnIf condition .binaryEvidenceLimited message

def scanWarnings (outcome : Result BinaryScan) : Result BinaryScan :=
  let scan := outcome.value
  let counters := scan.counters
  let unattributed :=
    scan.evidenceByRoot.isEmpty && decide (0 < counters.artifactsScanned)
  let outcome := limitedIf outcome (0 < counters.staticArtifacts)
    (toString counters.staticArtifacts ++
      " build output(s) are statically linked; they declare no dynamic " ++
      "dependencies")
  let outcome := limitedIf outcome (0 < counters.relocatableArtifacts)
    (toString counters.relocatableArtifacts ++
      " build output(s) are relocatable objects, which cannot declare " ++
      "dependencies")
  let outcome := limitedIf outcome (0 < counters.dynamicWithoutNeeded)
    (toString counters.dynamicWithoutNeeded ++
      " build output(s) carry a dynamic section that names no library")
  let outcome := limitedIf outcome (0 < counters.malformedArtifacts)
    (toString counters.malformedArtifacts ++
      " build output(s) carry ELF magic but a structure bomwerk could not " ++
      "read; what they declare is unknown, not absent")
  let outcome := limitedIf outcome (0 < counters.unrecognizedArtifacts)
    (toString counters.unrecognizedArtifacts ++
      " build output(s) are neither ELF nor ar archives; bomwerk reads no " ++
      "dynamic dependencies from them (a macOS build emits Mach-O, which " ++
      "this pass does not parse)")
  let outcome := limitedIf outcome (0 < counters.truncatedSamples)
    (toString counters.truncatedSamples ++
      " artifact(s) declare more entries than bomwerk records; their " ++
      "samples are partial")
  let outcome := limitedIf outcome
    (counters.elfArtifacts = 0 ∧ counters.archives = 0 ∧
      0 < counters.artifactsScanned)
    "no build output could be read as a binary; this pass proved nothing"
  let outcome := limitedIf outcome
    (unattributed && scan.unmatchedSonames.isEmpty)
    ("no binary evidence attributed to any component; no build output " ++
      "declared a dynamic dependency or lay inside a component's directory")
  limitedIf outcome (unattributed && !scan.unmatchedSonames.isEmpty)
    ("no binary evidence attributed to any component; every dynamic " ++
      "dependency named a library outside this repository")

def orderedArtifacts (artifacts : List FsPath) : List FsPath :=
  sortUnique (· ≤ ·) id artifacts

/-- `map_binaries_to_roots`; `tree` is what the walk from the scan root sees. -/
def mapBinariesToRoots (tree : Entry) (artifacts : List FsPath) :
    Result BinaryScan :=
  let index : Result (List FsPath) :=
    if componentRoots.isEmpty then { value := [] }
    else
      buildFileIndex
        { root := scanRoot
          excludedDirNames := defaultExcludedDirNames
          excludedSubtrees := []
          includedSubtrees := componentRoots.toList } tree
  let start : Result BinaryScan :=
    { value := {}, warnings := index.warnings }
  let scanned := (orderedArtifacts artifacts).foldl
    (scanArtifact contents scanRoot componentRoots
      (.build index.value componentRoots)) start
  let sorted :=
    { scanned.value with
      evidenceByRoot := scanned.value.evidenceByRoot.map fun _ evidence =>
        { evidence with
          neededSonames := evidence.neededSonames.insertionSort (· ≤ ·) } }
  scanWarnings { scanned with value := sorted }

end Scan

/-- The four counters that stand for the kinds of ELF artifacts. -/
inductive ElfCounter
  | dynamic
  | static
  | relocatable
  | malformed
  deriving DecidableEq

instance : Fintype ElfCounter where
  elems := {.dynamic, .static, .relocatable, .malformed}
  complete counter := by cases counter <;> decide

def elfTally (counters : BinaryScanCounters) : ElfCounter → Nat
  | .dynamic => counters.dynamicArtifacts
  | .static => counters.staticArtifacts
  | .relocatable => counters.relocatableArtifacts
  | .malformed => counters.malformedArtifacts

theorem sum_elfTally (counters : BinaryScanCounters) :
    ∑ counter, elfTally counters counter =
      counters.dynamicArtifacts + counters.staticArtifacts +
        counters.relocatableArtifacts + counters.malformedArtifacts := by
  have huniv : (Finset.univ : Finset ElfCounter) =
      {.dynamic, .static, .relocatable, .malformed} := rfl
  rw [huniv]
  simp [elfTally, Nat.add_assoc]

/-- The image has a dynamic section whose names could not be read. -/
def IsNameless (image : ElfImage) : Prop :=
  image.shape = .dynamic ∧ image.namesUnavailable = true

instance (image : ElfImage) : Decidable (IsNameless image) :=
  inferInstanceAs (Decidable (_ ∧ _))

def shapeCounter : ElfShape → ElfCounter
  | .staticExecutable => .static
  | .relocatable => .relocatable
  | .dynamic => .dynamic
  | _ => .malformed

def elfMarks (image : ElfImage) : List ElfCounter :=
  shapeCounter image.shape :: if IsNameless image then [.malformed] else []

theorem addElf_tally (counters : BinaryScanCounters) (image : ElfImage)
    (counter : ElfCounter) :
    elfTally (counters.addElf image) counter =
      elfTally counters counter + (elfMarks image).count counter := by
  by_cases hdynamic : image.shape = .dynamic
  · by_cases hnames : image.namesUnavailable = true
    · have hmarks : elfMarks image = [.dynamic, .malformed] := by
        simp [elfMarks, IsNameless, shapeCounter, hdynamic, hnames]
      rw [hmarks]
      cases counter <;>
        simp [BinaryScanCounters.addElf, elfTally, hdynamic, hnames]
    · have hmarks : elfMarks image = [.dynamic] := by
        simp [elfMarks, IsNameless, shapeCounter, hdynamic, hnames]
      rw [hmarks]
      by_cases hneeded : image.needed.isEmpty = true <;> cases counter <;>
        simp [BinaryScanCounters.addElf, elfTally, hdynamic, hnames, hneeded]
  · have hmarks : elfMarks image = [shapeCounter image.shape] := by
      simp [elfMarks, IsNameless, hdynamic]
    rw [hmarks]
    cases hshape : image.shape <;> cases counter <;>
      simp_all [BinaryScanCounters.addElf, elfTally, shapeCounter]

theorem addElf_elfArtifacts (counters : BinaryScanCounters)
    (image : ElfImage) :
    (counters.addElf image).elfArtifacts = counters.elfArtifacts + 1 := by
  unfold BinaryScanCounters.addElf
  dsimp only
  split
  · rfl
  · rfl
  · split_ifs <;> rfl
  · rfl

/-! ## A turn and a run -/

section Run

variable (contents : FsPath → Option (List UInt8)) (scanRoot : FsPath)
  (componentRoots : OrderedSet FsPath) (sharedObjects : SharedObjectIndex)

def isElfAt (relativePath : FsPath) : Bool :=
  peekMagic (fileAt contents scanRoot relativePath) = .elf

/-- What `read_elf` makes of an artifact. -/
def imageAt (relativePath : FsPath) : ElfImage :=
  (readElf (scanRoot.append relativePath).genericString
    (fileAt contents scanRoot relativePath)).value

/-- The counters that an artifact bumps. -/
def artifactMarks (relativePath : FsPath) : List ElfCounter :=
  if isElfAt contents scanRoot relativePath then
    elfMarks (imageAt contents scanRoot relativePath)
  else []

theorem recordArtifact_counters (artifact : ScannedArtifact)
    (scan : BinaryScan) :
    elfTally (recordArtifact sharedObjects componentRoots artifact
        scan).counters = elfTally scan.counters ∧
      (recordArtifact sharedObjects componentRoots artifact
        scan).counters.elfArtifacts = scan.counters.elfArtifacts := by
  have hsonames : ∀ scan : BinaryScan,
      (artifact.needed.foldl (attributeSoname sharedObjects artifact.path)
        scan).counters = scan.counters := by
    intro scan
    refine kept_foldl (fun scan : BinaryScan => scan.counters) ?_ scan _
    intro scan soname
    unfold attributeSoname
    dsimp only
    split <;> rfl
  have hlocation : ∀ scan : BinaryScan,
      (attributeLocation componentRoots artifact scan).counters =
        scan.counters := by
    intro scan
    unfold attributeLocation
    dsimp only
    split_ifs
    · split <;> rfl
    · rfl
  unfold recordArtifact
  dsimp only
  rw [hlocation, hsonames]
  constructor
  · funext counter
    cases counter <;> simp only [elfTally] <;> split_ifs <;> rfl
  · split_ifs <;> rfl

theorem scanArtifact_tally (outcome : Result BinaryScan)
    (relativePath : FsPath) (counter : ElfCounter) :
    elfTally (scanArtifact contents scanRoot componentRoots sharedObjects
        outcome relativePath).value.counters counter =
      elfTally outcome.value.counters counter +
        (artifactMarks contents scanRoot relativePath).count counter := by
  unfold scanArtifact artifactMarks isElfAt imageAt
  dsimp only
  cases peekMagic (fileAt contents scanRoot relativePath) with
  | unreadable => cases counter <;> rfl
  | unrecognized => cases counter <;> rfl
  | elf =>
    dsimp only
    rw [(recordArtifact_counters componentRoots sharedObjects _ _).1,
      addElf_tally]
    cases counter <;> rfl
  | archive =>
    dsimp only
    rw [(recordArtifact_counters componentRoots sharedObjects _ _).1]
    cases counter <;> rfl

theorem scanArtifact_elfArtifacts (outcome : Result BinaryScan)
    (relativePath : FsPath) :
    (scanArtifact contents scanRoot componentRoots sharedObjects outcome
        relativePath).value.counters.elfArtifacts =
      outcome.value.counters.elfArtifacts +
        if isElfAt contents scanRoot relativePath then 1 else 0 := by
  unfold scanArtifact isElfAt
  dsimp only
  cases peekMagic (fileAt contents scanRoot relativePath) with
  | unreadable => rfl
  | unrecognized => rfl
  | elf =>
    dsimp only
    rw [(recordArtifact_counters componentRoots sharedObjects _ _).2,
      addElf_elfArtifacts]
    rfl
  | archive =>
    dsimp only
    rw [(recordArtifact_counters componentRoots sharedObjects _ _).2]
    rfl

variable (tree : Entry) (artifacts : List FsPath)

def elfArtifactsOf : List FsPath :=
  (orderedArtifacts artifacts).filter (isElfAt contents scanRoot)

theorem scanWarnings_value (outcome : Result BinaryScan) :
    (scanWarnings outcome).value = outcome.value := by
  simp only [scanWarnings, limitedIf, Result.warnIf_value]

/-- The counters of a run are what its artifacts bump. -/
theorem mapBinariesToRoots_tally (counter : ElfCounter) :
    elfTally (mapBinariesToRoots contents scanRoot componentRoots tree
        artifacts).value.counters counter =
      ((elfArtifactsOf contents scanRoot artifacts).flatMap
        (artifactMarks contents scanRoot)).count counter := by
  have hunmarked : ∀ relativePath,
      ¬ isElfAt contents scanRoot relativePath = true →
        artifactMarks contents scanRoot relativePath = [] :=
    fun _ hother => if_neg hother
  have hmarks := flatMap_filter_of_eq_nil hunmarked (orderedArtifacts artifacts)
  rw [elfArtifactsOf, ← hmarks, mapBinariesToRoots, scanWarnings_value]
  dsimp only
  rw [tally_foldl
    (fun outcome : Result BinaryScan => elfTally outcome.value.counters)
    (scanArtifact_tally contents scanRoot componentRoots _)]
  cases counter <;> exact Nat.zero_add _

theorem mapBinariesToRoots_elfArtifacts :
    (mapBinariesToRoots contents scanRoot componentRoots tree
        artifacts).value.counters.elfArtifacts =
      (elfArtifactsOf contents scanRoot artifacts).length := by
  rw [elfArtifactsOf, mapBinariesToRoots, scanWarnings_value]
  dsimp only
  rw [counted_foldl
    (fun outcome : Result BinaryScan => outcome.value.counters.elfArtifacts)
    (scanArtifact_elfArtifacts contents scanRoot componentRoots _)]
  exact Nat.zero_add _

theorem mem_elfArtifactsOf_iff (relativePath : FsPath) :
    relativePath ∈ elfArtifactsOf contents scanRoot artifacts ↔
      relativePath ∈ artifacts ∧
        isElfAt contents scanRoot relativePath = true := by
  have hmem : relativePath ∈ (orderedArtifacts artifacts).map id ↔
      relativePath ∈ (artifacts.insertionSort (· ≤ ·)).map id :=
    map_key_mem_uniqueBy_iff
  rw [List.map_id, List.map_id, List.mem_insertionSort] at hmem
  rw [elfArtifactsOf, List.mem_filter, hmem]

/-- Every ELF artifact is counted as one kind, and the kinds add up to the ELF
artifacts. -/
structure PartitionsElf : Prop where
  once : ∀ relativePath ∈ artifacts,
    isElfAt contents scanRoot relativePath = true →
      ∃ counter, artifactMarks contents scanRoot relativePath = [counter]
  sums :
    let counters := (mapBinariesToRoots contents scanRoot componentRoots tree
      artifacts).value.counters
    counters.elfArtifacts =
      counters.dynamicArtifacts + counters.staticArtifacts +
        counters.relocatableArtifacts + counters.malformedArtifacts

/-- The counters partition the ELF artifacts exactly when no artifact has a
dynamic section whose names cannot be read. -/
theorem partitionsElf_iff :
    PartitionsElf contents scanRoot componentRoots tree artifacts ↔
      ∀ relativePath ∈ artifacts,
        isElfAt contents scanRoot relativePath = true →
          ¬ IsNameless (imageAt contents scanRoot relativePath) := by
  have hmarks : ∀ relativePath,
      isElfAt contents scanRoot relativePath = true →
        artifactMarks contents scanRoot relativePath =
          elfMarks (imageAt contents scanRoot relativePath) :=
    fun _ helf => if_pos helf
  have honce : ∀ image : ElfImage,
      (elfMarks image).length = 1 ↔ ¬ IsNameless image := by
    intro image
    by_cases hnameless : IsNameless image <;> simp [elfMarks, hnameless]
  have hmarked : ∀ relativePath ∈ elfArtifactsOf contents scanRoot artifacts,
      artifactMarks contents scanRoot relativePath ≠ [] := by
    intro relativePath hpath
    rw [hmarks _ (List.mem_filter.mp hpath).2]
    exact List.cons_ne_nil _ _
  have hsum : (∑ counter, elfTally (mapBinariesToRoots contents scanRoot
        componentRoots tree artifacts).value.counters counter) =
      (mapBinariesToRoots contents scanRoot componentRoots tree
        artifacts).value.counters.elfArtifacts ↔
      ∀ relativePath ∈ elfArtifactsOf contents scanRoot artifacts,
        ¬ IsNameless (imageAt contents scanRoot relativePath) := by
    simp only [mapBinariesToRoots_tally, sum_count_eq_length,
      mapBinariesToRoots_elfArtifacts]
    rw [length_flatMap_eq_iff hmarked]
    refine forall₂_congr fun relativePath hpath => ?_
    rw [hmarks _ (List.mem_filter.mp hpath).2, honce]
  constructor
  · intro h relativePath hpath helf
    obtain ⟨counter, hcounter⟩ := h.once relativePath hpath helf
    rw [← honce, ← hmarks _ helf, hcounter, List.length_singleton]
  · intro h
    constructor
    · intro relativePath hpath helf
      rw [← List.length_eq_one_iff, hmarks _ helf, honce]
      exact h relativePath hpath helf
    · dsimp only
      rw [← sum_elfTally, eq_comm, hsum]
      intro relativePath hpath
      rw [mem_elfArtifactsOf_iff] at hpath
      exact h relativePath hpath.1 hpath.2

end Run

/-- A 32-bit shared object with an empty dynamic segment, and so without a
string table. -/
def namelessImage : List UInt8 :=
  magic ++ [1, 1, 1, 0] ++ List.replicate 8 0 ++ [3, 0, 3, 0] ++
    [1, 0, 0, 0] ++ List.replicate 4 0 ++ [0x34, 0, 0, 0] ++
    List.replicate 8 0 ++ [0x34, 0, 0x20, 0, 1, 0] ++ List.replicate 6 0 ++
    [2, 0, 0, 0, 0x54, 0, 0, 0] ++ List.replicate 8 0 ++ [8, 0, 0, 0] ++
    List.replicate 12 0 ++ List.replicate 8 0

/-- One artifact is counted as dynamic and as malformed. -/
theorem not_partitionsElf_nameless :
    ¬ PartitionsElf (fun _ => some namelessImage) (.ofString "/r") ∅
      (.directory []) [.ofString "out/libx.so"] := by
  intro h
  exact absurd h.sums (by decide +kernel)

end Bomwerk.Binscan
