import Bomwerk.Observe.LinkMap

/-!
# What a signal stands for

The mappings fold counters, sets and examples, but a verdict depends only on
the strongest signal of a root.  This module names the observations a trace
yields, each a directory of the scanned tree with a signal, and shows that the
signal of a root is the strongest one observed in a directory that belongs to
it.
-/

namespace Bomwerk.Observe

open Bomwerk.Core Bomwerk.Support

/-- A path of the trace inside the scanned tree: the directory it is in, and
what it shows about the component there. -/
structure Observation where
  directory : FsPath
  signal : UsageSignal
  deriving DecidableEq

/-- A compiled source shows its directory, an include path itself. -/
def compileObservation? (canonicalRoot : FsPath) :
    CompileEvent → Option Observation
  | .source absoluteSource =>
    (toRootRelative absoluteSource canonicalRoot).map fun path =>
      ⟨path.parentPath, .compiledSource⟩
  | .includePath absoluteInclude =>
    (toRootRelative absoluteInclude canonicalRoot).map fun path =>
      ⟨path, .includePath⟩
  | _ => none

def linkObservation? (canonicalRoot : FsPath) : LinkEvent → Option Observation
  | .linkedInput absoluteInput =>
    (toRootRelative absoluteInput canonicalRoot).map fun path =>
      ⟨path.parentPath, .linked⟩
  | _ => none

section Trace

variable (fileSystem : FileSystem) (records : List TraceRecord)
  (scanRoot : FsPath)

def compileObservations : List Observation :=
  (records.flatMap (compileEvents fileSystem)).filterMap
    (compileObservation? (fileSystem.canonical scanRoot))

def linkObservations : List Observation :=
  (records.flatMap (linkEvents fileSystem)).filterMap
    (linkObservation? (fileSystem.canonical scanRoot))

/-- Every compile, include and link path of a trace inside the scanned tree. -/
def observations : List Observation :=
  compileObservations fileSystem records scanRoot ++
    linkObservations fileSystem records scanRoot

/-- The usage map `mark_used_in_build` is given. -/
def observedMap (componentRoots : OrderedSet FsPath) : CompileMap :=
  mergeLinkEvidence
    (mapCompilesToRoots fileSystem records scanRoot componentRoots).value
    (mapLinksToRoots fileSystem records scanRoot componentRoots).value

end Trace

/-- Something of at least this strength was observed under a root. -/
def Shows (componentRoots : OrderedSet FsPath) (found : List Observation)
    (root : FsPath) (signal : UsageSignal) : Prop :=
  ∃ observation ∈ found,
    enclosingRoot observation.directory componentRoots = some root ∧
      signal ≤ observation.signal

theorem Shows.mono {componentRoots : OrderedSet FsPath}
    {found more : List Observation} (hsubset : found ⊆ more) {root : FsPath}
    {signal : UsageSignal} (hshows : Shows componentRoots found root signal) :
    Shows componentRoots more root signal := by
  obtain ⟨observation, hmem, h⟩ := hshows
  exact ⟨observation, hsubset hmem, h⟩

theorem shows_append {componentRoots : OrderedSet FsPath}
    {found more : List Observation} {root : FsPath} {signal : UsageSignal} :
    Shows componentRoots (found ++ more) root signal ↔
      Shows componentRoots found root signal ∨
        Shows componentRoots more root signal := by
  simp only [Shows, List.mem_append, or_and_right, exists_or]

def signalAt (usage : UsageByRoot) (root : FsPath) : UsageSignal :=
  (usage[root]?.getD {}).signal

@[simp] theorem max_none (signal : UsageSignal) : max signal .none = signal :=
  max_bot_right signal

theorem not_le_none {signal : UsageSignal} (hsignal : signal ≠ .none) :
    ¬ signal ≤ .none :=
  fun h => hsignal (le_bot_iff.mp h)

theorem signalAt_updateAt (usage : UsageByRoot) (k root : FsPath)
    (f : ComponentUsage → ComponentUsage) :
    signalAt (updateAt usage k fun kept => f (kept.getD {})) root =
      if root = k then (f (usage[k]?.getD {})).signal
      else signalAt usage root := by
  rw [signalAt, getElem?_updateAt]
  split <;> simp [signalAt]

theorem signalAt_initialUsage (componentRoots : OrderedSet FsPath)
    (root : FsPath) : signalAt (initialUsage componentRoots) root = .none := by
  have hfold : ∀ (roots : List FsPath) (usage : UsageByRoot),
      signalAt usage root = .none →
      signalAt (roots.foldl
        (fun usage root => usage.insert root { root := root }) usage) root =
          .none := by
    intro roots
    induction roots with
    | nil => exact fun _ h => h
    | cons first roots ih =>
      intro usage h
      refine ih _ ?_
      rw [signalAt, getElem?_insert_eq]
      split
      · rfl
      · exact h
  exact hfold _ _ rfl

/-- The paths kept for a root, none when it has no entry. -/
def pathsAt (map : OrderedMap FsPath (OrderedSet FsPath)) (root : FsPath) :
    OrderedSet FsPath :=
  map[root]?.getD ∅

def pathsSignal (paths : OrderedSet FsPath) (signal : UsageSignal) :
    UsageSignal :=
  if paths.isEmpty then .none else signal

theorem pathsSignal_pathsAt_updateAt
    (map : OrderedMap FsPath (OrderedSet FsPath)) (k root path : FsPath)
    (signal : UsageSignal) :
    pathsSignal
        (pathsAt (updateAt map k fun paths => (paths.getD ∅).insert path) root)
        signal =
      max (pathsSignal (pathsAt map root) signal)
        (if root = k then signal else .none) := by
  by_cases hroot : root = k
  · subst hroot
    have hle : pathsSignal (pathsAt map root) signal ≤ signal := by
      unfold pathsSignal
      split
      · exact bot_le
      · exact le_rfl
    rw [if_pos rfl, max_eq_right hle, pathsAt, getElem?_updateAt, if_pos rfl]
    simp [pathsSignal]
  · rw [if_neg hroot, pathsAt, getElem?_updateAt, if_neg hroot]
    exact (max_none _).symm

theorem signal_withSources (sources : OrderedSet FsPath)
    (usage : ComponentUsage) :
    (usage.withSources sources).signal =
      max usage.signal (pathsSignal sources .compiledSource) := by
  unfold ComponentUsage.withSources pathsSignal
  split
  · exact (max_none _).symm
  · rfl

theorem signal_withLinkedInputs (inputs : OrderedSet FsPath)
    (usage : ComponentUsage) :
    (usage.withLinkedInputs inputs).signal =
      max usage.signal (pathsSignal inputs .linked) := by
  unfold ComponentUsage.withLinkedInputs pathsSignal
  split
  · exact (max_none _).symm
  · rfl

/-- A loop that raises the signals of some roots. -/
theorem signalAt_foldl_updateAt {β : Type*} (entries : OrderedMap FsPath β)
    (f : FsPath → β → ComponentUsage → ComponentUsage)
    (raised : β → UsageSignal)
    (hraised : ∀ root value usage,
      (f root value usage).signal = max usage.signal (raised value))
    (usage : UsageByRoot) (root : FsPath) :
    signalAt
        (entries.toList.foldl
          (fun usage entry => updateAt usage entry.1 fun kept =>
            f entry.1 entry.2 (kept.getD {})) usage) root =
      max (signalAt usage root) (entries[root]?.elim .none raised) := by
  rw [signalAt, foldl_updateAt_toList entries
    fun root value kept => f root value (kept.getD {})]
  cases entries[root]? with
  | none => exact (max_none _).symm
  | some value => exact hraised root value _

/-! ## The loops -/

section Loop

variable (canonicalRoot : FsPath) (componentRoots : OrderedSet FsPath)

/-- What one observation shows about a root. -/
def shown (root : FsPath) (found : Option Observation) : UsageSignal :=
  match found with
  | some observation =>
    if enclosingRoot observation.directory componentRoots = some root then
      observation.signal
    else .none
  | none => .none

theorem le_shown_iff {root : FsPath} {found : Option Observation}
    {signal : UsageSignal} (hsignal : signal ≠ .none) :
    signal ≤ shown componentRoots root found ↔
      Shows componentRoots found.toList root signal := by
  cases found with
  | none => simpa [shown, Shows] using not_le_none hsignal
  | some observation =>
    by_cases hroot : enclosingRoot observation.directory componentRoots =
        some root
    · simp [shown, Shows, hroot]
    · simpa [shown, Shows, hroot] using not_le_none hsignal

def CompileScan.signalOf (scan : CompileScan) (root : FsPath) : UsageSignal :=
  max (signalAt scan.usageByRoot root)
    (pathsSignal (pathsAt scan.sourcesByRoot root) .compiledSource)

def LinkScan.signalOf (scan : LinkScan) (root : FsPath) : UsageSignal :=
  pathsSignal (pathsAt scan.linkedInputsByRoot root) .linked

theorem CompileScan.signalOf_apply (scan : CompileScan) (event : CompileEvent)
    (root : FsPath) :
    (scan.apply canonicalRoot componentRoots event).signalOf root =
      max (scan.signalOf root)
        (shown componentRoots root
          (compileObservation? canonicalRoot event)) := by
  rcases event with _ | _ | source | included
  · exact (max_none _).symm
  · exact (max_none _).symm
  · rw [CompileScan.apply, CompileScan.addSource, compileObservation?]
    cases toRootRelative source canonicalRoot with
    | none => exact (max_none _).symm
    | some path =>
      cases hroot : enclosingRoot path.parentPath componentRoots with
      | none => simp [signalOf, shown, hroot]
      | some k =>
        simp only [signalOf, shown, Option.map_some, hroot,
          pathsSignal_pathsAt_updateAt, Option.some.injEq, max_assoc,
          eq_comm]
  · rw [CompileScan.apply, CompileScan.addIncludePath, compileObservation?]
    cases toRootRelative included canonicalRoot with
    | none => exact (max_none _).symm
    | some path =>
      cases hroot : enclosingRoot path componentRoots with
      | none => simp [shown, hroot]
      | some k =>
        simp only [signalOf, shown, Option.map_some, hroot, Option.some.injEq]
        rw [signalAt_updateAt scan.usageByRoot k root
          fun usage => usage.addIncludePath path]
        by_cases hk : root = k
        · subst hk
          simp only [if_true, ComponentUsage.addIncludePath, signalAt]
          exact max_right_comm (scan.usageByRoot[root]?.getD {}).signal _ _
        · simp [hk, Ne.symm hk]

theorem LinkScan.signalOf_apply (scan : LinkScan) (event : LinkEvent)
    (root : FsPath) :
    (scan.apply canonicalRoot componentRoots event).signalOf root =
      max (scan.signalOf root)
        (shown componentRoots root (linkObservation? canonicalRoot event)) := by
  rcases event with _ | _ | input | _
  · exact (max_none _).symm
  · exact (max_none _).symm
  · rw [LinkScan.apply, LinkScan.attributeLinkInput, linkObservation?]
    cases toRootRelative input canonicalRoot with
    | none => exact (max_none _).symm
    | some path =>
      cases hroot : enclosingRoot path.parentPath componentRoots with
      | none => simp [shown, hroot]
      | some k =>
        simp only [signalOf, shown, Option.map_some, hroot,
          pathsSignal_pathsAt_updateAt, Option.some.injEq, eq_comm]
  · exact (max_none _).symm

/-- A loop whose every change raises the signal of a root by what it shows ends
with the strongest signal shown. -/
theorem le_signal_accumulate {ρ ε σ : Type*} {changes : ρ → List ε}
    {apply : σ → ε → σ} {start : σ} (observation? : ε → Option Observation)
    (signalOf : σ → UsageSignal) {root : FsPath}
    (hstart : signalOf start = .none)
    (happly : ∀ state change, signalOf (apply state change) =
      max (signalOf state) (shown componentRoots root (observation? change)))
    {signal : UsageSignal} (hsignal : signal ≠ .none) (records : List ρ) :
    signal ≤ signalOf (accumulate changes apply start records) ↔
      Shows componentRoots
        ((records.flatMap changes).filterMap observation?) root signal := by
  refine accumulate_induction (motive := fun made state =>
    signal ≤ signalOf state ↔
      Shows componentRoots (made.filterMap observation?) root signal) ?_ ?_
    records
  · simpa [hstart, Shows] using not_le_none hsignal
  · intro made state change hmade
    rw [happly, le_max_iff, hmade, le_shown_iff componentRoots hsignal,
      List.filterMap_append, shows_append]
    cases hfound : observation? change <;> simp [hfound]

end Loop

section Trace

variable (fileSystem : FileSystem) (records : List TraceRecord)
  (scanRoot : FsPath) (componentRoots : OrderedSet FsPath)

theorem signalAt_compileMap (scan : CompileScan) (root : FsPath) :
    signalAt scan.toMap.usageByRoot root = scan.signalOf root := by
  rw [CompileScan.toMap, signalAt_foldl_updateAt scan.sourcesByRoot
    (fun _ sources usage => usage.withSources sources)
    (fun sources => pathsSignal sources .compiledSource)
    (fun _ sources usage => signal_withSources sources usage),
    CompileScan.signalOf, pathsAt]
  cases scan.sourcesByRoot[root]? <;> simp [pathsSignal]

theorem signalAt_linkMap (scan : LinkScan) (root : FsPath) :
    signalAt (scan.toMap componentRoots).usageByRoot root =
      scan.signalOf root := by
  rw [LinkScan.toMap, signalAt_foldl_updateAt scan.linkedInputsByRoot
    (fun _ inputs usage => usage.withLinkedInputs inputs)
    (fun inputs => pathsSignal inputs .linked)
    (fun _ inputs usage => signal_withLinkedInputs inputs usage),
    signalAt_initialUsage, LinkScan.signalOf, pathsAt]
  cases scan.linkedInputsByRoot[root]? with
  | none => simp [pathsSignal]
  | some inputs => exact max_bot_left _

theorem signalAt_mergeLinkEvidence (compileMap : CompileMap)
    (linkMap : LinkMap) (root : FsPath) :
    signalAt (mergeLinkEvidence compileMap linkMap).usageByRoot root =
      max (signalAt compileMap.usageByRoot root)
        (signalAt linkMap.usageByRoot root) := by
  rw [mergeLinkEvidence, signalAt_foldl_updateAt linkMap.usageByRoot
    (fun root linkUsage usage => usage.mergeLink root linkUsage)
    ComponentUsage.signal (fun _ _ _ => rfl)]
  cases hroot : linkMap.usageByRoot[root]? <;> simp [signalAt, hroot]

/-- The signal of a root is at least as strong as `signal` exactly when
something that strong was observed in a directory attributed to the root. -/
theorem le_signalAt_observedMap_iff (root : FsPath) {signal : UsageSignal}
    (hsignal : signal ≠ .none) :
    signal ≤ signalAt (observedMap fileSystem records scanRoot
        componentRoots).usageByRoot root ↔
      Shows componentRoots (observations fileSystem records scanRoot) root
        signal := by
  have hcompile : signal ≤ (compileScan fileSystem records scanRoot
      componentRoots).signalOf root ↔
        Shows componentRoots (compileObservations fileSystem records scanRoot)
          root signal := by
    refine le_signal_accumulate componentRoots
      (compileObservation? (fileSystem.canonical scanRoot))
      (fun scan => CompileScan.signalOf scan root) ?_
      (fun scan event => scan.signalOf_apply _ componentRoots event root)
      hsignal records
    simp [CompileScan.signalOf, signalAt_initialUsage, pathsAt, pathsSignal]
  have hlink : signal ≤ (linkScan fileSystem records scanRoot
      componentRoots).signalOf root ↔
        Shows componentRoots (linkObservations fileSystem records scanRoot)
          root signal := by
    refine le_signal_accumulate componentRoots
      (linkObservation? (fileSystem.canonical scanRoot))
      (fun scan => LinkScan.signalOf scan root) ?_
      (fun scan event => scan.signalOf_apply _ componentRoots event root)
      hsignal records
    simp [LinkScan.signalOf, pathsAt, pathsSignal]
  rw [observedMap, signalAt_mergeLinkEvidence, observations, shows_append,
    ← hcompile, ← hlink, ← signalAt_compileMap,
    ← signalAt_linkMap componentRoots, ← le_max_iff]
  simp only [mapCompilesToRoots, compileResult, mapLinksToRoots, linkResult,
    Result.warnIf_value]

end Trace

end Bomwerk.Observe
