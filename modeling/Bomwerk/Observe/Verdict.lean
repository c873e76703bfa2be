import Bomwerk.Observe.Roots
import Bomwerk.Observe.Signals

/-!
# The verdict on a component

A component with a root is used when an observed directory belongs to that
root.  Every observed directory lies in the scanned tree, so it belongs to the
deepest root among its ancestors, whichever records it came from.
-/

namespace Bomwerk.Observe

open Bomwerk.Core Bomwerk.Support

theorem absolute_lexicallyRelative (p base : FsPath) :
    (p.lexicallyRelative base).absolute = false := by
  simp only [FsPath.lexicallyRelative]
  split
  · rfl
  split
  · rfl
  split <;> rfl

theorem absolute_of_toRootRelative {absolutePath canonicalRoot path : FsPath}
    (hpath : toRootRelative absolutePath canonicalRoot = some path) :
    path.absolute = false := by
  simp only [toRootRelative] at hpath
  split at hpath
  · simp at hpath
  split at hpath
  · simp at hpath
  · obtain rfl := Option.some.inj hpath
    exact absolute_lexicallyRelative _ _

theorem absolute_parentPath (p : FsPath) :
    p.parentPath.absolute = p.absolute := by
  unfold FsPath.parentPath
  split <;> rfl

theorem includePath_le {signal : UsageSignal} (hsignal : signal ≠ .none) :
    .includePath ≤ signal := by
  revert hsignal
  cases signal <;> decide

/-- An observation is made inside the scanned tree and says something. -/
structure Observation.IsValid (observation : Observation) : Prop where
  relative : observation.directory.absolute = false
  signal : .includePath ≤ observation.signal

theorem isValid_of_compileObservation {canonicalRoot : FsPath}
    {event : CompileEvent} {observation : Observation}
    (hevent : compileObservation? canonicalRoot event = some observation) :
    observation.IsValid := by
  rcases event with _ | _ | source | included
  · simp [compileObservation?] at hevent
  · simp [compileObservation?] at hevent
  · obtain ⟨path, hpath, rfl⟩ := Option.map_eq_some_iff.mp hevent
    refine ⟨?_, includePath_le (by simp)⟩
    exact (absolute_parentPath path).trans (absolute_of_toRootRelative hpath)
  · obtain ⟨path, hpath, rfl⟩ := Option.map_eq_some_iff.mp hevent
    exact ⟨absolute_of_toRootRelative hpath, le_rfl⟩

theorem isValid_of_linkObservation {canonicalRoot : FsPath}
    {event : LinkEvent} {observation : Observation}
    (hevent : linkObservation? canonicalRoot event = some observation) :
    observation.IsValid := by
  rcases event with _ | _ | input | _
  · simp [linkObservation?] at hevent
  · simp [linkObservation?] at hevent
  · obtain ⟨path, hpath, rfl⟩ := Option.map_eq_some_iff.mp hevent
    refine ⟨?_, includePath_le (by simp)⟩
    exact (absolute_parentPath path).trans (absolute_of_toRootRelative hpath)
  · simp [linkObservation?] at hevent

theorem isValid_of_mem_observations {fileSystem : FileSystem}
    {records : List TraceRecord} {scanRoot : FsPath}
    {observation : Observation}
    (hmem : observation ∈ observations fileSystem records scanRoot) :
    observation.IsValid := by
  rcases List.mem_append.mp hmem with hcompile | hlink
  · obtain ⟨event, -, hevent⟩ := List.mem_filterMap.mp hcompile
    exact isValid_of_compileObservation hevent
  · obtain ⟨event, -, hevent⟩ := List.mem_filterMap.mp hlink
    exact isValid_of_linkObservation hevent

/-- Some observed directory belongs to the root. -/
def IsObserved (componentRoots : OrderedSet FsPath) (found : List Observation)
    (root : FsPath) : Prop :=
  ∃ observation ∈ found,
    enclosingRoot observation.directory componentRoots = some root

theorem signalAt_ne_none_iff (fileSystem : FileSystem)
    (records : List TraceRecord) (scanRoot : FsPath)
    (componentRoots : OrderedSet FsPath) (root : FsPath) :
    signalAt (observedMap fileSystem records scanRoot
        componentRoots).usageByRoot root ≠ .none ↔
      IsObserved componentRoots (observations fileSystem records scanRoot)
        root := by
  have hweakest : ∀ signal : UsageSignal,
      signal ≠ .none ↔ .includePath ≤ signal := fun signal =>
    ⟨includePath_le, fun hle h => not_le_none (by decide) (h ▸ hle)⟩
  rw [hweakest, le_signalAt_observedMap_iff _ _ _ _ _ (by decide)]
  constructor
  · rintro ⟨observation, hmem, hroot, -⟩
    exact ⟨observation, hmem, hroot⟩
  · rintro ⟨observation, hmem, hroot⟩
    exact ⟨observation, hmem, hroot, (isValid_of_mem_observations hmem).signal⟩

theorem usageEvidence_eq_none_iff (usage : ComponentUsage) :
    usageEvidence usage = none ↔ usage.signal = .none := by
  unfold usageEvidence
  split <;> simp_all

theorem markComponent_frame (map : CompileMap) (component : Component) :
    ∃ used evidence, markComponent map component =
      { component with usedInBuild := used, evidence := evidence } := by
  simp only [markComponent]
  split
  · exact ⟨_, _, rfl⟩
  split
  · exact ⟨_, _, rfl⟩
  · exact ⟨_, _, rfl⟩

/-- A component with a root is used exactly when its root has a signal. -/
theorem usedInBuild_markComponent (map : CompileMap) (component : Component) :
    (markComponent map component).usedInBuild = true ↔
      if component.root.normalizedSubtreePath.isEmpty then
        component.usedInBuild = true
      else
        signalAt map.usageByRoot component.root.normalizedSubtreePath ≠
          .none := by
  simp only [markComponent]
  split
  · exact Iff.rfl
  · have hnone := usageEvidence_eq_none_iff
      (map.usageByRoot[component.root.normalizedSubtreePath]?.getD {})
    split
    · rename_i hevidence
      simpa [signalAt] using hnone.mp hevidence
    · rename_i evidence hevidence
      rw [hevidence] at hnone
      simpa [signalAt] using hnone

/-- The observed directory lies inside the root.  Whatever is in the scanned
tree lies inside `.`. -/
def Observation.LiesIn (observation : Observation) (root : FsPath) : Prop :=
  root = .dot ∨ IsAncestor root observation.directory

/-- Another root inside `root`. -/
def IsDeeper (root deeper : FsPath) : Prop :=
  deeper ≠ root ∧ (root = .dot ∨ IsAncestor root deeper)

/-- Nothing was observed inside the root that does not lie inside a deeper
root as well. -/
def IsUnobserved (componentRoots : OrderedSet FsPath)
    (found : List Observation) (root : FsPath) : Prop :=
  ∀ observation ∈ found, observation.LiesIn root → ∃ deeper ∈ componentRoots,
      IsDeeper root deeper ∧ observation.LiesIn deeper

section Containment

variable {componentRoots : OrderedSet FsPath} {found : List Observation}
  {root : FsPath}

/-- A root no directory belongs to was not observed, unless it is `.`. -/
theorem isUnobserved_of_not_isObserved
    (hinner : ∀ root ∈ componentRoots, root.IsInner)
    (hvalid : ∀ observation ∈ found, observation.IsValid)
    (hroot : root ∈ componentRoots) (hdot : root ≠ .dot)
    (hnone : ¬ IsObserved componentRoots found root) :
    IsUnobserved componentRoots found root := by
  intro observation hmem hlies
  have hancestor := hlies.resolve_left hdot
  obtain ⟨deeper, hdeeper, hinside⟩ :=
    enclosingRoot_deepest hroot (isPlain_of_isInner (hinner root hroot))
      (hvalid observation hmem).relative hancestor
  obtain ⟨hdeeperMem, hdeeperAncestor⟩ := enclosingRoot_spec hdeeper
  have hne : deeper ≠ root := by
    intro h
    exact hnone ⟨observation, hmem, h ▸ hdeeper⟩
  exact ⟨deeper, hdeeperMem, ⟨hne, Or.inr hinside⟩, Or.inr hdeeperAncestor⟩

theorem isAncestor_dot_iff {directory : FsPath} :
    IsAncestor .dot directory ↔ directory.names.head? = some "." := by
  simp only [IsAncestor, FsPath.dot, List.singleton_prefix_iff_head?_eq_some]

/-- The walk reaches `.` only from a path that is spelled with it. -/
theorem isObserved_dot_iff
    (hinner : ∀ root ∈ componentRoots, root.IsInner)
    (hvalid : ∀ observation ∈ found, observation.IsValid)
    (hdot : .dot ∈ componentRoots) :
    IsObserved componentRoots found .dot ↔
      ∃ observation ∈ found, observation.directory.names.head? = some "." := by
  constructor
  · rintro ⟨observation, hmem, hroot⟩
    exact ⟨observation, hmem,
      isAncestor_dot_iff.mp (enclosingRoot_spec hroot).2⟩
  · rintro ⟨observation, hmem, hhead⟩
    obtain ⟨deeper, hdeeper, hinside⟩ :=
      enclosingRoot_deepest hdot (isPlain_of_isInner (hinner _ hdot))
        (hvalid observation hmem).relative (isAncestor_dot_iff.mpr hhead)
    have hsame : deeper = .dot :=
      (hinner deeper (enclosingRoot_spec hdeeper).1).eq_dot_of_head
        (isAncestor_dot_iff.mp hinside)
    exact ⟨observation, hmem, hsame ▸ hdeeper⟩

theorem isUnobserved_dot_iff :
    IsUnobserved componentRoots found .dot ↔
      ∀ observation ∈ found, ∃ deeper ∈ componentRoots,
        deeper ≠ .dot ∧ IsAncestor deeper observation.directory := by
  constructor
  · intro hunobserved observation hmem
    obtain ⟨deeper, hdeeper, ⟨hne, -⟩, hlies⟩ :=
      hunobserved observation hmem (Or.inl rfl)
    exact ⟨deeper, hdeeper, hne, hlies.resolve_left hne⟩
  · intro hcovered observation hmem _
    obtain ⟨deeper, hdeeper, hne, hancestor⟩ := hcovered observation hmem
    exact ⟨deeper, hdeeper, ⟨hne, Or.inl rfl⟩, Or.inr hancestor⟩

end Containment

end Bomwerk.Observe
