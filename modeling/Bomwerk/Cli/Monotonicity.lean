import Bomwerk.Cli.Soundness

/-!
# More records, more evidence

A record added to a trace adds observations and takes none away.  The signal
of a root is the strongest one observed under it, so no root loses its signal
and trim keeps every component it kept before.
-/

namespace Bomwerk.Observe

open Bomwerk.Core Bomwerk.Support

section Signals

variable (fileSystem : FileSystem) {records more : List TraceRecord}
  (hsubset : records ⊆ more) (scanRoot : FsPath)
include hsubset

theorem observations_subset :
    observations fileSystem records scanRoot ⊆
      observations fileSystem more scanRoot := by
  intro observation hmem
  rcases List.mem_append.mp hmem with hcompile | hlink
  · obtain ⟨event, hevent, hobservation⟩ := List.mem_filterMap.mp hcompile
    obtain ⟨record, hrecord, hrecordEvent⟩ := List.mem_flatMap.mp hevent
    apply List.mem_append_left
    exact List.mem_filterMap.mpr ⟨event,
      List.mem_flatMap.mpr ⟨record, hsubset hrecord, hrecordEvent⟩,
      hobservation⟩
  · obtain ⟨event, hevent, hobservation⟩ := List.mem_filterMap.mp hlink
    obtain ⟨record, hrecord, hrecordEvent⟩ := List.mem_flatMap.mp hevent
    apply List.mem_append_right
    exact List.mem_filterMap.mpr ⟨event,
      List.mem_flatMap.mpr ⟨record, hsubset hrecord, hrecordEvent⟩,
      hobservation⟩

theorem signalAt_observedMap_mono (componentRoots : OrderedSet FsPath)
    (root : FsPath) :
    signalAt (observedMap fileSystem records scanRoot
        componentRoots).usageByRoot root ≤
      signalAt (observedMap fileSystem more scanRoot
        componentRoots).usageByRoot root := by
  by_cases hnone : signalAt (observedMap fileSystem records scanRoot
      componentRoots).usageByRoot root = .none
  · rw [hnone]
    exact bot_le
  · rw [le_signalAt_observedMap_iff _ _ _ _ _ hnone]
    apply Shows.mono (observations_subset fileSystem hsubset scanRoot)
    exact (le_signalAt_observedMap_iff _ _ _ _ _ hnone).mp le_rfl

theorem usageEvidence_observedMap_mono (componentRoots : OrderedSet FsPath)
    (root : FsPath)
    (hevidence : usageEvidence ((observedMap fileSystem records scanRoot
      componentRoots).usageByRoot[root]?.getD {}) ≠ none) :
    usageEvidence ((observedMap fileSystem more scanRoot
      componentRoots).usageByRoot[root]?.getD {}) ≠ none := by
  rw [ne_eq, usageEvidence_eq_none_iff] at hevidence ⊢
  intro hnone
  have hle := signalAt_observedMap_mono fileSystem hsubset scanRoot
    componentRoots root
  rw [show signalAt (observedMap fileSystem more scanRoot
    componentRoots).usageByRoot root = .none from hnone] at hle
  exact hevidence (le_bot_iff.mp hle)

theorem usedInBuild_markComponent_mono (componentRoots : OrderedSet FsPath)
    {component : Component}
    (hused : (markComponent (observedMap fileSystem records scanRoot
      componentRoots) component).usedInBuild = true) :
    (markComponent (observedMap fileSystem more scanRoot componentRoots)
      component).usedInBuild = true := by
  rw [usedInBuild_markComponent] at hused ⊢
  split at hused
  · rename_i hempty
    rw [if_pos hempty]
    exact hused
  · rename_i hempty
    rw [if_neg hempty]
    intro hnone
    have hle := signalAt_observedMap_mono fileSystem hsubset scanRoot
      componentRoots component.root.normalizedSubtreePath
    rw [hnone] at hle
    exact hused (le_bot_iff.mp hle)

end Signals

end Bomwerk.Observe

namespace Bomwerk.Cli

open Bomwerk.Core Bomwerk.Support Bomwerk.Observe Bomwerk.Output Bomwerk.Sbom

def withoutEvidence (component : Component) : Component :=
  { component with evidence := [] }

theorem withoutEvidence_markComponent {map : CompileMap}
    {component : Component}
    (hused : (markComponent map component).usedInBuild = true) :
    withoutEvidence (markComponent map component) =
      { component with usedInBuild := true, evidence := [] } := by
  obtain ⟨used, evidence, hframe⟩ := markComponent_frame map component
  rw [hframe] at hused ⊢
  simp only at hused
  simp [withoutEvidence, hused]

theorem keptComponents_map_markComponent (map : CompileMap)
    (components : List Component) :
    (keptComponents (components.map (markComponent map))).map
        withoutEvidence =
      (components.filter fun component =>
        (markComponent map component).usedInBuild).map
          fun component =>
            { component with usedInBuild := true, evidence := [] } := by
  rw [keptComponents, List.filter_map, List.map_map]
  apply List.map_congr_left
  intro component hmem
  exact withoutEvidence_markComponent (List.mem_filter.mp hmem).2

/-- A trace with more records judges no less, and every component trim kept is
kept, in its place. -/
theorem keptComponents_sublist (fileSystem : FileSystem)
    (options : RewriteOptions) (document : SbomDocument)
    {trace longer : Result (List TraceRecord)}
    (hsubset : trace.value ⊆ longer.value)
    (hlonger : longer.complete = true)
    (hjudged : (judgedComponents fileSystem options document
      trace).complete = true) :
    (judgedComponents fileSystem options document longer).complete = true ∧
      ((keptComponents (judgedComponents fileSystem options document
        trace).value.components).map withoutEvidence).Sublist
      ((keptComponents (judgedComponents fileSystem options document
        longer).value.components).map withoutEvidence) := by
  have husable : trace.complete = true ∧ trace.value ≠ [] := by
    by_contra hunusable
    have htrace : trace.complete = false ∨ trace.value = [] := by
      rw [not_and_or, Bool.not_eq_true, not_not] at hunusable
      exact hunusable
    rw [(judgedComponents_of_unusable fileSystem options document htrace).1]
      at hjudged
    simp at hjudged
  have hrecords : longer.value ≠ [] := by
    intro hempty
    rw [hempty, List.subset_nil] at hsubset
    exact husable.2 hsubset
  obtain ⟨hcomplete, hlongerComponents⟩ :=
    judgedComponents_of_usable fileSystem options document hlonger hrecords
  refine ⟨hcomplete, ?_⟩
  rw [hlongerComponents, (judgedComponents_of_usable fileSystem options
      document husable.1 husable.2).2,
    keptComponents_map_markComponent, keptComponents_map_markComponent]
  apply List.Sublist.map
  apply List.monotone_filter_right
  intro component hused
  exact usedInBuild_markComponent_mono fileSystem hsubset _ _ hused

/-- One more record, anywhere in a trace, takes no evidence from any root,
lowers no signal and makes trim drop nothing it kept before. -/
theorem buildEvidence_mono (fileSystem : FileSystem)
    (before after : List TraceRecord) (record : TraceRecord) :
    (∀ (scanRoot : FsPath) (componentRoots : OrderedSet FsPath)
        (root : FsPath),
      (usageEvidence ((observedMap fileSystem (before ++ after) scanRoot
          componentRoots).usageByRoot[root]?.getD {}) ≠ none →
        usageEvidence ((observedMap fileSystem (before ++ record :: after)
          scanRoot componentRoots).usageByRoot[root]?.getD {}) ≠ none) ∧
      signalAt (observedMap fileSystem (before ++ after) scanRoot
          componentRoots).usageByRoot root ≤
        signalAt (observedMap fileSystem (before ++ record :: after) scanRoot
          componentRoots).usageByRoot root) ∧
    ∀ (options : RewriteOptions) (document : SbomDocument)
        (trace longer : Result (List TraceRecord)),
      trace.value = before ++ after →
      longer.value = before ++ record :: after →
      longer.complete = true →
      (judgedComponents fileSystem options document trace).complete = true →
        (judgedComponents fileSystem options document longer).complete =
            true ∧
          ((keptComponents (judgedComponents fileSystem options document
            trace).value.components).map withoutEvidence).Sublist
          ((keptComponents (judgedComponents fileSystem options document
            longer).value.components).map withoutEvidence) := by
  have hsubset : before ++ after ⊆ before ++ record :: after :=
    ((List.sublist_cons_self record after).append_left before).subset
  refine ⟨fun scanRoot componentRoots root => ⟨?_, ?_⟩, ?_⟩
  · exact usageEvidence_observedMap_mono fileSystem hsubset scanRoot
      componentRoots root
  · exact signalAt_observedMap_mono fileSystem hsubset scanRoot
      componentRoots root
  · intro options document trace longer htrace hlonger hcomplete hjudged
    refine keptComponents_sublist fileSystem options document ?_ hcomplete
      hjudged
    rw [htrace, hlonger]
    exact hsubset

/-- The link of the sample trace after its compile. -/
theorem buildEvidence_mono_sample :
    let document : SbomDocument :=
      { components := [{ name := "zlib", root := .ofString "zlib" }] }
    let compiled : Result (List TraceRecord) :=
      { value := sampleRecords.take 1 }
    let linked : Result (List TraceRecord) := { value := sampleRecords }
    (judgedComponents sampleFileSystem scanRootOptions document
        linked).complete = true ∧
      ((keptComponents (judgedComponents sampleFileSystem scanRootOptions
        document compiled).value.components).map withoutEvidence).Sublist
      ((keptComponents (judgedComponents sampleFileSystem scanRootOptions
        document linked).value.components).map withoutEvidence) := by
  intro document compiled linked
  exact (buildEvidence_mono sampleFileSystem (sampleRecords.take 1) []
    (sampleRecords.getLast (by decide))).2 scanRootOptions document compiled
      linked rfl rfl rfl rfl

end Bomwerk.Cli
