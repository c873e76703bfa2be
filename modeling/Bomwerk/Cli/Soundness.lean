import Bomwerk.Cli.Trim
import Bomwerk.Observe.Order
import Bomwerk.Observe.Verdict
import Bomwerk.Sbom.Read

/-!
# What trim drops

Trim drops a component by the verdict alone.  Whether that is right is a
question about roots: `.` is a root the reader accepts, and a directory that is
not spelled with it never belongs to it.
-/

namespace Bomwerk.Cli

open Bomwerk.Core Bomwerk.Support Bomwerk.Observe Bomwerk.Output Bomwerk.Sbom
open Bomwerk.Vuln

theorem isRead_populateCpe {component : Component} (hread : IsRead component)
    (scope : CpePopulationScope) : IsRead (populateCpe scope component) := by
  obtain ⟨cpe, provenance, hframe⟩ := populateCpe_frame scope component
  rw [hframe]
  exact ⟨hread.root, hread.used⟩

theorem componentRootsOf_populateCpeIdentifiers (components : List Component)
    (scope : CpePopulationScope) :
    componentRootsOf (populateCpeIdentifiers components scope) =
      componentRootsOf components := by
  have hroot : ∀ component, (populateCpe scope component).root =
      component.root := by
    intro component
    obtain ⟨cpe, provenance, hframe⟩ := populateCpe_frame scope component
    rw [hframe]
  simp only [componentRootsOf, populateCpeIdentifiers, List.foldl_map, hroot]

/-- The roots of a document are the locations it gives its components. -/
theorem mem_componentRootsOf_readCyclonedx {bytes : JsonText} {root : FsPath} :
    root ∈ componentRootsOf (readCyclonedx bytes).value.components ↔
      ∃ component ∈ (readCyclonedx bytes).value.components,
        component.root = root ∧ root.isEmpty = false := by
  rw [mem_componentRootsOf]
  constructor
  · rintro ⟨component, hmem, hnonempty, hroot⟩
    rw [(isRead_of_mem_readCyclonedx hmem).root.normalizedSubtreePath_eq]
      at hnonempty hroot
    exact ⟨component, hmem, hroot, hroot ▸ hnonempty⟩
  · rintro ⟨component, hmem, rfl, hnonempty⟩
    rw [← (isRead_of_mem_readCyclonedx hmem).root.normalizedSubtreePath_eq]
      at hnonempty
    exact ⟨component, hmem, hnonempty,
      (isRead_of_mem_readCyclonedx hmem).root.normalizedSubtreePath_eq⟩

theorem isInner_of_mem_componentRootsOf {bytes : JsonText} {root : FsPath}
    (hroot : root ∈ componentRootsOf (readCyclonedx bytes).value.components) :
    root.IsInner := by
  obtain ⟨component, hmem, rfl, hnonempty⟩ :=
    mem_componentRootsOf_readCyclonedx.mp hroot
  exact (isRead_of_mem_readCyclonedx hmem).root.isInner hnonempty

section Judged

variable (fileSystem : FileSystem) (options : RewriteOptions)
  (document : SbomDocument) {trace : Result (List TraceRecord)}

theorem judgedComponents_of_unusable
    (htrace : trace.complete = false ∨ trace.value = []) :
    (judgedComponents fileSystem options document trace).complete = false ∧
      (judgedComponents fileSystem options document trace).value.components =
        populateCpeIdentifiers document.components options.cpeScope := by
  have hcondition :
      (!trace.complete || trace.value.isEmpty) = true := by
    rcases htrace with hcomplete | hempty
    · simp [hcomplete]
    · simp [hempty]
  rw [judgedComponents, applyObserveTrace, if_pos hcondition]
  exact ⟨rfl, rfl⟩

theorem judgedComponents_of_usable (hcomplete : trace.complete = true)
    (hrecords : trace.value ≠ []) :
    (judgedComponents fileSystem options document trace).complete = true ∧
      (judgedComponents fileSystem options document trace).value.components =
        (populateCpeIdentifiers document.components options.cpeScope).map
          (markComponent (observedMap fileSystem trace.value
            options.rootDirectory (componentRootsOf document.components))) := by
  have hcondition :
      (!trace.complete || trace.value.isEmpty) = false := by
    simp [hcomplete, hrecords]
  have hcompileComplete : ∀ roots, (mapCompilesToRoots fileSystem trace.value
      options.rootDirectory roots).complete = true := by
    intro roots
    simp only [mapCompilesToRoots, compileResult, Result.warnIf_complete]
  have hlinkComplete : ∀ roots, (mapLinksToRoots fileSystem trace.value
      options.rootDirectory roots).complete = true := by
    intro roots
    simp only [mapLinksToRoots, linkResult, Result.warnIf_complete]
  rw [judgedComponents, applyObserveTrace, hcondition]
  simp only [Bool.false_eq_true, if_false, hcompileComplete, hlinkComplete,
    Bool.not_true, Bool.or_self, markUsedInBuild,
    componentRootsOf_populateCpeIdentifiers]
  exact ⟨rfl, rfl⟩

end Judged

/-! ## Soundness -/

section Soundness

variable (fileSystem : FileSystem) (options : RewriteOptions)
  (bytes : JsonText) (trace : Result (List TraceRecord))

def judgedDocument : List Component :=
  (judgedComponents fileSystem options (readCyclonedx bytes).value
    trace).value.components

/-- A component is dropped only when it has a root and the trace shows nothing
inside that root but what lies inside a deeper one. -/
def TrimSound : Prop :=
  ∀ component ∈ judgedDocument fileSystem options bytes trace,
    component ∉ keptComponents
        (judgedDocument fileSystem options bytes trace) →
      component.root.isEmpty = false ∧ IsUnobserved
          (componentRootsOf (readCyclonedx bytes).value.components)
          (observations fileSystem trace.value options.rootDirectory)
          component.root

/-- Either no component is located at `.`, or some observed directory is
spelled with it, or every observed directory has another component above
it. -/
def ScanRootIsReached (components : List Component)
    (found : List Observation) : Prop :=
  .dot ∉ componentRootsOf components ∨
    (∃ observation ∈ found, observation.directory.names.head? = some ".") ∨
    ∀ observation ∈ found, ∃ root ∈ componentRootsOf components,
      root ≠ .dot ∧ IsAncestor root observation.directory

variable {fileSystem options bytes trace}

theorem notMem_keptComponents_iff {components : List Component}
    {component : Component} (hmem : component ∈ components) :
    component ∉ keptComponents components ↔ component.usedInBuild = false := by
  simp [keptComponents, hmem]

theorem usedInBuild_markComponent_of_isRead {component : Component}
    (hread : IsRead component) (componentRoots : OrderedSet FsPath) :
    (markComponent (observedMap fileSystem trace.value options.rootDirectory
        componentRoots) component).usedInBuild = false ↔
      component.root.isEmpty = false ∧ ¬ IsObserved componentRoots
          (observations fileSystem trace.value options.rootDirectory)
          component.root := by
  rw [← Bool.not_eq_true, usedInBuild_markComponent,
    hread.root.normalizedSubtreePath_eq, signalAt_ne_none_iff]
  by_cases hempty : component.root.isEmpty = true
  · simp [hempty, hread.used]
  · simp [hempty]

/-- The dropped roots are the ones of the document no directory belongs to. -/
theorem exists_dropped_iff (hcomplete : trace.complete = true)
    (hrecords : trace.value ≠ []) (root : FsPath) :
    (∃ component ∈ judgedDocument fileSystem options bytes trace,
        component.root = root ∧ component.usedInBuild = false) ↔
      root ∈ componentRootsOf (readCyclonedx bytes).value.components ∧
        ¬ IsObserved
          (componentRootsOf (readCyclonedx bytes).value.components)
          (observations fileSystem trace.value options.rootDirectory) root := by
  have hread : ∀ component ∈ (readCyclonedx bytes).value.components,
      IsRead (populateCpe options.cpeScope component) := fun component hmem =>
    isRead_populateCpe (isRead_of_mem_readCyclonedx hmem) _
  have hroot : ∀ map component,
      (markComponent map (populateCpe options.cpeScope component)).root =
        component.root := by
    intro map component
    obtain ⟨used, evidence, hmark⟩ :=
      markComponent_frame map (populateCpe options.cpeScope component)
    obtain ⟨cpe, provenance, hpopulate⟩ :=
      populateCpe_frame options.cpeScope component
    rw [hmark, hpopulate]
  rw [judgedDocument, (judgedComponents_of_usable fileSystem options _
    hcomplete hrecords).2, mem_componentRootsOf_readCyclonedx]
  simp only [populateCpeIdentifiers, List.map_map, List.mem_map,
    Function.comp_apply, exists_exists_and_eq_and, hroot]
  constructor
  · rintro ⟨component, hmem, rfl, hunused⟩
    have hverdict :=
      (usedInBuild_markComponent_of_isRead (hread component hmem) _).mp hunused
    obtain ⟨cpe, provenance, hpopulate⟩ :=
      populateCpe_frame options.cpeScope component
    rw [hpopulate] at hverdict
    exact ⟨⟨component, hmem, rfl, hverdict.1⟩, hverdict.2⟩
  · rintro ⟨⟨component, hmem, rfl, hnonempty⟩, hnone⟩
    refine ⟨component, hmem, rfl, ?_⟩
    apply (usedInBuild_markComponent_of_isRead (hread component hmem) _).mpr
    obtain ⟨cpe, provenance, hpopulate⟩ :=
      populateCpe_frame options.cpeScope component
    rw [hpopulate]
    exact ⟨hnonempty, hnone⟩

theorem trimSound_iff_forall_root (hcomplete : trace.complete = true)
    (hrecords : trace.value ≠ []) :
    TrimSound fileSystem options bytes trace ↔
      ∀ root ∈ componentRootsOf (readCyclonedx bytes).value.components,
        ¬ IsObserved
            (componentRootsOf (readCyclonedx bytes).value.components)
            (observations fileSystem trace.value options.rootDirectory) root →
          IsUnobserved
            (componentRootsOf (readCyclonedx bytes).value.components)
            (observations fileSystem trace.value options.rootDirectory)
            root := by
  constructor
  · intro hsound root hroot hnone
    obtain ⟨component, hmem, rfl, hunused⟩ :=
      (exists_dropped_iff hcomplete hrecords root).mpr ⟨hroot, hnone⟩
    exact (hsound component hmem
      ((notMem_keptComponents_iff hmem).mpr hunused)).2
  · intro hroots component hmem hdropped
    obtain ⟨hroot, hnone⟩ := (exists_dropped_iff hcomplete hrecords
      component.root).mp
        ⟨component, hmem, rfl, (notMem_keptComponents_iff hmem).mp hdropped⟩
    obtain ⟨_, _, -, hnonempty⟩ := mem_componentRootsOf_readCyclonedx.mp hroot
    exact ⟨hnonempty, hroots _ hroot hnone⟩

variable (fileSystem options bytes trace)

end Soundness

/-- A document whose only component is located at `.`. -/
def scanRootDocument : Json :=
  .object [("components", .array [.object
    [("evidence", .object [("occurrences", .array [.object
        [("location", .string ".")]])]),
      ("name", .string "app"), ("version", .string "1.0")]])]

/-- The compile of one source at the top of the repository. -/
def scanRootTrace : Result (List TraceRecord) where
  value :=
    [{ tool := "cc"
       arguments := ["cc", "-c", "main.c"]
       workingDirectory := "/src" }]

def scanRootOptions : RewriteOptions where
  rootDirectory := .ofString "/src"
  writesOutput := true
  allCpes := false

/-- A deepest root that is kept stays the deepest one. -/
theorem enclosingRootFrom_of_subset {roots fewer : OrderedSet FsPath}
    (hfewer : ∀ root ∈ fewer, root ∈ roots) {root : FsPath}
    (hroot : root ∈ fewer) {fuel : Nat} {candidate : FsPath}
    (hfound : enclosingRootFrom roots fuel candidate = some root) :
    enclosingRootFrom fewer fuel candidate = some root := by
  induction fuel generalizing candidate with
  | zero => simp [enclosingRootFrom] at hfound
  | succ fuel ih =>
    rw [enclosingRootFrom] at hfound ⊢
    by_cases hempty : candidate.isEmpty = true
    · rw [if_pos hempty] at hfound
      cases hfound
    rw [if_neg hempty] at hfound ⊢
    by_cases hmem : candidate ∈ roots
    · rw [if_pos (contains_iff_mem.mpr hmem)] at hfound
      obtain rfl := Option.some.inj hfound
      rw [if_pos (contains_iff_mem.mpr hroot)]
    · rw [if_neg fun h => hmem (contains_iff_mem.mp h)] at hfound
      rw [if_neg fun h => hmem (hfewer _ (contains_iff_mem.mp h))]
      split_ifs at hfound ⊢
      exact ih hfound

theorem isObserved_of_subset {roots fewer : OrderedSet FsPath}
    (hfewer : ∀ root ∈ fewer, root ∈ roots) {root : FsPath}
    (hroot : root ∈ fewer) {found : List Observation}
    (hobserved : IsObserved roots found root) :
    IsObserved fewer found root := by
  obtain ⟨observation, hmem, henclosing⟩ := hobserved
  exact ⟨observation, hmem, enclosingRootFrom_of_subset hfewer hroot henclosing⟩

/-- Trimming what a trim has kept, by the same trace, drops nothing more. -/
theorem keptComponents_judgedComponents_kept (fileSystem : FileSystem)
    (options : RewriteOptions) (document : SbomDocument)
    (trace : Result (List TraceRecord)) :
    let again := (judgedComponents fileSystem options
      { document with components := keptComponents (judgedComponents fileSystem
          options document trace).value.components } trace).value.components
    keptComponents again = again := by
  set kept := keptComponents (judgedComponents fileSystem options document
    trace).value.components with hkept
  have hused : ∀ component ∈ kept, component.usedInBuild = true :=
    fun component hmem => (List.mem_filter.mp hmem).2
  refine List.filter_eq_self.mpr fun component hmem => ?_
  by_cases hunusable : trace.complete = false ∨ trace.value = []
  · rw [(judgedComponents_of_unusable _ _ _ hunusable).2] at hmem
    obtain ⟨again, hagain, rfl⟩ := List.mem_map.mp hmem
    obtain ⟨cpe, provenance, hframe⟩ := populateCpe_frame options.cpeScope again
    rw [hframe]
    exact hused again hagain
  obtain ⟨hcomplete, hrecords⟩ := not_or.mp hunusable
  rw [Bool.not_eq_false] at hcomplete
  have hfirst := (judgedComponents_of_usable fileSystem options document
    hcomplete hrecords).2
  have hframe : ∀ component ∈ kept, ∃ judged ∈ populateCpeIdentifiers
      document.components options.cpeScope, component.root = judged.root ∧
        component = markComponent (observedMap fileSystem trace.value
          options.rootDirectory (componentRootsOf document.components))
            judged := by
    intro component hmem
    rw [hkept, hfirst] at hmem
    obtain ⟨judged, hjudged, rfl⟩ :=
      List.mem_map.mp (List.mem_filter.mp hmem).1
    obtain ⟨used, evidence, h⟩ := markComponent_frame (observedMap fileSystem
      trace.value options.rootDirectory
        (componentRootsOf document.components)) judged
    exact ⟨judged, hjudged, by rw [h], rfl⟩
  have hfewer : ∀ root ∈ componentRootsOf kept,
      root ∈ componentRootsOf document.components := by
    intro root hroot
    obtain ⟨component, hmem, hroot⟩ := mem_componentRootsOf.mp hroot
    obtain ⟨judged, hjudged, hsame, -⟩ := hframe component hmem
    rw [← componentRootsOf_populateCpeIdentifiers _ options.cpeScope]
    exact mem_componentRootsOf.mpr ⟨judged, hjudged, hsame ▸ hroot⟩
  rw [(judgedComponents_of_usable _ _ _ hcomplete hrecords).2,
    populateCpeIdentifiers, List.map_map] at hmem
  obtain ⟨again, hagain, rfl⟩ := List.mem_map.mp hmem
  obtain ⟨cpe, provenance, hcpe⟩ := populateCpe_frame options.cpeScope again
  obtain ⟨judged, -, hsame, hmarked⟩ := hframe again hagain
  have hbefore := hused again hagain
  rw [Function.comp_apply, hcpe, usedInBuild_markComponent]
  dsimp only
  split_ifs with hempty
  · exact hbefore
  · rw [hmarked, usedInBuild_markComponent, ← hsame, if_neg hempty,
      signalAt_ne_none_iff] at hbefore
    rw [signalAt_ne_none_iff]
    exact isObserved_of_subset hfewer (mem_componentRootsOf.mpr
      ⟨again, hagain, by simpa using hempty, rfl⟩) hbefore

end Bomwerk.Cli
