import Bomwerk.Observe.LinkMap

/-!
# Trace order does not matter

The records of a parallel build arrive in any order.  Any two changes the three
loops over a trace make to their state commute, so every permutation of a trace
leads to the same maps, the same artifacts and the same warnings.
-/

namespace Bomwerk.Observe

open Bomwerk.Core Bomwerk.Support

/-! ## Compiles -/

theorem isEmpty_of_toRootRelative {absolutePath canonicalRoot path : FsPath}
    (hrelative : toRootRelative absolutePath canonicalRoot = some path) :
    path.isEmpty = false := by
  simp only [toRootRelative] at hrelative
  split_ifs at hrelative with hempty
  obtain rfl := Option.some.inj hrelative
  simpa using hempty

theorem keepLowest_eq_min {kept : FsPath} (hkept : kept.isEmpty = false)
    (candidate : FsPath) : keepLowest kept candidate = min candidate kept := by
  rcases lt_or_ge candidate kept with hlt | hle
  · simp [keepLowest, hkept, hlt, hlt.le]
  · simp [keepLowest, hkept, not_lt.mpr hle, hle]

theorem isEmpty_min {p q : FsPath} (hp : p.isEmpty = false)
    (hq : q.isEmpty = false) : (min p q).isEmpty = false := by
  rcases min_choice p q with h | h <;> rwa [h]

theorem keepLowest_comm (kept : FsPath) {p q : FsPath}
    (hp : p.isEmpty = false) (hq : q.isEmpty = false) :
    keepLowest (keepLowest kept p) q = keepLowest (keepLowest kept q) p := by
  by_cases hkept : kept.isEmpty = true
  · have hfirst : ∀ path, keepLowest kept path = path := by
      intro path
      simp [keepLowest, hkept]
    rw [hfirst, hfirst, keepLowest_eq_min hp, keepLowest_eq_min hq, min_comm]
  · have hkept' : kept.isEmpty = false := by simpa using hkept
    rw [keepLowest_eq_min hkept', keepLowest_eq_min hkept',
      keepLowest_eq_min (isEmpty_min hp hkept'),
      keepLowest_eq_min (isEmpty_min hq hkept'), min_left_comm]

theorem ComponentUsage.addIncludePath_comm (usage : ComponentUsage)
    {p q : FsPath} (hp : p.isEmpty = false) (hq : q.isEmpty = false) :
    (usage.addIncludePath p).addIncludePath q =
      (usage.addIncludePath q).addIncludePath p := by
  simp only [ComponentUsage.addIncludePath, keepLowest_comm _ hp hq]

section Compile

variable (canonicalRoot : FsPath) (componentRoots : OrderedSet FsPath)

theorem insertPath_comm {k l p q : FsPath}
    (map : OrderedMap FsPath (OrderedSet FsPath)) :
    updateAt (updateAt map k fun paths => (paths.getD ∅).insert p) l
        (fun paths => (paths.getD ∅).insert q) =
      updateAt (updateAt map l fun paths => (paths.getD ∅).insert q) k
        fun paths => (paths.getD ∅).insert p :=
  updateAt_comm map fun _ _ => insert_comm_orderedSet _ p q

theorem CompileScan.addSource_comm (scan : CompileScan) (p q : FsPath) :
    (scan.addSource canonicalRoot componentRoots p).addSource canonicalRoot
        componentRoots q =
      (scan.addSource canonicalRoot componentRoots q).addSource canonicalRoot
        componentRoots p := by
  unfold CompileScan.addSource
  cases toRootRelative p canonicalRoot with
  | none =>
    cases toRootRelative q canonicalRoot with
    | none => simp [insert_comm_orderedSet scan.outOfTreeSources p q]
    | some q => rfl
  | some p =>
    cases toRootRelative q canonicalRoot with
    | none => rfl
    | some q =>
      cases hp : enclosingRoot p.parentPath componentRoots <;>
        cases hq : enclosingRoot q.parentPath componentRoots <;>
        simp [hp, hq, insert_comm_orderedSet scan.compiledSources p q,
          insertPath_comm scan.sourcesByRoot]

theorem CompileScan.addIncludePath_comm (scan : CompileScan) (p q : FsPath) :
    (scan.addIncludePath canonicalRoot componentRoots p).addIncludePath
        canonicalRoot componentRoots q =
      (scan.addIncludePath canonicalRoot componentRoots q).addIncludePath
        canonicalRoot componentRoots p := by
  unfold CompileScan.addIncludePath
  cases hp : toRootRelative p canonicalRoot with
  | none => cases toRootRelative q canonicalRoot <;> rfl
  | some p =>
    cases hq : toRootRelative q canonicalRoot with
    | none => rfl
    | some q =>
      have husage := fun usage : ComponentUsage =>
        usage.addIncludePath_comm (isEmpty_of_toRootRelative hp)
          (isEmpty_of_toRootRelative hq)
      cases hproot : enclosingRoot p componentRoots with
      | none => cases enclosingRoot q componentRoots <;> simp [hproot]
      | some root =>
        cases hqroot : enclosingRoot q componentRoots with
        | none => simp [hproot, hqroot]
        | some other =>
          simp only [hproot, hqroot]
          rw [updateAt_comm scan.usageByRoot fun _ usage =>
            husage (usage.getD {})]

theorem CompileScan.addSource_addIncludePath (scan : CompileScan)
    (p q : FsPath) :
    (scan.addSource canonicalRoot componentRoots p).addIncludePath
        canonicalRoot componentRoots q =
      (scan.addIncludePath canonicalRoot componentRoots q).addSource
        canonicalRoot componentRoots p := by
  unfold CompileScan.addSource CompileScan.addIncludePath
  cases toRootRelative p canonicalRoot <;>
    cases toRootRelative q canonicalRoot with
    | none => rfl
    | some q => cases hroot : enclosingRoot q componentRoots <;> simp [hroot]

def CompileScan.count (scan : CompileScan) (invocations responses : Nat) :
    CompileScan :=
  { scan with
    compileInvocations := scan.compileInvocations + invocations
    unexpandedResponseFiles := scan.unexpandedResponseFiles + responses }

theorem CompileScan.count_comm (scan : CompileScan) (m n k l : Nat) :
    (scan.count m n).count k l = (scan.count k l).count m n := by
  simp [CompileScan.count, Nat.add_right_comm]

theorem CompileScan.addSource_count (scan : CompileScan) (m n : Nat)
    (p : FsPath) :
    (scan.count m n).addSource canonicalRoot componentRoots p =
      (scan.addSource canonicalRoot componentRoots p).count m n := by
  unfold CompileScan.addSource
  cases toRootRelative p canonicalRoot <;> rfl

theorem CompileScan.addIncludePath_count (scan : CompileScan) (m n : Nat)
    (p : FsPath) :
    (scan.count m n).addIncludePath canonicalRoot componentRoots p =
      (scan.addIncludePath canonicalRoot componentRoots p).count m n := by
  unfold CompileScan.addIncludePath
  cases toRootRelative p canonicalRoot with
  | none => rfl
  | some p => cases hroot : enclosingRoot p componentRoots <;> simp [hroot, count]

theorem CompileScan.apply_comm (scan : CompileScan) (a b : CompileEvent) :
    (scan.apply canonicalRoot componentRoots a).apply canonicalRoot
        componentRoots b =
      (scan.apply canonicalRoot componentRoots b).apply canonicalRoot
        componentRoots a := by
  have hsource := CompileScan.addSource_count canonicalRoot componentRoots scan
  have hinclude :=
    CompileScan.addIncludePath_count canonicalRoot componentRoots scan
  have hcross :=
    CompileScan.addSource_addIncludePath canonicalRoot componentRoots scan
  rcases a with _ | m | p | p <;> rcases b with _ | n | q | q
  · rfl
  · rfl
  · exact hsource 1 0 q
  · exact hinclude 1 0 q
  · rfl
  · exact scan.count_comm 0 m 0 n
  · exact hsource 0 m q
  · exact hinclude 0 m q
  · exact (hsource 1 0 p).symm
  · exact (hsource 0 n p).symm
  · exact scan.addSource_comm canonicalRoot componentRoots p q
  · exact hcross p q
  · exact (hinclude 1 0 p).symm
  · exact (hinclude 0 n p).symm
  · exact (hcross q p).symm
  · exact scan.addIncludePath_comm canonicalRoot componentRoots p q

end Compile

section Link

variable (canonicalRoot : FsPath) (componentRoots : OrderedSet FsPath)

theorem LinkScan.attributeLinkInput_comm (scan : LinkScan) (p q : FsPath) :
    (scan.attributeLinkInput canonicalRoot componentRoots p).attributeLinkInput
        canonicalRoot componentRoots q =
      (scan.attributeLinkInput canonicalRoot componentRoots
        q).attributeLinkInput canonicalRoot componentRoots p := by
  unfold LinkScan.attributeLinkInput
  cases toRootRelative p canonicalRoot with
  | none => cases toRootRelative q canonicalRoot <;> rfl
  | some p =>
    cases toRootRelative q canonicalRoot with
    | none => rfl
    | some q =>
      cases hp : enclosingRoot p.parentPath componentRoots <;>
        cases hq : enclosingRoot q.parentPath componentRoots <;>
        simp [hp, hq, insertPath_comm scan.linkedInputsByRoot]

def LinkScan.count (scan : LinkScan) (invocations responses unresolved : Nat) :
    LinkScan :=
  { scan with
    linkInvocations := scan.linkInvocations + invocations
    unexpandedResponseFiles := scan.unexpandedResponseFiles + responses
    unresolvedLibraryNames := scan.unresolvedLibraryNames + unresolved }

theorem LinkScan.attributeLinkInput_count (scan : LinkScan) (m n k : Nat)
    (p : FsPath) :
    (scan.count m n k).attributeLinkInput canonicalRoot componentRoots p =
      (scan.attributeLinkInput canonicalRoot componentRoots p).count m n k := by
  unfold LinkScan.attributeLinkInput
  cases toRootRelative p canonicalRoot with
  | none => rfl
  | some p =>
    cases hroot : enclosingRoot p.parentPath componentRoots <;>
      simp [hroot, count]

theorem LinkScan.apply_comm (scan : LinkScan) (a b : LinkEvent) :
    (scan.apply canonicalRoot componentRoots a).apply canonicalRoot
        componentRoots b =
      (scan.apply canonicalRoot componentRoots b).apply canonicalRoot
        componentRoots a := by
  have hinput :=
    LinkScan.attributeLinkInput_count canonicalRoot componentRoots scan
  rcases a with _ | m | p | _ <;> rcases b with _ | n | q | _
  · rfl
  · rfl
  · exact hinput 1 0 0 q
  · rfl
  · rfl
  · simp [LinkScan.apply, Nat.add_right_comm]
  · exact hinput 0 m 0 q
  · rfl
  · exact (hinput 1 0 0 p).symm
  · exact (hinput 0 n 0 p).symm
  · exact scan.attributeLinkInput_comm canonicalRoot componentRoots p q
  · exact (hinput 0 0 1 p).symm
  · rfl
  · rfl
  · exact hinput 0 0 1 q
  · rfl

end Link

theorem BuildArtifacts.apply_comm (canonicalRoot : FsPath)
    (artifacts : BuildArtifacts) (a b : ArtifactEvent) :
    (artifacts.apply canonicalRoot a).apply canonicalRoot b =
      (artifacts.apply canonicalRoot b).apply canonicalRoot a := by
  rcases a with m | p | p | p <;> rcases b with n | q | q | q <;>
    simp only [BuildArtifacts.apply, BuildArtifacts.recordArtifact]
  · simp [Nat.add_right_comm]
  iterate 3
    · cases toRootRelative q canonicalRoot <;> rfl
  iterate 3
    · cases toRootRelative p canonicalRoot <;> rfl
    iterate 3
      · cases toRootRelative p canonicalRoot <;>
          cases toRootRelative q canonicalRoot <;>
          simp [insert_comm_orderedSet]

/-- The order of the records does not matter to any of the three mappings. -/
theorem mappings_perm (fileSystem : FileSystem)
    {records reordered : List TraceRecord} (hperm : records.Perm reordered)
    (scanRoot : FsPath) (componentRoots : OrderedSet FsPath) :
    mapCompilesToRoots fileSystem records scanRoot componentRoots =
        mapCompilesToRoots fileSystem reordered scanRoot componentRoots ∧
      mapLinksToRoots fileSystem records scanRoot componentRoots =
        mapLinksToRoots fileSystem reordered scanRoot componentRoots ∧
      collectBuildArtifacts fileSystem records scanRoot =
        collectBuildArtifacts fileSystem reordered scanRoot := by
  refine ⟨?_, ?_, ?_⟩
  · rw [mapCompilesToRoots, compileScan,
      accumulate_perm (CompileScan.apply_comm _ _) hperm]
    rfl
  · rw [mapLinksToRoots, linkScan,
      accumulate_perm (LinkScan.apply_comm _ _) hperm]
    rfl
  · rw [collectBuildArtifacts, artifactScan,
      accumulate_perm (BuildArtifacts.apply_comm _) hperm]
    rfl

def sampleFileSystem : FileSystem where
  canonical path := path
  fileExists _ := true

def sampleRecords : List TraceRecord :=
  [{ tool := "cc"
     arguments := ["cc", "-c", "zlib/inflate.c", "-Izlib"]
     workingDirectory := "/src" },
   { tool := "ld"
     arguments := ["ld", "-o", "app", "zlib/libz.a", "-Llib", "-lm"]
     workingDirectory := "/src" }]

theorem mappings_perm_reverse :
    let roots : OrderedSet FsPath := {FsPath.ofString "zlib"}
    let scanRoot := FsPath.ofString "/src"
    mapCompilesToRoots sampleFileSystem sampleRecords scanRoot roots =
        mapCompilesToRoots sampleFileSystem sampleRecords.reverse scanRoot
          roots ∧
      mapLinksToRoots sampleFileSystem sampleRecords scanRoot roots =
        mapLinksToRoots sampleFileSystem sampleRecords.reverse scanRoot
          roots ∧
      collectBuildArtifacts sampleFileSystem sampleRecords scanRoot =
        collectBuildArtifacts sampleFileSystem sampleRecords.reverse
          scanRoot :=
  mappings_perm sampleFileSystem (List.reverse_perm _).symm _ _

end Bomwerk.Observe
