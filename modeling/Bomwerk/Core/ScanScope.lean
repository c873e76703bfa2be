import Bomwerk.Core.FileIndex
import Bomwerk.Core.NormalPath

/-!
# The scope of a scan

The walk prunes directories and filters files; `path_in_scan_scope` looks at
one path.  The walk compares an excluded subtree with directories only, so an
exclude that names a regular file is where the two part.
-/

namespace Bomwerk.Core

open FsPath

/-! ## Paths of listed names -/

theorem ofEntryNames_injective : Function.Injective FsPath.ofEntryNames := by
  intro left right h
  have hnames : left.map EntryName.text = right.map EntryName.text :=
    congrArg FsPath.names h
  refine List.map_injective_iff.mpr ?_ hnames
  rintro ⟨text, _, _⟩ ⟨text', _, _⟩ rfl
  rfl

theorem names_ofEntryNames_ne_nil {chain : List EntryName} (hne : chain ≠ []) :
    (FsPath.ofEntryNames chain).names ≠ [] := by
  simpa [FsPath.ofEntryNames] using hne

theorem lexicallyNormal_ofEntryNames {chain : List EntryName}
    (hne : chain ≠ []) :
    (FsPath.ofEntryNames chain).lexicallyNormal =
      FsPath.ofEntryNames chain := by
  refine lexicallyNormal_eq_self rfl rfl (names_ofEntryNames_ne_nil hne) ?_ ?_
  · intro hmem
    obtain ⟨name, -, htext⟩ := List.mem_map.mp hmem
    exact name.proper.1 htext
  · intro hmem
    obtain ⟨name, -, htext⟩ := List.mem_map.mp hmem
    exact name.proper.2 htext

theorem dropCommonPrefix_append (front back : List String) :
    dropCommonPrefix (front ++ back) front = (back, []) := by
  induction front with
  | nil => cases back <;> rfl
  | cons name front ih => simpa [dropCommonPrefix] using ih

/-- What the walk takes for the relative path of an entry is the path of the
names that lead to it, whatever the root is. -/
theorem relativeEntryPath_eq (options : WalkOptions) {chain : List EntryName}
    (hne : chain ≠ []) :
    relativeEntryPath options chain = FsPath.ofEntryNames chain := by
  have hnames := names_ofEntryNames_ne_nil hne
  have happend : (options.root.append (FsPath.ofEntryNames chain)).names =
      options.root.names ++ (FsPath.ofEntryNames chain).names := by
    simp [FsPath.append, hne, FsPath.ofEntryNames]
  have habsolute : (options.root.append (FsPath.ofEntryNames chain)).absolute =
      options.root.absolute := by
    simp [FsPath.append, hne, FsPath.ofEntryNames]
  have htrailing :
      (options.root.append (FsPath.ofEntryNames chain)).trailing = false := by
    simp [FsPath.append, hne, FsPath.ofEntryNames]
  rw [relativeEntryPath, lexicallyRelative]
  simp only [happend, habsolute, dropCommonPrefix_append, bne_self_eq_false]
  apply FsPath.ext <;>
    simp [descent, hne, FsPath.append, FsPath.ofEntryNames]

/-- A subtree the configuration can name. -/
structure IsSubtree (subtree : FsPath) : Prop where
  inner : subtree.IsInner
  notDot : subtree ≠ FsPath.dot

theorem isSubtree_of_mem_readSubtreeArray {configPath : FsPath}
    {tableName key : String} {entries : List String} :
    ∀ subtree ∈ (readSubtreeArray configPath tableName key entries).value,
      IsSubtree subtree := by
  rw [readSubtreeArray]
  refine List.foldlRecOn
    (motive := fun result : Result (List FsPath) =>
      ∀ subtree ∈ result.value, IsSubtree subtree)
    entries _ (by simp) ?_
  intro result hresult entry _
  rw [readSubtree]
  split
  · exact hresult
  · rename_i hdot
    split
    · exact hresult
    · rename_i hcontained
      intro subtree hsubtree
      rcases List.mem_append.mp hsubtree with hsubtree | hsubtree
      · exact hresult subtree hsubtree
      · obtain rfl := List.mem_singleton.mp hsubtree
        exact ⟨isInner_normalizedSubtreePath (by simpa using hcontained), hdot⟩

theorem pathIsWithin_iff {candidate enclosing : FsPath} :
    pathIsWithin candidate enclosing = true ↔
      enclosing.allElements <+: candidate.allElements :=
  List.isPrefixOf_iff_prefix

theorem allElements_ofEntryNames (chain : List EntryName) :
    (FsPath.ofEntryNames chain).allElements = chain.map EntryName.text := by
  simp [allElements, elements, FsPath.ofEntryNames]

/-- A listed path is within a subtree when some directory or file on the way to
it is the subtree itself. -/
theorem pathIsWithin_ofEntryNames_iff {chain : List EntryName}
    {subtree : FsPath} (hsubtree : IsSubtree subtree) :
    pathIsWithin (FsPath.ofEntryNames chain) subtree = true ↔
      ∃ front, front ≠ [] ∧ front <+: chain ∧
        FsPath.ofEntryNames front = subtree := by
  have helements : subtree.allElements = subtree.names := by
    simp [allElements, elements, hsubtree.inner.relative,
      hsubtree.inner.noTrailing]
  rw [pathIsWithin_iff, helements, allElements_ofEntryNames]
  constructor
  · intro hprefix
    refine ⟨chain.take subtree.names.length, ?_, List.take_prefix _ _, ?_⟩
    · intro hnil
      have hlength := hprefix.length_le
      rw [List.length_map] at hlength
      have htake := congrArg List.length hnil
      rw [List.length_take, Nat.min_eq_left hlength] at htake
      exact hsubtree.inner.names_ne_nil (List.length_eq_zero_iff.mp htake)
    · refine FsPath.ext hsubtree.inner.relative.symm ?_
        hsubtree.inner.noTrailing.symm
      change (chain.take subtree.names.length).map EntryName.text = subtree.names
      rw [List.map_take]
      exact (List.prefix_iff_eq_take.mp hprefix).symm
  · rintro ⟨front, -, hfront, rfl⟩
    exact hfront.map EntryName.text

theorem directoryReachesInclude_of_prefix {front chain : List EntryName}
    {includedSubtrees : List FsPath} (hfront : front <+: chain)
    (hincluded : fileIsIncluded (FsPath.ofEntryNames chain) includedSubtrees =
      true) :
    directoryReachesInclude (FsPath.ofEntryNames front) includedSubtrees =
      true := by
  obtain ⟨subtree, hmem, hwithin⟩ := List.any_eq_true.mp hincluded
  refine List.any_eq_true.mpr ⟨subtree, hmem, ?_⟩
  rw [Bool.or_eq_true, pathIsWithin_iff, pathIsWithin_iff]
  rw [pathIsWithin_iff] at hwithin
  refine List.prefix_or_prefix_of_prefix ?_ hwithin
  rw [allElements_ofEntryNames, allElements_ofEntryNames]
  exact hfront.map EntryName.text

/-! ## What the walk visits -/

mutual

theorem prefix_of_mem_filesAt {found : List EntryName} :
    ∀ (chain : List EntryName) (entry : Entry),
      found ∈ filesAt chain entry → chain <+: found
  | chain, .regularFile, hmem => by
      rw [filesAt, List.mem_singleton] at hmem
      exact hmem ▸ List.prefix_refl chain
  | chain, .directory entries, hmem => by
      rw [filesAt] at hmem
      obtain ⟨name, rest, rfl⟩ := exists_of_mem_filesBelow chain entries hmem
      exact List.prefix_append chain _
  | chain, .other, hmem => by simp [filesAt] at hmem

theorem exists_of_mem_filesBelow {found : List EntryName} :
    ∀ (chain : List EntryName) (entries : List (EntryName × Entry)),
      found ∈ filesBelow chain entries →
        ∃ name rest, found = chain ++ name :: rest
  | chain, [], hmem => by simp [filesBelow] at hmem
  | chain, (name, entry) :: entries, hmem => by
      rw [filesBelow, List.mem_append] at hmem
      rcases hmem with hmem | hmem
      · obtain ⟨rest, rfl⟩ :=
          prefix_of_mem_filesAt (chain ++ [name]) entry hmem
        exact ⟨name, rest, by simp⟩
      · exact exists_of_mem_filesBelow chain entries hmem

end

section Walk

variable (options : WalkOptions)

/-- The walk enters every directory below `above` on the way to an entry. -/
def EntersBelow (above chain : List EntryName) : Prop :=
  ∀ parents name rest, above <+: parents → chain = parents ++ name :: rest →
    rest ≠ [] →
      hasExcludedName options name = false ∧
        isPruned options (parents ++ [name]) = false

/-- The file passes the include restriction. -/
def IsCollected (chain : List EntryName) : Prop :=
  options.includedSubtrees = [] ∨
    fileIsIncluded (FsPath.ofEntryNames chain) options.includedSubtrees = true

variable {options}

theorem entersBelow_of_append {above : List EntryName} {name : EntryName} :
    EntersBelow options above (above ++ [name]) := by
  rintro parents name' rest ⟨back, rfl⟩ hchain hne
  have hlength := congrArg List.length hchain
  have hpos := List.length_pos_of_ne_nil hne
  simp only [List.length_append, List.length_cons, List.length_nil] at hlength
  omega

theorem entersBelow_cons_iff {above rest : List EntryName} {name : EntryName}
    (hne : rest ≠ []) :
    EntersBelow options above (above ++ name :: rest) ↔
      (hasExcludedName options name = false ∧
        isPruned options (above ++ [name]) = false) ∧
        EntersBelow options (above ++ [name]) (above ++ name :: rest) := by
  constructor
  · intro henters
    refine ⟨henters above name rest (List.prefix_refl above) rfl hne, ?_⟩
    intro parents name' rest' hparents hchain hne'
    exact henters parents name' rest'
      ((List.prefix_append above [name]).trans hparents) hchain hne'
  · rintro ⟨hfirst, henters⟩ parents name' rest' ⟨back, rfl⟩ hchain hne'
    rw [List.append_assoc, List.append_cancel_left_eq] at hchain
    cases back with
    | nil =>
      obtain ⟨rfl, rfl⟩ := List.cons.inj hchain
      simpa using hfirst
    | cons next back =>
      obtain ⟨rfl, hrest⟩ := List.cons.inj hchain
      refine henters (above ++ name :: back) name' rest' ?_ ?_ hne'
      · exact ⟨back, by simp⟩
      · simp [hrest]

mutual

theorem mem_walkEntry_iff {path : FsPath} :
    ∀ (parents : List EntryName) (name : EntryName) (entry : Entry),
      path ∈ (walkEntry options parents name entry).files ↔
        ∃ chain ∈ filesAt (parents ++ [name]) entry,
          path = FsPath.ofEntryNames chain ∧
            EntersBelow options parents chain ∧ IsCollected options chain
  | parents, name, .regularFile => by
      have hne : parents ++ [name] ≠ [] := by simp
      rw [walkEntry, filesAt]
      simp only [relativeEntryPath_eq options hne, List.mem_singleton,
        exists_eq_left, entersBelow_of_append, true_and, IsCollected]
      by_cases hempty : options.includedSubtrees = []
      · simp [hempty]
      · by_cases hincluded : fileIsIncluded
            (FsPath.ofEntryNames (parents ++ [name]))
            options.includedSubtrees = true <;>
          simp [hempty, hincluded]
  | parents, name, .directory entries => by
      rw [walkEntry, filesAt]
      by_cases henters : hasExcludedName options name = false ∧
          isPruned options (parents ++ [name]) = false
      · simp only [henters.1, henters.2, Bool.false_eq_true, if_false]
        rw [mem_walkEntries_iff (parents ++ [name]) entries]
        refine exists_congr fun chain => and_congr_right fun hmem => ?_
        obtain ⟨next, rest, rfl⟩ :=
          exists_of_mem_filesBelow (parents ++ [name]) entries hmem
        have hsplit : EntersBelow options parents
              (parents ++ name :: next :: rest) ↔
            (hasExcludedName options name = false ∧
              isPruned options (parents ++ [name]) = false) ∧
              EntersBelow options (parents ++ [name])
                (parents ++ name :: next :: rest) :=
          entersBelow_cons_iff (List.cons_ne_nil next rest)
        simp only [List.append_assoc, List.singleton_append]
          at hsplit henters ⊢
        rw [hsplit]
        tauto
      · have hnone : (walkEntry options parents name
            (.directory entries)).files = [] := by
          rw [walkEntry]
          split
          · rfl
          · split
            · rfl
            · rename_i hname hpruned
              exact absurd ⟨by simpa using hname, by simpa using hpruned⟩ henters
        rw [walkEntry] at hnone
        rw [hnone]
        simp only [List.not_mem_nil, false_iff]
        rintro ⟨chain, hmem, -, hbelow, -⟩
        obtain ⟨next, rest, rfl⟩ :=
          exists_of_mem_filesBelow (parents ++ [name]) entries hmem
        exact henters (hbelow parents name (next :: rest)
          (List.prefix_refl parents) (by simp) (List.cons_ne_nil next rest))
  | parents, name, .other => by simp [walkEntry, filesAt]

theorem mem_walkEntries_iff {path : FsPath} :
    ∀ (parents : List EntryName) (entries : List (EntryName × Entry)),
      path ∈ (walkEntries options parents entries).files ↔
        ∃ chain ∈ filesBelow parents entries,
          path = FsPath.ofEntryNames chain ∧
            EntersBelow options parents chain ∧ IsCollected options chain
  | parents, [] => by simp [walkEntries, filesBelow]
  | parents, (name, entry) :: entries => by
      rw [walkEntries, filesBelow, Walked.append, List.mem_append,
        mem_walkEntry_iff parents name entry,
        mem_walkEntries_iff parents entries]
      simp only [List.mem_append, or_and_right, exists_or]

end

mutual

theorem mem_directoryNamesAt {found parents rest : List EntryName}
    {name : EntryName} :
    ∀ (above : List EntryName) (next : EntryName) (entry : Entry),
      found ∈ filesAt (above ++ [next]) entry → above <+: parents →
        found = parents ++ name :: rest → rest ≠ [] →
          name ∈ directoryNamesAt next entry
  | above, next, .regularFile, hmem, ⟨back, hback⟩, hfound, hne => by
      rw [filesAt, List.mem_singleton, hfound, ← hback] at hmem
      have hlength := congrArg List.length hmem
      have hpos := List.length_pos_of_ne_nil hne
      simp only [List.length_append, List.length_cons, List.length_nil]
        at hlength
      omega
  | above, next, .directory entries, hmem, ⟨back, hback⟩, hfound, hne => by
      rw [filesAt] at hmem
      rw [directoryNamesAt, List.mem_cons]
      obtain ⟨first, last, hlast⟩ :=
        exists_of_mem_filesBelow (above ++ [next]) entries hmem
      have hchain : back ++ name :: rest = next :: first :: last := by
        rw [hfound, ← hback] at hlast
        simpa using hlast
      cases back with
      | nil => exact Or.inl (List.cons.inj hchain).1
      | cons step back =>
        obtain ⟨rfl, -⟩ := List.cons.inj hchain
        exact Or.inr (mem_directoryNamesBelow (above ++ [step]) entries hmem
          ⟨back, by simpa using hback⟩ hfound hne)
  | above, next, .other, hmem, _, _, _ => by simp [filesAt] at hmem

/-- What leads to a file below a directory is the name of a directory. -/
theorem mem_directoryNamesBelow {found parents rest : List EntryName}
    {name : EntryName} :
    ∀ (above : List EntryName) (entries : List (EntryName × Entry)),
      found ∈ filesBelow above entries → above <+: parents →
        found = parents ++ name :: rest → rest ≠ [] →
          name ∈ directoryNamesBelow entries
  | above, [], hmem, _, _, _ => by simp [filesBelow] at hmem
  | above, (next, entry) :: entries, hmem, hparents, hfound, hne => by
      rw [filesBelow, List.mem_append] at hmem
      rw [directoryNamesBelow, List.mem_append]
      rcases hmem with hmem | hmem
      · exact Or.inl
          (mem_directoryNamesAt above next entry hmem hparents hfound hne)
      · exact Or.inr
          (mem_directoryNamesBelow above entries hmem hparents hfound hne)

end

end Walk

theorem mem_buildFileIndex_iff (options : WalkOptions) (tree : Entry)
    (path : FsPath) :
    path ∈ (buildFileIndex options tree).value ↔
      ∃ chain ∈ regularFiles tree, path = FsPath.ofEntryNames chain ∧
        EntersBelow options [] chain ∧ IsCollected options chain := by
  rw [buildFileIndex, List.mem_insertionSort, mem_walkEntries_iff]
  rfl

/-- Under two sets of excludes the walk finds what it finds under each. -/
theorem mem_buildFileIndex_append (options : WalkOptions)
    (left right : List FsPath) (tree : Entry) (path : FsPath) :
    path ∈ (buildFileIndex
        { options with excludedSubtrees := left ++ right } tree).value ↔
      path ∈ (buildFileIndex
          { options with excludedSubtrees := left } tree).value ∧
        path ∈ (buildFileIndex
          { options with excludedSubtrees := right } tree).value := by
  have hpruned : ∀ chain,
      isPruned { options with excludedSubtrees := left ++ right } chain =
        (isPruned { options with excludedSubtrees := left } chain ||
          isPruned { options with excludedSubtrees := right } chain) := by
    intro chain
    simp only [isPruned, relativeEntryPath, List.contains_append]
    grind
  have henters : ∀ chain,
      EntersBelow { options with excludedSubtrees := left ++ right } [] chain ↔
        EntersBelow { options with excludedSubtrees := left } [] chain ∧
          EntersBelow { options with excludedSubtrees := right } [] chain := by
    intro chain
    simp only [EntersBelow, hpruned, Bool.or_eq_false_iff, hasExcludedName]
    grind
  simp only [mem_buildFileIndex_iff, henters]
  constructor
  · rintro ⟨chain, hfile, rfl, ⟨hleft, hright⟩, hcollected⟩
    exact ⟨⟨chain, hfile, rfl, hleft, hcollected⟩,
      chain, hfile, rfl, hright, hcollected⟩
  · rintro ⟨⟨chain, hfile, rfl, hleft, hcollected⟩,
      other, -, hsame, hright, -⟩
    obtain rfl := ofEntryNames_injective hsame
    exact ⟨chain, hfile, rfl, ⟨hleft, hright⟩, hcollected⟩

/-! ## The walk and the predicate -/

/-- The index holds exactly the regular files that the predicate accepts. -/
def AgreesOnScope (options : WalkOptions) (tree : Entry) : Prop :=
  ∀ path, path ∈ (buildFileIndex options tree).value ↔
    path ∈ (regularFiles tree).map FsPath.ofEntryNames ∧
      pathInScanScope path options.excludedSubtrees
        options.includedSubtrees = true

/-- A regular file named by an exclude is out of the walk for another reason:
it is within another excluded subtree or outside every included one. -/
def FileExcludesMoot (options : WalkOptions) (tree : Entry) : Prop :=
  ∀ chain ∈ regularFiles tree,
    FsPath.ofEntryNames chain ∈ options.excludedSubtrees →
      (∃ subtree ∈ options.excludedSubtrees,
        subtree ≠ FsPath.ofEntryNames chain ∧
          pathIsWithin (FsPath.ofEntryNames chain) subtree = true) ∨
        ¬ IsCollected options chain

section Scope

variable {options : WalkOptions} {tree : Entry}

theorem pathInScanScope_iff {chain : List EntryName} :
    pathInScanScope (FsPath.ofEntryNames chain) options.excludedSubtrees
        options.includedSubtrees = true ↔
      (∀ subtree ∈ options.excludedSubtrees,
        pathIsWithin (FsPath.ofEntryNames chain) subtree = false) ∧
        IsCollected options chain := by
  rw [pathInScanScope, IsCollected]
  by_cases hexcluded : options.excludedSubtrees.any
      (pathIsWithin (FsPath.ofEntryNames chain)) = true
  · rw [if_pos hexcluded]
    obtain ⟨subtree, hmem, hwithin⟩ := List.any_eq_true.mp hexcluded
    simp only [Bool.false_eq_true, false_iff, not_and]
    intro hnone
    simp [hnone subtree hmem] at hwithin
  · rw [if_neg hexcluded]
    have hnone : ∀ subtree ∈ options.excludedSubtrees,
        pathIsWithin (FsPath.ofEntryNames chain) subtree = false := by
      simpa using hexcluded
    by_cases hempty : options.includedSubtrees = []
    · simpa [hempty] using hnone
    · simpa [hempty] using fun _ => hnone

theorem not_entersBelow_of_excluded {front chain : List EntryName}
    (hne : front ≠ []) (hfront : front <+: chain) (hbelow : front ≠ chain)
    (hexcluded : FsPath.ofEntryNames front ∈ options.excludedSubtrees) :
    ¬ EntersBelow options [] chain := by
  intro henters
  obtain ⟨rest, rfl⟩ := hfront
  have hrest : rest ≠ [] := by
    rintro rfl
    exact hbelow (by rw [List.append_nil])
  obtain ⟨parents, name, rfl⟩ :=
    (List.eq_nil_or_concat' front).resolve_left hne
  have hpruned := (henters parents name rest (List.nil_prefix)
    (by simp) hrest).2
  rw [isPruned, relativeEntryPath_eq options (by simp),
    lexicallyNormal_ofEntryNames (by simp)] at hpruned
  simp [hexcluded] at hpruned

/-- A file that passes the include restriction is reached unless a directory
above it is excluded. -/
theorem entersBelow_iff
    (hexcluded : ∀ subtree ∈ options.excludedSubtrees, IsSubtree subtree)
    (hnames : ∀ name ∈ directoryNames tree,
      hasExcludedName options name = false)
    {chain : List EntryName} (hmem : chain ∈ regularFiles tree)
    (hcollected : IsCollected options chain) :
    EntersBelow options [] chain ↔
      ∀ subtree ∈ options.excludedSubtrees,
        subtree ≠ FsPath.ofEntryNames chain →
          pathIsWithin (FsPath.ofEntryNames chain) subtree = false := by
  constructor
  · intro henters subtree hsubtree hne
    by_contra hwithin
    rw [Bool.not_eq_false, pathIsWithin_ofEntryNames_iff
      (hexcluded subtree hsubtree)] at hwithin
    obtain ⟨front, hfront, hprefix, rfl⟩ := hwithin
    refine not_entersBelow_of_excluded hfront hprefix ?_ hsubtree henters
    rintro rfl
    exact hne rfl
  · intro hnone parents name rest _ hchain hrest
    have hfront : parents ++ [name] <+: chain := ⟨rest, by simp [hchain]⟩
    refine ⟨hnames name (mem_directoryNamesBelow [] tree.entries hmem
      List.nil_prefix hchain hrest), ?_⟩
    rw [isPruned, relativeEntryPath_eq options (by simp),
      lexicallyNormal_ofEntryNames (by simp)]
    have hkept : FsPath.ofEntryNames (parents ++ [name]) ∉
        options.excludedSubtrees := by
      intro hsubtree
      have hne : FsPath.ofEntryNames (parents ++ [name]) ≠
          FsPath.ofEntryNames chain := by
        intro hsame
        have hlength := congrArg List.length (ofEntryNames_injective hsame)
        have hpos := List.length_pos_of_ne_nil hrest
        rw [hchain] at hlength
        simp only [List.length_append, List.length_cons, List.length_nil]
          at hlength
        omega
      have hout := hnone _ hsubtree hne
      rw [Bool.eq_false_iff] at hout
      exact hout ((pathIsWithin_ofEntryNames_iff
        (hexcluded _ hsubtree)).mpr ⟨_, by simp, hfront, rfl⟩)
    rcases hcollected with hempty | hincluded
    · simp [hkept, hempty]
    · simp [hkept, directoryReachesInclude_of_prefix hfront hincluded]

/-- Walk and predicate agree exactly when no exclude names a regular file that
nothing else keeps out. -/
theorem agreesOnScope_iff_of_subtrees
    (hexcluded : ∀ subtree ∈ options.excludedSubtrees, IsSubtree subtree)
    (hnames : ∀ name ∈ directoryNames tree,
      hasExcludedName options name = false) :
    AgreesOnScope options tree ↔ FileExcludesMoot options tree := by
  have hindex := mem_buildFileIndex_iff options tree
  constructor
  · intro hagrees chain hmem hfile
    by_contra hother
    rw [not_or, not_not] at hother
    obtain ⟨hnone, hcollected⟩ := hother
    have henters : EntersBelow options [] chain := by
      rw [entersBelow_iff hexcluded hnames hmem hcollected]
      intro subtree hsubtree hne
      by_contra hwithin
      exact hnone ⟨subtree, hsubtree, hne, by simpa using hwithin⟩
    have hscope := ((hagrees (FsPath.ofEntryNames chain)).mp
      ((hindex _).mpr ⟨chain, hmem, rfl, henters, hcollected⟩)).2
    have hout := (pathInScanScope_iff.mp hscope).1 _ hfile
    rw [Bool.eq_false_iff] at hout
    exact hout (pathIsWithin_iff.mpr (List.prefix_refl _))
  · intro hmoot path
    rw [hindex, List.mem_map]
    constructor
    · rintro ⟨chain, hmem, rfl, henters, hcollected⟩
      refine ⟨⟨chain, hmem, rfl⟩, pathInScanScope_iff.mpr ⟨?_, hcollected⟩⟩
      rw [entersBelow_iff hexcluded hnames hmem hcollected] at henters
      intro subtree hsubtree
      by_cases hsame : subtree = FsPath.ofEntryNames chain
      · subst hsame
        rcases hmoot chain hmem hsubtree with
          ⟨other, hother, hne, hwithin⟩ | hout
        · rw [henters other hother hne] at hwithin
          exact absurd hwithin Bool.false_ne_true
        · exact absurd hcollected hout
      · exact henters subtree hsubtree hsame
    · rintro ⟨⟨chain, hmem, rfl⟩, hscope⟩
      obtain ⟨hnone, hcollected⟩ := pathInScanScope_iff.mp hscope
      refine ⟨chain, hmem, rfl, ?_, hcollected⟩
      rw [entersBelow_iff hexcluded hnames hmem hcollected]
      exact fun subtree hsubtree _ => hnone subtree hsubtree

end Scope

/-- Under any configuration, walk and predicate agree exactly when no exclude
names a regular file that nothing else keeps out. -/
theorem agreesOnScope_iff (root configPath : FsPath)
    (excludes includes : List String) {tree : Entry}
    (hnames : ∀ name ∈ directoryNames tree,
      name.text ∉ defaultExcludedDirNames) :
    AgreesOnScope (configuredWalk root configPath excludes includes) tree ↔
      FileExcludesMoot (configuredWalk root configPath excludes includes)
        tree := by
  refine agreesOnScope_iff_of_subtrees isSubtree_of_mem_readSubtreeArray ?_
  intro name hmem
  simpa [hasExcludedName, configuredWalk] using hnames name hmem

/-- A directory `src` that holds one file. -/
def sampleTree : Entry :=
  .directory
    [(⟨"src", by decide, by decide⟩,
      .directory [(⟨"main.c", by decide, by decide⟩, .regularFile)])]

theorem agreesOnScope_iff_directory :
    AgreesOnScope (configuredWalk FsPath.dot .empty ["src/"] []) sampleTree ↔
      FileExcludesMoot (configuredWalk FsPath.dot .empty ["src/"] [])
        sampleTree :=
  agreesOnScope_iff FsPath.dot .empty ["src/"] [] (by decide)

/-- The walk collects a file that an exclude names. -/
theorem not_agreesOnScope_of_file :
    ¬ AgreesOnScope (configuredWalk FsPath.dot .empty ["src/main.c"] [])
        sampleTree := by
  intro hagrees
  have hmem : FsPath.ofString "src/main.c" ∈ (buildFileIndex
      (configuredWalk FsPath.dot .empty ["src/main.c"] [])
        sampleTree).value := by
    decide +kernel
  have hscope := ((hagrees _).mp hmem).2
  exact absurd hscope (by decide +kernel)

end Bomwerk.Core
