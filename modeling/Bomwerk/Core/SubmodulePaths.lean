import Bomwerk.Core.GitConfig
import Bomwerk.Core.ScanScope

/-!
# Submodule subtrees

`core/submodule_paths.cpp` names the directories of the declared submodules,
and the walk prunes a directory by comparing its path with that list.  The list
keeps a trailing separator that the walk's paths never have, and the root is
never compared at all.
-/

namespace Bomwerk.Core

open FsPath

/-- The path of a section that `submodule_subtrees` does not skip. -/
def acceptedPath (block : GitConfigSection) : Option FsPath :=
  if block.name ≠ "submodule" then none
  else
    match block.find? "path" with
    | none => none
    | some pathValue =>
      if pathValue = "" then none
      else if !(FsPath.ofString pathValue).isContainedRelativePath then none
      else some (FsPath.ofString pathValue)

/-- The paths that `submodule_subtrees` accepts, below the root of a scan. -/
def acceptedPaths (root : FsPath) (gitmodules : ConfigFile) : List FsPath :=
  (readGitConfig (root.append (.ofString ".gitmodules"))
    gitmodules).value.sections.filterMap acceptedPath

def submoduleSubtrees (root : FsPath) (gitmodules : ConfigFile) :
    List FsPath :=
  (acceptedPaths root gitmodules).map FsPath.lexicallyNormal

def withSubmoduleSubtrees (root : FsPath) (gitmodules : ConfigFile)
    (callerExcluded : List FsPath) : List FsPath :=
  callerExcluded ++ submoduleSubtrees root gitmodules

/-- The names of the directory that a relative path leads to from the root. -/
def denotedNames (p : FsPath) : List String :=
  p.names.foldl enterName []

theorem enterName_proper {directory : List String} {name : String}
    (hname : IsFileName name)
    (hdirectory : ∀ n ∈ directory, IsFileName n ∧ n ≠ "." ∧ n ≠ "..") :
    ∀ n ∈ enterName directory name, IsFileName n ∧ n ≠ "." ∧ n ≠ ".." := by
  unfold enterName
  split_ifs with hdot hup
  · exact hdirectory
  · intro n hn
    exact hdirectory n (List.dropLast_subset directory hn)
  · intro n hn
    rcases List.mem_append.mp hn with hn | hn
    · exact hdirectory n hn
    · obtain rfl := List.mem_singleton.mp hn
      exact ⟨hname, hdot, hup⟩

theorem denotedNames_proper (p : FsPath) :
    ∀ name ∈ denotedNames p, IsFileName name ∧ name ≠ "." ∧ name ≠ ".." := by
  have hsteps : ∀ (names directory : List String), (∀ n ∈ names, IsFileName n) →
      (∀ n ∈ directory, IsFileName n ∧ n ≠ "." ∧ n ≠ "..") →
      ∀ n ∈ names.foldl enterName directory,
        IsFileName n ∧ n ≠ "." ∧ n ≠ ".." := by
    intro names
    induction names with
    | nil => exact fun directory _ hdirectory => hdirectory
    | cons name names ih =>
      intro directory hnames hdirectory
      refine ih _ (fun n hn => hnames n (List.mem_cons_of_mem _ hn)) ?_
      exact enterName_proper (hnames name List.mem_cons_self) hdirectory
  exact hsteps p.names [] p.names_valid (by simp)

/-- As long as it never climbs above the root, normalising keeps the names of
the directory that the path denotes. -/
theorem reverse_normalizeNames_eq_denoted {p : FsPath}
    (hinside : ".." ∉ (normalizeNames false p.names).1) :
    (normalizeNames false p.names).1.reverse = denotedNames p := by
  obtain ⟨route, -, hkept, hwalk⟩ := Route.exists_normalizeNames false p.names
  rw [hkept, List.mem_reverse, Route.mem_names_dotDot_iff, not_not] at hinside
  refine Eq.trans ?_ (hwalk [] fun _ => rfl).symm
  simp [hkept, Route.names, Route.destination, hinside]

/-- The normal form of an accepted path names the directory it denotes. -/
theorem names_lexicallyNormal_of_contained {p : FsPath}
    (hcontained : p.isContainedRelativePath = true) :
    p.lexicallyNormal.absolute = false ∧ p.lexicallyNormal.names =
        if denotedNames p = [] then ["."] else denotedNames p := by
  simp only [isContainedRelativePath, Bool.and_eq_true, Bool.not_eq_true',
    List.contains_eq_mem, decide_eq_false_iff_not] at hcontained
  obtain ⟨⟨hnonempty, hrelative⟩, hinside⟩ := hcontained
  have hnames : p.names ≠ [] := by
    simpa [isEmpty, hrelative] using hnonempty
  refine ⟨by rw [absolute_lexicallyNormal, hrelative], ?_⟩
  have hkept : ".." ∉ (normalizeNames false p.names).1 := by
    rw [names_lexicallyNormal hrelative] at hinside
    split at hinside
    · rename_i hnil
      simp [hnil]
    · rwa [List.mem_reverse] at hinside
  have hdenoted : (normalizeNames false p.names).1.reverse = denotedNames p :=
    reverse_normalizeNames_eq_denoted hkept
  rw [names_lexicallyNormal hrelative, if_neg hnames, hdenoted]
  simp only [← hdenoted, List.reverse_eq_nil_iff]

/-! ## When every submodule is pruned -/

/-- The walk reports no file below the directory of any accepted path. -/
def SubmodulesPruned (root : FsPath) (gitmodules : ConfigFile) : Prop :=
  ∀ p ∈ acceptedPaths root gitmodules, ∀ options : WalkOptions,
    options.root = root →
    (∀ subtree ∈ submoduleSubtrees root gitmodules,
      subtree ∈ options.excludedSubtrees) →
    ∀ (tree : Entry) (chain : List EntryName), chain ∈ regularFiles tree →
      denotedNames p <+: chain.map EntryName.text →
      denotedNames p ≠ chain.map EntryName.text →
      FsPath.ofEntryNames chain ∉ (buildFileIndex options tree).value

/-- The path is spelled so that the walk recognises its directory: its normal
form ends in a name, and is not the root itself. -/
def IsPrunable (p : FsPath) : Prop :=
  p.lexicallyNormal.trailing = false ∧ denotedNames p ≠ []

theorem contained_of_mem_acceptedPaths {root : FsPath}
    {gitmodules : ConfigFile} {p : FsPath}
    (hp : p ∈ acceptedPaths root gitmodules) :
    p.isContainedRelativePath = true := by
  obtain ⟨block, -, hblock⟩ := List.mem_filterMap.mp hp
  unfold acceptedPath at hblock
  split at hblock
  · simp at hblock
  · split at hblock
    · simp at hblock
    · split_ifs at hblock with hempty hcontained
      obtain rfl := Option.some.inj hblock
      simpa using hcontained

theorem lexicallyNormal_eq_ofEntryNames_iff {p : FsPath}
    (hcontained : p.isContainedRelativePath = true) (chain : List EntryName) :
    FsPath.ofEntryNames chain = p.lexicallyNormal ↔
      IsPrunable p ∧ denotedNames p = chain.map EntryName.text := by
  obtain ⟨habsolute, hnames⟩ := names_lexicallyNormal_of_contained hcontained
  constructor
  · intro heq
    have htext : chain.map EntryName.text = p.lexicallyNormal.names :=
      congrArg FsPath.names heq
    have hdenoted : denotedNames p ≠ [] := by
      intro hnil
      rw [if_pos hnil] at hnames
      have hdot : "." ∈ chain.map EntryName.text := by
        rw [htext, hnames]
        exact List.mem_singleton_self "."
      obtain ⟨name, -, hname⟩ := List.mem_map.mp hdot
      exact name.proper.1 hname
    rw [if_neg hdenoted] at hnames
    exact ⟨⟨(congrArg FsPath.trailing heq).symm, hdenoted⟩,
      hnames.symm.trans htext.symm⟩
  · rintro ⟨⟨htrailing, hdenoted⟩, htext⟩
    rw [if_neg hdenoted] at hnames
    exact FsPath.ext habsolute.symm (htext.symm.trans hnames.symm)
      htrailing.symm

def listedNames (p : FsPath) : List EntryName :=
  (denotedNames p).pmap
    (fun name hname => ⟨name, hname.1, hname.2⟩) (denotedNames_proper p)

theorem map_text_listedNames (p : FsPath) :
    (listedNames p).map EntryName.text = denotedNames p := by
  simp [listedNames, List.map_pmap]

/-- The tree in which these names lead to a regular file, and nothing else. -/
def treeAlong (chain : List EntryName) : Entry :=
  chain.foldr (fun name entry => .directory [(name, entry)]) .regularFile

theorem filesAt_treeAlong (above chain : List EntryName) :
    filesAt above (treeAlong chain) = [above ++ chain] := by
  induction chain generalizing above with
  | nil => simp [treeAlong, filesAt]
  | cons name chain ih =>
    have hbelow := ih (above ++ [name])
    simp only [treeAlong, List.foldr_cons, filesAt, filesBelow,
      List.append_nil] at hbelow ⊢
    rw [hbelow]
    simp

theorem mem_regularFiles_treeAlong {chain : List EntryName}
    (hne : chain ≠ []) : chain ∈ regularFiles (treeAlong chain) := by
  have hfiles := filesAt_treeAlong [] chain
  cases chain with
  | nil => exact absurd rfl hne
  | cons name chain =>
    have hbelow : regularFiles (treeAlong (name :: chain)) =
        filesAt [] (treeAlong (name :: chain)) := by
      simp [regularFiles, treeAlong, Entry.entries, filesAt]
    rw [hbelow, hfiles]
    exact List.mem_singleton_self _

def submoduleWalk (root : FsPath) (gitmodules : ConfigFile) : WalkOptions where
  root := root
  excludedDirNames := []
  excludedSubtrees := submoduleSubtrees root gitmodules
  includedSubtrees := []

/-- Every submodule is pruned exactly when each accepted path lies at or below
one that the walk recognises. -/
theorem submodulesPruned_iff (root : FsPath) (gitmodules : ConfigFile) :
    SubmodulesPruned root gitmodules ↔
      ∀ p ∈ acceptedPaths root gitmodules,
        ∃ q ∈ acceptedPaths root gitmodules,
          IsPrunable q ∧ denotedNames q <+: denotedNames p := by
  constructor
  · intro hpruned p hp
    let leaf : EntryName := ⟨"file", by decide, by decide⟩
    let chain := listedNames p ++ [leaf]
    have htext : chain.map EntryName.text = denotedNames p ++ ["file"] := by
      simp [chain, leaf, map_text_listedNames]
    have hout := hpruned p hp (submoduleWalk root gitmodules) rfl
      (fun _ hsubtree => hsubtree) (treeAlong chain) chain
      (mem_regularFiles_treeAlong (by simp [chain]))
      (by rw [htext]; exact List.prefix_append _ _)
      (by rw [htext]; simp)
    have hstopped : ¬ EntersBelow (submoduleWalk root gitmodules) [] chain := by
      intro henters
      refine hout ((mem_buildFileIndex_iff _ _ _).mpr ⟨chain, ?_, rfl,
        henters, Or.inl rfl⟩)
      exact mem_regularFiles_treeAlong (by simp [chain])
    simp only [EntersBelow, not_forall] at hstopped
    obtain ⟨parents, name, rest, -, hchain, hrest, hkept⟩ := hstopped
    have hsubtree : FsPath.ofEntryNames (parents ++ [name]) ∈
        submoduleSubtrees root gitmodules := by
      by_contra hnone
      refine hkept ⟨by simp [hasExcludedName, submoduleWalk], ?_⟩
      rw [isPruned, relativeEntryPath_eq _ (by simp),
        lexicallyNormal_ofEntryNames (by simp)]
      simpa [submoduleWalk] using hnone
    obtain ⟨q, hq, heq⟩ := List.mem_map.mp hsubtree
    obtain ⟨hprunable, hnames⟩ := (lexicallyNormal_eq_ofEntryNames_iff
      (contained_of_mem_acceptedPaths hq) _).mp heq.symm
    refine ⟨q, hq, hprunable, ?_⟩
    have hlisted : listedNames p = parents ++ [name] ++ rest.dropLast := by
      have hdrop := congrArg List.dropLast hchain
      rwa [List.dropLast_concat, ← List.singleton_append, ← List.append_assoc,
        List.dropLast_append_of_ne_nil hrest] at hdrop
    have hfront : parents ++ [name] <+: listedNames p :=
      ⟨rest.dropLast, hlisted.symm⟩
    rw [hnames, ← map_text_listedNames p]
    exact hfront.map EntryName.text
  · intro hcovered p hp options _ hoptions tree chain hchain hbelow hproper
    obtain ⟨q, hq, hprunable, hprefix⟩ := hcovered p hp
    rw [mem_buildFileIndex_iff]
    rintro ⟨chain', -, heq, henters, -⟩
    obtain rfl := ofEntryNames_injective heq
    have hnames := List.prefix_iff_eq_take.mp
      (List.IsPrefix.trans hprefix hbelow)
    rw [← List.map_take] at hnames
    have hsubtree : FsPath.ofEntryNames
        (chain.take (denotedNames q).length) = q.lexicallyNormal :=
      (lexicallyNormal_eq_ofEntryNames_iff
        (contained_of_mem_acceptedPaths hq) _).mpr ⟨hprunable, hnames⟩
    have hfront := List.take_prefix (denotedNames q).length chain
    refine not_entersBelow_of_excluded ?_ hfront ?_ ?_ henters
    · intro hnil
      rw [hnil] at hnames
      exact hprunable.2 hnames
    · intro hall
      rw [hall] at hnames
      rw [hnames] at hprefix
      exact hproper (hbelow.eq_of_length_le hprefix.length_le)
    · rw [hsubtree]
      exact hoptions _ (List.mem_map_of_mem hq)

/-- A submodule whose path is declared with a trailing separator. -/
def trailingSlashModule : ConfigFile :=
  .text "[submodule \"foo\"]\n\tpath = libs/foo/\n".toList

/-- Its files are scanned as the repository's own. -/
theorem not_submodulesPruned_trailingSlash :
    ¬ SubmodulesPruned FsPath.dot trailingSlashModule := by
  intro hpruned
  have hout := hpruned (FsPath.ofString "libs/foo/") (by decide +kernel)
    (submoduleWalk FsPath.dot trailingSlashModule) rfl (fun _ h => h)
    (treeAlong [⟨"libs", by decide, by decide⟩, ⟨"foo", by decide, by decide⟩,
      ⟨"package.json", by decide, by decide⟩])
    [⟨"libs", by decide, by decide⟩, ⟨"foo", by decide, by decide⟩,
      ⟨"package.json", by decide, by decide⟩]
    (by decide) (by decide) (by decide)
  exact hout (by decide +kernel)

end Bomwerk.Core
