import Bomwerk.Core.NormalPath
import Bomwerk.Observe.CompileMap

/-!
# The root a directory belongs to

A directory belongs to the deepest component root among its ancestors.  The
walk of `enclosing_root` finds exactly that one as long as the roots are inner
paths: it stops at the first ancestor that is a root, and it reaches every
ancestor that has a name.
-/

namespace Bomwerk.Observe

open Bomwerk.Core Bomwerk.Support

/-- A relative path with a name and without a trailing separator; it may lead
out of its base. -/
structure IsPlain (p : FsPath) : Prop where
  relative : p.absolute = false
  noTrailing : p.trailing = false
  names_ne_nil : p.names ≠ []

theorem isPlain_of_isInner {p : FsPath} (hp : p.IsInner) : IsPlain p where
  relative := hp.relative
  noTrailing := hp.noTrailing
  names_ne_nil := hp.names_ne_nil

/-- An inner path is an ancestor of a directory when its names begin the
directory's. -/
def IsAncestor (root directory : FsPath) : Prop :=
  root.names <+: directory.names

instance : DecidableRel IsAncestor := fun root directory =>
  inferInstanceAs (Decidable (root.names <+: directory.names))

theorem isPrefix_names_parentPath (p : FsPath) :
    p.parentPath.names <+: p.names := by
  unfold FsPath.parentPath
  split
  · exact List.prefix_rfl
  · exact List.dropLast_prefix p.names

/-! ## The walk -/

theorem contains_iff_mem {roots : OrderedSet FsPath} {p : FsPath} :
    roots.contains p = true ↔ p ∈ roots :=
  Std.ExtTreeSet.contains_iff_mem

theorem enclosingRootFrom_keeps {P : FsPath → Prop}
    (hparent : ∀ candidate, P candidate → P candidate.parentPath)
    {roots : OrderedSet FsPath} {fuel : Nat} {candidate root : FsPath}
    (hfound : enclosingRootFrom roots fuel candidate = some root)
    (hcandidate : P candidate) :
    root ∈ roots ∧ root.isEmpty = false ∧ P root := by
  induction fuel generalizing candidate with
  | zero => simp [enclosingRootFrom] at hfound
  | succ fuel ih =>
    rw [enclosingRootFrom] at hfound
    split at hfound
    · simp at hfound
    · rename_i hnonempty
      split at hfound
      · rename_i hmem
        obtain rfl := Option.some.inj hfound
        exact ⟨contains_iff_mem.mp hmem, by simpa using hnonempty, hcandidate⟩
      split at hfound
      · simp at hfound
      · exact ih hfound (hparent candidate hcandidate)

/-- The walk ends at a root, and at an ancestor of where it started. -/
theorem enclosingRootFrom_spec {roots : OrderedSet FsPath} {fuel : Nat}
    {candidate root : FsPath}
    (hfound : enclosingRootFrom roots fuel candidate = some root) :
    root ∈ roots ∧ IsAncestor root candidate := by
  obtain ⟨hmem, -, hancestor⟩ := enclosingRootFrom_keeps
    (P := fun other => IsAncestor other candidate)
    (fun other h => (isPrefix_names_parentPath other).trans h) hfound
    List.prefix_rfl
  exact ⟨hmem, hancestor⟩

/-- The walk from a relative path without a trailing separator meets only
such paths. -/
theorem enclosingRootFrom_plain {roots : OrderedSet FsPath} {fuel : Nat}
    {candidate root : FsPath}
    (hfound : enclosingRootFrom roots fuel candidate = some root)
    (hrelative : candidate.absolute = false)
    (htrailing : candidate.trailing = false) : IsPlain root := by
  obtain ⟨-, hnonempty, habsolute, hends⟩ := enclosingRootFrom_keeps
    (P := fun other => other.absolute = false ∧ other.trailing = false)
    (fun other h => by simp [FsPath.parentPath, h]) hfound
    ⟨hrelative, htrailing⟩
  refine ⟨habsolute, hends, ?_⟩
  simpa [FsPath.isEmpty, habsolute] using hnonempty

/-- The steps the walk needs: one for each name, and one to strip a trailing
separator. -/
def walkLength (candidate : FsPath) : Nat :=
  candidate.names.length + if candidate.trailing then 1 else 0

theorem walkLength_parentPath {candidate : FsPath}
    (hnames : candidate.names ≠ []) :
    walkLength candidate.parentPath + 1 = walkLength candidate := by
  have hpositive := List.length_pos_of_ne_nil hnames
  by_cases htrailing : candidate.trailing = true
  · simp [walkLength, FsPath.parentPath, FsPath.withTrailing, htrailing]
  · simp only [Bool.not_eq_true] at htrailing
    simp only [walkLength, FsPath.parentPath, htrailing, Bool.false_eq_true,
      if_false, List.length_dropLast]
    omega

/-- An ancestor of a directory other than the directory itself is an ancestor
of the parent the walk goes to. -/
theorem isAncestor_parentPath {root candidate : FsPath} (hroot : IsPlain root)
    (hrelative : candidate.absolute = false)
    (hancestor : IsAncestor root candidate) (hne : root ≠ candidate) :
    IsAncestor root candidate.parentPath := by
  by_cases htrailing : candidate.trailing = true
  · simpa [IsAncestor, FsPath.parentPath, FsPath.withTrailing, htrailing]
      using hancestor
  simp only [Bool.not_eq_true] at htrailing
  have hnames : root.names ≠ candidate.names := fun hnames =>
    hne (FsPath.ext (hroot.relative.trans hrelative.symm) hnames
      (hroot.noTrailing.trans htrailing.symm))
  have hparent : candidate.parentPath.names = candidate.names.dropLast := by
    simp [FsPath.parentPath, htrailing]
  have hlength : root.names.length ≤ candidate.names.length - 1 := by
    have hle := hancestor.length_le
    have hneLength : root.names.length ≠ candidate.names.length :=
      fun h => hnames (hancestor.eq_of_length h)
    omega
  rw [IsAncestor, hparent]
  exact List.prefix_of_prefix_length_le hancestor
    (List.dropLast_prefix candidate.names) (by simpa using hlength)

/-- The walk stops no later than at any root it could reach. -/
theorem enclosingRootFrom_deepest {roots : OrderedSet FsPath}
    {root : FsPath} (hmem : root ∈ roots) (hplain : IsPlain root)
    {fuel : Nat} {candidate : FsPath} (hfuel : walkLength candidate ≤ fuel)
    (hrelative : candidate.absolute = false)
    (hancestor : IsAncestor root candidate) :
    ∃ found, enclosingRootFrom roots fuel candidate = some found ∧
      IsAncestor root found := by
  have hnames : candidate.names ≠ [] := fun h =>
    hplain.names_ne_nil (List.prefix_nil.mp (h ▸ hancestor))
  have hstep := walkLength_parentPath hnames
  induction fuel generalizing candidate with
  | zero => omega
  | succ fuel ih =>
    have hnonempty : candidate.isEmpty = false := by
      simp [FsPath.isEmpty, hnames]
    by_cases hcandidate : candidate ∈ roots
    · refine ⟨candidate, ?_, hancestor⟩
      simp [enclosingRootFrom, hnonempty, contains_iff_mem.mpr hcandidate]
    have hne : root ≠ candidate := fun h => hcandidate (h ▸ hmem)
    have hmoves : candidate.parentPath ≠ candidate := fun h => by
      rw [h] at hstep
      omega
    have hparent :=
      isAncestor_parentPath hplain hrelative hancestor hne
    have hparentNames : candidate.parentPath.names ≠ [] := fun h =>
      hplain.names_ne_nil (List.prefix_nil.mp (h ▸ hparent))
    have hparentRelative : candidate.parentPath.absolute = false := by
      rw [← hrelative, FsPath.parentPath]
      split <;> rfl
    obtain ⟨found, hfound, hdeepest⟩ :=
      ih (by omega) hparentRelative hparent hparentNames
        (walkLength_parentPath hparentNames)
    refine ⟨found, ?_, hdeepest⟩
    have hnotRoot : roots.contains candidate = false :=
      Bool.eq_false_iff.mpr (mt contains_iff_mem.mp hcandidate)
    simpa [enclosingRootFrom, hnonempty, hnotRoot, hmoves] using hfound

theorem enclosingRoot_spec {roots : OrderedSet FsPath}
    {directory root : FsPath}
    (hfound : enclosingRoot directory roots = some root) :
    root ∈ roots ∧ IsAncestor root directory :=
  enclosingRootFrom_spec hfound

/-- A directory with a root among its ancestors belongs to a root, and to none
that is less deep. -/
theorem enclosingRoot_deepest {roots : OrderedSet FsPath}
    {directory root : FsPath} (hmem : root ∈ roots) (hplain : IsPlain root)
    (hrelative : directory.absolute = false)
    (hancestor : IsAncestor root directory) :
    ∃ found, enclosingRoot directory roots = some found ∧
      IsAncestor root found := by
  refine enclosingRootFrom_deepest hmem hplain ?_ hrelative hancestor
  unfold walkLength
  split <;> omega

theorem mem_foldl_componentRootsOf (components : List Component)
    (roots : OrderedSet FsPath) (root : FsPath) :
    root ∈ components.foldl
        (fun roots component =>
          let normalizedRoot := component.root.normalizedSubtreePath
          if normalizedRoot.isEmpty then roots
          else roots.insert normalizedRoot) roots ↔
      root ∈ roots ∨ ∃ component ∈ components,
        component.root.normalizedSubtreePath.isEmpty = false ∧
          component.root.normalizedSubtreePath = root := by
  induction components generalizing roots with
  | nil => simp
  | cons component components ih =>
    rw [List.foldl_cons, ih]
    by_cases hempty :
        component.root.normalizedSubtreePath.isEmpty = true
    · simp [hempty]
    · simp only [Bool.not_eq_true] at hempty
      simp [hempty, or_assoc, or_left_comm]

theorem mem_componentRootsOf {components : List Component} {root : FsPath} :
    root ∈ componentRootsOf components ↔ ∃ component ∈ components,
        component.root.normalizedSubtreePath.isEmpty = false ∧
          component.root.normalizedSubtreePath = root := by
  rw [componentRootsOf, mem_foldl_componentRootsOf]
  simp

end Bomwerk.Observe
