import Bomwerk.Core.CanonicalPath

/-!
# Paths inside a repository

The reader accepts the root of a component only when its normal form stays
inside the repository.  Such a root is the directory `.` itself or a relative
path of proper names, and normalising it again changes nothing.
-/

namespace Bomwerk.Core.FsPath

/-- A normalised relative path that stays inside its base. -/
structure IsInner (p : FsPath) : Prop where
  relative : p.absolute = false
  noTrailing : p.trailing = false
  names : p = dot ∨ (p.names ≠ [] ∧ "." ∉ p.names ∧ ".." ∉ p.names)

theorem IsInner.names_ne_nil {p : FsPath} (hp : p.IsInner) : p.names ≠ [] := by
  rcases hp.names with rfl | ⟨hne, -⟩
  · decide
  · exact hne

theorem IsInner.eq_dot_of_head {p : FsPath} (hp : p.IsInner)
    (hhead : p.names.head? = some ".") : p = dot := by
  rcases hp.names with hdot | ⟨-, hmem, -⟩
  · exact hdot
  · exact absurd (List.mem_of_head? hhead) hmem

/-- Among the names kept, last first, no `.` occurs, and `..` only at the
front of the path. -/
structure KeptNames (kept : List String) : Prop where
  noDot : "." ∉ kept
  dotDotFirst : ".." ∈ kept → kept.getLast? = some ".."

theorem keptNames_normalizeNames (names : List String) :
    KeptNames (normalizeNames false names).1 := by
  obtain ⟨route, -, hkept, -⟩ := Route.exists_normalizeNames false names
  rw [hkept]
  refine ⟨mt List.mem_reverse.mp route.dot_notMem_names, fun hup => ?_⟩
  rw [List.mem_reverse, Route.mem_names_dotDot_iff] at hup
  rw [List.getLast?_reverse, Route.names, List.head?_append,
    List.head?_replicate, if_neg hup]
  rfl

/-- A path that starts by leaving its base still does when it is normalised. -/
theorem dotDot_mem_foldl (names : List String) {state : List String × Bool}
    (hstate : state.1.getLast? = some "..") :
    ".." ∈ (names.foldl (normalizeStep false) state).1 := by
  induction names generalizing state with
  | nil => exact List.mem_of_getLast? hstate
  | cons name names ih =>
    refine ih ?_
    obtain ⟨kept, mark⟩ := state
    rcases kept with _ | ⟨last, rest⟩
    · simp at hstate
    by_cases hdot : name = "."
    · simpa [normalizeStep, hdot] using hstate
    by_cases hup : name = ".."
    · by_cases hlast : last = ".."
      · simpa [normalizeStep, hup, hlast] using hstate
      · rcases rest with _ | ⟨next, rest⟩
        · simp at hstate
          exact absurd hstate hlast
        · simpa [normalizeStep, hup, hlast] using hstate
    · simpa [normalizeStep, hdot, hup] using hstate

theorem foldl_normalizeStep_of_proper (names : List String)
    (hdot : "." ∉ names) (hup : ".." ∉ names) (kept : List String) :
    names.foldl (normalizeStep false) (kept, false) =
      (names.reverse ++ kept, false) := by
  induction names generalizing kept with
  | nil => rfl
  | cons name names ih =>
    simp only [List.mem_cons, not_or] at hdot hup
    rw [List.foldl_cons]
    have hstep : normalizeStep false (kept, false) name =
        (name :: kept, false) := by
      simp [normalizeStep, Ne.symm hdot.1, Ne.symm hup.1]
    rw [hstep, ih hdot.2 hup.2]
    simp

theorem isInner_normalizedSubtreePath {p : FsPath}
    (hcontained : p.normalizedSubtreePath.isContainedRelativePath = true) :
    p.normalizedSubtreePath.IsInner := by
  rw [isContained_normalizedSubtreePath_iff,
    climbsAboveStart_normalizedSubtreePath] at hcontained
  obtain ⟨hnonempty, hrelative, hup⟩ := hcontained
  refine ⟨hrelative, trailing_normalizedSubtreePath p, ?_⟩
  obtain ⟨route, -, hnames, -⟩ := exists_route p
  rw [← absolute_normalizedSubtreePath, ← isEmpty_normalizedSubtreePath,
    hrelative, hnonempty] at hnames
  by_cases hroute : route.names = []
  · left
    rw [Route.written, if_pos hroute] at hnames
    exact FsPath.ext hrelative hnames (trailing_normalizedSubtreePath p)
  · right
    rw [Route.written, if_neg hroute] at hnames
    exact ⟨hnames ▸ hroute, hnames ▸ route.dot_notMem_names, hup⟩

theorem lexicallyNormal_eq_self {p : FsPath} (hrelative : p.absolute = false)
    (htrailing : p.trailing = false) (hne : p.names ≠ [])
    (hdot : "." ∉ p.names) (hup : ".." ∉ p.names) : p.lexicallyNormal = p := by
  have hkept : normalizeNames false p.names = (p.names.reverse, false) := by
    simpa [normalizeNames] using
      foldl_normalizeStep_of_proper p.names hdot hup []
  apply FsPath.ext
  · simp [lexicallyNormal, hrelative, hkept, hne]
  · rw [names_lexicallyNormal hrelative, hkept]
    simp [hne]
  · simp [lexicallyNormal, hrelative, hkept, hne, htrailing]

theorem IsInner.normalizedSubtreePath_eq {p : FsPath} (hp : p.IsInner) :
    p.normalizedSubtreePath = p := by
  rcases hp.names with rfl | ⟨hne, hdot, hup⟩
  · decide
  rw [normalizedSubtreePath,
    lexicallyNormal_eq_self hp.relative hp.noTrailing hne hdot hup,
    stripTrailingSeparators_eq_self hne hp.noTrailing]

end Bomwerk.Core.FsPath
