import Bomwerk.Core.Route

/-!
# The canonical form of a subtree path

Includes, excludes, submodules and the roots of an SBOM are compared as paths,
never as directories, so `normalized_subtree_path` has to give one path for one
directory.
-/

namespace Bomwerk.Core.FsPath

/-! ## The loop and the normal form -/

theorem filename_ne_empty {p : FsPath} (hnames : p.names ≠ [])
    (htrailing : p.trailing = false) : p.filename ≠ "" := by
  simp only [filename, htrailing, Bool.false_eq_true, if_false,
    List.getLast?_eq_some_getLast hnames, Option.getD_some]
  exact (p.names_valid _ (List.getLast_mem hnames)).1

theorem stripTrailingSeparators_eq_self {p : FsPath} (hnames : p.names ≠ [])
    (htrailing : p.trailing = false) (fuel : Nat) :
    stripTrailingSeparators fuel p = p := by
  cases fuel <;>
    simp [stripTrailingSeparators, filename_ne_empty hnames htrailing]

theorem stripTrailingSeparators_of_names {p : FsPath} (hnames : p.names ≠ [])
    (fuel : Nat) :
    stripTrailingSeparators (fuel + 1) p = p.withTrailing false := by
  by_cases htrailing : p.trailing = true
  · have hparent : p.parentPath = p.withTrailing false := by
      simp [parentPath, htrailing]
    have hne : p.withTrailing false ≠ p := fun h => by
      have := congrArg FsPath.trailing h
      simp [withTrailing, htrailing] at this
    rw [stripTrailingSeparators, hparent, if_neg hne,
      stripTrailingSeparators_eq_self (by exact hnames) rfl]
    simp [isEmpty, hnames, filename, htrailing]
  · have htrailing' : p.trailing = false := by simpa using htrailing
    have hsame : p.withTrailing false = p := by
      apply FsPath.ext <;> simp [withTrailing, htrailing']
    rw [stripTrailingSeparators_eq_self hnames htrailing', hsame]

theorem names_lexicallyNormal {p : FsPath} (hrelative : p.absolute = false) :
    p.lexicallyNormal.names = if (normalizeNames false p.names).1 = [] then
        if p.names = [] then [] else ["."]
      else (normalizeNames false p.names).1.reverse := by
  simp only [lexicallyNormal, hrelative]
  split
  · by_cases hnames : p.names = [] <;> simp [hnames, empty, dot]
  · rfl

theorem absolute_lexicallyNormal (p : FsPath) :
    p.lexicallyNormal.absolute = p.absolute := by
  simp only [lexicallyNormal]
  split
  · by_cases habsolute : p.absolute = true
    · simp [habsolute]
    · by_cases hnames : p.names = [] <;> simp [habsolute, hnames, empty, dot]
  · rfl

theorem stripTrailingSeparators_of_nil {p : FsPath} (hnames : p.names = [])
    (fuel : Nat) : stripTrailingSeparators fuel p = p := by
  have htrailing := trailing_eq_false hnames
  have hparent : p.parentPath = p := by
    apply FsPath.ext <;> simp [parentPath, hnames, htrailing]
  cases fuel with
  | zero => rfl
  | succ fuel => simp [stripTrailingSeparators, hparent]

/-- The loop of `normalized_subtree_path` does not run its body again. -/
def LoopEnded (p : FsPath) : Prop :=
  p.isEmpty = true ∨ p.filename ≠ "" ∨ p.parentPath = p

theorem stripTrailingSeparators_succ (fuel : ℕ) (p : FsPath) :
    stripTrailingSeparators (fuel + 1) p = p.withTrailing false := by
  by_cases hnames : p.names = []
  · rw [stripTrailingSeparators_of_nil hnames]
    exact FsPath.ext rfl rfl (trailing_eq_false hnames)
  · exact stripTrailingSeparators_of_names hnames fuel

theorem normalizedSubtreePath_eq_withTrailing (p : FsPath) :
    p.normalizedSubtreePath = p.lexicallyNormal.withTrailing false :=
  stripTrailingSeparators_succ _ _

theorem loopEnded_of_noTrailing {p : FsPath} (htrailing : p.trailing = false) :
    p.LoopEnded := by
  by_cases hnames : p.names = []
  · refine .inr (.inr ?_)
    apply FsPath.ext <;> simp [parentPath, hnames, htrailing]
  · exact .inr (.inl (filename_ne_empty hnames htrailing))

theorem absolute_normalizedSubtreePath (p : FsPath) :
    p.normalizedSubtreePath.absolute = p.absolute := by
  rw [normalizedSubtreePath_eq_withTrailing]
  exact absolute_lexicallyNormal p

theorem names_normalizedSubtreePath (p : FsPath) :
    p.normalizedSubtreePath.names =
      if (normalizeNames p.absolute p.names).1 = [] then
        if p.absolute = true ∨ p.names = [] then [] else ["."]
      else (normalizeNames p.absolute p.names).1.reverse := by
  rw [normalizedSubtreePath_eq_withTrailing]
  change p.lexicallyNormal.names = _
  cases habsolute : p.absolute with
  | false =>
    rw [names_lexicallyNormal habsolute]
    simp
  | true =>
    simp only [lexicallyNormal, habsolute]
    split <;> rfl

theorem trailing_normalizedSubtreePath (p : FsPath) :
    p.normalizedSubtreePath.trailing = false := by
  rw [normalizedSubtreePath_eq_withTrailing]
  rfl

theorem isEmpty_normalizedSubtreePath (p : FsPath) :
    p.normalizedSubtreePath.isEmpty = p.isEmpty := by
  have hnames := names_normalizedSubtreePath p
  rw [isEmpty, isEmpty, absolute_normalizedSubtreePath]
  cases habsolute : p.absolute with
  | true => rfl
  | false =>
    rw [habsolute] at hnames
    by_cases hnil : p.names = []
    · rw [hnames, hnil]
      rfl
    · have hne : p.normalizedSubtreePath.names ≠ [] := by
        rw [hnames]
        split_ifs with hkept <;> simp_all
      rw [List.isEmpty_eq_false_iff.mpr hnil, List.isEmpty_eq_false_iff.mpr hne]

/-- The resolution of a path as far as its text goes: the empty path denotes no
directory, and an absolute one starts at the root. -/
def resolve (start : List String) (p : FsPath) : Option (List String) :=
  if p.isEmpty then none
  else some (walk (if p.absolute then [] else start) p.names)

/-- The names from the root down to a directory. -/
def IsDirectory (names : List String) : Prop :=
  ∀ name ∈ names, IsFileName name ∧ name ≠ "." ∧ name ≠ ".."

/-- Two paths lead to the same directory from wherever they start. -/
def SameDirectory (p q : FsPath) : Prop :=
  ∀ start, IsDirectory start → resolve start p = resolve start q

/-- Somewhere along the names the walk has left the directory it started in. -/
def ClimbsAboveStart (p : FsPath) : Prop :=
  ∃ front start, front <+: p.names ∧ IsDirectory start ∧
    ¬ start <+: walk start front

namespace Route

theorem le_of_replicate_append {m n : ℕ} {back back' : List String}
    (h : ∀ name, name = "a" ∨ name = "b" →
      List.replicate m name ++ back = List.replicate n name ++ back') :
    n ≤ m := by
  by_contra hlt
  have hhead : ∀ name, name = "a" ∨ name = "b" → back[0]? = some name := by
    intro name hname
    have hget := congrArg (·[m]?) (h name hname)
    simpa [List.getElem?_append_right, List.getElem?_append_left,
      Nat.lt_of_not_le hlt] using hget
  have hsame := (hhead "a" (.inl rfl)).symm.trans (hhead "b" (.inr rfl))
  exact absurd hsame (by decide)

/-- Two routes to the same place from every directory are one: two starts that
differ in every name tell climbing from staying. -/
theorem eq_of_destination {route other : Route}
    (h : ∀ start, IsDirectory start →
      route.destination start = other.destination start) : route = other := by
  have hstart : ∀ name, name = "a" ∨ name = "b" →
      List.replicate other.climbs name ++ route.below =
        List.replicate route.climbs name ++ other.below := by
    intro name hname
    have hproper : IsFileName name ∧ name ≠ "." ∧ name ≠ ".." := by
      rcases hname with rfl | rfl <;> decide
    have heq := h (List.replicate (route.climbs + other.climbs) name)
      fun n hn => List.eq_of_mem_replicate hn ▸ hproper
    simpa [destination, List.take_replicate] using heq
  have hclimbs : route.climbs = other.climbs :=
    Nat.le_antisymm (le_of_replicate_append hstart)
      (le_of_replicate_append fun name hname => (hstart name hname).symm)
  have hbelow := hstart "a" (.inl rfl)
  rw [hclimbs] at hbelow
  exact Route.ext hclimbs (List.append_cancel_left hbelow)

end Route

/-! ## The canonical path -/

/-- The result is written after its route, and that is a walk to where the path
leads. -/
theorem exists_route (p : FsPath) :
    ∃ route : Route, route.FitsRoot p.absolute ∧
      p.normalizedSubtreePath.names = route.written p.absolute p.isEmpty ∧
      ∀ start, (p.absolute = true → start = []) →
        walk start p.names = route.destination start := by
  obtain ⟨route, hfits, hkept, hwalk⟩ :=
    Route.exists_normalizeNames p.absolute p.names
  refine ⟨route, hfits, ?_, hwalk⟩
  rw [names_normalizedSubtreePath, hkept, List.reverse_reverse, Route.written]
  cases habsolute : p.absolute <;> simp [isEmpty, habsolute]

/-- The result denotes the directory that the path does. -/
theorem resolve_normalizedSubtreePath (p : FsPath) (start : List String) :
    resolve start p.normalizedSubtreePath = resolve start p := by
  obtain ⟨route, -, hnames, hwalk⟩ := exists_route p
  rw [resolve, resolve, isEmpty_normalizedSubtreePath,
    absolute_normalizedSubtreePath, hnames, hwalk _ (by simp +contextual),
    ← Route.walk_names, Route.written]
  split_ifs with hempty _ hroute
  all_goals simp_all [walk, enterName]

theorem resolve_eq_none_iff {p : FsPath} {start : List String} :
    resolve start p = none ↔ p.isEmpty = true := by
  simp [resolve]

theorem eq_empty_of_isEmpty {p : FsPath} (hempty : p.isEmpty = true) :
    p = empty := by
  obtain ⟨habsolute, hnames⟩ := Bool.and_eq_true_iff.mp hempty
  rw [List.isEmpty_iff] at hnames
  exact FsPath.ext (by simpa [empty] using habsolute) hnames
    (trailing_eq_false hnames)

theorem SameDirectory.isEmpty_eq {p q : FsPath} (hsame : SameDirectory p q) :
    p.isEmpty = q.isEmpty := by
  rw [Bool.eq_iff_iff, ← @resolve_eq_none_iff p [],
    ← @resolve_eq_none_iff q [], hsame [] (by simp [IsDirectory])]

theorem SameDirectory.walk_eq {p q : FsPath} (hsame : SameDirectory p q)
    (hempty : p.isEmpty = false) {start : List String}
    (hstart : IsDirectory start) :
    walk (if p.absolute then [] else start) p.names =
      walk (if q.absolute then [] else start) q.names := by
  have heq := hsame start hstart
  simpa [resolve, hempty, hsame.isEmpty_eq ▸ hempty] using heq

/-- A relative path ends at more and more names as it starts deeper. -/
theorem not_sameDirectory_of_absolute {p q : FsPath}
    (hempty : p.isEmpty = false) (hp : p.absolute = true)
    (hq : q.absolute = false) : ¬ SameDirectory p q := by
  intro hsame
  obtain ⟨route, -, -, hwalk⟩ := exists_route q
  have hdirectory : IsDirectory
      (List.replicate (route.climbs + (walk [] p.names).length + 1) "a") :=
    fun n hn => List.eq_of_mem_replicate hn ▸ by decide
  have heq := hsame.walk_eq hempty hdirectory
  rw [hp, hq, if_pos rfl, if_neg Bool.false_ne_true, hwalk _ (by simp [hq])]
    at heq
  have hlength := congrArg List.length heq
  rw [Route.length_destination, List.length_replicate] at hlength
  omega

theorem normalizedSubtreePath_eq_of_sameDirectory {p q : FsPath}
    (hempty : p.isEmpty = false) (habsolute : p.absolute = q.absolute)
    (hsame : SameDirectory p q) :
    p.normalizedSubtreePath = q.normalizedSubtreePath := by
  obtain ⟨route, hfits, hnames, hwalk⟩ := exists_route p
  obtain ⟨other, hotherFits, hotherNames, hotherWalk⟩ := exists_route q
  rw [habsolute] at hfits hwalk
  have hdestination : ∀ start, IsDirectory start →
      (q.absolute = true → start = []) →
      route.destination start = other.destination start := by
    intro start hstart hroot
    have heq := hsame.walk_eq hempty hstart
    rw [habsolute, ite_eq_right_iff.mpr fun h => (hroot h).symm] at heq
    rw [← hwalk start hroot, ← hotherWalk start hroot, heq]
  have hroutes : route = other := by
    cases hq : q.absolute with
    | true =>
      have hroot := hdestination [] (by simp [IsDirectory]) fun _ => rfl
      exact Route.ext ((hfits hq).trans (hotherFits hq).symm)
        (by simpa [Route.destination] using hroot)
    | false =>
      exact Route.eq_of_destination fun start hstart =>
        hdestination start hstart (by simp [hq])
  apply FsPath.ext
  · rw [absolute_normalizedSubtreePath, absolute_normalizedSubtreePath,
      habsolute]
  · rw [hnames, hotherNames, hroutes, habsolute, hsame.isEmpty_eq]
  · rw [trailing_normalizedSubtreePath, trailing_normalizedSubtreePath]

theorem sameDirectory_iff (p q : FsPath) :
    SameDirectory p q ↔ p.normalizedSubtreePath = q.normalizedSubtreePath := by
  constructor
  · intro hsame
    have hempty := hsame.isEmpty_eq
    cases hnonempty : p.isEmpty with
    | true =>
      rw [eq_empty_of_isEmpty hnonempty,
        eq_empty_of_isEmpty (hempty.symm.trans hnonempty)]
    | false =>
      refine normalizedSubtreePath_eq_of_sameDirectory hnonempty ?_ hsame
      cases hp : p.absolute <;> cases hq : q.absolute
      · rfl
      · exact absurd (fun start hstart => (hsame start hstart).symm)
          (not_sameDirectory_of_absolute (hempty.symm.trans hnonempty) hq hp)
      · exact absurd hsame (not_sameDirectory_of_absolute hnonempty hp hq)
      · rfl
  · intro heq start _
    rw [← resolve_normalizedSubtreePath p, heq, resolve_normalizedSubtreePath]

theorem normalizedSubtreePath_idempotent (p : FsPath) :
    p.normalizedSubtreePath.normalizedSubtreePath = p.normalizedSubtreePath :=
  (sameDirectory_iff _ _).mp fun start _ => resolve_normalizedSubtreePath p start

theorem names_lexicallyNormal_normalizedSubtreePath (p : FsPath) :
    p.normalizedSubtreePath.lexicallyNormal.names =
      p.normalizedSubtreePath.names := by
  have hnames := congrArg FsPath.names (normalizedSubtreePath_idempotent p)
  rwa [normalizedSubtreePath_eq_withTrailing p.normalizedSubtreePath] at hnames

/-- The result climbs at its front or not at all. -/
theorem climbsAboveStart_normalizedSubtreePath {p : FsPath} :
    p.normalizedSubtreePath.ClimbsAboveStart ↔
      ".." ∈ p.normalizedSubtreePath.names := by
  constructor
  · rintro ⟨front, start, hfront, -, hclimbs⟩
    by_contra hup
    exact hclimbs (prefix_walk (fun h => hup (hfront.subset h)) start)
  · intro hup
    obtain ⟨route, -, hnames, -⟩ := exists_route p
    have hne : route.climbs ≠ 0 := by
      rw [← Route.mem_names_dotDot_iff]
      rw [hnames, Route.written] at hup
      split_ifs at hup <;> simp_all
    obtain ⟨climbs, hclimbs⟩ := Nat.exists_eq_succ_of_ne_zero hne
    have hfirst : route.names =
        ".." :: (List.replicate climbs ".." ++ route.below) := by
      rw [Route.names, hclimbs, List.replicate_succ, List.cons_append]
    refine ⟨[".."], ["a"], ?_, ?_, by decide⟩
    · rw [hnames, Route.written, if_neg (by simp [hfirst]), hfirst]
      exact ⟨_, rfl⟩
    · intro name hname
      obtain rfl := List.mem_singleton.mp hname
      decide

theorem isContained_normalizedSubtreePath_iff (p : FsPath) :
    p.normalizedSubtreePath.isContainedRelativePath = true ↔
      p.normalizedSubtreePath.isEmpty = false ∧
      p.normalizedSubtreePath.absolute = false ∧
      ¬ p.normalizedSubtreePath.ClimbsAboveStart := by
  rw [climbsAboveStart_normalizedSubtreePath, isContainedRelativePath,
    names_lexicallyNormal_normalizedSubtreePath]
  simp [and_assoc]

def root : FsPath := { empty with absolute := true }

theorem eq_root_of_getLast? {p : FsPath} (htrailing : p.trailing = false)
    (hlast : p.genericString.toList.getLast? = some '/') : p = root := by
  have hread := ofString_genericString p
  have hnames : p.names = [] := by
    by_contra hne
    have htext := congrArg FsPath.trailing hread
    rw [htrailing] at htext
    have hfile := congrArg FsPath.names hread
    simp only [ofString, decide_eq_false_iff_not, not_and, not_not] at htext
    exact hne (hfile.symm.trans (htext hlast))
  refine FsPath.ext ?_ hnames htrailing
  by_contra habsolute
  simp [genericString, hnames, htrailing, Bool.eq_false_of_not_eq_true habsolute]
    at hlast

/-- `normalized_subtree_path` ends whatever the text, and its result is the one
path of the directory that the text denotes. -/
theorem normalizedSubtreePath_spec (text : String) :
    let path := ofString text
    let result := path.normalizedSubtreePath
    (result.LoopEnded ∧ ∀ fuel, 0 < fuel →
      stripTrailingSeparators fuel path.lexicallyNormal = result) ∧
    result.normalizedSubtreePath = result ∧
    (result.genericString.toList.getLast? = some '/' → result = root) ∧
    (∀ other, SameDirectory path (ofString other) ↔
      (ofString other).normalizedSubtreePath = result) ∧
    (result.isContainedRelativePath = true ↔
      result.isEmpty = false ∧ result.absolute = false ∧
        ¬ result.ClimbsAboveStart) := by
  intro path result
  refine ⟨⟨loopEnded_of_noTrailing (trailing_normalizedSubtreePath path), ?_⟩,
    normalizedSubtreePath_idempotent path,
    eq_root_of_getLast? (trailing_normalizedSubtreePath path), fun other => ?_,
    isContained_normalizedSubtreePath_iff path⟩
  · intro fuel hfuel
    obtain ⟨fuel, rfl⟩ := Nat.exists_eq_succ_of_ne_zero hfuel.ne'
    rw [stripTrailingSeparators_succ]
    exact (normalizedSubtreePath_eq_withTrailing path).symm
  · rw [sameDirectory_iff]
    exact eq_comm

end Bomwerk.Core.FsPath
