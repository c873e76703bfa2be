import Bomwerk.Core.FileIndex
import Bomwerk.Core.NormalPath
import Bomwerk.Embedded.West

/-!
# Checkout roots

Where the path of a project leads to from the top directory of the workspace,
and when the root that is claimed for it lies below that directory.
-/

namespace Bomwerk.Embedded.West

open Bomwerk.Core

/-- Where a manifest lies below the root of the scan. -/
structure ManifestLocation where
  directory : List EntryName
  file : EntryName

namespace ManifestLocation

variable (location : ManifestLocation)

/-- The path of the manifest, relative to the root of the scan. -/
def label : FsPath where
  absolute := false
  names := location.directory.map EntryName.text ++ [location.file.text]
  trailing := false
  names_valid := by
    intro name hname
    rcases List.mem_append.mp hname with hname | hname
    · obtain ⟨entry, -, rfl⟩ := List.mem_map.mp hname
      exact entry.valid
    · obtain rfl := List.mem_singleton.mp hname
      exact location.file.valid
  trailing_names := by simp

/-- The top directory of the workspace, the parent of the manifest's
directory. -/
def top : List String :=
  (location.directory.map EntryName.text).dropLast

end ManifestLocation

/-- Nothing, or a normal relative path strictly below the top directory. -/
def IsInsideWorkspace (top : List String) (root : FsPath) : Prop :=
  root = .empty ∨ (root.absolute = false ∧ root.trailing = false ∧
      root.lexicallyNormal = root ∧ ".." ∉ root.names ∧
        ∃ below, below ≠ [] ∧ root.names = top ++ below)

/-- Where a name leads to from a directory; nowhere above the root of the
scan. -/
def stepTo (directory : List String) (name : String) : Option (List String) :=
  if name = "." then some directory
  else if name = ".." then
    if directory = [] then none else some directory.dropLast
  else some (directory ++ [name])

/-- Where the names lead to from a directory; nowhere once they climb above the
root of the scan. -/
def leadTo (directory names : List String) : Option (List String) :=
  names.foldlM stepTo directory

/-- The text ends in a separator, in `.` or in `..`. -/
def EndsAsDirectory (path : FsPath) : Prop :=
  path.trailing = true ∨ path.names.getLast? = some "." ∨
    path.names.getLast? = some ".."

/-- The path that `west` checks a project out to. -/
def Project.checkout (project : Project) : FsPath :=
  FsPath.ofString (String.ofList
    (if project.path = [] then project.name else project.path))

/-- The path of a project is absolute, leaves the scan, leads to its root, or
leads strictly below the top directory by a text that ends in a name. -/
def LeadsBelow (top : List String) (checkout : FsPath) : Prop :=
  checkout.absolute = true ∨ leadTo top checkout.names = none ∨
    leadTo top checkout.names = some [] ∨
      (¬EndsAsDirectory checkout ∧ ∃ below, below ≠ [] ∧
        leadTo top checkout.names = some (top ++ below))

/-! ## The names that are kept -/

/-- Proper names of directories. -/
def AreProper (names : List String) : Prop := "." ∉ names ∧ ".." ∉ names

theorem AreProper.dropLast {names : List String} (h : AreProper names) :
    AreProper names.dropLast :=
  ⟨fun hmem => h.1 (List.dropLast_subset _ hmem),
    fun hmem => h.2 (List.dropLast_subset _ hmem)⟩

theorem AreProper.snoc {names : List String} {name : String}
    (h : AreProper names) (hdot : name ≠ ".") (hup : name ≠ "..") :
    AreProper (names ++ [name]) := by
  refine ⟨fun hmem => ?_, fun hmem => ?_⟩
  · rcases List.mem_append.mp hmem with hmem | hmem
    · exact h.1 hmem
    · exact hdot (List.mem_singleton.mp hmem).symm
  · rcases List.mem_append.mp hmem with hmem | hmem
    · exact h.2 hmem
    · exact hup (List.mem_singleton.mp hmem).symm

theorem areProper_stepTo {directory next : List String} {name : String}
    (hdirectory : AreProper directory) (h : stepTo directory name = some next) :
    AreProper next := by
  by_cases hdot : name = "."
  · obtain rfl : directory = next := by simpa [stepTo, hdot] using h
    exact hdirectory
  by_cases hup : name = ".."
  · by_cases hempty : directory = []
    · simp [stepTo, hup, hempty] at h
    · obtain rfl : directory.dropLast = next := by
        simpa [stepTo, hup, hempty] using h
      exact hdirectory.dropLast
  · obtain rfl : directory ++ [name] = next := by
      simpa [stepTo, hdot, hup] using h
    exact hdirectory.snoc hdot hup

theorem areProper_leadTo {directory names result : List String}
    (hdirectory : AreProper directory)
    (h : leadTo directory names = some result) : AreProper result := by
  induction names generalizing directory with
  | nil =>
    obtain rfl : directory = result := by simpa [leadTo] using h
    exact hdirectory
  | cons name names ih =>
    rw [leadTo, List.foldlM_cons] at h
    obtain ⟨next, hnext, h⟩ := Option.bind_eq_some_iff.mp h
    exact ih (areProper_stepTo hdirectory hnext) h

/-- Normalising takes the same step, and marks a path that goes by `.` or
`..`. -/
theorem normalizeStep_of_stepTo {directory next : List String} {name : String}
    (hdirectory : AreProper directory) (mark : Bool)
    (h : stepTo directory name = some next) :
    FsPath.normalizeStep false (directory.reverse, mark) name =
      (next.reverse, decide (name = "." ∨ name = "..")) := by
  by_cases hdot : name = "."
  · obtain rfl : directory = next := by simpa [stepTo, hdot] using h
    simp [FsPath.normalizeStep, hdot]
  by_cases hup : name = ".."
  · rcases List.eq_nil_or_concat directory with rfl | ⟨front, last, rfl⟩
    · simp [stepTo, hup] at h
    · have hlast : last ≠ ".." := fun hlast => hdirectory.2 (by simp [hlast])
      obtain rfl : front = next := by simpa [stepTo, hup] using h
      simp [FsPath.normalizeStep, hup, hlast]
  · obtain rfl : directory ++ [name] = next := by
      simpa [stepTo, hdot, hup] using h
    simp [FsPath.normalizeStep, hdot, hup]

theorem normalizeStep_of_stepTo_none {directory : List String} {name : String}
    (mark : Bool) (h : stepTo directory name = none) :
    FsPath.normalizeStep false (directory.reverse, mark) name =
      ([".."], false) := by
  by_cases hdot : name = "."
  · simp [stepTo, hdot] at h
  by_cases hup : name = ".."
  · obtain rfl : directory = [] := by simpa [stepTo, hup] using h
    simp [FsPath.normalizeStep, hup]
  · simp [stepTo, hdot, hup] at h

/-- The mark for a trailing separator after some names, of which the last
decides. -/
def markAfter (names : List String) (mark : Bool) : Bool :=
  match names.getLast? with
  | none => mark
  | some last => last = "." ∨ last = ".."

theorem markAfter_cons (name : String) (names : List String) (mark : Bool) :
    markAfter (name :: names) mark =
      markAfter names (decide (name = "." ∨ name = "..")) := by
  rcases hlast : names.getLast? with _ | last <;>
    simp [markAfter, List.getLast?_cons, hlast]

theorem foldl_normalizeStep_of_leadTo {directory names result : List String}
    (hdirectory : AreProper directory) (mark : Bool)
    (h : leadTo directory names = some result) :
    names.foldl (FsPath.normalizeStep false) (directory.reverse, mark) =
      (result.reverse, markAfter names mark) := by
  induction names generalizing directory mark with
  | nil =>
    obtain rfl : directory = result := by simpa [leadTo] using h
    rfl
  | cons name names ih =>
    rw [leadTo, List.foldlM_cons] at h
    obtain ⟨next, hnext, h⟩ := Option.bind_eq_some_iff.mp h
    rw [List.foldl_cons, normalizeStep_of_stepTo hdirectory mark hnext,
      ih (areProper_stepTo hdirectory hnext) _ h, markAfter_cons]

/-- A path that climbs above the root of the scan still does when it is
normalised. -/
theorem dotDot_mem_of_leadTo {directory names : List String}
    (hdirectory : AreProper directory) (mark : Bool)
    (h : leadTo directory names = none) :
    ".." ∈ (names.foldl (FsPath.normalizeStep false)
      (directory.reverse, mark)).1 := by
  induction names generalizing directory mark with
  | nil => simp [leadTo] at h
  | cons name names ih =>
    rw [List.foldl_cons]
    rcases hnext : stepTo directory name with _ | next
    · rw [normalizeStep_of_stepTo_none mark hnext]
      exact FsPath.dotDot_mem_foldl names rfl
    · rw [normalizeStep_of_stepTo hdirectory mark hnext]
      rw [leadTo, List.foldlM_cons, hnext] at h
      exact ih (areProper_stepTo hdirectory hnext) _ h

/-! ## The root that is claimed -/

namespace ManifestLocation

variable (location : ManifestLocation)

theorem areProper_top : AreProper location.top := by
  have hproper : AreProper (location.directory.map EntryName.text) := by
    refine ⟨fun hmem => ?_, fun hmem => ?_⟩
    · obtain ⟨entry, -, hentry⟩ := List.mem_map.mp hmem
      exact entry.proper.1 hentry
    · obtain ⟨entry, -, hentry⟩ := List.mem_map.mp hmem
      exact entry.proper.2 hentry
  exact hproper.dropLast

theorem names_parentPath_label :
    location.label.parentPath.names = location.directory.map EntryName.text := by
  simp [label, FsPath.parentPath]

def joined (checkout : FsPath) : FsPath :=
  location.label.parentPath.parentPath.append checkout

theorem absolute_joined {checkout : FsPath}
    (hrelative : checkout.absolute = false) :
    (location.joined checkout).absolute = false := by
  by_cases hnames : checkout.names = [] <;>
    simp [joined, FsPath.append, hrelative, hnames, FsPath.parentPath, label,
      FsPath.withTrailing]

theorem names_joined {checkout : FsPath}
    (hrelative : checkout.absolute = false) :
    (location.joined checkout).names = location.top ++ checkout.names := by
  by_cases hnames : checkout.names = [] <;>
    simp [joined, FsPath.append, hrelative, hnames, FsPath.parentPath, label,
      FsPath.withTrailing, top]

theorem trailing_joined {checkout : FsPath}
    (hrelative : checkout.absolute = false) (hnames : checkout.names ≠ []) :
    (location.joined checkout).trailing = checkout.trailing := by
  simp [joined, FsPath.append, hrelative, hnames]

theorem normalizeNames_joined {checkout : FsPath}
    (hrelative : checkout.absolute = false) :
    FsPath.normalizeNames false (location.joined checkout).names =
      checkout.names.foldl (FsPath.normalizeStep false)
        (location.top.reverse, false) := by
  obtain ⟨hdot, hup⟩ := location.areProper_top
  rw [location.names_joined hrelative, FsPath.normalizeNames,
    List.foldl_append, FsPath.foldl_normalizeStep_of_proper _ hdot hup,
    List.append_nil]

theorem checkoutRoot_eq {project : Project}
    (hdirectory : location.directory ≠ [])
    (hrelative : project.checkout.absolute = false) :
    checkoutRoot location.label project =
      let root := (location.joined project.checkout).lexicallyNormal
      if root.isEmpty ∨ root = .dot ∨ root.elements.head? = some ".." then
        .empty
      else root := by
  have hnames : location.label.parentPath.isEmpty = false := by
    simp [FsPath.isEmpty, location.names_parentPath_label, hdirectory]
  unfold checkoutRoot
  rw [Project.checkout] at hrelative
  simp only [hnames, hrelative, Bool.false_eq_true, if_false]
  rfl

theorem checkoutRoot_of_directory_nil (project : Project)
    (hdirectory : location.directory = []) :
    checkoutRoot location.label project = .empty := by
  have hempty : location.label.parentPath.isEmpty = true := by
    simp [FsPath.isEmpty, hdirectory, FsPath.parentPath, label]
  unfold checkoutRoot
  simp only [hempty, if_true]

theorem checkoutRoot_of_absolute {project : Project}
    (habsolute : project.checkout.absolute = true) :
    checkoutRoot location.label project = .empty := by
  unfold checkoutRoot
  rw [Project.checkout] at habsolute
  simp only [habsolute, if_true, ite_self]

theorem checkoutRoot_of_climbs {project : Project}
    (hdirectory : location.directory ≠ [])
    (hrelative : project.checkout.absolute = false)
    (hclimbs : leadTo location.top project.checkout.names = none) :
    checkoutRoot location.label project = .empty := by
  rw [location.checkoutRoot_eq hdirectory hrelative]
  have hmem := dotDot_mem_of_leadTo location.areProper_top false hclimbs
  rw [← location.normalizeNames_joined hrelative] at hmem
  have hfirst := (FsPath.keptNames_normalizeNames _).dotDotFirst hmem
  have hnames := FsPath.names_lexicallyNormal
    (location.absolute_joined hrelative)
  rw [if_neg (List.ne_nil_of_mem hmem)] at hnames
  apply if_pos
  right
  right
  rw [FsPath.elements, hnames, List.head?_append, List.head?_reverse, hfirst]
  rfl

theorem checkoutRoot_of_scanRoot {project : Project}
    (hdirectory : location.directory ≠ [])
    (hrelative : project.checkout.absolute = false)
    (hroot : leadTo location.top project.checkout.names = some []) :
    checkoutRoot location.label project = .empty := by
  rw [location.checkoutRoot_eq hdirectory hrelative]
  have hkept := location.normalizeNames_joined hrelative
  rw [foldl_normalizeStep_of_leadTo location.areProper_top false hroot] at hkept
  have hnormal : (location.joined project.checkout).lexicallyNormal =
      if (location.joined project.checkout).names = [] then .empty
      else .dot := by
    simp [FsPath.lexicallyNormal, location.absolute_joined hrelative, hkept]
  rw [hnormal]
  apply if_pos
  by_cases hnames : (location.joined project.checkout).names = []
  · left
    rw [if_pos hnames]
    rfl
  · right
    left
    rw [if_neg hnames]

/-- Elsewhere the claimed root is the directory that is led to. -/
theorem checkoutRoot_of_leadTo {project : Project} {result : List String}
    (hdirectory : location.directory ≠ [])
    (hrelative : project.checkout.absolute = false)
    (hlead : leadTo location.top project.checkout.names = some result)
    (hresult : result ≠ []) :
    (checkoutRoot location.label project).absolute = false ∧
      (checkoutRoot location.label project).names = result ∧
      (checkoutRoot location.label project).trailing =
        (markAfter project.checkout.names false ||
          (location.joined project.checkout).trailing) := by
  have hproper := areProper_leadTo location.areProper_top hlead
  have hkept := location.normalizeNames_joined hrelative
  rw [foldl_normalizeStep_of_leadTo location.areProper_top false hlead] at hkept
  have hrev : result.reverse ≠ [] := by simpa using hresult
  have habsolute := FsPath.absolute_lexicallyNormal
    (location.joined project.checkout)
  rw [location.absolute_joined hrelative] at habsolute
  have hnames := FsPath.names_lexicallyNormal
    (location.absolute_joined hrelative)
  rw [hkept, if_neg hrev, List.reverse_reverse] at hnames
  have hlast : (result.getLast? != some "..") = true := by
    rw [bne_iff_ne]
    exact fun hlast => hproper.2 (List.mem_of_getLast? hlast)
  have htrailing : (location.joined project.checkout).lexicallyNormal.trailing =
      (markAfter project.checkout.names false ||
        (location.joined project.checkout).trailing) := by
    simp [FsPath.lexicallyNormal, location.absolute_joined hrelative, hkept,
      hresult, hlast]
  have hkeeps : ¬((location.joined project.checkout).lexicallyNormal.isEmpty ∨
      (location.joined project.checkout).lexicallyNormal = .dot ∨
      (location.joined project.checkout).lexicallyNormal.elements.head? =
        some "..") := by
    rintro (hempty | hdot | hup)
    · simp [FsPath.isEmpty, hnames, hresult] at hempty
    · rw [hdot] at hnames
      exact hproper.1 (by simp [← hnames, FsPath.dot])
    · rw [FsPath.elements, hnames, List.head?_append_of_ne_nil _ hresult] at hup
      exact hproper.2 (List.mem_of_head? hup)
  rw [location.checkoutRoot_eq hdirectory hrelative]
  dsimp only
  rw [if_neg hkeeps]
  exact ⟨habsolute, hnames, htrailing⟩

end ManifestLocation

theorem endsAsDirectory_iff {checkout : FsPath} :
    EndsAsDirectory checkout ↔
      (markAfter checkout.names false || checkout.trailing) = true := by
  rcases hlast : checkout.names.getLast? with _ | last <;>
    simp [EndsAsDirectory, markAfter, hlast, or_comm]

/-- The claimed root stays inside the workspace exactly when the manifest is
at the root of the scan or the path of the project leads below the top
directory. -/
theorem isInsideWorkspace_checkoutRoot_iff (location : ManifestLocation)
    (project : Project) :
    IsInsideWorkspace location.top (checkoutRoot location.label project) ↔
      location.directory = [] ∨ LeadsBelow location.top project.checkout := by
  by_cases hdirectory : location.directory = []
  · simp [hdirectory, IsInsideWorkspace,
      location.checkoutRoot_of_directory_nil project hdirectory]
  by_cases habsolute : project.checkout.absolute = true
  · simp [IsInsideWorkspace, location.checkoutRoot_of_absolute habsolute,
      LeadsBelow, habsolute]
  rw [Bool.not_eq_true] at habsolute
  rcases hlead : leadTo location.top project.checkout.names with _ | result
  · simp [IsInsideWorkspace, LeadsBelow, hlead,
      location.checkoutRoot_of_climbs hdirectory habsolute hlead]
  by_cases hresult : result = []
  · subst hresult
    simp [IsInsideWorkspace, LeadsBelow, hlead,
      location.checkoutRoot_of_scanRoot hdirectory habsolute hlead]
  obtain ⟨hrelative, hnames, htrailing⟩ :=
    location.checkoutRoot_of_leadTo hdirectory habsolute hlead hresult
  have hproper := areProper_leadTo location.areProper_top hlead
  have hempty : checkoutRoot location.label project ≠ .empty := fun hempty =>
    hresult (by rw [← hnames, hempty]; rfl)
  constructor
  · rintro (hroot | ⟨-, htrail, -, -, below, hbelow, hroot⟩)
    · exact absurd hroot hempty
    rw [hnames] at hroot
    refine .inr (.inr (.inr (.inr ⟨?_, below, hbelow, by rw [hlead, hroot]⟩)))
    rw [endsAsDirectory_iff]
    by_cases hcheckout : project.checkout.names = []
    · rw [hcheckout] at hlead
      have htop : location.top = result := by simpa [leadTo] using hlead
      exact absurd (by simpa [htop] using hroot) hbelow
    · rw [← location.trailing_joined habsolute hcheckout, ← htrailing, htrail]
      simp
  · rintro (hdir | habs | hnone | hnil | ⟨hends, below, hbelow, hroot⟩)
    · exact absurd hdir hdirectory
    · rw [habsolute] at habs
      cases habs
    · rw [hlead] at hnone
      cases hnone
    · rw [hlead] at hnil
      exact absurd (Option.some.inj hnil) hresult
    right
    rw [hlead] at hroot
    obtain rfl := Option.some.inj hroot
    have hcheckout : project.checkout.names ≠ [] := fun hcheckout => by
      rw [hcheckout] at hlead
      exact hbelow (by simpa [leadTo] using hlead)
    rw [endsAsDirectory_iff, Bool.not_eq_true,
      ← location.trailing_joined habsolute hcheckout, ← htrailing] at hends
    refine ⟨hrelative, hends, ?_, ?_, below, hbelow, hnames⟩
    · apply FsPath.lexicallyNormal_eq_self hrelative hends
      · rwa [hnames]
      · rw [hnames]
        exact hproper.1
      · rw [hnames]
        exact hproper.2
    · rw [hnames]
      exact hproper.2

/-- The manifest of the workspace `ws`. -/
def workspaceManifest : ManifestLocation where
  directory := [⟨"ws", by decide, by decide⟩, ⟨"zephyr", by decide, by decide⟩]
  file := ⟨"west.yml", by decide, by decide⟩

/-- A path that climbs out of the workspace and stays in the scan. -/
theorem not_isInsideWorkspace_checkoutRoot :
    ¬∀ (location : ManifestLocation) (project : Project),
      IsInsideWorkspace location.top
        (checkoutRoot location.label project) := by
  intro hinside
  have hroot : checkoutRoot workspaceManifest.label
      { name := "hal".toList, path := "../other".toList } =
        FsPath.ofString "other" := by decide +kernel
  have h := hinside workspaceManifest
    { name := "hal".toList, path := "../other".toList }
  rw [hroot] at h
  rcases h with h | ⟨-, -, -, -, below, -, hnames⟩
  · exact absurd h (by decide)
  · have hhead : (FsPath.ofString "other").names.head? =
        workspaceManifest.top.head? := by rw [hnames]; rfl
    exact absurd hhead (by decide)

end Bomwerk.Embedded.West
