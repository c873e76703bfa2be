import Bomwerk.Support.Lines
import Mathlib.Data.List.Lex
import Mathlib.Data.Prod.Lex
import Mathlib.Data.String.Basic
import Mathlib.Order.Compare
import Mathlib.Order.Std

/-!
# File-system paths

The lexical part of `std::filesystem::path` on a POSIX system: the operations
that look at the text of a path and never at the disk.  A path is kept up to
`operator==`, that is as its root directory, its file names and a mark for a
trailing separator; repeated separators are one.
-/

namespace Bomwerk.Core

/-- A file name of the POSIX path grammar: not empty, without a separator. -/
def IsFileName (name : String) : Prop :=
  name ≠ "" ∧ '/' ∉ name.toList

instance (name : String) : Decidable (IsFileName name) :=
  inferInstanceAs (Decidable (name ≠ "" ∧ '/' ∉ name.toList))

/-- A path in the POSIX grammar, up to `operator==`. -/
structure FsPath where
  absolute : Bool
  names : List String
  trailing : Bool
  names_valid : ∀ name ∈ names, IsFileName name
  trailing_names : trailing = true → names ≠ []
  deriving DecidableEq

namespace FsPath

@[ext] theorem ext {p q : FsPath} (habsolute : p.absolute = q.absolute)
    (hnames : p.names = q.names) (htrailing : p.trailing = q.trailing) :
    p = q := by
  cases p
  cases q
  simp_all

theorem trailing_eq_false {p : FsPath} (hnames : p.names = []) :
    p.trailing = false := by
  by_contra htrailing
  exact p.trailing_names (by simpa using htrailing) hnames

/-! ## Reading and printing -/

/-- The empty path, `fs::path()`. -/
def empty : FsPath where
  absolute := false
  names := []
  trailing := false
  names_valid := by simp
  trailing_names := by simp

/-- The file names among the pieces of a text cut at its separators. -/
def fileNames (pieces : List (List Char)) : List String :=
  (pieces.filter (· ≠ [])).map String.ofList

theorem fileNames_splitOn_valid {text : List Char} :
    ∀ name ∈ fileNames (text.splitOn '/'), IsFileName name := by
  intro name hname
  simp only [fileNames, List.mem_map, List.mem_filter, decide_eq_true_eq]
    at hname
  obtain ⟨piece, ⟨hpiece, hne⟩, rfl⟩ := hname
  refine ⟨?_, ?_⟩
  · intro hempty
    exact hne (by simpa using congrArg String.toList hempty)
  · simpa using Support.not_mem_of_mem_splitOn piece hpiece

/-- `fs::path(text)`. -/
def ofString (text : String) : FsPath where
  absolute := text.toList.head? = some '/'
  names := fileNames (text.toList.splitOn '/')
  trailing := text.toList.getLast? = some '/' ∧
    fileNames (text.toList.splitOn '/') ≠ []
  names_valid := fileNames_splitOn_valid
  trailing_names := by
    intro htrailing
    simp only [decide_eq_true_eq] at htrailing
    exact htrailing.2

def genericString (p : FsPath) : String :=
  (if p.absolute then "/" else "") ++
    String.ofList (['/'].intercalate (p.names.map String.toList)) ++
    (if p.trailing then "/" else "")

/-- The pieces a printed path is cut into: its names, and an empty piece for a
separator at either end. -/
def pieces (p : FsPath) : List (List Char) :=
  (if p.absolute then [[]] else []) ++ p.names.map String.toList ++
    if p.trailing then [[]] else []

theorem fileNames_pieces (p : FsPath) : fileNames p.pieces = p.names := by
  have hnames : (p.names.map String.toList).filter (· ≠ []) =
      p.names.map String.toList := by
    rw [List.filter_eq_self]
    intro piece hpiece
    obtain ⟨name, hname, rfl⟩ := List.mem_map.mp hpiece
    simpa using (p.names_valid name hname).1
  have hprefix : (if p.absolute = true then [[]] else []).filter
      (· ≠ ([] : List Char)) = [] := by
    split <;> simp
  have hsuffix : (if p.trailing = true then [[]] else []).filter
      (· ≠ ([] : List Char)) = [] := by
    split <;> simp
  rw [fileNames, pieces, List.filter_append, List.filter_append, hnames,
    hprefix, hsuffix, List.nil_append, List.append_nil, List.map_map]
  simp

theorem not_mem_of_mem_pieces {p : FsPath} {piece : List Char}
    (hpiece : piece ∈ p.pieces) : '/' ∉ piece := by
  simp only [pieces, List.mem_append, List.mem_map] at hpiece
  rcases hpiece with (hpiece | ⟨name, hname, rfl⟩) | hpiece
  · split at hpiece <;> simp_all
  · exact (p.names_valid name hname).2
  · split at hpiece <;> simp_all

theorem toList_genericString {p : FsPath} (hnames : p.names ≠ []) :
    p.genericString.toList = ['/'].intercalate p.pieces := by
  obtain ⟨first, rest, hcons⟩ := List.exists_cons_of_ne_nil hnames
  have hsuffix : ∀ pieces : List (List Char), pieces ≠ [] →
      ['/'].intercalate (pieces ++ [[]]) =
        ['/'].intercalate pieces ++ ['/'] := by
    intro pieces hpieces
    induction pieces with
    | nil => exact absurd rfl hpieces
    | cons piece pieces ih =>
      cases pieces with
      | nil => simp [List.intercalate, List.intersperse]
      | cons next pieces =>
        have h := ih (by simp)
        simp only [List.intercalate, List.cons_append,
          List.intersperse, List.flatten_cons, List.append_assoc] at h ⊢
        rw [h]
  have hprefix : ∀ pieces : List (List Char), pieces ≠ [] →
      ['/'].intercalate ([] :: pieces) = '/' :: ['/'].intercalate pieces := by
    intro pieces hpieces
    obtain ⟨piece, pieces, rfl⟩ := List.exists_cons_of_ne_nil hpieces
    simp [List.intercalate, List.intersperse]
  have hmap : p.names.map String.toList ≠ [] := by simpa using hnames
  rcases hab : p.absolute <;> rcases htr : p.trailing <;>
    simp [genericString, pieces, hab, htr, hsuffix _ hmap, hprefix _ hmap,
      hprefix (p.names.map String.toList ++ [[]]) (by simp)]

/-- Joined names neither start nor end with a separator. -/
theorem intercalate_ends {pieces : List (List Char)} (hpieces : pieces ≠ [])
    (hvalid : ∀ piece ∈ pieces, piece ≠ [] ∧ '/' ∉ piece) :
    (['/'].intercalate pieces).head? ≠ some '/' ∧
      (['/'].intercalate pieces).getLast? ≠ some '/' ∧
      ['/'].intercalate pieces ≠ [] := by
  induction pieces with
  | nil => exact absurd rfl hpieces
  | cons piece pieces ih =>
    obtain ⟨hne, hmem⟩ := hvalid piece (by simp)
    have hhead : ∀ back, (piece ++ back).head? ≠ some '/' := by
      intro back hback
      rw [List.head?_append_of_ne_nil _ hne] at hback
      exact hmem (List.mem_of_head? hback)
    cases pieces with
    | nil =>
      simp only [List.intercalate, List.intersperse, List.flatten_cons,
        List.flatten_nil]
      refine ⟨hhead [], ?_, by simpa using hne⟩
      intro hlast
      rw [List.append_nil] at hlast
      exact hmem (List.mem_of_getLast? hlast)
    | cons next pieces =>
      obtain ⟨-, hlast, hnonempty⟩ :=
        ih (by simp) fun piece h => hvalid piece (by simp [h])
      have hjoin : ['/'].intercalate (piece :: next :: pieces) =
          piece ++ ('/' :: ['/'].intercalate (next :: pieces)) := by
        simp [List.intercalate, List.intersperse]
      rw [hjoin]
      refine ⟨hhead _, ?_, by simp⟩
      rwa [List.getLast?_append_of_ne_nil _ (by simp),
        List.getLast?_cons_of_ne_nil hnonempty]

/-- A printed path reads back as itself. -/
theorem ofString_genericString (p : FsPath) :
    ofString p.genericString = p := by
  by_cases hnames : p.names = []
  · have htrailing := trailing_eq_false hnames
    rcases hab : p.absolute
    · rw [show p = empty from FsPath.ext hab hnames htrailing]
      decide
    · rw [show p = { empty with absolute := true } from
        FsPath.ext hab hnames htrailing]
      decide
  have hsplit : p.genericString.toList.splitOn '/' = p.pieces := by
    rw [toList_genericString hnames]
    refine List.splitOn_intercalate _ (fun piece => not_mem_of_mem_pieces) ?_
    simp [pieces, hnames]
  have hfile : fileNames (p.genericString.toList.splitOn '/') = p.names := by
    rw [hsplit, fileNames_pieces]
  have hvalid : ∀ piece ∈ p.names.map String.toList,
      piece ≠ [] ∧ '/' ∉ piece := by
    intro piece hpiece
    obtain ⟨name, hname, rfl⟩ := List.mem_map.mp hpiece
    exact ⟨by simpa using (p.names_valid name hname).1,
      (p.names_valid name hname).2⟩
  obtain ⟨hhead, hlast, hne⟩ :=
    intercalate_ends (by simpa using hnames) hvalid
  apply FsPath.ext
  · rcases hab : p.absolute <;>
      simp_all [ofString, genericString, List.head?_append]
  · exact hfile
  · simp only [ofString, hfile, ne_eq, hnames, not_false_eq_true, and_true]
    rcases htr : p.trailing <;> simp_all [genericString, List.getLast?_append]

/-- The elements an iteration over the path visits below its root directory:
its names, and an empty one for a trailing separator. -/
def elements (p : FsPath) : List String :=
  p.names ++ if p.trailing then [""] else []

/-- What `compare` looks at: a relative path comes before an absolute one, then
the elements decide. -/
def orderKey (p : FsPath) : Bool ×ₗ List String :=
  toLex (p.absolute, p.elements)

theorem empty_notMem_names (p : FsPath) : "" ∉ p.names :=
  fun h => (p.names_valid "" h).1 rfl

theorem filter_elements (p : FsPath) :
    p.elements.filter (· ≠ "") = p.names := by
  have hnames : p.names.filter (· ≠ "") = p.names := by
    rw [List.filter_eq_self]
    intro name hname
    simpa using (p.names_valid name hname).1
  rw [elements, List.filter_append, hnames]
  split <;> simp

theorem empty_mem_elements_iff (p : FsPath) :
    "" ∈ p.elements ↔ p.trailing = true := by
  by_cases htrailing : p.trailing = true <;>
    simp [elements, p.empty_notMem_names, htrailing]

theorem orderKey_injective : Function.Injective orderKey := by
  intro p q hkey
  obtain ⟨habsolute, helements⟩ :
      p.absolute = q.absolute ∧ p.elements = q.elements := by
    simpa [orderKey] using hkey
  apply FsPath.ext habsolute
  · rw [← filter_elements p, helements, filter_elements q]
  · rw [Bool.eq_iff_iff, ← empty_mem_elements_iff p, helements,
      empty_mem_elements_iff q]

/-- `operator<`. -/
instance : LinearOrder FsPath :=
  LinearOrder.lift' orderKey orderKey_injective

instance : Std.LawfulEqOrd FsPath where
  eq_of_compare := compare_eq_iff_eq.mp

instance : Std.TransOrd FsPath := inferInstance

/-- The path `.`, which `lexically_normal` gives for the current directory. -/
def dot : FsPath where
  absolute := false
  names := ["."]
  trailing := false
  names_valid := by decide
  trailing_names := by simp

def isEmpty (p : FsPath) : Bool :=
  !p.absolute && p.names.isEmpty

/-- `filename()`: the last element of the path, empty after a trailing
separator and for the root directory. -/
def filename (p : FsPath) : String :=
  if p.trailing then "" else p.names.getLast?.getD ""

def withTrailing (p : FsPath) (trailing : Bool) : FsPath :=
  { p with
    trailing := trailing && !p.names.isEmpty
    trailing_names := by simp }

/-- `parent_path()`.  The root directory and the empty path are their own
parents. -/
def parentPath (p : FsPath) : FsPath :=
  if p.trailing then p.withTrailing false
  else
    { p with
      names := p.names.dropLast
      trailing := false
      names_valid := fun name hname =>
        p.names_valid name (List.dropLast_subset _ hname)
      trailing_names := fun htrailing => absurd htrailing (by simp) }

/-- `operator/`. -/
def append (p q : FsPath) : FsPath :=
  if q.absolute then q
  else if q.names.isEmpty then p.withTrailing true
  else
    { absolute := p.absolute
      names := p.names ++ q.names
      trailing := q.trailing
      names_valid := by
        intro name hname
        rcases List.mem_append.mp hname with hp | hq
        · exact p.names_valid name hp
        · exact q.names_valid name hq
      trailing_names := by
        intro htrailing
        simp [q.trailing_names htrailing] }

/-- The position of the dot that starts the extension of a file name: its last
dot, unless the name is `.` or `..` or has no other dot than a leading one. -/
def extensionDot (name : List Char) : Option Nat :=
  if name = ['.'] ∨ name = ['.', '.'] then none
  else
    match name.reverse.idxOf? '.' with
    | some fromEnd =>
      if fromEnd + 1 < name.length then some (name.length - fromEnd - 1)
      else none
    | none => none

def extension (p : FsPath) : String :=
  match extensionDot p.filename.toList with
  | some position => String.ofList (p.filename.toList.drop position)
  | none => ""

def stem (p : FsPath) : String :=
  match extensionDot p.filename.toList with
  | some position => String.ofList (p.filename.toList.take position)
  | none => p.filename

/-- One element of `lexically_normal`, over the names kept so far (last first)
and the mark for a trailing separator. -/
def normalizeStep (absolute : Bool) (state : List String × Bool)
    (name : String) : List String × Bool :=
  if name = "." then (state.1, true)
  else if name = ".." then
    match state.1 with
    | [] => if absolute then ([], true) else ([".."], false)
    | last :: rest =>
      if last = ".." then (".." :: last :: rest, false) else (rest, true)
  else (name :: state.1, false)

def normalizeNames (absolute : Bool) (names : List String) :
    List String × Bool :=
  names.foldl (normalizeStep absolute) ([], false)

theorem normalizeStep_valid {absolute : Bool} {state : List String × Bool}
    {name : String} (hstate : ∀ n ∈ state.1, IsFileName n)
    (hname : IsFileName name) :
    ∀ n ∈ (normalizeStep absolute state name).1, IsFileName n := by
  have hdotdot : IsFileName ".." := by decide
  by_cases hdot : name = "."
  · simpa [normalizeStep, hdot] using hstate
  by_cases hup : name = ".."
  · rcases state with ⟨_ | ⟨last, rest⟩, trailing⟩
    · cases absolute <;> simp [normalizeStep, hup, hdotdot]
    · by_cases hlast : last = ".."
      · simpa [normalizeStep, hup, hlast, hdotdot] using hstate
      · have hrest : ∀ n ∈ rest, IsFileName n := fun n hn =>
          hstate n (List.mem_cons_of_mem _ hn)
        simpa [normalizeStep, hup, hlast] using hrest
  · simpa [normalizeStep, hdot, hup, hname] using hstate

theorem foldl_normalizeStep_valid {absolute : Bool} (names : List String)
    (state : List String × Bool)
    (hstate : ∀ n ∈ state.1, IsFileName n)
    (hnames : ∀ n ∈ names, IsFileName n) :
    ∀ n ∈ (names.foldl (normalizeStep absolute) state).1, IsFileName n := by
  induction names generalizing state with
  | nil => simpa using hstate
  | cons name names ih =>
    refine ih _ ?_ (fun n hn => hnames n (by simp [hn]))
    exact normalizeStep_valid hstate (hnames name (by simp))

def lexicallyNormal (p : FsPath) : FsPath :=
  let kept := normalizeNames p.absolute p.names
  if kept.1 = [] then
    if p.absolute then { empty with absolute := true }
    else if p.names.isEmpty then empty else dot
  else
    { absolute := p.absolute
      names := kept.1.reverse
      trailing := (kept.2 || p.trailing) && kept.1.head? != some ".." &&
        !kept.1.isEmpty
      names_valid := by
        intro name hname
        exact foldl_normalizeStep_valid p.names ([], false) (by simp)
          p.names_valid name (List.mem_reverse.mp hname)
      trailing_names := by simp }

example : (ofString "a/./b/../c/..").lexicallyNormal.genericString = "a/" := by
  decide

/-- The two lists behind their longest common prefix. -/
def dropCommonPrefix : List String → List String → List String × List String
  | x :: xs, y :: ys =>
    if x = y then dropCommonPrefix xs ys else (x :: xs, y :: ys)
  | xs, ys => (xs, ys)

theorem dropCommonPrefix_subset (xs ys : List String) :
    (dropCommonPrefix xs ys).1 ⊆ xs := by
  induction xs generalizing ys with
  | nil => cases ys <;> simp [dropCommonPrefix]
  | cons x xs ih =>
    cases ys with
    | nil => simp [dropCommonPrefix]
    | cons y ys =>
      simp only [dropCommonPrefix]
      split
      · exact List.subset_cons_of_subset _ (ih ys)
      · exact List.Subset.refl _

/-- How many directories the rest of the base climbs down, `..` counting
back. -/
def descent (names : List String) : Int :=
  names.foldl
    (fun depth name =>
      if name = ".." then depth - 1
      else if name = "." then depth
      else depth + 1) 0

/-- `lexically_relative(base)`; the empty path when there is none. -/
def lexicallyRelative (p base : FsPath) : FsPath :=
  let rest := dropCommonPrefix p.names base.names
  let depth := descent rest.2
  if p.absolute != base.absolute then empty
  else if depth = 0 ∧ rest.1 = [] then dot
  else if depth < 0 then empty
  else
    { absolute := false
      names := List.replicate depth.toNat ".." ++ rest.1
      trailing := p.trailing &&
        !(List.replicate depth.toNat ".." ++ rest.1).isEmpty
      names_valid := by
        intro name hname
        rcases List.mem_append.mp hname with hup | hrest
        · rw [List.eq_of_mem_replicate hup]
          decide
        · exact p.names_valid name (dropCommonPrefix_subset _ _ hrest)
      trailing_names := by simp }

/-- The loop of `normalized_subtree_path` that strips trailing separators.
The root directory is a fixed point of `parent_path`, where it stops. -/
def stripTrailingSeparators : Nat → FsPath → FsPath
  | 0, p => p
  | fuel + 1, p =>
    if !p.isEmpty && p.filename = "" then
      if p.parentPath = p then p
      else stripTrailingSeparators fuel p.parentPath
    else p

def normalizedSubtreePath (raw : FsPath) : FsPath :=
  stripTrailingSeparators (raw.names.length + 2) raw.lexicallyNormal

def isContainedRelativePath (p : FsPath) : Bool :=
  !p.isEmpty && !p.absolute && !p.lexicallyNormal.names.contains ".."

end FsPath
end Bomwerk.Core
