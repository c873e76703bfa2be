import Bomwerk.Core.Component

/-!
# Binary evidence

The part of `binscan/binary_map.cpp` that turns what the binaries of a build
proved about a component root into evidence of its components.
-/

namespace Bomwerk.Binscan

open Bomwerk.Core Bomwerk.Support

structure BinaryEvidence where
  root : FsPath
  neededSonames : List String := []
  archiveMemberCount : Nat := 0
  sharedObjectCount : Nat := 0
  firstDeclaringArtifact : FsPath := .empty
  firstMember : String := ""
  firstSharedObject : FsPath := .empty

/-- `BinaryMap`, the part that speaks about components. -/
structure BinaryMap where
  evidenceByRoot : OrderedMap FsPath BinaryEvidence := ∅

def evidenceDetails (evidence : BinaryEvidence) : List String :=
  evidence.neededSonames.map (fun soname =>
    "binary: DT_NEEDED " ++ soname ++ " resolves under " ++
      evidence.root.genericString ++ " (declared by " ++
      evidence.firstDeclaringArtifact.genericString ++ ")") ++
  (if 0 < evidence.archiveMemberCount then
    ["binary: " ++ toString evidence.archiveMemberCount ++
      " archive member(s) under " ++ evidence.root.genericString ++
      " (e.g. " ++ evidence.firstMember ++ ")"]
    else []) ++
  if 0 < evidence.sharedObjectCount then
    ["binary: " ++ toString evidence.sharedObjectCount ++
      " prebuilt shared object(s) under " ++ evidence.root.genericString ++
      " (e.g. " ++ evidence.firstSharedObject.genericString ++ ")"]
  else []

/-- The details a map holds for a component, none for a rootless one. -/
def detailsFor (map : BinaryMap) (component : Component) : List String :=
  let root := component.root.normalizedSubtreePath
  if root.isEmpty then []
  else (map.evidenceByRoot[root]?.map evidenceDetails).getD []

/-- The body of the loop of `apply_binary_evidence`. -/
def applyToComponent (map : BinaryMap) (component : Component) : Component :=
  { component with
    evidence :=
      component.evidence ++ (detailsFor map component).map fun detail =>
          { source := .binary, detail := detail, confidence := .high } }

/-- `apply_binary_evidence`, with the number of components that gained any. -/
def applyBinaryEvidence (components : List Component) (map : BinaryMap) :
    List Component × Nat :=
  (components.map (applyToComponent map),
    components.countP fun component => !(detailsFor map component).isEmpty)

end Bomwerk.Binscan

/-!
## Shared objects below the component roots

The part of `binscan/binary_map.cpp` that finds which component root owns a
file, and which one could answer to a soname: a name is looked up as it is and
without its version.
-/

namespace Bomwerk.Binscan

open Bomwerk.Core Bomwerk.Support

/-- The loop of `shared_object_base_name`. -/
def baseNameBehindVersions : Nat → List Char → Option (List Char)
  | 0, _ => none
  | fuel + 1, candidate =>
    match afterLast? '.' candidate with
    | none => none
    | some extension =>
      if extension = ['s', 'o'] then some candidate
      else if extension.isEmpty ||
          !extension.all (fun c => '0' ≤ c ∧ c ≤ '9') then none
      else baseNameBehindVersions fuel (beforeLast '.' candidate)

/-- `shared_object_base_name`: up to three version segments. -/
def sharedObjectBaseName (name : String) : Option String :=
  (baseNameBehindVersions 4 name.toList).map String.ofList

def pathElements (p : FsPath) : List String :=
  (if p.absolute then ["/"] else []) ++ p.elements

/-- `native().size()`. -/
def nativeSize (p : FsPath) : Nat :=
  p.genericString.utf8ByteSize

/-- The loop of `longest_enclosing_root` over the elements of a root and of a
path has come to the end of the root. -/
def encloses (root relativePath : FsPath) : Bool :=
  (pathElements root).isPrefixOf (pathElements relativePath)

/-- The turn of `longest_enclosing_root` for one root. -/
def keepLongest (relativePath : FsPath) (best : Option FsPath)
    (root : FsPath) : Option FsPath :=
  if encloses root relativePath then
    match best with
    | none => some root
    | some kept =>
      if nativeSize kept < nativeSize root then some root else some kept
  else best

def longestEnclosingRoot (relativePath : FsPath)
    (roots : OrderedSet FsPath) : Option FsPath :=
  roots.toList.foldl (keepLongest relativePath) none

/-- `root_by_file_name_`. -/
abbrev SharedObjectIndex := OrderedMap String FsPath

namespace SharedObjectIndex

def remember (index : SharedObjectIndex) (fileName : String)
    (root : FsPath) : SharedObjectIndex :=
  match index[fileName]? with
  | none => index.insert fileName root
  | some existing =>
    if nativeSize existing < nativeSize root then index.insert fileName root
    else index

/-- `build`, over the files of the walk. -/
def build (files : List FsPath) (componentRoots : OrderedSet FsPath) :
    SharedObjectIndex :=
  files.foldl
    (fun index relativePath =>
      if (sharedObjectBaseName relativePath.filename).isSome then
        match longestEnclosingRoot relativePath componentRoots with
        | some root => index.remember relativePath.filename root
        | none => index
      else index) ∅

def rootForSoname (index : SharedObjectIndex) (soname : String) :
    Option FsPath :=
  match index[soname]? with
  | some root => some root
  | none =>
    match sharedObjectBaseName soname with
    | some base => if base = soname then none else index[base]?
    | none => none

end SharedObjectIndex

/-- What is kept after some roots: none of them encloses the path, or the kept
one does and is as long as any that does. -/
structure KeptLongest (relativePath : FsPath) (roots : List FsPath)
    (best : Option FsPath) : Prop where
  mem : ∀ root, best = some root → root ∈ roots ∧
    encloses root relativePath = true
  longest : ∀ root ∈ roots, encloses root relativePath = true →
    ∃ kept, best = some kept ∧ nativeSize root ≤ nativeSize kept

theorem KeptLongest.keepLongest {relativePath : FsPath}
    {roots : List FsPath} {best : Option FsPath}
    (hkept : KeptLongest relativePath roots best) (root : FsPath) :
    KeptLongest relativePath (roots ++ [root])
      (keepLongest relativePath best root) := by
  unfold Binscan.keepLongest
  by_cases hencloses : encloses root relativePath = true
  · rw [if_pos hencloses]
    cases best with
    | none =>
      constructor
      · rintro _ ⟨⟩
        exact ⟨by simp, hencloses⟩
      · intro other hother hinside
        rcases List.mem_append.mp hother with hother | hother
        · obtain ⟨kept, hkept, -⟩ := hkept.longest other hother hinside
          exact absurd hkept (by simp)
        · rw [List.mem_singleton] at hother
          exact ⟨root, rfl, by rw [hother]⟩
    | some kept =>
      have hmem := hkept.mem kept rfl
      have hlongest : ∀ other ∈ roots, encloses other relativePath = true →
          nativeSize other ≤ nativeSize kept := by
        intro other hother hinside
        obtain ⟨_, ⟨⟩, hle⟩ := hkept.longest other hother hinside
        exact hle
      dsimp only
      split_ifs with hlonger
      · constructor
        · rintro _ ⟨⟩
          exact ⟨by simp, hencloses⟩
        · intro other hother hinside
          refine ⟨root, rfl, ?_⟩
          rcases List.mem_append.mp hother with hother | hother
          · exact (hlongest other hother hinside).trans hlonger.le
          · rw [List.mem_singleton.mp hother]
      · constructor
        · rintro _ ⟨⟩
          exact ⟨List.mem_append_left _ hmem.1, hmem.2⟩
        · intro other hother hinside
          refine ⟨kept, rfl, ?_⟩
          rcases List.mem_append.mp hother with hother | hother
          · exact hlongest other hother hinside
          · rw [List.mem_singleton.mp hother]
            omega
  · rw [if_neg hencloses]
    constructor
    · intro kept hbest
      obtain ⟨hmem, hinside⟩ := hkept.mem kept hbest
      exact ⟨List.mem_append_left _ hmem, hinside⟩
    · intro other hother hinside
      rcases List.mem_append.mp hother with hother | hother
      · exact hkept.longest other hother hinside
      · rw [List.mem_singleton.mp hother] at hinside
        exact absurd hinside hencloses

theorem KeptLongest.foldl {relativePath : FsPath} {roots : List FsPath}
    {best : Option FsPath} (hkept : KeptLongest relativePath roots best)
    (others : List FsPath) :
    KeptLongest relativePath (roots ++ others)
      (others.foldl (Binscan.keepLongest relativePath) best) := by
  induction others generalizing roots best with
  | nil => simpa using hkept
  | cons root others ih =>
    have hstep := ih (hkept.keepLongest root)
    simpa using hstep

theorem keptLongest_longestEnclosingRoot (relativePath : FsPath)
    (roots : OrderedSet FsPath) :
    KeptLongest relativePath roots.toList
      (longestEnclosingRoot relativePath roots) := by
  have hnone : KeptLongest relativePath [] none := by
    constructor <;> simp
  exact hnone.foldl roots.toList

end Bomwerk.Binscan
