import Bomwerk.Core.Path
import Mathlib.Data.List.Infix

/-!
# Vendor roots

`heuristics/vendor_root.cpp`: the library directory that a file below a
directory for third-party code belongs to, and that these directories divide
the files below them.  The code walks over the elements of a path; so do the
definitions here.
-/

namespace Bomwerk.Heuristics

open Bomwerk.Core

def triggerDirNames : List String :=
  ["third_party", "thirdparty", "vendor", "external", "deps", "libs"]

def testOrFixtureDirNames : List String :=
  ["test", "tests", "testdata", "fixture", "fixtures", "__tests__",
    "__fixtures__"]

def isTriggerDirName (name : String) : Bool :=
  triggerDirNames.contains name

def isTestOrFixtureDirName (name : String) : Bool :=
  testOrFixtureDirNames.contains name

def isAsciiAlpha (c : Char) : Bool :=
  ('a' ≤ c ∧ c ≤ 'z') ∨ ('A' ≤ c ∧ c ≤ 'Z')

def isAsciiAlphanumeric (c : Char) : Bool :=
  isAsciiAlpha c || ('0' ≤ c ∧ c ≤ '9')

/-- What the inner loop of `is_dns_namespace_container_name` asks of a label. -/
def isDnsLabel (label : List Char) : Bool :=
  label.head?.any isAsciiAlphanumeric && label.getLast?.any isAsciiAlphanumeric &&
    label.all fun c => isAsciiAlphanumeric c || c = '-'

/-- The loop of `is_dns_namespace_container_name` over the labels of a name;
the last one has letters only. -/
def areDnsLabels : List (List Char) → Bool
  | [] => false
  | [final] =>
    isDnsLabel final && decide (2 ≤ final.length) && final.all isAsciiAlpha
  | label :: labels => isDnsLabel label && areDnsLabels labels

def isDnsNamespaceContainerName (name : String) : Bool :=
  name.toList.contains '.' && areDnsLabels (name.toList.splitOn '.')

/-- The walk from the subfolder of a trigger directory on, with the chain of
trigger directories in front of it. -/
def librarySubfolder (triggerChain : List String) :
    List String → Option (List String)
  | [] => none
  | [_] => none
  | subfolder :: next :: rest =>
    if isTriggerDirName subfolder then
      librarySubfolder (triggerChain ++ [subfolder]) (next :: rest)
    else if isDnsNamespaceContainerName subfolder then none
    else some (triggerChain ++ [subfolder])

/-- The loop of `vendor_root_for`, from `accumulated` and
`below_test_or_fixture_directory` on. -/
def vendorRootFrom (accumulated : List String)
    (belowTestOrFixtureDirectory : Bool) : List String → Option (List String)
  | [] => none
  | [_] => none
  | component :: next :: rest =>
    if isTriggerDirName component then
      if belowTestOrFixtureDirectory then none
      else librarySubfolder (accumulated ++ [component]) (next :: rest)
    else
      vendorRootFrom (accumulated ++ [component])
        (belowTestOrFixtureDirectory || isTestOrFixtureDirName component)
        (next :: rest)

def firstNames (p : FsPath) (count : Nat) : FsPath where
  absolute := p.absolute
  names := p.names.take count
  trailing := false
  names_valid name hname := p.names_valid name (List.mem_of_mem_take hname)
  trailing_names h := absurd h Bool.false_ne_true

def vendorRootFor (relativePath : FsPath) : Option FsPath :=
  (vendorRootFrom [] false relativePath.elements).map fun root =>
    firstNames relativePath root.length

example : vendorRootFor (.ofString "third_party/libs/zlib/src/inflate.c") =
    some (.ofString "third_party/libs/zlib") := by
  decide

theorem librarySubfolder_spec {triggerChain elements root : List String}
    (h : librarySubfolder triggerChain elements = some root) :
    ∃ chain library below, below ≠ [] ∧ elements = chain ++ library :: below ∧
      root = triggerChain ++ chain ++ [library] ∧
      isTriggerDirName library = false ∧
      isDnsNamespaceContainerName library = false ∧
      ∀ rest ≠ [], librarySubfolder triggerChain (chain ++ library :: rest) =
        some root := by
  induction elements generalizing triggerChain with
  | nil => simp [librarySubfolder] at h
  | cons subfolder elements ih =>
    cases elements with
    | nil => simp [librarySubfolder] at h
    | cons next rest =>
      rw [librarySubfolder] at h
      split_ifs at h with htrigger hdns
      · obtain ⟨chain, library, below, hbelow, helements, hroot, hlibrary,
          hcontainer, hstable⟩ := ih h
        refine ⟨subfolder :: chain, library, below, hbelow, ?_, ?_,
          hlibrary, hcontainer, ?_⟩
        · rw [helements, List.cons_append]
        · rw [hroot]
          simp
        · intro rest' hrest'
          obtain ⟨element, elements', hcons⟩ :=
            List.exists_cons_of_ne_nil
              (show chain ++ library :: rest' ≠ [] by simp)
          have hagain := hstable rest' hrest'
          rw [hcons] at hagain
          rw [List.cons_append, hcons, librarySubfolder, if_pos htrigger,
            hagain]
      · refine ⟨[], subfolder, next :: rest, by simp, rfl, ?_,
          by simpa using htrigger, by simpa using hdns, ?_⟩
        · rw [List.append_nil]
          exact (Option.some.inj h).symm
        · intro rest' hrest'
          obtain ⟨element, elements', rfl⟩ :=
            List.exists_cons_of_ne_nil hrest'
          rw [List.nil_append, librarySubfolder, if_neg htrigger,
            if_neg hdns, h]

theorem vendorRootFrom_spec {accumulated elements root : List String}
    {belowTestOrFixtureDirectory : Bool}
    (h : vendorRootFrom accumulated belowTestOrFixtureDirectory elements =
      some root) :
    ∃ outer library below, below ≠ [] ∧ elements = outer ++ library :: below ∧
      root = accumulated ++ outer ++ [library] ∧
      isTriggerDirName library = false ∧
      isDnsNamespaceContainerName library = false ∧
      ∀ rest ≠ [], vendorRootFrom accumulated belowTestOrFixtureDirectory
        (outer ++ library :: rest) = some root := by
  induction elements generalizing accumulated belowTestOrFixtureDirectory with
  | nil => simp [vendorRootFrom] at h
  | cons component elements ih =>
    cases elements with
    | nil => simp [vendorRootFrom] at h
    | cons next rest =>
      -- a longer path goes on the same way up to the library
      have hnext : ∀ (outer : List String) (library : String)
          (rest : List String), ∃ element elements',
          outer ++ library :: rest = element :: elements' := by
        intro outer library rest
        exact List.exists_cons_of_ne_nil (by simp)
      rw [vendorRootFrom] at h
      split_ifs at h with htrigger htest
      · obtain ⟨chain, library, below, hbelow, helements, hroot, hlibrary,
          hcontainer, hstable⟩ := librarySubfolder_spec h
        refine ⟨component :: chain, library, below, hbelow, ?_, ?_,
          hlibrary, hcontainer, ?_⟩
        · rw [helements, List.cons_append]
        · rw [hroot]
          simp
        · intro rest' hrest'
          obtain ⟨element, elements', hcons⟩ := hnext chain library rest'
          have hagain := hstable rest' hrest'
          rw [hcons] at hagain
          rw [List.cons_append, hcons, vendorRootFrom, if_pos htrigger,
            if_neg htest, hagain]
      · obtain ⟨outer, library, below, hbelow, helements, hroot, hlibrary,
          hcontainer, hstable⟩ := ih h
        refine ⟨component :: outer, library, below, hbelow, ?_, ?_,
          hlibrary, hcontainer, ?_⟩
        · rw [helements, List.cons_append]
        · rw [hroot]
          simp
        · intro rest' hrest'
          obtain ⟨element, elements', hcons⟩ := hnext outer library rest'
          have hagain := hstable rest' hrest'
          rw [hcons] at hagain
          rw [List.cons_append, hcons, vendorRootFrom, if_neg htrigger, hagain]

/-- A path below a directory, by whole elements. -/
structure IsBelow (directory path : FsPath) : Prop where
  absolute : path.absolute = directory.absolute
  elements : ∃ below ≠ [], path.elements = directory.elements ++ below

theorem elements_firstNames {p : FsPath} {front below : List String}
    (hbelow : below ≠ []) (helements : p.elements = front ++ below) :
    (firstNames p front.length).elements = front := by
  have hshort : front.length ≤ p.names.length := by
    have hlength := congrArg List.length helements
    have hpos := List.length_pos_of_ne_nil hbelow
    rw [FsPath.elements, List.length_append, List.length_append] at hlength
    split_ifs at hlength <;> simp at hlength <;> omega
  calc
    (firstNames p front.length).elements = p.names.take front.length := by
      simp [FsPath.elements, firstNames]
    _ = p.elements.take front.length := by
      rw [FsPath.elements, List.take_append_of_le_length hshort]
    _ = front := by
      rw [helements, List.take_left]

theorem elements_eq_names {p : FsPath} (htrailing : p.trailing = false) :
    p.elements = p.names := by
  simp [FsPath.elements, htrailing]

theorem vendorRootFor_spec {p r : FsPath} (h : vendorRootFor p = some r) :
    IsBelow r p ∧ (∃ library, r.elements.getLast? = some library ∧
        isTriggerDirName library = false ∧
        isDnsNamespaceContainerName library = false) ∧
      ∀ q, IsBelow r q → vendorRootFor q = some r := by
  obtain ⟨root, hroot, rfl⟩ := Option.map_eq_some_iff.mp h
  obtain ⟨outer, library, below, hbelow, helements, rfl, hlibrary,
    hcontainer, hstable⟩ := vendorRootFrom_spec hroot
  have hsplit : p.elements = (outer ++ [library]) ++ below := by
    rw [helements, List.append_assoc, List.singleton_append]
  rw [List.nil_append] at hstable ⊢
  have hnames := elements_firstNames hbelow hsplit
  refine ⟨⟨rfl, below, hbelow, ?_⟩, ⟨library, ?_, hlibrary, hcontainer⟩, ?_⟩
  · rw [hnames, hsplit]
  · rw [hnames, List.getLast?_append]
    rfl
  · rintro q ⟨habsolute, rest, hrest, hq⟩
    rw [hnames] at hq
    have hfound : vendorRootFrom [] false q.elements =
        some (outer ++ [library]) := by
      rw [hq, List.append_assoc, List.singleton_append]
      exact hstable rest hrest
    rw [vendorRootFor, hfound, Option.map_some, Option.some.injEq]
    apply FsPath.ext
    · exact habsolute
    · have hfirst := elements_firstNames hrest hq
      rw [elements_eq_names rfl] at hfirst hnames
      rw [hfirst, hnames]
    · rfl

theorem IsBelow.of_prefix {outer inner path : FsPath}
    (habsolute : outer.absolute = inner.absolute)
    (hstarts : outer.elements <+: inner.elements) (hpath : IsBelow inner path) :
    IsBelow outer path := by
  obtain ⟨between, hbetween⟩ := hstarts
  obtain ⟨below, hbelow, helements⟩ := hpath.elements
  refine ⟨hpath.absolute.trans habsolute.symm, between ++ below,
    by simp [hbelow], ?_⟩
  rw [helements, ← hbetween, List.append_assoc]

/-- The vendor roots partition the tree: a root is a proper ancestor of its
files with the name of a library, every path below it has this root, no root
lies at or below another one, and no path is below two of them. -/
theorem vendorRoots_partition :
    (∀ p r, vendorRootFor p = some r →
      IsBelow r p ∧
      (∃ library, r.elements.getLast? = some library ∧
        isTriggerDirName library = false ∧
        isDnsNamespaceContainerName library = false) ∧
      ∀ q, IsBelow r q → vendorRootFor q = some r) ∧
    (∀ p q r s, vendorRootFor p = some r → vendorRootFor q = some s →
      r.absolute = s.absolute → r.elements <+: s.elements → r = s) ∧
    ∀ p q r s path, vendorRootFor p = some r → vendorRootFor q = some s →
      IsBelow r path → IsBelow s path → r = s := by
  refine ⟨fun p r => vendorRootFor_spec, ?_, ?_⟩
  · intro p q r s hr hs habsolute hstarts
    obtain ⟨hq, -, -⟩ := vendorRootFor_spec hs
    obtain ⟨-, -, hstable⟩ := vendorRootFor_spec hr
    have hsame := hstable q (hq.of_prefix habsolute hstarts)
    exact Option.some.inj (hsame.symm.trans hs)
  · intro p q r s path hr hs hpath hpath'
    obtain ⟨-, -, hstable⟩ := vendorRootFor_spec hr
    obtain ⟨-, -, hstable'⟩ := vendorRootFor_spec hs
    exact Option.some.inj
      ((hstable path hpath).symm.trans (hstable' path hpath'))

end Bomwerk.Heuristics
