import Bomwerk.Binscan.SharedObjectIndex
import Bomwerk.Core.AsciiCase
import Bomwerk.Core.PurlParts
import Bomwerk.Observe.LinkMap
import Bomwerk.Observe.Roots

/-!
# The binary side and the trace side

Two questions are answered twice, once for the files a build trace names and
once for the binaries it left: which component root a file belongs to, and
which file names are those of shared objects.  The roots agree.  The names
agree but for `.so` itself and for an extension spelled with capitals.
-/

namespace Bomwerk.Binscan

open Bomwerk.Core Bomwerk.Support Bomwerk.Observe

/-! ## The deepest root -/

section Roots

variable {path root : FsPath}

theorem encloses_iff (hrelative : path.absolute = false)
    (htrailing : path.trailing = false) :
    encloses root path = true ↔ root.absolute = false ∧ root.trailing = false ∧
        IsAncestor root path := by
  have hpath : pathElements path = path.names := by
    simp [pathElements, FsPath.elements, hrelative, htrailing]
  rw [encloses, List.isPrefixOf_iff_prefix, hpath]
  constructor
  · intro hstart
    have habsolute : root.absolute = false := by
      by_contra habsolute
      rw [Bool.not_eq_false] at habsolute
      have hslash : "/" ∈ path.names := hstart.subset (by
        simp [pathElements, habsolute])
      exact absurd (path.names_valid "/" hslash) (by decide)
    have hplain : root.trailing = false := by
      by_contra hroot
      rw [Bool.not_eq_false] at hroot
      exact path.empty_notMem_names (hstart.subset (by
        simp [pathElements, FsPath.elements, hroot]))
    refine ⟨habsolute, hplain, ?_⟩
    simpa [IsAncestor, pathElements, FsPath.elements, habsolute, hplain]
      using hstart
  · rintro ⟨habsolute, hplain, hancestor⟩
    simpa [IsAncestor, pathElements, FsPath.elements, habsolute, hplain]
      using hancestor

theorem intercalate_append {left right : List (List Char)}
    (hleft : left ≠ []) (hright : right ≠ []) :
    ['/'].intercalate (left ++ right) =
      ['/'].intercalate left ++ '/' :: ['/'].intercalate right := by
  induction left with
  | nil => exact absurd rfl hleft
  | cons piece left ih =>
    cases left with
    | nil =>
      obtain ⟨first, rest, rfl⟩ := List.exists_cons_of_ne_nil hright
      simp [List.intercalate]
    | cons next left =>
      have hrest := ih (by simp)
      simp only [List.cons_append, List.intercalate_cons_cons] at hrest ⊢
      rw [hrest]
      simp

/-- Of two plain paths the one below the other has the longer text. -/
theorem nativeSize_lt_of_isAncestor {above below : FsPath}
    (habove : IsPlain above) (hbelow : IsPlain below)
    (hancestor : IsAncestor above below) (hne : above ≠ below) :
    nativeSize above < nativeSize below := by
  obtain ⟨rest, hrest⟩ := hancestor
  have hrestNe : rest ≠ [] := by
    rintro rfl
    apply hne
    rw [List.append_nil] at hrest
    exact FsPath.ext (habove.relative.trans hbelow.relative.symm) hrest
      (habove.noTrailing.trans hbelow.noTrailing.symm)
  have htext : below.genericString = above.genericString ++
        ("/" ++ String.ofList (['/'].intercalate (rest.map String.toList))) := by
    simp only [FsPath.genericString, habove.relative, hbelow.relative,
      habove.noTrailing, hbelow.noTrailing, ← hrest, List.map_append]
    rw [intercalate_append (by simpa using habove.names_ne_nil)
      (by simpa using hrestNe)]
    apply String.toList_inj.mp
    simp
  rw [nativeSize, nativeSize, htext, String.utf8ByteSize_append,
    String.utf8ByteSize_append]
  have hslash : "/".utf8ByteSize = 1 := by decide
  omega

/-- The longest of some roots above a path, by whole elements. -/
def IsLongestRootAbove (roots : OrderedSet FsPath) (path : FsPath) :
    Option FsPath → Prop
  | none => ∀ root ∈ roots, ¬ pathElements root <+: pathElements path
  | some found =>
    found ∈ roots ∧ pathElements found <+: pathElements path ∧
      ∀ root ∈ roots, pathElements root <+: pathElements path →
        pathElements root <+: pathElements found ∧
          nativeSize root ≤ nativeSize found

variable {roots : OrderedSet FsPath}

theorem isPlain_of_encloses
    (hroots : ∀ root ∈ roots, root.isEmpty = false)
    (hrelative : path.absolute = false) (htrailing : path.trailing = false)
    (hmem : root ∈ roots) (hencloses : encloses root path = true) :
    IsPlain root := by
  obtain ⟨habsolute, hplain, -⟩ :=
    (encloses_iff hrelative htrailing).mp hencloses
  refine ⟨habsolute, hplain, ?_⟩
  have hnonempty := hroots root hmem
  simpa [FsPath.isEmpty, habsolute] using hnonempty

theorem isAncestor_parentPath_of_encloses
    (hroots : ∀ root ∈ roots, root.isEmpty = false)
    (hrelative : path.absolute = false) (htrailing : path.trailing = false)
    (hnotRoot : path ∉ roots) (hmem : root ∈ roots)
    (hencloses : encloses root path = true) :
    IsPlain root ∧ IsAncestor root path.parentPath := by
  have hplain :=
    isPlain_of_encloses hroots hrelative htrailing hmem hencloses
  have hancestor := ((encloses_iff hrelative htrailing).mp hencloses).2.2
  refine ⟨hplain, isAncestor_parentPath hplain hrelative hancestor ?_⟩
  rintro rfl
  exact hnotRoot hmem

theorem encloses_of_enclosingRoot (hrelative : path.absolute = false)
    (htrailing : path.trailing = false)
    (hfound : enclosingRoot path.parentPath roots = some root) :
    IsPlain root ∧ encloses root path = true := by
  have hplain : IsPlain root := by
    apply enclosingRootFrom_plain hfound <;>
      simp [FsPath.parentPath, hrelative, htrailing]
  obtain ⟨-, hancestor⟩ := enclosingRoot_spec hfound
  refine ⟨hplain, (encloses_iff hrelative htrailing).mpr
    ⟨hplain.relative, hplain.noTrailing, ?_⟩⟩
  exact List.IsPrefix.trans hancestor (isPrefix_names_parentPath path)

/-- The walk over the ancestors of a directory finds the longest root. -/
theorem isLongestRootAbove_enclosingRoot
    (hroots : ∀ root ∈ roots, root.isEmpty = false)
    (hrelative : path.absolute = false) (htrailing : path.trailing = false)
    (hnotRoot : path ∉ roots) :
    IsLongestRootAbove roots path (enclosingRoot path.parentPath roots) := by
  have hparent : path.parentPath.absolute = false := by
    simp [FsPath.parentPath, hrelative, htrailing]
  have hdeepest : ∀ root ∈ roots, encloses root path = true → IsPlain root ∧
        ∃ found, enclosingRoot path.parentPath roots = some found ∧
          IsAncestor root found := by
    intro root hmem hencloses
    obtain ⟨hplain, hancestor⟩ := isAncestor_parentPath_of_encloses hroots
      hrelative htrailing hnotRoot hmem hencloses
    exact ⟨hplain, enclosingRoot_deepest hmem hplain hparent hancestor⟩
  cases hfound : enclosingRoot path.parentPath roots with
  | none =>
    intro root hmem hstart
    obtain ⟨-, found, hsome, -⟩ :=
      hdeepest root hmem (List.isPrefixOf_iff_prefix.mpr hstart)
    rw [hfound] at hsome
    exact absurd hsome (by simp)
  | some found =>
    obtain ⟨hfoundPlain, hfoundEncloses⟩ :=
      encloses_of_enclosingRoot hrelative htrailing hfound
    refine ⟨(enclosingRoot_spec hfound).1,
      List.isPrefixOf_iff_prefix.mp hfoundEncloses, ?_⟩
    intro root hmem hstart
    obtain ⟨hplain, other, hother, hancestor⟩ :=
      hdeepest root hmem (List.isPrefixOf_iff_prefix.mpr hstart)
    rw [hfound, Option.some_inj] at hother
    subst hother
    constructor
    · have hinside := (encloses_iff hfoundPlain.relative
        hfoundPlain.noTrailing).mpr
        ⟨hplain.relative, hplain.noTrailing, hancestor⟩
      exact List.isPrefixOf_iff_prefix.mp hinside
    · by_cases hsame : root = found
      · rw [hsame]
      · exact (nativeSize_lt_of_isAncestor hplain hfoundPlain hancestor
          hsame).le

theorem eq_of_isLongestRootAbove
    (hroots : ∀ root ∈ roots, root.isEmpty = false)
    (hrelative : path.absolute = false) (htrailing : path.trailing = false)
    {found : Option FsPath} (hlongest : IsLongestRootAbove roots path found) :
    longestEnclosingRoot path roots = found := by
  have hkept := keptLongest_longestEnclosingRoot path roots
  have hmem : ∀ root, root ∈ roots.toList ↔ root ∈ roots := fun root =>
    Std.ExtTreeSet.mem_toList
  cases hbest : longestEnclosingRoot path roots with
  | none =>
    cases found with
    | none => rfl
    | some found =>
      obtain ⟨hfound, hstart, -⟩ := hlongest
      obtain ⟨kept, hsome, -⟩ := hkept.longest found
        ((hmem found).mpr hfound) (List.isPrefixOf_iff_prefix.mpr hstart)
      rw [hbest] at hsome
      exact absurd hsome (by simp)
  | some best =>
    obtain ⟨hbestMem, hbestEncloses⟩ := hkept.mem best hbest
    have hbestRoot := (hmem best).mp hbestMem
    have hbestPrefix := List.isPrefixOf_iff_prefix.mp hbestEncloses
    cases found with
    | none => exact absurd hbestPrefix (hlongest best hbestRoot)
    | some found =>
      obtain ⟨hfound, hstart, hdeepest⟩ := hlongest
      obtain ⟨hinside, hle⟩ := hdeepest best hbestRoot hbestPrefix
      obtain ⟨kept, hsome, hlongestKept⟩ := hkept.longest found
        ((hmem found).mpr hfound) (List.isPrefixOf_iff_prefix.mpr hstart)
      rw [hbest, Option.some_inj] at hsome
      subst hsome
      congr 1
      by_contra hne
      have hbestPlain := isPlain_of_encloses hroots hrelative htrailing
        hbestRoot hbestEncloses
      have hfoundPlain := isPlain_of_encloses hroots hrelative htrailing
        hfound (List.isPrefixOf_iff_prefix.mpr hstart)
      have hancestor := ((encloses_iff hfoundPlain.relative
        hfoundPlain.noTrailing).mp
          (List.isPrefixOf_iff_prefix.mpr hinside)).2.2
      have hlt := nativeSize_lt_of_isAncestor hbestPlain hfoundPlain
        hancestor hne
      omega

/-- Both searches find the longest root above a file that is no root itself. -/
theorem longestEnclosingRoot_eq_enclosingRoot
    (hroots : ∀ root ∈ roots, root.isEmpty = false)
    (hrelative : path.absolute = false) (htrailing : path.trailing = false)
    (hnotRoot : path ∉ roots) :
    longestEnclosingRoot path roots = enclosingRoot path.parentPath roots ∧
      IsLongestRootAbove roots path (longestEnclosingRoot path roots) := by
  have hlongest := isLongestRootAbove_enclosingRoot hroots hrelative htrailing
    hnotRoot
  have hsame := eq_of_isLongestRootAbove hroots hrelative htrailing hlongest
  exact ⟨hsame, hsame.symm ▸ hlongest⟩

theorem isEmpty_of_mem_componentRootsOf {components : List Component}
    (hmem : root ∈ componentRootsOf components) : root.isEmpty = false := by
  obtain ⟨component, -, hempty, rfl⟩ := mem_componentRootsOf.mp hmem
  exact hempty

/-- Two nested roots and a sibling whose name begins like theirs. -/
def nestedRoots : OrderedSet FsPath :=
  componentRootsOf
    [{ name := "lib", root := .ofString "lib/" },
      { name := "inner", root := .ofString "lib/inner" },
      { name := "lib2", root := .ofString "lib2" }]

theorem longestEnclosingRoot_nestedRoots :
    longestEnclosingRoot (.ofString "lib/inner/a.c") nestedRoots =
        enclosingRoot (FsPath.ofString "lib/inner/a.c").parentPath
          nestedRoots ∧
      IsLongestRootAbove nestedRoots (.ofString "lib/inner/a.c")
        (longestEnclosingRoot (.ofString "lib/inner/a.c") nestedRoots) :=
  longestEnclosingRoot_eq_enclosingRoot
    (fun _ hmem => isEmpty_of_mem_componentRootsOf hmem) (by decide)
    (by decide) (by decide +kernel)

end Roots

/-! ## Names of shared objects -/

section Names

/-- A name with version segments behind it. -/
def withVersions (base : List Char) (versions : List (List Char)) :
    List Char :=
  base ++ versions.flatMap fun version => '.' :: version

/-- The names the two sides take differently: `.so` is no extension to the
trace side, and a capital in it makes no difference there. -/
inductive IsDisputedBase : List Char → Prop
  | bare : IsDisputedBase ('.' :: ['s', 'o'])
  | capital {front extension : List Char} (hfront : front ≠ [])
      (hlower : extension.map toLowerAsciiChar = ['s', 'o'])
      (hcapital : extension ≠ ['s', 'o']) :
      IsDisputedBase (front ++ '.' :: extension)

/-- A disputed name with fewer than `limit` numeric segments behind it. -/
def IsDisputed (limit : Nat) (name : List Char) : Prop :=
  ∃ base versions, versions.length < limit ∧
    (∀ version ∈ versions, isAllDigits version = true) ∧
    IsDisputedBase base ∧ name = withVersions base versions

theorem exists_last_dot {name : List Char} (hdot : '.' ∈ name) :
    ∃ front extension, name = front ++ '.' :: extension ∧ '.' ∉ extension := by
  obtain ⟨behind, front, hsplit, hbehind⟩ :=
    List.eq_append_cons_of_mem (List.mem_reverse.mpr hdot)
  refine ⟨front.reverse, behind.reverse, ?_, by simpa using hbehind⟩
  rw [← List.reverse_reverse name, hsplit]
  simp

theorem last_dot_inj {front other extension otherExtension : List Char}
    (hsplit : front ++ '.' :: extension = other ++ '.' :: otherExtension)
    (hextension : '.' ∉ extension) (hother : '.' ∉ otherExtension) :
    front = other ∧ extension = otherExtension := by
  have hbefore := beforeLast_append front hextension
  have hafter := afterLast?_append front hextension
  rw [hsplit, beforeLast_append other hother] at hbefore
  rw [hsplit, afterLast?_append other hother, Option.some_inj] at hafter
  exact ⟨hbefore.symm, hafter.symm⟩

theorem dot_notMem_of_lower {extension : List Char}
    (hlower : extension.map toLowerAsciiChar = ['s', 'o']) :
    '.' ∉ extension := by
  intro hdot
  have hmem := List.mem_map_of_mem (f := toLowerAsciiChar) hdot
  rw [hlower] at hmem
  exact absurd hmem (by decide)

theorem dot_notMem_of_isAllDigits {version : List Char}
    (hdigits : isAllDigits version = true) : '.' ∉ version := by
  intro hdot
  simp only [isAllDigits, Bool.and_eq_true, List.all_eq_true] at hdigits
  exact absurd (hdigits.2 '.' hdot) (by decide)

theorem map_lower_of_isAllDigits {version : List Char}
    (hdigits : isAllDigits version = true) :
    version.map toLowerAsciiChar = version := by
  simp only [isAllDigits, Bool.and_eq_true, List.all_eq_true,
    decide_eq_true_eq] at hdigits
  conv_rhs => rw [← List.map_id version]
  apply List.map_congr_left
  intro c hc
  apply toLowerAsciiChar_of_not_upper
  rintro ⟨hlow, -⟩
  exact absurd (hlow.trans (hdigits.2 c hc).2) (by decide)

theorem isAllDigits_map_lower (version : List Char) :
    isAllDigits (version.map toLowerAsciiChar) = isAllDigits version := by
  simp only [isAllDigits, List.isEmpty_map, List.all_map, Function.comp_def,
    isDigit_toLowerAsciiChar_iff]

theorem lower_ne_of_isAllDigits {version : List Char}
    (hdigits : isAllDigits version = true) :
    version.map toLowerAsciiChar ≠ ['s', 'o'] := by
  rw [map_lower_of_isAllDigits hdigits]
  rintro rfl
  exact absurd hdigits (by decide)

theorem isDisputedBase_iff {front extension : List Char}
    (hextension : '.' ∉ extension) :
    IsDisputedBase (front ++ '.' :: extension) ↔
      (front = [] ∧ extension = ['s', 'o']) ∨
        (front ≠ [] ∧ extension.map toLowerAsciiChar = ['s', 'o'] ∧
          extension ≠ ['s', 'o']) := by
  constructor
  · generalize hname : front ++ '.' :: extension = name
    rintro (_ | ⟨hfront, hlower, hcapital⟩)
    · left
      exact @last_dot_inj front [] extension ['s', 'o'] hname hextension
        (by decide)
    · right
      obtain ⟨rfl, rfl⟩ :=
        last_dot_inj hname hextension (dot_notMem_of_lower hlower)
      exact ⟨hfront, hlower, hcapital⟩
  · rintro (⟨rfl, rfl⟩ | ⟨hfront, hlower, hcapital⟩)
    · exact IsDisputedBase.bare
    · exact IsDisputedBase.capital hfront hlower hcapital

theorem withVersions_concat (base : List Char) (versions : List (List Char))
    (version : List Char) :
    withVersions base (versions ++ [version]) =
      withVersions base versions ++ '.' :: version := by
  simp [withVersions]

/-- A numeric segment is taken off, anything else ends the name. -/
theorem isDisputed_succ_iff {limit : Nat} {front extension : List Char}
    (hextension : '.' ∉ extension) :
    IsDisputed (limit + 1) (front ++ '.' :: extension) ↔
      if isAllDigits extension then IsDisputed limit front
      else IsDisputedBase (front ++ '.' :: extension) := by
  split_ifs with hdigits
  · constructor
    · rintro ⟨base, versions, hlength, hversions, hbase, hname⟩
      rcases List.eq_nil_or_concat' versions with rfl | ⟨rest, version, rfl⟩
      · rw [withVersions, List.flatMap_nil, List.append_nil] at hname
        rw [← hname, isDisputedBase_iff hextension] at hbase
        rcases hbase with ⟨-, rfl⟩ | ⟨-, hlower, -⟩
        · exact absurd hdigits (by decide)
        · exact absurd hlower (lower_ne_of_isAllDigits hdigits)
      · rw [withVersions_concat] at hname
        obtain ⟨rfl, -⟩ := last_dot_inj hname hextension
          (dot_notMem_of_isAllDigits (hversions version (by simp)))
        refine ⟨base, rest, by simpa using hlength, ?_, hbase, rfl⟩
        intro other hother
        exact hversions other (by simp [hother])
    · rintro ⟨base, versions, hlength, hversions, hbase, rfl⟩
      refine ⟨base, versions ++ [extension], by simpa using hlength, ?_,
        hbase, (withVersions_concat _ _ _).symm⟩
      intro version hversion
      rcases List.mem_append.mp hversion with hversion | hversion
      · exact hversions version hversion
      · rwa [List.mem_singleton.mp hversion]
  · constructor
    · rintro ⟨base, versions, hlength, hversions, hbase, hname⟩
      rcases List.eq_nil_or_concat' versions with rfl | ⟨rest, version, rfl⟩
      · rw [withVersions, List.flatMap_nil, List.append_nil] at hname
        rwa [hname]
      · rw [withVersions_concat] at hname
        have hversion := hversions version (by simp)
        obtain ⟨-, rfl⟩ := last_dot_inj hname hextension
          (dot_notMem_of_isAllDigits hversion)
        exact absurd hversion hdigits
    · intro hbase
      exact ⟨_, [], by simp, by simp, hbase, by simp [withVersions]⟩

theorem not_isDisputed_of_notMem {limit : Nat} {name : List Char}
    (hdot : '.' ∉ name) : ¬ IsDisputed limit name := by
  rintro ⟨base, versions, -, -, hbase, rfl⟩
  apply hdot
  apply List.mem_append_left
  cases hbase <;> simp

/-! ### The two scans -/

theorem baseNameBehindVersions_of_notMem {fuel : Nat} {name : List Char}
    (hdot : '.' ∉ name) : baseNameBehindVersions fuel name = none := by
  cases fuel with
  | zero => rfl
  | succ fuel => simp [baseNameBehindVersions, afterLast?, hdot]

theorem baseNameBehindVersions_succ {fuel : Nat} {front extension : List Char}
    (hextension : '.' ∉ extension) :
    (baseNameBehindVersions (fuel + 1) (front ++ '.' :: extension)).isSome =
      if extension = ['s', 'o'] then true
      else if isAllDigits extension then
        (baseNameBehindVersions fuel front).isSome
      else false := by
  have htest : (extension.isEmpty ||
      !extension.all (fun c => '0' ≤ c ∧ c ≤ '9')) =
        !isAllDigits extension := by
    rw [isAllDigits, Bool.not_and, Bool.not_not]
  rw [baseNameBehindVersions, afterLast?_append front hextension,
    beforeLast_append front hextension]
  dsimp only
  rw [htest]
  cases isAllDigits extension <;> split_ifs <;> simp_all

theorem extensionDot_of_notMem {name : List Char} (hdot : '.' ∉ name) :
    FsPath.extensionDot name = none := by
  unfold FsPath.extensionDot
  split_ifs with h
  · rfl
  · rw [List.idxOf?_eq_none_iff.mpr (by simpa using hdot)]

theorem idxOf?_dot_append {behind : List Char} (hbehind : '.' ∉ behind)
    (rest : List Char) :
    (behind ++ '.' :: rest).idxOf? '.' = some behind.length := by
  induction behind with
  | nil => simp [List.idxOf?_cons]
  | cons c behind ih =>
    rw [List.mem_cons, not_or] at hbehind
    rw [List.cons_append, List.idxOf?_cons, ih hbehind.2]
    simp [Ne.symm hbehind.1]

theorem extensionDot_append {front extension : List Char}
    (hextension : '.' ∉ extension) :
    FsPath.extensionDot (front ++ '.' :: extension) =
      if front = [] ∨ (front = ['.'] ∧ extension = []) then none
      else some front.length := by
  have hindex : (front ++ '.' :: extension).reverse.idxOf? '.' =
      some extension.length := by
    rw [List.reverse_append, List.reverse_cons, List.append_assoc,
      List.singleton_append,
      idxOf?_dot_append (by simpa using hextension) front.reverse,
      List.length_reverse]
  have hdots : front ++ '.' :: extension = ['.', '.'] ↔
      front = ['.'] ∧ extension = [] := by
    constructor
    · intro h
      exact @last_dot_inj front ['.'] extension [] h hextension (by simp)
    · rintro ⟨rfl, rfl⟩
      rfl
  have hlength : (front ++ '.' :: extension).length =
      front.length + extension.length + 1 := by
    simp only [List.length_append, List.length_cons]
    omega
  unfold FsPath.extensionDot
  simp only [hindex, hdots, hlength]
  by_cases hfront : front = []
  · subst hfront
    simp
  · have hone : front ++ '.' :: extension ≠ ['.'] := by
      intro h
      exact hfront (@last_dot_inj front [] extension [] h hextension (by simp)).1
    have hpositive := List.length_pos_of_ne_nil hfront
    have hbehind : extension.length + 1 <
        front.length + extension.length + 1 := by omega
    have hposition : front.length + extension.length + 1 - extension.length -
        1 = front.length := by omega
    simp only [hone, hfront, false_or, hbehind, if_true, hposition]

theorem filename_ofString {name : List Char} (hname : name ≠ [])
    (hslash : '/' ∉ name) :
    (FsPath.ofString (String.ofList name)).filename = String.ofList name := by
  have hlast : name.getLast? ≠ some '/' := fun h =>
    hslash (List.mem_of_getLast? h)
  simp [FsPath.filename, FsPath.ofString, FsPath.fileNames, hlast,
    List.splitOn_eq_singleton hslash, hname]

theorem sharedObjectBehindVersions_of_notMem {fuel : Nat}
    {candidate : FsPath} (hdot : '.' ∉ candidate.filename.toList) :
    sharedObjectBehindVersions fuel candidate = false := by
  cases fuel with
  | zero => rfl
  | succ fuel =>
    have hextension : candidate.extension = "" := by
      rw [FsPath.extension, extensionDot_of_notMem hdot]
    simp [sharedObjectBehindVersions, hextension, toLowerAscii]

theorem sharedObjectBehindVersions_succ {fuel : Nat} {candidate : FsPath}
    {front extension : List Char}
    (hname : candidate.filename.toList = front ++ '.' :: extension)
    (hextension : '.' ∉ extension) :
    sharedObjectBehindVersions (fuel + 1) candidate =
      if front = [] then false
      else if extension.map toLowerAsciiChar = ['s', 'o'] then true
      else if isAllDigits extension then
        sharedObjectBehindVersions fuel (.ofString (String.ofList front))
      else false := by
  rw [sharedObjectBehindVersions]
  by_cases hfront : front = []
  · have hempty : candidate.extension = "" := by
      rw [FsPath.extension, hname, extensionDot_append hextension,
        if_pos (Or.inl hfront)]
    simp [hempty, hfront, toLowerAscii]
  rw [if_neg hfront]
  by_cases hnil : extension = []
  · have hshort : candidate.extension = "" ∨ candidate.extension = "." := by
      rw [FsPath.extension, hname, extensionDot_append hextension]
      split_ifs <;> simp [hnil]
    subst hnil
    rcases hshort with hshort | hshort <;>
      simp [hshort, toLowerAscii, toLowerAsciiChar, isAllDigits]
  · have hposition : FsPath.extensionDot candidate.filename.toList =
        some front.length := by
      rw [hname, extensionDot_append hextension]
      simp [hfront, hnil]
    have hvalue : candidate.extension = String.ofList ('.' :: extension) := by
      rw [FsPath.extension, hposition, hname]
      simp
    have hstem : candidate.stem = String.ofList front := by
      rw [FsPath.stem, hposition, hname]
      simp
    have hlower : toLowerAscii candidate.extension =
        String.ofList ('.' :: extension.map toLowerAsciiChar) := by
      rw [hvalue, toLowerAscii, String.toList_ofList]
      rfl
    have hso : (String.ofList ('.' :: extension.map toLowerAsciiChar) =
        ".so") ↔ extension.map toLowerAsciiChar = ['s', 'o'] := by
      rw [← String.toList_inj, String.toList_ofList]
      simp
    have hlength : ¬ (extension.map toLowerAsciiChar).length + 1 ≤ 1 := by
      have := List.length_pos_of_ne_nil hnil
      rw [List.length_map]
      omega
    simp only [hlower, hso, hstem, String.length_ofList, List.length_cons,
      hlength, decide_false, Bool.false_or, String.toList_ofList,
      List.drop_succ_cons, List.drop_zero, isAllDigits_map_lower]
    cases isAllDigits extension <;> simp

theorem slash_notMem_filename (candidate : FsPath) :
    '/' ∉ candidate.filename.toList := by
  rw [FsPath.filename]
  split_ifs
  · simp
  · cases hlast : candidate.names.getLast? with
    | none => simp
    | some name =>
      exact (candidate.names_valid name (List.mem_of_getLast? hlast)).2

/-- The two scans agree on a name that is not disputed, and on no other. -/
theorem behindVersions_eq_iff (fuel : Nat) (candidate : FsPath) :
    sharedObjectBehindVersions fuel candidate =
        (baseNameBehindVersions fuel candidate.filename.toList).isSome ↔
      ¬ IsDisputed fuel candidate.filename.toList := by
  induction fuel generalizing candidate with
  | zero =>
    have hnone : ¬ IsDisputed 0 candidate.filename.toList := by
      rintro ⟨_, versions, hlength, -⟩
      exact Nat.not_lt_zero _ hlength
    simp [sharedObjectBehindVersions, baseNameBehindVersions, hnone]
  | succ fuel ih =>
    by_cases hdot : '.' ∈ candidate.filename.toList
    swap
    · simp [sharedObjectBehindVersions_of_notMem hdot,
        baseNameBehindVersions_of_notMem hdot,
        not_isDisputed_of_notMem hdot]
    obtain ⟨front, extension, hname, hextension⟩ := exists_last_dot hdot
    rw [sharedObjectBehindVersions_succ hname hextension, hname,
      baseNameBehindVersions_succ hextension,
      isDisputed_succ_iff hextension, isDisputedBase_iff hextension]
    by_cases hfront : front = []
    · subst hfront
      have hempty : '.' ∉ ([] : List Char) := List.not_mem_nil
      have hnone : ¬ IsDisputed fuel [] := not_isDisputed_of_notMem hempty
      have hso : isAllDigits ['s', 'o'] = false := by decide
      by_cases hbare : extension = ['s', 'o']
      · simp [hbare, hso]
      · rw [baseNameBehindVersions_of_notMem hempty]
        cases isAllDigits extension <;> simp [hbare, hnone]
    · rw [if_neg hfront]
      by_cases hlower : extension.map toLowerAsciiChar = ['s', 'o']
      · have hdigits : isAllDigits extension = false := by
          by_contra hdigits
          exact lower_ne_of_isAllDigits (by simpa using hdigits) hlower
        by_cases hso : extension = ['s', 'o']
        · rw [if_pos hlower, if_pos hso]
          simp [hso ▸ hdigits, hfront, hso]
        · simp [hlower, hdigits, hfront, hso]
      · have hso : extension ≠ ['s', 'o'] := by
          rintro rfl
          exact hlower (by decide)
        rw [if_neg hlower, if_neg hso]
        cases hdigits : isAllDigits extension with
        | false => simp [hfront, hlower]
        | true =>
          have hslash : '/' ∉ front := by
            intro h
            apply slash_notMem_filename candidate
            rw [hname]
            exact List.mem_append_left _ h
          have hrest := ih (.ofString (String.ofList front))
          rw [filename_ofString hfront hslash, String.toList_ofList]
            at hrest
          simpa using hrest

/-- Both sides know the same shared objects by name, but for `.so` itself and
names with a capital in that extension, each with up to three versions. -/
theorem sharedObjectNames_agree_iff (candidate : FsPath) :
    (hasVersionedSharedObjectExtension candidate = true ↔
        (sharedObjectBaseName candidate.filename).isSome = true) ↔
      ¬ IsDisputed 4 candidate.filename.toList := by
  rw [hasVersionedSharedObjectExtension, sharedObjectBaseName,
    Option.isSome_map, ← Bool.eq_iff_iff]
  exact behindVersions_eq_iff 4 candidate

theorem not_agree_on_capital :
    ¬ (hasVersionedSharedObjectExtension (.ofString "libfoo.SO.1") = true ↔
        (sharedObjectBaseName
          (FsPath.ofString "libfoo.SO.1").filename).isSome = true) := by
  decide +kernel

end Names

end Bomwerk.Binscan
