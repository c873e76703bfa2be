import Bomwerk.Heuristics.FingerprintConsistency
import Bomwerk.Heuristics.FingerprintMatch
import Mathlib.Data.Prod.Lex

/-!
# The verdict on a vendor root

What `best_library` and `best_releases` pick out of the tallies, against a count
over the files of the root.
-/

namespace Bomwerk.Heuristics.Fingerprint

open Bomwerk.Core Bomwerk.Support

/-! ## Counting -/

/-- A file that was considered: the first pass has excluded it, or its digest
is known. -/
inductive Judged where
  | excluded (path : FsPath)
  | hashed (path : FsPath) (digest : List UInt8)

def Judged.releases (index : Index) : Judged → List Nat
  | .excluded _ => []
  | .hashed _ digest => releasesForDigest index digest

def tallyStep (index : Index) (tally : RootTally) : Judged → RootTally
  | .excluded path => tally.reject path
  | .hashed path digest => tally.judge index path digest

/-- The tally of the files, in the order in which they were considered. -/
def tallyOf (index : Index) (files : List Judged) : RootTally :=
  files.foldl (tallyStep index) {}

/-- The number of files that a release holds. -/
def releaseScore (index : Index) (files : List Judged) (release : Nat) : Nat :=
  files.countP fun file => release ∈ file.releases index

/-- The number of files that some release of a library holds. -/
def libraryScore (index : Index) (files : List Judged) (library : Nat) : Nat :=
  files.countP fun file =>
    ∃ release ∈ file.releases index, libraryOf index release = library

/-- The counts of a map: a key without a count is missing. -/
def Counts (counts : OrderedMap Nat Nat) (score : Nat → Nat) : Prop :=
  ∀ key, counts[key]? = if score key = 0 then none else some (score key)

theorem Counts.countUp {counts : OrderedMap Nat Nat} {score : Nat → Nat}
    (h : Counts counts score) (key : Nat) :
    Counts (countUp counts key) fun other =>
      score other + if other = key then 1 else 0 := by
  intro other
  rw [Fingerprint.countUp, getElem?_updateAt, h key, h other]
  by_cases hkey : other = key
  · subst hkey
    by_cases hzero : score other = 0 <;> simp [hzero]
  · simp [hkey]

/-- A loop over distinct keys counts each of them once. -/
theorem Counts.foldl {counts : OrderedMap Nat Nat} {score : Nat → Nat}
    (h : Counts counts score) {keys : List Nat} (hnodup : keys.Nodup) :
    Counts (keys.foldl Fingerprint.countUp counts) fun other =>
      score other + if other ∈ keys then 1 else 0 := by
  induction keys generalizing counts score with
  | nil => simpa using h
  | cons key keys ih =>
    obtain ⟨hkey, hrest⟩ := List.nodup_cons.mp hnodup
    intro other
    have hcounts := ih (h.countUp key) hrest other
    have hsum : score other + (if other = key then 1 else 0) +
          (if other ∈ keys then 1 else 0) =
        score other + if other ∈ key :: keys then 1 else 0 := by
      by_cases heq : other = key
      · subst heq
        simp [hkey]
      · simp [heq]
    simp only [hsum] at hcounts
    exact hcounts

theorem Counts.mem_toList_iff {counts : OrderedMap Nat Nat}
    {score : Nat → Nat} (h : Counts counts score) {key count : Nat} :
    (key, count) ∈ counts.toList ↔ count = score key ∧ 0 < score key := by
  rw [Support.mem_toList_iff, h key]
  by_cases hzero : score key = 0
  · rw [if_pos hzero]
    simp [hzero]
  · rw [if_neg hzero, Option.some.injEq]
    constructor
    · rintro rfl
      exact ⟨rfl, Nat.pos_of_ne_zero hzero⟩
    · rintro ⟨rfl, -⟩
      rfl

theorem mem_librariesFor_toList_iff {index : Index} {releases : List Nat}
    {library : Nat} :
    library ∈ (librariesFor index releases).toList ↔
      ∃ release ∈ releases, libraryOf index release = library := by
  rw [Std.ExtTreeSet.mem_toList, librariesFor,
    mem_foldl_insert_iff (libraryOf index)]
  simp

/-- The tally counts the files that each release and each library holds. -/
structure RootTally.CountsOf (tally : RootTally) (index : Index)
    (files : List Judged) : Prop where
  releases : Counts tally.matchedByRelease (releaseScore index files)
  libraries : Counts tally.matchedByLibrary (libraryScore index files)
  considered : tally.filesConsidered = files.length

theorem countP_concat {p : Judged → Prop} [DecidablePred p]
    (files : List Judged) (file : Judged) :
    (files ++ [file]).countP p = files.countP p + if p file then 1 else 0 := by
  rw [List.countP_append, List.countP_singleton]
  by_cases h : p file <;> simp [h]

theorem releaseScore_concat (index : Index) (files : List Judged)
    (file : Judged) (release : Nat) :
    releaseScore index (files ++ [file]) release =
      releaseScore index files release +
        if release ∈ file.releases index then 1 else 0 :=
  countP_concat files file

theorem libraryScore_concat (index : Index) (files : List Judged)
    (file : Judged) (library : Nat) :
    libraryScore index (files ++ [file]) library =
      libraryScore index files library +
        if library ∈ (librariesFor index (file.releases index)).toList then 1
        else 0 := by
  simp only [mem_librariesFor_toList_iff]
  exact countP_concat files file

/-- A file that no release holds is only considered. -/
theorem RootTally.CountsOf.reject {index : Index} {tally : RootTally}
    {files : List Judged} (h : tally.CountsOf index files) {file : Judged}
    (hnone : file.releases index = []) (path : FsPath) :
    (tally.reject path).CountsOf index (files ++ [file]) := by
  refine ⟨?_, ?_, ?_⟩
  · intro release
    rw [releaseScore_concat, hnone]
    exact h.releases release
  · intro library
    rw [libraryScore_concat, hnone]
    simp only [mem_librariesFor_toList_iff, List.not_mem_nil, false_and,
      exists_false, if_false, Nat.add_zero]
    exact h.libraries library
  · rw [List.length_append, List.length_singleton, ← h.considered]
    rfl

theorem RootTally.CountsOf.step {index : Index} (hindex : index.Consistent)
    {tally : RootTally} {files : List Judged}
    (h : tally.CountsOf index files) (file : Judged) :
    (tallyStep index tally file).CountsOf index (files ++ [file]) := by
  cases file with
  | excluded path => exact h.reject rfl path
  | hashed path digest =>
    rw [tallyStep, RootTally.judge]
    by_cases hnone : releasesForDigest index digest = []
    · rw [if_pos hnone]
      exact @RootTally.CountsOf.reject _ _ _ h (.hashed path digest) hnone
        path
    · rw [if_neg hnone]
      have hnodup : (releasesForDigest index digest).Nodup :=
        (hindex.pairwise_releasesForDigest digest).imp fun hlt => hlt.ne
      refine ⟨?_, ?_, ?_⟩
      · intro release
        rw [releaseScore_concat]
        exact h.releases.foldl hnodup release
      · intro library
        rw [libraryScore_concat]
        exact h.libraries.foldl (nodup_toList_orderedSet _) library
      · rw [List.length_append, List.length_singleton, ← h.considered]

theorem countsOf_tallyOf {index : Index} (hindex : index.Consistent)
    (files : List Judged) : (tallyOf index files).CountsOf index files := by
  induction files using List.reverseRecOn with
  | nil =>
    refine ⟨?_, ?_, rfl⟩
    · intro release
      simp [tallyOf, releaseScore]
    · intro library
      simp [tallyOf, libraryScore]
  | append_singleton files file ih =>
    rw [tallyOf, List.foldl_append]
    exact ih.step hindex file

/-! ## The best library -/

/-- What `best_library` prefers: more matches, then the smaller name. -/
def librarySize (index : Index) (entry : Nat × Nat) : ℕ ×ₗ Stringᵒᵈ :=
  toLex (entry.2, OrderDual.toDual (index.libraries.getD entry.1 default).name)

/-- The loop of `best_library` keeps the first of the largest entries. -/
theorem foldl_betterLibrary (index : Index) (winner : Nat × Nat)
    (entries : List (Nat × Nat)) :
    entries.foldl (betterLibrary index) (some winner) =
      some (firstLargest (librarySize index) winner entries) := by
  induction entries generalizing winner with
  | nil => rfl
  | cons entry entries ih =>
    have hstep : betterLibrary index (some winner) entry =
        some (if librarySize index winner < librarySize index entry then entry
          else winner) := by
      obtain ⟨library, matched⟩ := winner
      simp only [betterLibrary, librarySize, Prod.Lex.toLex_lt_toLex,
        OrderDual.toDual_lt_toDual, apply_ite some]
      apply if_congr _ rfl rfl
      rw [eq_comm]
    rw [List.foldl_cons, hstep, ih]
    rfl

/-- The largest number of files, and the smallest name among those, of which
the first library is taken. -/
structure IsBestLibrary (index : Index) (files : List Judged) (library : Nat) :
    Prop where
  pos : 0 < libraryScore index files library
  largest : ∀ other, libraryScore index files other ≤
    libraryScore index files library
  least : ∀ other,
    libraryScore index files other = libraryScore index files library →
      (index.libraries.getD library default).name <
          (index.libraries.getD other default).name ∨
        ((index.libraries.getD library default).name =
            (index.libraries.getD other default).name ∧ library ≤ other)

theorem IsBestLibrary.unique {index : Index} {files : List Judged}
    {left right : Nat} (hleft : IsBestLibrary index files left)
    (hright : IsBestLibrary index files right) : left = right := by
  have hsame : libraryScore index files left = libraryScore index files right :=
    le_antisymm (hright.largest left) (hleft.largest right)
  rcases hleft.least right hsame.symm with hlt | ⟨hname, hle⟩
  · rcases hright.least left hsame with hgt | ⟨hname, -⟩
    · exact absurd hgt (lt_asymm hlt)
    · exact absurd hname.symm hlt.ne
  · rcases hright.least left hsame with hgt | ⟨-, hge⟩
    · exact absurd hname.symm hgt.ne
    · exact le_antisymm hle hge

theorem bestLibrary_eq_none_iff {index : Index} {tally : RootTally}
    {files : List Judged} (h : tally.CountsOf index files) :
    bestLibrary index tally = none ↔
      ∀ library, libraryScore index files library = 0 := by
  rw [bestLibrary]
  cases hentries : tally.matchedByLibrary.toList with
  | nil =>
    refine iff_of_true rfl ?_
    intro library
    by_contra hne
    have hmem := h.libraries.mem_toList_iff.mpr
      ⟨rfl, Nat.pos_of_ne_zero hne⟩
    rw [hentries] at hmem
    exact absurd hmem List.not_mem_nil
  | cons first rest =>
    refine iff_of_false ?_ ?_
    · rw [List.foldl_cons, betterLibrary, foldl_betterLibrary]
      simp
    · intro hzero
      have hmem : (first.1, first.2) ∈ tally.matchedByLibrary.toList := by
        rw [hentries]
        exact List.mem_cons_self
      have hpos := (h.libraries.mem_toList_iff.mp hmem).2
      rw [hzero] at hpos
      exact absurd hpos (Nat.lt_irrefl 0)

theorem isBestLibrary_of_bestLibrary {index : Index} {tally : RootTally}
    {files : List Judged} (h : tally.CountsOf index files) {library : Nat}
    (hbest : bestLibrary index tally = some library) :
    IsBestLibrary index files library := by
  have hsorted := pairwise_lt_toList tally.matchedByLibrary
  have hmem : ∀ key count, (key, count) ∈ tally.matchedByLibrary.toList ↔
      count = libraryScore index files key ∧ 0 < libraryScore index files key :=
    fun key count => h.libraries.mem_toList_iff
  rw [bestLibrary] at hbest
  cases hentries : tally.matchedByLibrary.toList with
  | nil => simp [hentries] at hbest
  | cons first rest =>
    rw [hentries] at hbest hsorted
    simp only [hentries] at hmem
    rw [List.foldl_cons, betterLibrary, foldl_betterLibrary,
      Option.map_some, Option.some.injEq] at hbest
    have hfirst := isFirstLargest_firstLargest (librarySize index) first rest
    rcases hwinner : firstLargest (librarySize index) first rest with
      ⟨winner, count⟩
    rw [hwinner] at hfirst hbest
    obtain rfl : winner = library := hbest
    obtain ⟨rfl, hpos⟩ := (hmem winner count).mp hfirst.mem
    have hle : ∀ other, 0 < libraryScore index files other →
        librarySize index (other, libraryScore index files other) ≤
          librarySize index (winner, libraryScore index files winner) :=
      fun other hother => hfirst.le _ ((hmem other _).mpr ⟨rfl, hother⟩)
    refine ⟨hpos, ?_, ?_⟩
    · intro other
      rcases Nat.eq_zero_or_pos (libraryScore index files other) with
        hzero | hother
      · omega
      · rcases Prod.Lex.toLex_le_toLex.mp (hle other hother) with
          hlt | ⟨heq, -⟩
        · exact hlt.le
        · exact heq.le
    · intro other hsame
      have hother : 0 < libraryScore index files other := hsame ▸ hpos
      rcases Prod.Lex.toLex_le_toLex.mp (hle other hother) with
        hlt | ⟨-, hname⟩
      · exact absurd hsame hlt.ne
      · rcases (OrderDual.toDual_le_toDual.mp hname).lt_or_eq with hlt | heq
        · exact .inl hlt
        · right
          refine ⟨heq, ?_⟩
          have hsize : librarySize index
              (other, libraryScore index files other) =
            librarySize index (winner, libraryScore index files winner) := by
            rw [librarySize, librarySize]
            simp only [hsame, heq]
          rcases hfirst.eq_or_earlier hsorted
            ((hmem other _).mpr ⟨rfl, hother⟩) hsize with hsame | hearlier
          · exact (congrArg Prod.fst hsame).ge
          · exact hearlier.le

/-! ## The best releases -/

/-- What `best_releases` prefers: more matches, then fewer files. -/
def releaseSize (index : Index) (entry : Nat × Nat) : ℕ ×ₗ ℕᵒᵈ :=
  toLex (entry.2,
    OrderDual.toDual (index.releases.getD entry.1 default).fileCount)

/-- The variables of the loop, by the entries that are kept. -/
def stateOf (index : Index) : List (Nat × Nat) → BestReleases
  | [] => {}
  | lead :: rest =>
    { best := (lead :: rest).map Prod.fst
      bestMatches := lead.2
      bestFileCount := (index.releases.getD lead.1 default).fileCount }

theorem releaseSize_lt_iff (index : Index) (left right : Nat × Nat) :
    releaseSize index left < releaseSize index right ↔
      left.2 < right.2 ∨ left.2 = right.2 ∧
        (index.releases.getD right.1 default).fileCount <
          (index.releases.getD left.1 default).fileCount := by
  rw [releaseSize, releaseSize, Prod.Lex.toLex_lt_toLex,
    OrderDual.toDual_lt_toDual]

/-- A turn for an entry of the library, on the entries kept so far. -/
theorem betterReleases_stateOf (index : Index) {library : Nat}
    {entry : Nat × Nat} (hlibrary : libraryOf index entry.1 = library)
    (lead : Nat × Nat) (rest : List (Nat × Nat)) :
    betterReleases index library (stateOf index (lead :: rest)) entry =
      stateOf index
        (if releaseSize index entry < releaseSize index lead then lead :: rest
        else if releaseSize index lead < releaseSize index entry then [entry]
        else lead :: rest ++ [entry]) := by
  have hpush : stateOf index (lead :: rest ++ [entry]) =
      { stateOf index (lead :: rest) with
        best := (stateOf index (lead :: rest)).best ++ [entry.1] } := by
    simp [stateOf]
  have hturn : betterReleases index library (stateOf index (lead :: rest))
      entry = if entry.2 < lead.2 then stateOf index (lead :: rest)
        else if lead.2 < entry.2 ∨
            (index.releases.getD entry.1 default).fileCount <
              (index.releases.getD lead.1 default).fileCount then
          stateOf index [entry]
        else if (index.releases.getD entry.1 default).fileCount =
            (index.releases.getD lead.1 default).fileCount then
          stateOf index (lead :: rest ++ [entry])
        else stateOf index (lead :: rest) := by
    rw [hpush]
    exact (if_neg (not_not.mpr hlibrary)).trans (if_neg (List.cons_ne_nil _ _))
  rw [hturn]
  simp only [releaseSize_lt_iff]
  rcases Nat.lt_trichotomy entry.2 lead.2 with hless | hequal | hmore
  · rw [if_pos hless, if_pos (.inl hless)]
  · -- with as many matches, the file counts decide
    rcases Nat.lt_trichotomy (index.releases.getD entry.1 default).fileCount
      (index.releases.getD lead.1 default).fileCount with hfewer | hsame | hother
    · rw [if_neg hequal.not_lt, if_pos (.inr hfewer), if_neg (by omega),
        if_pos (.inr ⟨hequal.symm, hfewer⟩)]
    · rw [if_neg hequal.not_lt, if_neg (by omega), if_pos hsame,
        if_neg (by omega), if_neg (by omega)]
    · rw [if_neg hequal.not_lt, if_neg (by omega), if_neg (by omega),
        if_pos (.inr ⟨hequal, hother⟩)]
  · rw [if_neg hmore.not_gt, if_pos (.inl hmore), if_neg (by omega),
      if_pos (.inl hmore)]

/-- The loop of `best_releases` keeps all largest entries of the library. -/
theorem foldl_betterReleases (index : Index) (library : Nat)
    (entries : List (Nat × Nat)) :
    entries.foldl (betterReleases index library) {} =
      stateOf index (allLargest (releaseSize index)
        (entries.filter fun entry => libraryOf index entry.1 = library)) := by
  induction entries using List.reverseRecOn with
  | nil => rfl
  | append_singleton entries entry ih =>
    rw [List.foldl_append, ih, List.filter_append, List.foldl_cons,
      List.foldl_nil]
    by_cases hlibrary : libraryOf index entry.1 = library
    · rw [List.filter_cons_of_pos (by simpa using hlibrary), List.filter_nil,
        allLargest_concat]
      cases allLargest (releaseSize index) (entries.filter fun entry =>
        libraryOf index entry.1 = library) with
      | nil =>
        rw [betterReleases]
        exact (if_neg (not_not.mpr hlibrary)).trans (if_pos rfl)
      | cons lead rest =>
        exact betterReleases_stateOf index hlibrary lead rest
    · rw [List.filter_cons_of_neg (by simpa using hlibrary), List.filter_nil,
        List.append_nil]
      exact if_pos hlibrary

/-- The most files, and the smallest file count among those. -/
structure IsBestRelease (index : Index) (files : List Judged)
    (library release : Nat) : Prop where
  lt : release < index.releases.length
  library_eq : libraryOf index release = library
  largest : ∀ other < index.releases.length, libraryOf index other = library →
    releaseScore index files other < releaseScore index files release ∨
      releaseScore index files other = releaseScore index files release ∧
        (index.releases.getD release default).fileCount ≤
          (index.releases.getD other default).fileCount

theorem lt_of_releaseScore_pos {index : Index} (hindex : index.Consistent)
    {files : List Judged} {release : Nat}
    (hpos : 0 < releaseScore index files release) :
    release < index.releases.length := by
  obtain ⟨file, -, hfile⟩ := List.countP_pos_iff.mp hpos
  cases file with
  | excluded path => simp [Judged.releases] at hfile
  | hashed path digest =>
    exact hindex.lt_of_mem_releasesForDigest (of_decide_eq_true hfile)

theorem exists_releaseScore_pos {index : Index} {files : List Judged}
    {library : Nat} (hpos : 0 < libraryScore index files library) :
    ∃ release, libraryOf index release = library ∧
      0 < releaseScore index files release := by
  obtain ⟨file, hfile, hheld⟩ := List.countP_pos_iff.mp hpos
  obtain ⟨release, hrelease, hlibrary⟩ := of_decide_eq_true hheld
  exact ⟨release, hlibrary,
    List.countP_pos_iff.mpr ⟨file, hfile, by simpa using hrelease⟩⟩

theorem IsBestRelease.releaseScore_pos {index : Index}
    (hindex : index.Consistent) {files : List Judged} {library release : Nat}
    (hpos : 0 < libraryScore index files library)
    (hbest : IsBestRelease index files library release) :
    0 < releaseScore index files release := by
  obtain ⟨other, hlibrary, hother⟩ := exists_releaseScore_pos hpos
  rcases hbest.largest other (lt_of_releaseScore_pos hindex hother) hlibrary
    with hlt | ⟨heq, -⟩
  · omega
  · omega

section Best

variable {index : Index} {tally : RootTally} {files : List Judged}
  {library : Nat}

/-- The entries that the loop of `best_releases` keeps. -/
def keptReleases (index : Index) (tally : RootTally) (library : Nat) :
    List (Nat × Nat) :=
  allLargest (releaseSize index) (tally.matchedByRelease.toList.filter
    fun entry => libraryOf index entry.1 = library)

theorem bestReleases_eq :
    bestReleases index tally library =
      ((keptReleases index tally library).map Prod.fst,
        (stateOf index (keptReleases index tally library)).bestMatches) := by
  rw [bestReleases, foldl_betterReleases, ← keptReleases]
  cases keptReleases index tally library <;> rfl

theorem keptReleases_sublist :
    (keptReleases index tally library).Sublist
      tally.matchedByRelease.toList := by
  rw [keptReleases, allLargest_eq_filter]
  exact List.filter_sublist.trans List.filter_sublist

/-- The releases of a library that are best in the tally are the best ones of
all its releases. -/
theorem mem_keptReleases_iff (hindex : index.Consistent)
    (h : tally.CountsOf index files)
    (hpos : 0 < libraryScore index files library) {release count : Nat} :
    (release, count) ∈ keptReleases index tally library ↔
      IsBestRelease index files library release ∧
        count = releaseScore index files release := by
  have hmem : ∀ release count, (release, count) ∈
      tally.matchedByRelease.toList.filter
        (fun entry => libraryOf index entry.1 = library) ↔
      (count = releaseScore index files release ∧
        0 < releaseScore index files release) ∧
        libraryOf index release = library := by
    intro release count
    rw [List.mem_filter, h.releases.mem_toList_iff, decide_eq_true_eq]
  rw [keptReleases, allLargest_eq_filter, List.mem_filter, hmem,
    decide_eq_true_eq]
  constructor
  · rintro ⟨⟨⟨rfl, hscore⟩, hlibrary⟩, hlargest⟩
    refine ⟨⟨lt_of_releaseScore_pos hindex hscore, hlibrary, ?_⟩, rfl⟩
    intro other _ hother
    rcases Nat.eq_zero_or_pos (releaseScore index files other) with
      hzero | hotherpos
    · exact .inl (hzero ▸ hscore)
    · have hle := hlargest _ ((hmem other _).mpr ⟨⟨rfl, hotherpos⟩, hother⟩)
      exact Prod.Lex.toLex_le_toLex.mp hle
  · rintro ⟨hbest, rfl⟩
    refine ⟨⟨⟨rfl, hbest.releaseScore_pos hindex hpos⟩, hbest.library_eq⟩, ?_⟩
    rintro ⟨other, count⟩ hother
    obtain ⟨⟨rfl, hotherpos⟩, hlibrary⟩ := (hmem other count).mp hother
    exact Prod.Lex.toLex_le_toLex.mpr (hbest.largest other
      (lt_of_releaseScore_pos hindex hotherpos) hlibrary)

theorem IsBestRelease.releaseScore_eq {left right : Nat}
    (hleft : IsBestRelease index files library left)
    (hright : IsBestRelease index files library right) :
    releaseScore index files left = releaseScore index files right := by
  have hle := hleft.largest right hright.lt hright.library_eq
  have hge := hright.largest left hleft.lt hleft.library_eq
  omega

theorem keptReleases_ne_nil (h : tally.CountsOf index files)
    (hpos : 0 < libraryScore index files library) :
    keptReleases index tally library ≠ [] := by
  obtain ⟨release, hlibrary, hrelease⟩ := exists_releaseScore_pos hpos
  have hentry : (release, releaseScore index files release) ∈
      tally.matchedByRelease.toList.filter
        (fun entry => libraryOf index entry.1 = library) :=
    List.mem_filter.mpr ⟨h.releases.mem_toList_iff.mpr ⟨rfl, hrelease⟩,
      by simpa using hlibrary⟩
  obtain ⟨largest, hmem, hlargest⟩ := exists_largest (releaseSize index)
    (List.ne_nil_of_mem hentry)
  apply List.ne_nil_of_mem (a := largest)
  rw [keptReleases, allLargest_eq_filter]
  exact List.mem_filter.mpr ⟨hmem, by simpa using hlargest⟩

/-- `best_releases` finds the best releases, in order, with their score. -/
theorem bestReleases_spec (hindex : index.Consistent)
    (h : tally.CountsOf index files)
    (hpos : 0 < libraryScore index files library) :
    ∃ releases matchedFiles,
      bestReleases index tally library = (releases, matchedFiles) ∧
        releases ≠ [] ∧ releases.Pairwise (· < ·) ∧
        (∀ release, release ∈ releases ↔
          IsBestRelease index files library release) ∧
        ∀ release ∈ releases,
          matchedFiles = releaseScore index files release := by
  have hmem : ∀ release,
      release ∈ (keptReleases index tally library).map Prod.fst ↔
        IsBestRelease index files library release := by
    intro release
    rw [List.mem_map]
    constructor
    · rintro ⟨⟨_, count⟩, hentry, rfl⟩
      exact ((mem_keptReleases_iff hindex h hpos).mp hentry).1
    · intro hbest
      exact ⟨(release, _), (mem_keptReleases_iff hindex h hpos).mpr
        ⟨hbest, rfl⟩, rfl⟩
  refine ⟨_, _, bestReleases_eq, ?_, ?_, hmem, ?_⟩
  · rw [ne_eq, List.map_eq_nil_iff]
    exact keptReleases_ne_nil h hpos
  · exact List.pairwise_map.mpr
      ((pairwise_lt_toList tally.matchedByRelease).sublist keptReleases_sublist)
  · intro release hrelease
    obtain ⟨lead, rest, hkept⟩ := List.exists_cons_of_ne_nil
      (keptReleases_ne_nil h hpos)
    have hlead : (lead.1, lead.2) ∈ keptReleases index tally library := by
      rw [hkept]
      exact List.mem_cons_self
    obtain ⟨hbest, hcount⟩ := (mem_keptReleases_iff hindex h hpos).mp hlead
    calc
      (stateOf index (keptReleases index tally library)).bestMatches =
          lead.2 := by rw [hkept, stateOf]
      _ = releaseScore index files lead.1 := hcount
      _ = releaseScore index files release :=
        hbest.releaseScore_eq ((hmem release).mp hrelease)

end Best

def versionAt (index : Index) (release : Nat) : String :=
  (index.releases.getD release default).version

theorem pairwise_lt_versionsOf (index : Index) (releases : List Nat) :
    (versionsOf index releases).Pairwise (· < ·) :=
  pairwise_lt_sortUnique (fun _ _ h => h) _

theorem mem_versionsOf_iff {index : Index} {releases : List Nat}
    {version : String} :
    version ∈ versionsOf index releases ↔
      ∃ release ∈ releases, versionAt index release = version := by
  have h := @map_key_mem_sortUnique_iff _ _ _ id (· ≤ ·) _
    (releases.map (versionAt index)) version
  rw [List.map_id, List.map_id, List.mem_map] at h
  exact h

theorem versionsOf_eq_singleton {index : Index} {releases : List Nat}
    (hne : releases ≠ []) {version : String}
    (hall : ∀ release ∈ releases, versionAt index release = version) :
    versionsOf index releases = [version] := by
  obtain ⟨first, rest, rfl⟩ := List.exists_cons_of_ne_nil hne
  have hmem : ∀ other, other ∈ versionsOf index (first :: rest) ↔
      other = version := by
    intro other
    rw [mem_versionsOf_iff]
    constructor
    · rintro ⟨release, hrelease, rfl⟩
      exact hall release hrelease
    · rintro rfl
      exact ⟨first, List.mem_cons_self, hall first List.mem_cons_self⟩
  have hsorted := pairwise_lt_versionsOf index (first :: rest)
  cases hversions : versionsOf index (first :: rest) with
  | nil =>
    rw [hversions] at hmem
    exact absurd ((hmem version).mpr rfl) List.not_mem_nil
  | cons lead others =>
    rw [hversions] at hmem hsorted
    have hlead := (hmem lead).mp List.mem_cons_self
    cases others with
    | nil => rw [hlead]
    | cons other others =>
      have hother := (hmem other).mp (by simp)
      have hlt := (List.pairwise_cons.mp hsorted).1 other List.mem_cons_self
      rw [hlead, hother] at hlt
      exact absurd hlt (lt_irrefl version)

theorem versionVerdict_of_forall {index : Index} {releases : List Nat}
    (hne : releases ≠ []) {version : String}
    (hall : ∀ release ∈ releases, versionAt index release = version) :
    versionVerdict index releases = (version, []) := by
  cases releases with
  | nil => exact absurd rfl hne
  | cons first rest =>
    cases rest with
    | nil =>
      rw [← hall first List.mem_cons_self]
      rfl
    | cons second rest =>
      rw [versionVerdict, versionsOf_eq_singleton hne hall]
      simp

theorem versionVerdict_of_not {index : Index} {releases : List Nat}
    (hnone : ¬∃ version, ∀ release ∈ releases,
      versionAt index release = version) :
    versionVerdict index releases = ("", versionsOf index releases) := by
  cases releases with
  | nil => exact absurd ⟨"", by simp⟩ hnone
  | cons first rest =>
    cases rest with
    | nil => exact absurd ⟨versionAt index first, by simp⟩ hnone
    | cons second rest =>
      rw [versionVerdict]
      · split
        · rename_i version hversions
          refine absurd ⟨version, ?_⟩ hnone
          intro release hrelease
          have hmem := (@mem_versionsOf_iff index _ _).mpr
            ⟨release, hrelease, rfl⟩
          rw [hversions] at hmem
          exact List.mem_singleton.mp hmem
        · rfl
      · simp

/-! ## The verdict -/

/-- A verdict: the best library with all its best releases.  It asserts a
version when they have one version string, and lists the versions they have
otherwise. -/
structure IsVerdict (index : Index) (files : List Judged) (library : Nat)
    (releases : List Nat) (found : RootMatch) : Prop where
  library_lt : library < index.libraries.length
  best_library : IsBestLibrary index files library
  ne_nil : releases ≠ []
  sorted : releases.Pairwise (· < ·)
  mem_iff : ∀ release,
    release ∈ releases ↔ IsBestRelease index files library release
  library_name : found.libraryName = (index.libraries.getD library default).name
  matched : ∀ release ∈ releases,
    found.matchedFiles = releaseScore index files release
  considered : found.filesConsidered = files.length
  asserted : ∀ version,
    (∀ release ∈ releases, versionAt index release = version) →
      found.version = version ∧ found.candidateVersions = []
  undecided : (¬∃ version, ∀ release ∈ releases,
      versionAt index release = version) →
    found.version = "" ∧ found.candidateVersions.Pairwise (· < ·) ∧
      ∀ version, version ∈ found.candidateVersions ↔
        ∃ release ∈ releases, versionAt index release = version

theorem library_lt_of_libraryScore_pos {index : Index}
    (hindex : index.Consistent) {files : List Judged} {library : Nat}
    (hpos : 0 < libraryScore index files library) :
    library < index.libraries.length := by
  obtain ⟨release, rfl, hrelease⟩ := exists_releaseScore_pos hpos
  have hlt := lt_of_releaseScore_pos hindex hrelease
  rw [libraryOf, List.getD_eq_getElem _ _ hlt]
  exact hindex.library_lt _ (List.getElem_mem hlt)

theorem versionAt_ne {index : Index} (hindex : index.Consistent)
    {release : Nat} (hrelease : release < index.releases.length) :
    versionAt index release ≠ "" := by
  rw [versionAt, List.getD_eq_getElem _ _ hrelease]
  exact hindex.version_ne _ (List.getElem_mem hrelease)

theorem IsVerdict.version_ne_iff {index : Index} (hindex : index.Consistent)
    {files : List Judged} {library : Nat} {releases : List Nat}
    {found : RootMatch}
    (h : IsVerdict index files library releases found) :
    found.version ≠ "" ↔ ∃ version, ∀ release ∈ releases,
      versionAt index release = version := by
  constructor
  · intro hversion
    by_contra hnone
    exact hversion (h.undecided hnone).1
  · rintro ⟨version, hall⟩
    obtain ⟨release, hrelease⟩ := List.exists_mem_of_ne_nil _ h.ne_nil
    rw [(h.asserted version hall).1, ← hall release hrelease]
    exact versionAt_ne hindex ((h.mem_iff release).mp hrelease).lt

/-- The version and the candidates of a match with releases of a library. -/
theorem versionVerdict_spec {index : Index} {releases : List Nat}
    (hne : releases ≠ []) :
    (∀ version, (∀ release ∈ releases, versionAt index release = version) →
        (versionVerdict index releases).1 = version ∧
          (versionVerdict index releases).2 = []) ∧
      ((¬∃ version, ∀ release ∈ releases, versionAt index release = version) →
        (versionVerdict index releases).1 = "" ∧
          (versionVerdict index releases).2.Pairwise (· < ·) ∧
          ∀ version, version ∈ (versionVerdict index releases).2 ↔
            ∃ release ∈ releases, versionAt index release = version) := by
  constructor
  · intro version hall
    rw [versionVerdict_of_forall hne hall]
    exact ⟨rfl, rfl⟩
  · intro hnone
    rw [versionVerdict_of_not hnone]
    exact ⟨rfl, pairwise_lt_versionsOf index releases,
      fun version => mem_versionsOf_iff⟩

/-- When there is a best library, the loop goes on to the threshold. -/
theorem rootMatch_of_bestLibrary {index : Index} (hindex : index.Consistent)
    {vendorRoot : FsPath} {tally : RootTally} {files : List Judged}
    (h : tally.CountsOf index files) {library : Nat}
    (hlibrary : bestLibrary index tally = some library) :
    ∃ releases, releases ≠ [] ∧ releases.Pairwise (· < ·) ∧
      (∀ release, release ∈ releases ↔
        IsBestRelease index files library release) ∧
      ((∃ release ∈ releases,
          releaseScore index files release * 8 < files.length) →
        rootMatch index vendorRoot tally = none) ∧
      ((∀ release ∈ releases,
          files.length ≤ releaseScore index files release * 8) →
        ∃ found, rootMatch index vendorRoot tally = some found ∧
          IsVerdict index files library releases found) := by
  have hbest := isBestLibrary_of_bestLibrary h hlibrary
  obtain ⟨releases, matchedFiles, hreleases, hne, hsorted, hmem, hmatched⟩ :=
    bestReleases_spec hindex h hbest.pos
  obtain ⟨first, rest, hcons⟩ := List.exists_cons_of_ne_nil hne
  have hfirst : first ∈ releases := by
    rw [hcons]
    exact List.mem_cons_self
  have hpos : matchedFiles ≠ 0 := by
    rw [hmatched first hfirst]
    exact Nat.ne_of_gt (((hmem first).mp hfirst).releaseScore_pos hindex
      hbest.pos)
  refine ⟨releases, hne, hsorted, hmem, ?_, ?_⟩
  · rintro ⟨release, hrelease, hfew⟩
    rw [← hmatched release hrelease, ← h.considered] at hfew
    rw [rootMatch, hlibrary]
    simp only [hreleases]
    rw [if_neg (not_or.mpr ⟨hne, hpos⟩), if_pos hfew]
  · intro hmany
    have henough : ¬matchedFiles * 8 < tally.filesConsidered := by
      rw [hmatched first hfirst, h.considered]
      exact not_lt.mpr (hmany first hfirst)
    obtain ⟨hasserted, hundecided⟩ := @versionVerdict_spec index _ hne
    rw [rootMatch, hlibrary]
    simp only [hreleases]
    rw [if_neg (not_or.mpr ⟨hne, hpos⟩), if_neg henough]
    exact ⟨_, rfl, library_lt_of_libraryScore_pos hindex hbest.pos, hbest, hne,
      hsorted, hmem, rfl, hmatched, h.considered, hasserted, hundecided⟩

/-- The verdict on a root is the reference maximum.  Nothing is reported when no
file occurs in the index, or when the best releases hold less than an eighth of
the files; otherwise the best library is, and a version is asserted exactly when
all its best releases carry one version string. -/
theorem rootMatch_exact {index : Index} (hindex : index.Consistent)
    (vendorRoot : FsPath) (files : List Judged) :
    (rootMatch index vendorRoot (tallyOf index files) = none ↔
      (∀ library, libraryScore index files library = 0) ∨
        ∃ library release, IsBestLibrary index files library ∧
          IsBestRelease index files library release ∧
          releaseScore index files release * 8 < files.length) ∧
      ∀ found, rootMatch index vendorRoot (tallyOf index files) = some found →
        ∃ library releases, IsVerdict index files library releases found ∧
          (found.version ≠ "" ↔ ∃ version, ∀ release ∈ releases,
            versionAt index release = version) := by
  have h := countsOf_tallyOf hindex files
  cases hlibrary : bestLibrary index (tallyOf index files) with
  | none =>
    have hzero := (bestLibrary_eq_none_iff h).mp hlibrary
    have hnone : rootMatch index vendorRoot (tallyOf index files) = none := by
      rw [rootMatch, hlibrary]
    refine ⟨iff_of_true hnone (.inl hzero), ?_⟩
    intro found hfound
    rw [hnone] at hfound
    exact absurd hfound (by simp)
  | some library =>
    have hbest := isBestLibrary_of_bestLibrary h hlibrary
    obtain ⟨releases, hne, hsorted, hmem, hfew, hmany⟩ :=
      @rootMatch_of_bestLibrary _ hindex vendorRoot _ _ h _ hlibrary
    by_cases henough : ∀ release ∈ releases,
        files.length ≤ releaseScore index files release * 8
    · obtain ⟨found, hfound, hverdict⟩ := hmany henough
      constructor
      · rw [hfound]
        refine iff_of_false (by simp) ?_
        rintro (hzero | ⟨other, release, hother, hrelease, hless⟩)
        · exact absurd (hzero library) (Nat.ne_of_gt hbest.pos)
        · obtain rfl := hother.unique hbest
          exact absurd (henough release ((hmem release).mpr hrelease))
            (not_le.mpr hless)
      · intro other hother
        obtain rfl := Option.some.inj (hfound.symm.trans hother)
        exact ⟨library, releases, hverdict, hverdict.version_ne_iff hindex⟩
    · push Not at henough
      have hnone := hfew henough
      obtain ⟨release, hrelease, hless⟩ := henough
      refine ⟨iff_of_true hnone (.inr ⟨library, release, hbest,
        (hmem release).mp hrelease, hless⟩), ?_⟩
      intro found hfound
      rw [hnone] at hfound
      exact absurd hfound (by simp)

/-- Two releases of one library with the same file. -/
def tiedIndex : Index where
  libraries := [{ name := "zlib", purlType := "generic" }]
  releases :=
    [{ version := "1.2.11", fileCount := 1 },
      { version := "1.2.12", fileCount := 1 }]
  files :=
    [{ digest := List.replicate 32 1, firstReleaseRef := 0
       releaseRefCount := 2 }]
  releaseRefs := [0, 1]

theorem consistent_tiedIndex : tiedIndex.Consistent where
  span_le := by decide
  span_lt := by decide
  ref_lt := by decide
  library_lt := by decide
  version_ne := by decide
  digest_lt := by decide

theorem rootMatch_exact_tiedIndex :
    ∃ found,
      rootMatch tiedIndex (.ofString "deps/zlib") (tallyOf tiedIndex
          [.hashed (.ofString "deps/zlib/zlib.h") (List.replicate 32 1)]) =
        some found ∧
      ∃ library releases, IsVerdict tiedIndex
          [.hashed (.ofString "deps/zlib/zlib.h") (List.replicate 32 1)]
          library releases found ∧
        (found.version ≠ "" ↔ ∃ version, ∀ release ∈ releases,
          versionAt tiedIndex release = version) := by
  have hsome : (rootMatch tiedIndex (.ofString "deps/zlib") (tallyOf tiedIndex
      [.hashed (.ofString "deps/zlib/zlib.h")
        (List.replicate 32 1)])).isSome = true := by
    decide +kernel
  obtain ⟨found, hfound⟩ := Option.isSome_iff_exists.mp hsome
  refine ⟨found, hfound, ?_⟩
  exact (rootMatch_exact consistent_tiedIndex (.ofString "deps/zlib")
    [.hashed (.ofString "deps/zlib/zlib.h") (List.replicate 32 1)]).2 found
    hfound

/-! ## The matches of a tree -/

section Tree

variable {xxh3 : List UInt8 → UInt64}
  {contents : FsPath → Option (List UInt8)} {index : Index}
  {limits : MatchLimits}

def Judged.path : Judged → FsPath
  | .excluded path => path
  | .hashed path _ => path

/-- A file counts with the digest of its content. -/
def Judged.IsGenuine (contents : FsPath → Option (List UInt8)) : Judged → Prop
  | .excluded _ => True
  | .hashed path digest => (contents path).map sha256 = some digest

theorem map_of_voting? {α : Type} {hash : List UInt8 → α}
    {content : Option (List UInt8)} {value : α}
    (h : (hashFileBounded hash content limits.maxHashedFileBytes).voting?
      limits = some value) : content.map hash = some value := by
  cases content with
  | none => simp [hashFileBounded, BoundedFileHash.voting?] at h
  | some bytes =>
    rw [hashFileBounded, BoundedFileHash.voting?] at h
    by_cases hlong : limits.maxHashedFileBytes < bytes.length
    · simp [hlong] at h
    · simp only [hlong, if_false] at h
      split_ifs at h
      exact h

/-- A file that is counted is a step of the tally. -/
theorem judgeFile_eq_some {tally next : RootTally} {path : FsPath}
    (h : judgeFile xxh3 contents index limits tally path = some next) :
    ∃ file : Judged, file.path = path ∧ file.IsGenuine contents ∧
      next = tallyStep index tally file := by
  have hsecond : ∀ {found}, ((hashFileBounded sha256 (contents path)
        limits.maxHashedFileBytes).voting? limits).map
          (fun digest => tally.judge index path digest) = some found →
      ∃ file : Judged, file.path = path ∧ file.IsGenuine contents ∧
        found = tallyStep index tally file := by
    intro found hfound
    obtain ⟨digest, hdigest, rfl⟩ := Option.map_eq_some_iff.mp hfound
    exact ⟨.hashed path digest, rfl, map_of_voting? hdigest, rfl⟩
  rw [judgeFile] at h
  by_cases hprefilter : index.prefilter = []
  · rw [if_pos hprefilter] at h
    exact hsecond h
  · rw [if_neg hprefilter] at h
    obtain ⟨fastHash, -, h⟩ := Option.bind_eq_some_iff.mp h
    by_cases hmay : mayContainFastHash index fastHash = true
    · rw [if_pos hmay] at h
      exact hsecond h
    · rw [if_neg hmay] at h
      exact ⟨.excluded path, rfl, trivial, (Option.some.inj h).symm⟩

/-- The inner loop tallies some of the files, each one with its content. -/
theorem tallyFiles_snd (vendorRoot : FsPath) (files : List FsPath)
    (progress : Progress) (start : List Judged) :
    ∃ judged : List Judged,
      (tallyFiles xxh3 contents index limits vendorRoot progress
        (tallyOf index start) files).2 = tallyOf index (start ++ judged) ∧
      (judged.map Judged.path).Sublist files ∧
      ∀ file ∈ judged, file.IsGenuine contents := by
  induction files generalizing progress start with
  | nil => exact ⟨[], by simp [tallyFiles], List.Sublist.slnil, by simp⟩
  | cons path files ih =>
    rw [tallyFiles]
    by_cases hfull : limits.maxHashedFiles ≤ progress.hashedFiles
    · rw [if_pos hfull]
      exact ⟨[], by simp, List.nil_sublist _, by simp⟩
    · rw [if_neg hfull]
      cases hjudge : judgeFile xxh3 contents index limits
          (tallyOf index start) path with
      | none =>
        obtain ⟨judged, heq, hsublist, hgenuine⟩ := ih progress start
        exact ⟨judged, heq, hsublist.cons path, hgenuine⟩
      | some next =>
        obtain ⟨file, hpath, hfile, rfl⟩ := judgeFile_eq_some hjudge
        have hstep : tallyStep index (tallyOf index start) file =
            tallyOf index (start ++ [file]) := by
          rw [tallyOf, tallyOf, List.foldl_append]
          rfl
        obtain ⟨judged, heq, hsublist, hgenuine⟩ := ih
          { progress with hashedFiles := progress.hashedFiles + 1 }
          (start ++ [file])
        refine ⟨file :: judged, ?_, ?_, ?_⟩
        · simp only [hstep]
          rw [heq, List.append_assoc, List.singleton_append]
        · rw [List.map_cons, hpath]
          exact hsublist.cons_cons path
        · exact List.forall_mem_cons.mpr ⟨hfile, hgenuine⟩

theorem mem_matchRoots {progress : Progress}
    {roots : List (FsPath × List FsPath)} {found : RootMatch}
    (h : found ∈ (matchRoots xxh3 contents index limits progress roots).2) :
    ∃ vendorRoot files judged, (vendorRoot, files) ∈ roots ∧
      (judged.map Judged.path).Sublist files ∧
      (∀ file ∈ judged, file.IsGenuine contents) ∧
      rootMatch index vendorRoot (tallyOf index judged) = some found := by
  induction roots generalizing progress with
  | nil => simp [matchRoots] at h
  | cons root roots ih =>
    obtain ⟨vendorRoot, files⟩ := root
    rw [matchRoots] at h
    rcases List.mem_append.mp h with hhere | hlater
    · obtain ⟨judged, heq, hsublist, hgenuine⟩ := @tallyFiles_snd xxh3
        contents index limits vendorRoot files progress []
      rw [List.nil_append] at heq
      refine ⟨vendorRoot, files, judged, List.mem_cons_self, hsublist,
        hgenuine, ?_⟩
      rw [← heq]
      exact Option.mem_toList.mp hhere
    · obtain ⟨root, files, judged, hroot, hrest⟩ := ih hlater
      exact ⟨root, files, judged, List.mem_cons_of_mem _ hroot, hrest⟩

/-- Each match of a tree is the verdict on files of one vendor root, with the
digests of their contents. -/
theorem mem_matchVendoredFiles {fileIndex : List FsPath} {found : RootMatch}
    (h : found ∈
      (matchVendoredFiles xxh3 contents index limits fileIndex).value) :
    ∃ vendorRoot judged, (∀ file ∈ judged, file.path ∈ fileIndex ∧
        vendorRootFor file.path = some vendorRoot ∧
        file.IsGenuine contents) ∧
      rootMatch index vendorRoot (tallyOf index judged) = some found := by
  rw [matchVendoredFiles] at h
  split_ifs at h
  · simp at h
  · have hfound := (List.mem_insertionSort _).mp h
    obtain ⟨vendorRoot, files, judged, hroot, hsublist, hgenuine, hmatch⟩ :=
      mem_matchRoots hfound
    refine ⟨vendorRoot, judged, ?_, hmatch⟩
    intro file hfile
    obtain ⟨⟨root, group⟩, hgroup, hpair⟩ := List.mem_map.mp hroot
    obtain ⟨rfl, rfl⟩ := Prod.mk.inj hpair
    have hmem := hsublist.subset (List.mem_map_of_mem hfile)
    rw [(mem_toList_groupInto_iff.mp hgroup).1] at hmem
    obtain ⟨⟨other, path⟩, hpair, hpath⟩ := List.mem_map.mp hmem
    obtain ⟨hpair, hother⟩ := List.mem_filter.mp hpair
    obtain ⟨relativePath, hfileIndex, hpaired⟩ := List.mem_filterMap.mp hpair
    obtain ⟨above, habove, hsame⟩ := Option.map_eq_some_iff.mp hpaired
    obtain ⟨rfl, rfl⟩ := Prod.mk.inj hsame
    obtain rfl : relativePath = file.path := hpath
    obtain rfl : above = root := by simpa using hother
    exact ⟨hfileIndex, habove, hgenuine file hfile⟩

end Tree

end Bomwerk.Heuristics.Fingerprint
