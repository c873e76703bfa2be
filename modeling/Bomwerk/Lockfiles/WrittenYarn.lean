import Bomwerk.Lockfiles.BerryLocators
import Bomwerk.Lockfiles.WrittenNpm

/-!
# Installed packages in yarn.lock

Yarn Classic names an entry after the descriptor, which begins with the name a
package is installed under; Yarn Berry names it after the resolution, which is
the package itself.
-/

namespace Bomwerk.Lockfiles.Registry

open Bomwerk.Core Bomwerk.Core.YamlSubset Bomwerk.Support

/-! ## Descriptors -/

def isDescriptorCharacter (c : Char) : Bool :=
  isRangeCharacter c || ['@', '/', ':'].contains c

theorem isDescriptorCharacter_of_isUnreserved {c : Char}
    (hc : isUnreserved c = true) : isDescriptorCharacter c = true := by
  simp [isDescriptorCharacter, isRangeCharacter, hc]

theorem isDescriptorCharacter_of_mem_text {name : RegistryName} {c : Char}
    (hc : c ∈ name.text) : isDescriptorCharacter c = true := by
  have hname := name.isNameCharacter_of_mem_text hc
  simp only [RegistryName.isNameCharacter, Bool.or_eq_true,
    decide_eq_true_eq] at hname
  rcases hname with (h | rfl) | rfl
  · exact isDescriptorCharacter_of_isUnreserved h
  · decide
  · decide

theorem isDescriptorCharacter_of_mem_range {package : RegistryPackage}
    {c : Char} (hc : c ∈ package.range) : isDescriptorCharacter c = true :=
  Bool.or_eq_true_iff.mpr (.inl (package.isRangeCharacter_range c hc))

theorem isDescriptorCharacter_of_mem_npm {c : Char}
    (hc : c ∈ "npm:".toList) : isDescriptorCharacter c = true := by
  have hall : "npm:".toList.all isDescriptorCharacter = true := by decide
  exact List.all_eq_true.mp hall c hc

theorem isDescriptorCharacter_of_mem_version {package : RegistryPackage}
    {c : Char} (hc : c ∈ package.version) : isDescriptorCharacter c = true := by
  rcases Bool.or_eq_true_iff.mp (package.isVersionCharacter_version c hc) with
    h | h
  · exact isDescriptorCharacter_of_isUnreserved h
  · obtain rfl := of_decide_eq_true h
    decide

theorem plain_of_isDescriptorCharacter {c : Char}
    (hc : isDescriptorCharacter c = true) :
    isQuote c = false ∧ c ≠ '\\' ∧ c ≠ '#' := by
  have hdouble : c ≠ '"' := ne_of_test hc (by decide)
  have hsingle : c ≠ '\'' := ne_of_test hc (by decide)
  refine ⟨?_, ne_of_test hc (by decide), ne_of_test hc (by decide)⟩
  simp [isQuote, hdouble, hsingle]

theorem isSpellable_quoted {text : List Char} (hne : text ≠ [])
    (htext : ∀ c ∈ text, isDescriptorCharacter c = true) {quote : Char}
    (hquote : isQuote quote = true) : IsSpellable (some quote) text where
  ne_nil := hne
  isSolid h := absurd h (Option.some_ne_none _)
  isQuote := by
    intro other hother
    obtain rfl := Option.mem_some_iff.mp hother
    exact hquote
  plain c hc := plain_of_isDescriptorCharacter (htext c hc)

theorem isSpellable_plain {text : List Char} (hsolid : IsSolid text)
    (htext : ∀ c ∈ text, isDescriptorCharacter c = true) :
    IsSpellable none text where
  ne_nil := hsolid.ne_nil
  isSolid _ := hsolid
  isQuote _ h := absurd h (Option.not_mem_none _)
  plain c hc := plain_of_isDescriptorCharacter (htext c hc)

theorem isSpellable_resolution : IsSpellable none "resolution".toList :=
  isSpellable_plain ⟨⟨'r', rfl, by decide⟩, ⟨'n', rfl, by decide⟩⟩
    (List.all_eq_true.mp (by decide))

theorem opensValue_of_isVersionCharacter {c : Char}
    (hc : isVersionCharacter c = true) : opensValue c = true := by
  have hbar : c ≠ '|' := ne_of_test hc (by decide)
  have hfold : c ≠ '>' := ne_of_test hc (by decide)
  have hbracket : c ≠ '[' := ne_of_test hc (by decide)
  have hanchor : c ≠ '&' := ne_of_test hc (by decide)
  have halias : c ≠ '*' := ne_of_test hc (by decide)
  have htag : c ≠ '!' := ne_of_test hc (by decide)
  simp [opensValue, isAnchorAliasTag, hbar, hfold, hbracket, hanchor, halias,
    htag]

/-- What stands behind the name in a descriptor of Yarn Classic. -/
def classicTarget (package : RegistryPackage) : List Char :=
  if package.isAlias then
    "npm:".toList ++ package.realName.text ++ '@' :: package.range
  else package.range

theorem classicDescriptor_eq (package : RegistryPackage) :
    classicDescriptor package =
      package.installName.text ++ '@' :: classicTarget package := rfl

theorem isDescriptorCharacter_of_mem_classicDescriptor
    {package : RegistryPackage} {c : Char}
    (hc : c ∈ classicDescriptor package) : isDescriptorCharacter c = true := by
  rw [classicDescriptor_eq, List.mem_append, List.mem_cons] at hc
  rcases hc with hname | rfl | htarget
  · exact isDescriptorCharacter_of_mem_text hname
  · decide
  unfold classicTarget at htarget
  split_ifs at htarget
  · rw [List.mem_append, List.mem_append, List.mem_cons] at htarget
    rcases htarget with (hnpm | hname) | rfl | hrange
    · exact isDescriptorCharacter_of_mem_npm hnpm
    · exact isDescriptorCharacter_of_mem_text hname
    · decide
    · exact isDescriptorCharacter_of_mem_range hrange
  · exact isDescriptorCharacter_of_mem_range htarget

/-- A descriptor is not changed by the quotes it is put in. -/
theorem isSpellable_classicDescriptor (package : RegistryPackage) :
    IsSpellable (classicQuote? (classicDescriptor package))
      (classicDescriptor package) where
  ne_nil := by
    rw [classicDescriptor_eq]
    exact List.append_ne_nil_of_left_ne_nil package.installName.text_ne_nil _
  isSolid := by
    intro hplain
    rw [classicQuote?] at hplain
    split_ifs at hplain with hletter
    rw [Bool.and_eq_true, Bool.not_eq_true', List.any_eq_false] at hletter
    apply isSolid_of_forall
    · rw [classicDescriptor_eq]
      exact List.append_ne_nil_of_left_ne_nil package.installName.text_ne_nil _
    · intro c hc
      have hblank := hletter.2 c hc
      simp only [Bool.or_eq_true, not_or, Bool.not_eq_true] at hblank
      exact hblank.2
  isQuote := by
    intro quote hquote
    rw [classicQuote?] at hquote
    split_ifs at hquote
    · exact absurd hquote (Option.not_mem_none _)
    · obtain rfl := Option.mem_some_iff.mp hquote
      decide
  plain c hc := plain_of_isDescriptorCharacter
    (isDescriptorCharacter_of_mem_classicDescriptor hc)

theorem descriptorName_append (name : RegistryName) (target : List Char) :
    Yarn.descriptorName (name.text ++ '@' :: target) = name.text := by
  obtain ⟨first, rest, htext, -, -, hat⟩ := name.exists_text_eq_cons
  have hplain : ∀ c ∈ rest, decide (c ≠ '@') = true := by
    intro c hc
    rw [decide_eq_true_eq]
    rintro rfl
    exact hat hc
  rw [htext, List.cons_append, Yarn.descriptorName, if_pos (by simp),
    List.takeWhile_append_of_pos hplain]
  simp

/-! ## Yarn Classic -/

section Classic

variable (label : String) (package : RegistryPackage)

def classicKeyLine : List Char :=
  spelled (classicQuote? (classicDescriptor package))
    (classicDescriptor package) ++ [':']

theorem classicEntries_skip {line : List Char}
    (hline : trimmed line = [] ∨ (trimmed line).head? = some '#')
    (pendingName : List Char) (lines : List (List Char)) :
    Yarn.classicEntries label pendingName (line :: lines) =
      Yarn.classicEntries label pendingName lines := by
  rw [Yarn.classicEntries]
  simp only [hline, if_true]

theorem classicEntries_field {line : List Char}
    (hline : leadingSpaceCount line ≠ 0) (lines : List (List Char)) :
    Yarn.classicEntries label [] (line :: lines) =
      Yarn.classicEntries label [] lines := by
  rw [Yarn.classicEntries]
  simp [hline, Yarn.entryKeyIndentation]

theorem exists_spelled_eq_cons :
    ∃ first rest, spelled (classicQuote? (classicDescriptor package))
        (classicDescriptor package) = first :: rest ∧
      first ≠ ' ' ∧ first ≠ '#' := by
  have hspellable := isSpellable_classicDescriptor package
  obtain ⟨first, hfirst, hsolid⟩ := hspellable.isSolid_spelled.head
  obtain ⟨rest, hrest⟩ := List.head?_eq_some_iff.mp hfirst
  refine ⟨first, rest, hrest, ?_, ?_⟩
  · rintro rfl
    exact absurd hsolid (by decide)
  · rintro rfl
    exact hspellable.notMem_hash (by simp [hrest])

theorem notMem_comma_spelled :
    ',' ∉ spelled (classicQuote? (classicDescriptor package))
      (classicDescriptor package) := by
  have hdescriptor : ',' ∉ classicDescriptor package := fun hmem =>
    absurd (isDescriptorCharacter_of_mem_classicDescriptor hmem) (by decide)
  cases hquote : classicQuote? (classicDescriptor package) with
  | none => exact hdescriptor
  | some quote =>
    have hisQuote :=
      (isSpellable_classicDescriptor package).isQuote quote hquote
    have hne : ',' ≠ quote := by
      rintro rfl
      exact absurd hisQuote (by decide)
    simp [spelled, hne, hdescriptor]

theorem entryName_classicKeyLine :
    Yarn.entryName (classicKeyLine package) = package.installName.text := by
  have hspellable := isSpellable_classicDescriptor package
  have hcomma := notMem_comma_spelled package
  have hplain : ∀ c ∈ spelled (classicQuote? (classicDescriptor package))
      (classicDescriptor package), decide (c ≠ ',') = true := by
    intro c hc
    rw [decide_eq_true_eq]
    rintro rfl
    exact hcomma hc
  rw [Yarn.entryName, classicKeyLine, List.dropLast_concat,
    List.takeWhile_eq_self_iff.mpr hplain,
    hspellable.isSolid_spelled.trimmed_eq, hspellable.unquoted_spelled,
    classicDescriptor_eq, descriptorName_append]

theorem classicEntries_keyLine (lines : List (List Char)) :
    Yarn.classicEntries label [] (classicKeyLine package :: lines) =
      Yarn.classicEntries label package.installName.text lines := by
  obtain ⟨first, rest, hspelled, hspace, hhash⟩ :=
    exists_spelled_eq_cons package
  have hline : classicKeyLine package = first :: (rest ++ [':']) := by
    rw [classicKeyLine, hspelled, List.cons_append]
  have hsolid : IsSolid (classicKeyLine package) := by
    have hhead := (isSpellable_classicDescriptor package).isSolid_spelled.head
    rw [hspelled] at hhead
    constructor
    · rw [hline]
      exact hhead
    · exact ⟨':', by simp [classicKeyLine], by decide⟩
  have hindentation : leadingSpaceCount (classicKeyLine package) = 0 := by
    rw [hline]
    exact leadingSpaceCount_replicate_append 0 hspace _
  have hlast : (classicKeyLine package).getLast? = some ':' := by
    simp [classicKeyLine]
  have hcontent : ¬ (classicKeyLine package = [] ∨
      (classicKeyLine package).head? = some '#') := by
    rw [hline]
    simp [hhash]
  rw [Yarn.classicEntries]
  simp only [hsolid.trimmed_eq, hcontent, hindentation, hlast,
    entryName_classicKeyLine, package.installName.text_ne_nil,
    Yarn.entryKeyIndentation, ne_eq, not_true_eq_false, if_false, if_true,
    List.nil_append]

/-- The text behind the indentation of a version. -/
def classicVersion : List Char :=
  "version ".toList ++ spelled (some '"') package.version

theorem isSpellable_version {quote : Char} (hquote : isQuote quote = true) :
    IsSpellable (some quote) package.version :=
  isSpellable_quoted package.version_ne_nil
    (fun _ => isDescriptorCharacter_of_mem_version) hquote

theorem isSolid_classicVersion : IsSolid (classicVersion package) := by
  have hspellable := @isSpellable_version package '"' (by decide)
  exact hspellable.isSolid_spelled.append ⟨'v', by decide, by decide⟩

theorem classicEntries_version {pendingName : List Char}
    (hpending : pendingName ≠ []) (lines : List (List Char)) :
    Yarn.classicEntries label pendingName
        ((List.replicate 2 ' ' ++ classicVersion package) :: lines) =
      { outcome := .valid (some
          (Yarn.npmComponent pendingName package.version label)) } ::
        Yarn.classicEntries label [] lines := by
  have hspellable := @isSpellable_version package '"' (by decide)
  have hsolid := isSolid_classicVersion package
  have hhead : (classicVersion package).head? = some 'v' := rfl
  have hcontent : ¬ (classicVersion package = [] ∨
      (classicVersion package).head? = some '#') := by
    rw [hhead]
    simp [hsolid.ne_nil]
  obtain ⟨rest, hrest⟩ := List.head?_eq_some_iff.mp hhead
  have hindentation : leadingSpaceCount
      (List.replicate 2 ' ' ++ classicVersion package) = 2 := by
    rw [hrest]
    exact leadingSpaceCount_replicate_append 2 (by decide) rest
  have hstart : Yarn.classicVersionPrefix.isPrefixOf (classicVersion package) =
      true := List.isPrefixOf_iff_prefix.mpr (List.prefix_append _ _)
  have hdrop : (classicVersion package).drop
      Yarn.classicVersionPrefix.length = spelled (some '"') package.version :=
    List.drop_left
  have htwo : ¬ (2 : Nat) = Yarn.entryKeyIndentation := by decide
  have hfield : ¬ ((2 : Nat) ≠ Yarn.entryFieldIndentation ∨
      pendingName = [] ∨ (!true) = true) := by
    simp [Yarn.entryFieldIndentation, hpending]
  rw [Yarn.classicEntries]
  simp only [trimmed_replicate_append hsolid, hcontent, hindentation, hstart,
    hdrop, htwo, hfield, hspellable.isSolid_spelled.trimmed_eq,
    hspellable.unquoted_spelled, package.version_ne_nil, if_false]

theorem quoted_eq {line front : List Char} {count : Nat} {quote : Char}
    (hline : line = List.replicate count ' ' ++ (front ++ [quote]))
    (text : List Char) :
    line ++ text ++ [quote] =
      List.replicate count ' ' ++ (front ++ spelled (some quote) text) := by
  rw [hline, spelled]
  simp only [List.append_assoc, List.cons_append, List.nil_append]

theorem indented_eq {line front : List Char} {count : Nat}
    (hline : line = List.replicate count ' ' ++ front) (text : List Char) :
    line ++ text = List.replicate count ' ' ++ (front ++ text) := by
  rw [hline, List.append_assoc]

theorem classicLines_eq :
    classicLines package = [classicKeyLine package,
      List.replicate 2 ' ' ++ classicVersion package,
      List.replicate 2 ' ' ++ ("integrity ".toList ++ package.integrity),
      []] :=
  congrArg₂
    (fun version integrity => [classicKeyLine package, version, integrity, []])
    (quoted_eq (by decide) package.version)
    (indented_eq (by decide) package.integrity)

theorem classicEntries_classicLines (lines : List (List Char)) :
    Yarn.classicEntries label [] (classicLines package ++ lines) =
      { outcome := .valid (some (Yarn.npmComponent package.installName.text
          package.version label)) } ::
        Yarn.classicEntries label [] lines := by
  have hintegrity : leadingSpaceCount (List.replicate 2 ' ' ++
      ("integrity ".toList ++ package.integrity)) ≠ 0 := by
    have hcount : leadingSpaceCount (List.replicate 2 ' ' ++
        'i' :: ("ntegrity ".toList ++ package.integrity)) = 2 :=
      leadingSpaceCount_replicate_append 2 (by decide) _
    exact ne_of_eq_of_ne hcount (by decide)
  rw [classicLines_eq]
  simp only [List.cons_append, List.nil_append]
  rw [classicEntries_keyLine,
    classicEntries_version label package package.installName.text_ne_nil,
    classicEntries_field label hintegrity,
    classicEntries_skip label (.inl rfl)]

def classicComponent (package : RegistryPackage) : Component :=
  Yarn.npmComponent package.installName.text package.version label

theorem classicEntries_flatMap (packages : List RegistryPackage)
    (lines : List (List Char)) :
    Yarn.classicEntries label [] (packages.flatMap classicLines ++ lines) =
      packages.map (fun package =>
        { outcome := .valid (some (classicComponent label package)) }) ++
        Yarn.classicEntries label [] lines := by
  induction packages with
  | nil => rfl
  | cons package packages ih =>
    rw [List.flatMap_cons, List.append_assoc, classicEntries_classicLines, ih,
      List.map_cons, List.cons_append]
    rfl

theorem classicEntries_header (lines : List (List Char)) :
    Yarn.classicEntries label [] (classicHeader ++ lines) =
      Yarn.classicEntries label [] lines := by
  have hheader : ∀ line ∈ classicHeader,
      trimmed line = [] ∨ (trimmed line).head? = some '#' := by
    intro line hline
    rw [classicHeader, List.mem_cons, List.mem_cons, List.mem_cons,
      List.mem_singleton] at hline
    rcases hline with rfl | rfl | rfl | rfl
    · exact .inr (by decide +kernel)
    · exact .inr (by decide +kernel)
    · exact .inl rfl
    · exact .inl rfl
  generalize classicHeader = header at hheader
  induction header with
  | nil => rfl
  | cons line header ih =>
    rw [List.forall_mem_cons] at hheader
    rw [List.cons_append, classicEntries_skip label hheader.1, ih hheader.2]

end Classic

theorem isLine_classicLines {package : RegistryPackage} :
    ∀ line ∈ classicLines package, isLine line = true := by
  have hspelled : isLine (spelled (classicQuote? (classicDescriptor package))
      (classicDescriptor package)) = true := by
    apply isLine_spelled _ (isLine_classicDescriptor package)
    intro quote hquote
    have hisQuote := (isSpellable_classicDescriptor package).isQuote quote hquote
    rw [isQuote, decide_eq_true_eq] at hisQuote
    rcases hisQuote with rfl | rfl <;> decide
  intro line hline
  rw [classicLines] at hline
  rw [List.mem_cons, List.mem_cons, List.mem_cons, List.mem_singleton] at hline
  rcases hline with rfl | rfl | rfl | rfl
  · rw [isLine_append, hspelled]
    decide
  · rw [isLine_append, isLine_append, package.isLine_version]
    decide
  · rw [isLine_append, package.isLine_integrity]
    decide
  · decide

theorem isLine_classicLock (packages : List RegistryPackage) :
    ∀ line ∈ classicHeader ++ packages.flatMap classicLines,
      isLine line = true :=
  forall_isLine_lock (by decide +kernel) (fun _ => isLine_classicLines) packages

/-- The banner stands in the first bytes. -/
theorem isClassicFormat_classicLock (packages : List RegistryPackage) :
    Yarn.isClassicFormat (byteText (classicLock packages)) = true := by
  have hbanner : containsText Yarn.classicBanner
      (joinTerminated '\n' classicHeader) = true := by
    decide +kernel
  have hlength : (joinTerminated '\n' classicHeader).length ≤
      Yarn.formatProbeBytes := by
    decide +kernel
  rw [containsText_eq_true_iff] at hbanner
  rw [Yarn.isClassicFormat, containsText_eq_true_iff, classicLock,
    byteText_asciiBytes (isLine_classicLock packages), joinTerminated,
    List.flatMap_append]
  refine hbanner.trans (List.IsPrefix.isInfix ?_)
  rw [List.prefix_take_iff]
  exact ⟨List.prefix_append _ _, hlength⟩

theorem readsPackages_classicLock (packages : List RegistryPackage)
    (path : FsPath) :
    ReadsPackages (Yarn.producer.manifest path (classicLock packages)).entries
      packages (classicComponent path.genericString)
      RegistryPackage.installName := by
  constructor
  · have hend : Yarn.classicEntries path.genericString [] [[]] = [] :=
      classicEntries_skip _ (.inl rfl) [] []
    refine ⟨[], by simp, ?_⟩
    simp only [Yarn.producer, isClassicFormat_classicLock, if_true,
      Yarn.classicManifest]
    rw [classicLock, splitOn_byteText_asciiBytes (isLine_classicLock packages),
      List.append_assoc, classicEntries_header, classicEntries_flatMap, hend,
      List.append_nil, List.nil_append]
  · intro package _
    exact Yarn.isNpmReference_npmComponent package.installName.text_ne_nil
      (isByteText_of_isLine (isLine_text _))
      (isByteText_of_isLine package.isLine_version) _

/-- The purls of a yarn.lock of Yarn Classic are those of the names that the
packages are installed under. -/
theorem returnsPurls_classicLock (packages : List RegistryPackage)
    {path : FsPath} {options : ParseOptions}
    (hpath : path.filename = "yarn.lock")
    (hfits : Fits options packages.length (classicLock packages)) :
    ReturnsPurls Yarn.producer options path (classicLock packages)
      (installPurls packages) := by
  have hreads := readsPackages_classicLock packages path
  apply hreads.returnsPurls Yarn.isUnlimited_producer
    Yarn.hasNoOwnIdentity_producer _ hfits
  exact decide_eq_true hpath

/-! ## Yarn Berry -/

section Berry

variable (package : RegistryPackage)

theorem isDescriptorCharacter_of_mem_berryDescriptor {c : Char}
    (hc : c ∈ berryDescriptor package) : isDescriptorCharacter c = true := by
  have hprotocol : "@npm:".toList.all isDescriptorCharacter = true := by decide
  unfold berryDescriptor at hc
  rw [List.mem_append, List.mem_append] at hc
  rcases hc with (hname | hnpm) | htarget
  · exact isDescriptorCharacter_of_mem_text hname
  · exact List.all_eq_true.mp hprotocol c hnpm
  split_ifs at htarget
  · rw [List.mem_append, List.mem_cons] at htarget
    rcases htarget with hname | rfl | hrange
    · exact isDescriptorCharacter_of_mem_text hname
    · decide
    · exact isDescriptorCharacter_of_mem_range hrange
  · exact isDescriptorCharacter_of_mem_range htarget

def berryResolution : List Char :=
  package.realName.text ++ "@npm:".toList ++ package.version

theorem isDescriptorCharacter_of_mem_berryResolution {c : Char}
    (hc : c ∈ berryResolution package) : isDescriptorCharacter c = true := by
  have hprotocol : "@npm:".toList.all isDescriptorCharacter = true := by decide
  unfold berryResolution at hc
  rw [List.mem_append, List.mem_append] at hc
  rcases hc with (hname | hnpm) | hversion
  · exact isDescriptorCharacter_of_mem_text hname
  · exact List.all_eq_true.mp hprotocol c hnpm
  · exact isDescriptorCharacter_of_mem_version hversion

/-- What the lines of a package are read as. -/
def berryResults : List LineResult :=
  [.node (nodeOf 0 (berryDescriptor package) []),
    .node (nodeOf 2 "version".toList package.version),
    .node (nodeOf 2 Yarn.resolutionKey
      (spelled (some '"') (berryResolution package))),
    .nothing]

theorem berryDescriptor_ne_nil : berryDescriptor package ≠ [] := by
  unfold berryDescriptor
  rw [List.append_assoc]
  exact List.append_ne_nil_of_left_ne_nil package.installName.text_ne_nil _

theorem berryResolution_ne_nil : berryResolution package ≠ [] := by
  unfold berryResolution
  rw [List.append_assoc]
  exact List.append_ne_nil_of_left_ne_nil package.realName.text_ne_nil _

theorem readLine_berryKey :
    readLine none ('"' :: (berryDescriptor package ++ "\":".toList)) =
      (none, .node (nodeOf 0 (berryDescriptor package) [])) := by
  have hspellable := isSpellable_quoted (berryDescriptor_ne_nil package)
    (fun _ => isDescriptorCharacter_of_mem_berryDescriptor package)
    (show isQuote '"' = true by decide)
  have hread := readLine_key hspellable (by simp) (by
    intro c hc
    obtain rfl : '"' = c := Option.some.inj hc
    decide) 0
  have hline : '"' :: (berryDescriptor package ++ "\":".toList) =
      List.replicate 0 ' ' ++
        (spelled (some '"') (berryDescriptor package) ++ [':']) := by
    have hend : "\":".toList = ['"'] ++ [':'] := by decide
    rw [hend, spelled]
    simp
  rw [hline]
  exact hread

theorem readLine_berryVersion :
    readLine none ("  version: ".toList ++ package.version) =
      (none, .node (nodeOf 2 "version".toList package.version)) := by
  have hsolid : IsSolid "version".toList :=
    ⟨⟨'v', rfl, by decide⟩, ⟨'n', rfl, by decide⟩⟩
  have hkey : IsSpellable none "version".toList :=
    isSpellable_plain hsolid (List.all_eq_true.mp (by decide))
  apply readLine_field_of_eq (by decide) hkey (by decide)
    ((Option.all_eq_true opensMapping _).mp (by decide))
    package.isSolid_version
  · intro hmem
    exact absurd (isDescriptorCharacter_of_mem_version hmem) (by decide)
  · intro c hc
    exact opensValue_of_isVersionCharacter
      (package.isVersionCharacter_version c (List.mem_of_mem_head? hc))

theorem readLine_berryResolution :
    readLine none ("  resolution: \"".toList ++ package.realName.text ++
        "@npm:".toList ++ package.version ++ ['"']) =
      (none, .node (nodeOf 2 Yarn.resolutionKey
        (spelled (some '"') (berryResolution package)))) := by
  have hvalue := isSpellable_quoted (berryResolution_ne_nil package)
    (fun _ => isDescriptorCharacter_of_mem_berryResolution package)
    (show isQuote '"' = true by decide)
  have hline : "  resolution: \"".toList ++ package.realName.text ++
      "@npm:".toList ++ package.version ++ ['"'] =
        "  resolution: ".toList ++
          spelled (some '"') (berryResolution package) := by
    have hopen : "  resolution: \"".toList =
        "  resolution: ".toList ++ ['"'] := by
      decide
    rw [hopen, spelled, berryResolution]
    simp only [List.append_assoc, List.cons_append, List.nil_append]
  rw [hline]
  apply readLine_field_of_eq (by decide) isSpellable_resolution (by decide)
    ((Option.all_eq_true opensMapping _).mp (by decide))
    hvalue.isSolid_spelled hvalue.notMem_hash
  intro c hc
  obtain rfl : '"' = c := Option.some.inj hc
  decide

theorem map_readLine_berryLines :
    (berryLines package).map (readLine none) =
      (berryResults package).map (Prod.mk none) := by
  have hempty : readLine none [] = (none, .nothing) := rfl
  rw [berryLines, berryResults]
  simp only [List.map_cons, List.map_nil, readLine_berryKey,
    readLine_berryVersion, readLine_berryResolution, hempty]

theorem splitLocator_berryResolution :
    Yarn.splitLocator (berryResolution package) =
      some { packageName := package.realName.text,
             protocol := Yarn.npmProtocol,
             selector := package.version } := by
  obtain ⟨first, rest, htext, -, -, hat⟩ :=
    package.realName.exists_text_eq_cons
  have hresolution : berryResolution package =
      first :: (rest ++ '@' :: ("npm".toList ++ ':' :: package.version)) := by
    have hprotocol : "@npm:".toList = '@' :: ("npm".toList ++ [':']) := by
      decide
    rw [berryResolution, htext, hprotocol]
    simp only [List.append_assoc, List.cons_append, List.nil_append]
  have hnpm : ∀ c ∈ "npm".toList, Yarn.isProtocolCharacter c = true :=
    List.all_eq_true.mp (by decide)
  have hend : Yarn.isProtocolCharacter ':' = false := by decide
  have hprotocol : ("npm".toList ++ ':' :: package.version).takeWhile
      Yarn.isProtocolCharacter = "npm".toList := by
    rw [List.takeWhile_append_of_pos hnpm]
    simp [hend]
  have hselector : ("npm".toList ++ ':' :: package.version).dropWhile
      Yarn.isProtocolCharacter = ':' :: package.version := by
    rw [List.dropWhile_append_of_pos hnpm]
    simp [hend]
  have hne : "npm".toList ≠ [] := by decide
  rw [hresolution, Yarn.splitLocator, Yarn.splitLocatorFrom_append hat,
    Yarn.splitLocatorFrom, hselector, hprotocol, htext]
  simp only [hne, package.version_ne_nil, ne_eq, not_false_eq_true, and_self,
    if_true, if_false]
  rfl

def berryComponent (label : String) (package : RegistryPackage) : Component :=
  Yarn.npmComponent package.realName.text package.version label

theorem readResolution_berryResolution (label : String) :
    Yarn.readResolution label (berryResolution package) =
      .valid (some (berryComponent label package)) := by
  have hpatch : Yarn.npmProtocol ≠ Yarn.patchProtocol := by decide
  have hworkspace : Yarn.npmProtocol ≠ Yarn.workspaceProtocol := by decide
  have hlocal : Yarn.localPathProtocols.contains Yarn.npmProtocol = false := by
    decide
  rw [Yarn.readResolution, splitLocator_berryResolution]
  simp only [hpatch, hworkspace, hlocal, Yarn.locatorOutcome, if_false,
    if_true, ne_eq, not_true_eq_false, Bool.false_eq_true]
  rfl

theorem berryDescriptor_ne_metadataKey :
    berryDescriptor package ≠ Yarn.metadataKey := by
  intro heq
  have hat : '@' ∈ berryDescriptor package := by
    have hprotocol : '@' ∈ "@npm:".toList := by decide
    unfold berryDescriptor
    exact List.mem_append_left _ (List.mem_append_right _ hprotocol)
  rw [heq] at hat
  exact absurd hat (by decide)

theorem berryEntries_berryResults (label : String) (inside : Bool)
    (lines : List LineResult) :
    Yarn.berryEntries label inside (berryResults package ++ lines) =
      { outcome := .valid (some (berryComponent label package)) } ::
        Yarn.berryEntries label false lines := by
  have hresolution := isSpellable_quoted (berryResolution_ne_nil package)
    (fun _ => isDescriptorCharacter_of_mem_berryResolution package)
    (show isQuote '"' = true by decide)
  have hversion : "version".toList ≠ Yarn.resolutionKey := by decide
  have hkey := berryDescriptor_ne_metadataKey package
  rw [berryResults]
  generalize "version".toList = version at hversion
  simp only [List.cons_append, List.nil_append, Yarn.berryEntries,
    nodeOf_spelled 2 hresolution, readResolution_berryResolution]
  simp [nodeOf, Yarn.entryKeyIndentation, Yarn.entryFieldIndentation, hkey,
    hversion]

end Berry

/-! ### The file -/

/-- What the lines of the header are read as. -/
def berryHeaderResults : List LineResult :=
  [.nothing, .nothing, .nothing, .node (nodeOf 0 Yarn.metadataKey []),
    .node (nodeOf 2 "version".toList ['8']), .nothing]

theorem map_readLine_berryHeader :
    berryHeader.map (readLine none) =
      berryHeaderResults.map (Prod.mk none) := by
  decide +kernel

/-- A file is read line by line, as its header and its packages are. -/
theorem readLines_lock {header : List (List Char)}
    {headerResults : List LineResult}
    {linesOf : RegistryPackage → List (List Char)}
    {resultsOf : RegistryPackage → List LineResult}
    (hheader : header.map (readLine none) = headerResults.map (Prod.mk none))
    (hlines : ∀ package, (linesOf package).map (readLine none) =
      (resultsOf package).map (Prod.mk none))
    (packages : List RegistryPackage) :
    readLines none (header ++ packages.flatMap linesOf ++ [[]]) =
      headerResults ++ (packages.flatMap resultsOf ++ [.nothing]) := by
  have hpackages : (packages.flatMap linesOf).map (readLine none) =
      (packages.flatMap resultsOf).map (Prod.mk none) := by
    rw [List.map_flatMap, List.map_flatMap]
    exact List.flatMap_congr fun package _ => hlines package
  rw [List.append_assoc, readLines_of_map hheader, readLines_of_map hpackages]
  rfl

theorem lineResults_berryFile (packages : List RegistryPackage) :
    readLines none (berryHeader ++ packages.flatMap berryLines ++ [[]]) =
      berryHeaderResults ++ (packages.flatMap berryResults ++ [.nothing]) :=
  readLines_lock map_readLine_berryHeader map_readLine_berryLines packages

theorem berryEntries_flatMap (label : String) (inside : Bool)
    (packages : List RegistryPackage) :
    Yarn.berryEntries label inside
        (packages.flatMap berryResults ++ [.nothing]) =
      packages.map fun package =>
        { outcome := .valid (some (berryComponent label package)) } := by
  induction packages generalizing inside with
  | nil => rfl
  | cons package packages ih =>
    rw [List.flatMap_cons, List.append_assoc, berryEntries_berryResults, ih,
      List.map_cons]

theorem berryEntries_header (label : String) (lines : List LineResult) :
    Yarn.berryEntries label false (berryHeaderResults ++ lines) =
      Yarn.berryEntries label true lines :=
  rfl

theorem isLine_berryLines {package : RegistryPackage} :
    ∀ line ∈ berryLines package, isLine line = true := by
  intro line hline
  rw [berryLines] at hline
  rw [List.mem_cons, List.mem_cons, List.mem_cons, List.mem_singleton] at hline
  rcases hline with rfl | rfl | rfl | rfl
  · rw [isLine_cons, isLine_append, isLine_berryDescriptor]
    decide
  · rw [isLine_append, package.isLine_version]
    decide
  · rw [isLine_append, isLine_append, isLine_append, isLine_append,
      package.isLine_version, isLine_text]
    decide
  · decide

theorem isLine_berryLock (packages : List RegistryPackage) :
    ∀ line ∈ berryHeader ++ packages.flatMap berryLines, isLine line = true :=
  forall_isLine_lock (by decide +kernel) (fun _ => isLine_berryLines) packages

theorem notMem_hash_of_isDescriptorCharacter {text : List Char}
    (htext : ∀ c ∈ text, isDescriptorCharacter c = true) : '#' ∉ text :=
  fun hmem => absurd (htext _ hmem) (by decide)

theorem notMem_hash_berryLines {package : RegistryPackage} :
    ∀ line ∈ berryLines package, '#' ∉ line := by
  have hdescriptor : '#' ∉ berryDescriptor package :=
    notMem_hash_of_isDescriptorCharacter fun _ =>
      isDescriptorCharacter_of_mem_berryDescriptor package
  have hversion : '#' ∉ package.version :=
    notMem_hash_of_isDescriptorCharacter fun _ =>
      isDescriptorCharacter_of_mem_version
  have hname : '#' ∉ package.realName.text :=
    notMem_hash_of_isDescriptorCharacter fun _ =>
      isDescriptorCharacter_of_mem_text
  intro line hline
  rw [berryLines] at hline
  rw [List.mem_cons, List.mem_cons, List.mem_cons, List.mem_singleton] at hline
  rcases hline with rfl | rfl | rfl | rfl <;> simp [hdescriptor, hversion, hname]

/-- The banner of Yarn Classic stands nowhere in the file. -/
theorem isClassicFormat_berryLock (packages : List RegistryPackage) :
    Yarn.isClassicFormat (byteText (berryLock packages)) = false := by
  have hheader : berryHeader.all
      (fun line => !containsText Yarn.classicBanner line) = true := by
    decide +kernel
  rw [← Bool.not_eq_true, Yarn.isClassicFormat, containsText_eq_true_iff]
  intro hoccurs
  have hinfix := hoccurs.trans (List.take_prefix _ _).isInfix
  rw [berryLock, byteText_asciiBytes (isLine_berryLock packages)] at hinfix
  obtain ⟨line, hline, hmem⟩ :=
    infix_of_infix_joinTerminated (by decide) (by decide) hinfix
  rcases List.mem_append.mp hline with h | h
  · have hnone := List.all_eq_true.mp hheader line h
    rw [containsText_eq_true_iff.mpr hmem] at hnone
    exact absurd hnone (by decide)
  · obtain ⟨package, -, hpackage⟩ := List.mem_flatMap.mp h
    exact notMem_hash_berryLines line hpackage
      (hmem.subset (show '#' ∈ Yarn.classicBanner by decide))

theorem readsPackages_berryLock (packages : List RegistryPackage)
    (path : FsPath) :
    ReadsPackages (Yarn.producer.manifest path (berryLock packages)).entries
      packages (berryComponent path.genericString)
      RegistryPackage.realName := by
  constructor
  · refine ⟨[], by simp, ?_⟩
    simp only [Yarn.producer, isClassicFormat_berryLock, Bool.false_eq_true,
      if_false, Yarn.berryManifest, lineResults]
    rw [berryLock, splitOn_byteText_asciiBytes (isLine_berryLock packages),
      lineResults_berryFile, berryEntries_header, berryEntries_flatMap,
      List.nil_append]
  · intro package _
    exact Yarn.isNpmReference_npmComponent package.realName.text_ne_nil
      (isByteText_of_isLine (isLine_text _))
      (isByteText_of_isLine package.isLine_version) _

/-- The purls of a yarn.lock of Yarn Berry are those of the packages
themselves. -/
theorem returnsPurls_berryLock (packages : List RegistryPackage)
    {path : FsPath} {options : ParseOptions}
    (hpath : path.filename = "yarn.lock")
    (hfits : Fits options packages.length (berryLock packages)) :
    ReturnsPurls Yarn.producer options path (berryLock packages)
      (realPurls packages) := by
  have hreads := readsPackages_berryLock packages path
  apply hreads.returnsPurls Yarn.isUnlimited_producer
    Yarn.hasNoOwnIdentity_producer _ hfits
  exact decide_eq_true hpath

end Bomwerk.Lockfiles.Registry
