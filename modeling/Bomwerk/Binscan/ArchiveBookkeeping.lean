import Bomwerk.Binscan.ArchiveNames

/-!
# Bookkeeping members

An archive keeps a symbol index and a name table beside its objects.  The
reader asks for them by the name in the header, before a name that stands in a
table or ahead of the data is known; and it takes every name that starts like
an index for one.
-/

namespace Bomwerk.Binscan

open Bomwerk.Core Bomwerk.Support

/-- ` SORTED`. -/
def sortedSuffix : List UInt8 := [0x20, 0x53, 0x4F, 0x52, 0x54, 0x45, 0x44]

/-- `_64`. -/
def wideSuffix : List UInt8 := [0x5F, 0x36, 0x34]

/-- The names of symbol indexes and name tables. -/
def bookkeepingNames : List (List UInt8) :=
  [gnuSymbolIndexName, gnuLongNameTableName, gnuSymbolIndex64Name,
    bsdSymbolIndexName, bsdSymbolIndexName ++ sortedSuffix,
    bsdSymbolIndexName ++ wideSuffix,
    bsdSymbolIndexName ++ wideSuffix ++ sortedSuffix]

theorem slash_or_isIndexName {name : List UInt8}
    (hname : name ∈ bookkeepingNames) : 0x2F ∈ name ∨ IsIndexName name := by
  simp only [bookkeepingNames, List.mem_cons, List.not_mem_nil, or_false]
    at hname
  rcases hname with rfl | rfl | rfl | rfl | rfl | rfl | rfl <;> decide

theorem ne_nil_of_mem_bookkeepingNames {name : List UInt8}
    (hname : name ∈ bookkeepingNames) : name ≠ [] := by
  rintro rfl
  revert hname
  decide

/-! ## One record -/

namespace NameSpelling

/-- The name in a `//` table, as far as the reader takes it. -/
def tableText (name : List UInt8) : List UInt8 :=
  name.takeWhile fun byte => byte ≠ 0x2F ∧ byte ≠ 0x0A

/-- A name that comes back although it is that of bookkeeping: it stands in a
table or ahead of the data. -/
def ListsBookkeeping (spelling : NameSpelling) (name : List UInt8) : Prop :=
  match spelling, spelling.isLong name with
  | gnu _, true => tableText name ∈ bookkeepingNames
  | bsd _ _, true => name ∈ bookkeepingNames
  | _, false => False

/-- A name in the header that passes for one of bookkeeping. -/
def IsTaken (spelling : NameSpelling) (name : List UInt8) : Prop :=
  match spelling, spelling.isLong name with
  | gnu _, false => headerText name = [] ∨ IsIndexName (headerText name)
  | bsd _ _, false => IsIndexName name
  | _, true => False

variable {spelling : NameSpelling} {table : List UInt8}
  {member : ArchiveMember} {record : MemberRecord}

theorem headerText_subset (name : List UInt8) : headerText name ⊆ name :=
  (List.dropWhile_sublist _).subset

theorem rawName_ne_gnuLongNameTableName
    (hspelled : Spelled table member spelling record)
    (htable : table.length ≤ maxBinaryBytes)
    (hholds : spelling.Holds member.name)
    (hplain : spelling.isLong member.name = false → 0x2F ∉ member.name) :
    record.rawName ≠ gnuLongNameTableName := by
  cases hspelled with
  | inTable hlong hat =>
    rw [rawName_inTable htable hat]
    exact tabled_ne_gnuLongNameTableName _
  | slashed hshort =>
    rw [rawName_slashed (length_lt_of_isLong_gnu hshort)]
    intro heq
    have htext : headerText member.name = [0x2F] :=
      List.append_cancel_right heq
    apply hplain hshort
    apply headerText_subset
    rw [htext]
    exact List.mem_singleton_self _
  | extended hlong =>
    rw [rawName_extended hholds.short]
    exact extended_ne_gnuLongNameTableName _
  | bare hshort =>
    obtain ⟨hwidth, hsolid, -⟩ := fitsBare_of_not_isLong hshort
    rw [rawName_of_solid hsolid hwidth]
    rintro heq
    dsimp only at heq
    apply hplain hshort
    rw [heq]
    decide

/-- Which records list a name of bookkeeping. -/
theorem resolves_bookkeeping_iff
    (hspelled : Spelled table member spelling record)
    (htable : table.length ≤ maxBinaryBytes)
    (hholds : spelling.Holds member.name)
    (hplain : spelling.isLong member.name = false → 0x2F ∉ member.name) :
    (∃ name ∈ bookkeepingNames,
        resolveMemberName record.rawName table record.data = some name) ↔
      spelling.ListsBookkeeping member.name := by
  cases hspelled with
  | inTable hlong hat =>
    obtain ⟨hword, -⟩ := offset_of_isAt htable hat
    have hlength : member.name.length ≤ maxStringLength := hholds.short
    simp only [ListsBookkeeping, hlong]
    rw [rawName_inTable htable hat, resolveMemberName_of_isAt hword hlength hat]
    constructor
    · rintro ⟨name, hname, hfound⟩
      rw [nonEmptyName_eq_some_iff] at hfound
      rw [tableText, ← hfound.1]
      exact hname
    · intro hname
      refine ⟨_, hname, ?_⟩
      rw [nonEmptyName_eq_some_iff]
      exact ⟨rfl, ne_nil_of_mem_bookkeepingNames hname⟩
  | slashed hshort =>
    simp only [ListsBookkeeping, hshort, iff_false]
    rintro ⟨name, hname, hfound⟩
    rw [rawName_slashed (length_lt_of_isLong_gnu hshort),
      resolveMemberName_slashed] at hfound
    obtain ⟨rfl, -, hindex, -⟩ := hfound
    rcases slash_or_isIndexName hname with hslash | hother
    · exact hplain hshort (headerText_subset _ hslash)
    · exact hindex hother
  | extended hlong =>
    simp only [ListsBookkeeping, hlong]
    rw [rawName_extended hholds.short, resolveMemberName_extended
      hholds.ne_nil hholds.noNul hholds.short]
    simp
  | bare hshort =>
    obtain ⟨hwidth, hsolid, hextended⟩ := fitsBare_of_not_isLong hshort
    have hnone := hplain hshort
    simp only [ListsBookkeeping, hshort, iff_false]
    rintro ⟨name, hname, hfound⟩
    rw [rawName_of_solid hsolid hwidth] at hfound
    have hindex : ¬ IsIndexName member.name := by
      intro hindex
      rw [resolveMemberName_of_isIndexName hindex] at hfound
      simp at hfound
    have hhead : member.name.head? ≠ some 0x2F := fun h =>
      hnone (List.mem_of_head? h)
    have hlast : member.name.getLast? ≠ some 0x2F := fun h =>
      hnone (List.mem_of_getLast? h)
    rw [resolveMemberName_bare hholds.ne_nil hextended hindex hhead,
      if_neg hlast] at hfound
    obtain rfl := Option.some.inj hfound
    exact (slash_or_isIndexName hname).elim hnone hindex

/-- Which records pass for bookkeeping. -/
theorem isBookkeepingMember_rawName_iff
    (hspelled : Spelled table member spelling record)
    (htable : table.length ≤ maxBinaryBytes)
    (hholds : spelling.Holds member.name)
    (hplain : spelling.isLong member.name = false → 0x2F ∉ member.name) :
    isBookkeepingMember record.rawName = true ↔
      spelling.IsTaken member.name := by
  cases hspelled with
  | inTable hlong hat =>
    simp [IsTaken, hlong, rawName_inTable htable hat,
      isBookkeepingMember_tabled]
  | slashed hshort =>
    have hslash : 0x2F ∉ headerText member.name := fun h =>
      hplain hshort (headerText_subset _ h)
    have hother : ∀ {text : List UInt8}, 0x2F ∈ text →
        headerText member.name ++ [0x2F] ≠ text ++ [0x2F] := by
      intro text htext heq
      exact hslash (List.append_cancel_right heq ▸ htext)
    have htable : headerText member.name ++ [0x2F] ≠ gnuLongNameTableName :=
      @hother [0x2F] (by decide)
    have hwide : headerText member.name ++ [0x2F] ≠ gnuSymbolIndex64Name :=
      @hother [0x2F, 0x53, 0x59, 0x4D, 0x36, 0x34] (by decide)
    have hempty : headerText member.name ++ [0x2F] = gnuSymbolIndexName ↔
        headerText member.name = [] :=
      ⟨fun h => List.append_left_eq_self.mp h, fun h => by rw [h]; rfl⟩
    simp only [IsTaken, hshort]
    rw [rawName_slashed (length_lt_of_isLong_gnu hshort),
      isBookkeepingMember_iff, isIndexName_append_slash, hempty]
    simp [htable, hwide]
  | extended hlong =>
    simp [IsTaken, hlong, rawName_extended hholds.short,
      isBookkeepingMember_extended]
  | bare hshort =>
    obtain ⟨hwidth, hsolid, -⟩ := fitsBare_of_not_isLong hshort
    have hnone := hplain hshort
    have hname : ∀ {other : List UInt8},
        (MemberRecord.mk member.name member.data member.metadata).field =
          other → member.name = other := fun h => h
    simp only [IsTaken, hshort]
    rw [rawName_of_solid hsolid hwidth, isBookkeepingMember_iff]
    constructor
    · rintro (heq | heq | heq | hindex)
      · exact absurd (by rw [hname heq]; decide) hnone
      · exact absurd (by rw [hname heq]; decide) hnone
      · exact absurd (by rw [hname heq]; decide) hnone
      · exact hindex
    · intro hindex
      exact Or.inr (Or.inr (Or.inr hindex))

/-- A name that is kept apart: one of bookkeeping is not listed, and no other
is taken for one. -/
def Distinguishes (spelling : NameSpelling) (name : List UInt8) : Prop :=
  ¬ spelling.ListsBookkeeping name ∧
    (name ∉ bookkeepingNames → ¬ spelling.IsTaken name)

end NameSpelling

/-! ## The archive -/

namespace Archive

variable {archive : Archive}

/-- An archive whose header fields hold no slash of a name's own: the format
ends names with it. -/
structure WellFormed (archive : Archive) : Prop extends archive.InBounds where
  plain : ∀ member ∈ archive.members,
    archive.spelling.isLong member.name = false → 0x2F ∉ member.name

/-- No name of bookkeeping is among the member names, and no other member is
taken for bookkeeping. -/
structure TellsApart (archive : Archive) (path : String) : Prop where
  unlisted : ∀ name ∈ bookkeepingNames,
    name ∉ (readArchive path (some (buildArchive archive))).value.memberNames
  untaken : ∀ member record,
    (member, record) ∈ archive.members.zip archive.memberRecords →
      member.name ∉ bookkeepingNames →
        isBookkeepingMember record.rawName = false

theorem mem_memberNames_iff (hformed : archive.WellFormed) (path : String)
    (name : List UInt8) :
    name ∈ (readArchive path (some (buildArchive archive))).value.memberNames ↔
      ∃ record ∈ archive.memberRecords,
        resolveMemberName record.rawName archive.table record.data =
          some name := by
  have htable := length_table_le hformed.toInBounds
  rw [readArchive_buildArchive hformed.toInBounds,
    (isSortedSet_normalized _).mem_iff, ArchiveReader.mem_listedNames_iff]
  intro record hmem
  obtain ⟨member, hmember, hspelled⟩ :=
    exists_of_forall₂_right archive.spelled_memberRecords hmem
  exact NameSpelling.rawName_ne_gnuLongNameTableName hspelled htable
    (hformed.names member hmember) (hformed.plain member hmember)

theorem unlisted_iff (hformed : archive.WellFormed) (path : String) :
    (∀ name ∈ bookkeepingNames, name ∉
        (readArchive path (some (buildArchive archive))).value.memberNames) ↔
      ∀ member ∈ archive.members,
        ¬ archive.spelling.ListsBookkeeping member.name := by
  have htable := length_table_le hformed.toInBounds
  have hall := archive.spelled_memberRecords
  constructor
  · intro hunlisted member hmember hlists
    obtain ⟨record, hmem, hspelled⟩ := exists_of_forall₂_left hall hmember
    obtain ⟨name, hname, hfound⟩ :=
      (NameSpelling.resolves_bookkeeping_iff hspelled htable
        (hformed.names member hmember) (hformed.plain member hmember)).mpr
        hlists
    apply hunlisted name hname
    exact (mem_memberNames_iff hformed path name).mpr ⟨record, hmem, hfound⟩
  · intro hnone name hname hlisted
    obtain ⟨record, hmem, hfound⟩ :=
      (mem_memberNames_iff hformed path name).mp hlisted
    obtain ⟨member, hmember, hspelled⟩ := exists_of_forall₂_right hall hmem
    apply hnone member hmember
    exact (NameSpelling.resolves_bookkeeping_iff hspelled htable
      (hformed.names member hmember) (hformed.plain member hmember)).mp
      ⟨name, hname, hfound⟩

theorem exists_mem_zip {α β : Type*} {R : α → β → Prop} {as : List α}
    {bs : List β} (hall : List.Forall₂ R as bs) {a : α} (ha : a ∈ as) :
    ∃ b, (a, b) ∈ as.zip bs := by
  induction hall with
  | nil => simp at ha
  | cons _ _ ih =>
    rcases List.mem_cons.mp ha with rfl | ha
    · exact ⟨_, List.mem_cons_self⟩
    · obtain ⟨b, hb⟩ := ih ha
      exact ⟨b, List.mem_cons_of_mem _ hb⟩

theorem untaken_iff (hformed : archive.WellFormed) :
    (∀ member record,
      (member, record) ∈ archive.members.zip archive.memberRecords →
        member.name ∉ bookkeepingNames →
          isBookkeepingMember record.rawName = false) ↔
      ∀ member ∈ archive.members, member.name ∉ bookkeepingNames →
        ¬ archive.spelling.IsTaken member.name := by
  have htable := length_table_le hformed.toInBounds
  have hall := archive.spelled_memberRecords
  have htaken : ∀ member record,
      (member, record) ∈ archive.members.zip archive.memberRecords →
        (isBookkeepingMember record.rawName = true ↔
          archive.spelling.IsTaken member.name) := by
    intro member record hzip
    have hmember := (List.of_mem_zip hzip).1
    exact NameSpelling.isBookkeepingMember_rawName_iff
      ((List.forall₂_iff_zip.mp hall).2 hzip) htable
      (hformed.names member hmember) (hformed.plain member hmember)
  constructor
  · intro huntaken member hmember hname hother
    obtain ⟨record, hzip⟩ := exists_mem_zip hall hmember
    have hfalse := huntaken member record hzip hname
    rw [(htaken member record hzip).mpr hother] at hfalse
    exact absurd hfalse (by simp)
  · intro hnone member record hzip hname
    rw [Bool.eq_false_iff]
    intro htrue
    exact hnone member (List.of_mem_zip hzip).1 hname
      ((htaken member record hzip).mp htrue)

/-- Bookkeeping and objects are told apart exactly when each name is. -/
theorem tellsApart_iff (archive : Archive) (hformed : archive.WellFormed)
    (path : String) :
    archive.TellsApart path ↔
      ∀ member ∈ archive.members,
        archive.spelling.Distinguishes member.name := by
  constructor
  · intro happart member hmember
    exact ⟨(unlisted_iff hformed path).mp happart.unlisted member hmember,
      (untaken_iff hformed).mp happart.untaken member hmember⟩
  · intro hnames
    refine ⟨(unlisted_iff hformed path).mpr ?_, (untaken_iff hformed).mpr ?_⟩
    · exact fun member hmember => (hnames member hmember).1
    · exact fun member hmember => (hnames member hmember).2

/-- An archive whose index has its name ahead of its data, as
`__.SYMDEF SORTED` in twenty bytes. -/
def indexAheadOfData : Archive :=
  { spelling := .bsd true fun _ => 4
    members :=
      [⟨bsdSymbolIndexName ++ sortedSuffix, List.replicate 8 0, plainMetadata⟩,
        ⟨[0x61, 0x2E, 0x6F], [0x78], plainMetadata⟩]
    index := none
    tableMetadata := plainMetadata }

theorem not_tellsApart_indexAheadOfData :
    ¬ indexAheadOfData.TellsApart "liba.a" := by
  intro happart
  have hlisted : bsdSymbolIndexName ++ sortedSuffix ∈
      (readArchive "liba.a"
        (some (buildArchive indexAheadOfData))).value.memberNames := by
    decide +kernel
  exact happart.unlisted _ (by decide) hlisted

theorem tellsApart_iff_indexAheadOfData :
    indexAheadOfData.TellsApart "liba.a" ↔
      ∀ member ∈ indexAheadOfData.members,
        indexAheadOfData.spelling.Distinguishes member.name := by
  apply tellsApart_iff
  refine ⟨⟨by decide +kernel, by decide, ?_⟩, by decide⟩
  intro member hmember
  simp only [indexAheadOfData, List.mem_cons, List.not_mem_nil, or_false]
    at hmember
  rcases hmember with rfl | rfl <;>
    exact ⟨by decide, by decide, by decide⟩

end Archive

end Bomwerk.Binscan
