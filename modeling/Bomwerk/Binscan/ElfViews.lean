import Bomwerk.Binscan.StaticVerdict

/-!
# Section headers and program headers

Both header tables of a shared object lead to its dynamic table: a section that
names its string table, and a segment whose string table is found through the
address that the dynamic table gives and the segment loaded there.  Without its
section headers an image is read through the other table alone.
-/

namespace Bomwerk.Binscan

open Bomwerk.Core Bomwerk.Support

/-! ## The entries of a dynamic table -/

def dynamicEntry (is64Bit : Bool) (region : ByteCursor) (index : Nat) :
    Option (Nat × Nat) :=
  let size := if is64Bit then 16 else 8
  (region.subrange (index * size) size).bind fun entry =>
  (fieldOf is64Bit entry dynamicTag).bind fun tag =>
  (fieldOf is64Bit entry dynamicValue).map fun value => (tag, value)

/-- The entries ahead of `DT_NULL`, from an index on. -/
def entriesFrom (is64Bit : Bool) (region : ByteCursor) :
    Nat → Nat → List (Nat × Nat)
  | 0, _ => []
  | rounds + 1, index =>
    match dynamicEntry is64Bit region index with
    | none => []
    | some entry =>
      if entry.1 = dynamicTagNull then []
      else entry :: entriesFrom is64Bit region rounds (index + 1)

/-- All entries: a region has no more of them than bytes. -/
def tableEntries (is64Bit : Bool) (region : ByteCursor) : List (Nat × Nat) :=
  entriesFrom is64Bit region (maxDynamicEntries + region.size) 0

theorem take_entriesFrom (is64Bit : Bool) (region : ByteCursor)
    (rounds more index : Nat) :
    (entriesFrom is64Bit region (rounds + more) index).take rounds =
      entriesFrom is64Bit region rounds index := by
  induction rounds generalizing index with
  | zero => rw [List.take_zero, entriesFrom]
  | succ rounds ih =>
    rw [Nat.add_right_comm, entriesFrom, entriesFrom]
    cases dynamicEntry is64Bit region index with
    | none => rfl
    | some entry =>
      dsimp only
      split_ifs
      · rfl
      · rw [List.take_succ_cons, ih]

theorem take_tableEntries (is64Bit : Bool) (region : ByteCursor) :
    (tableEntries is64Bit region).take maxDynamicEntries =
      entriesFrom is64Bit region maxDynamicEntries 0 :=
  take_entriesFrom is64Bit region _ _ _

namespace ElfReader

variable {reader : ElfReader}

def recordEntries (found : DynamicArray) (entries : List (Nat × Nat)) :
    DynamicArray :=
  entries.foldl (fun found entry => recordEntry found entry.1 entry.2) found

theorem recordEntries_cons (found : DynamicArray) (entry : Nat × Nat)
    (entries : List (Nat × Nat)) :
    recordEntries found (entry :: entries) =
      recordEntries (recordEntry found entry.1 entry.2) entries := rfl

theorem recordEntry_arrayTruncated (found : DynamicArray) (tag value : Nat) :
    (recordEntry found tag value).arrayTruncated = found.arrayTruncated := by
  rw [recordEntry]
  split_ifs <;> rfl

theorem walkDynamicArrayFrom_succ (region : ByteCursor) (rounds index : Nat)
    (found : DynamicArray) :
    reader.walkDynamicArrayFrom region (rounds + 1) index found =
      match dynamicEntry reader.is64Bit region index with
      | none => found
      | some entry =>
        if entry.1 = dynamicTagNull then found
        else
          reader.walkDynamicArrayFrom region rounds (index + 1)
            (recordEntry found entry.1 entry.2) := by
  rw [walkDynamicArrayFrom, dynamicEntry, dynamicEntrySize]
  cases region.subrange (index * if reader.is64Bit then 16 else 8)
      (if reader.is64Bit then 16 else 8) with
  | none => rfl
  | some entry =>
    simp only [field, Option.bind_some]
    cases fieldOf reader.is64Bit entry dynamicTag with
    | none => rfl
    | some tag =>
      cases fieldOf reader.is64Bit entry dynamicValue with
      | none => rfl
      | some value => rfl

/-- The walk keeps the entries it sees, and is cut off when it sees as many as
it may. -/
theorem walkDynamicArrayFrom_eq (region : ByteCursor) (rounds index : Nat)
    (found : DynamicArray) :
    reader.walkDynamicArrayFrom region rounds index found =
      { recordEntries found (entriesFrom reader.is64Bit region rounds index) with
        arrayTruncated := found.arrayTruncated || decide
          ((entriesFrom reader.is64Bit region rounds index).length = rounds) }
    := by
  induction rounds generalizing index found with
  | zero => simp [walkDynamicArrayFrom, entriesFrom, recordEntries]
  | succ rounds ih =>
    rw [walkDynamicArrayFrom_succ, entriesFrom]
    cases dynamicEntry reader.is64Bit region index with
    | none => simp [recordEntries]
    | some entry =>
      dsimp only
      split_ifs with hnull
      · simp [recordEntries]
      · rw [ih, recordEntry_arrayTruncated]
        simp [recordEntries]

theorem walkDynamicArray_congr {other : ElfReader}
    (hclass : other.is64Bit = reader.is64Bit) (region : ByteCursor) :
    other.walkDynamicArray region = reader.walkDynamicArray region := by
  rw [walkDynamicArray, walkDynamicArray, walkDynamicArrayFrom_eq,
    walkDynamicArrayFrom_eq, hclass]

/-- The table gives one value for a tag. -/
structure Declares (entries : List (Nat × Nat)) (tag value : Nat) : Prop where
  mem : (tag, value) ∈ entries
  only : ∀ entry ∈ entries, entry.1 = tag → entry.2 = value

/-- A member of the walk's result that the entries of one tag set. -/
theorem recordEntries_setBy {member : DynamicArray → Option Nat} {tag : Nat}
    (hmember : ∀ (found : DynamicArray) (entry : Nat × Nat),
      member (recordEntry found entry.1 entry.2) =
        if entry.1 = tag then some entry.2 else member found)
    {entries : List (Nat × Nat)} {value? : Option Nat}
    (honly : ∀ entry ∈ entries, entry.1 = tag → some entry.2 = value?)
    {found : DynamicArray}
    (hfound : member found = value? ∨ ∃ entry ∈ entries, entry.1 = tag) :
    member (recordEntries found entries) = value? := by
  induction entries generalizing found with
  | nil =>
    rcases hfound with hfound | ⟨entry, hentry, -⟩
    · exact hfound
    · simp at hentry
  | cons entry entries ih =>
    rw [recordEntries_cons]
    apply ih fun other hother => honly other (List.mem_cons_of_mem _ hother)
    rw [hmember]
    by_cases htag : entry.1 = tag
    · left
      rw [if_pos htag]
      exact honly entry List.mem_cons_self htag
    · rw [if_neg htag]
      refine hfound.imp_right ?_
      rintro ⟨other, hother, hothertag⟩
      rcases List.mem_cons.mp hother with rfl | hother
      · exact absurd hothertag htag
      · exact ⟨other, hother, hothertag⟩

theorem recordEntry_stringTableAddress (found : DynamicArray)
    (entry : Nat × Nat) :
    (recordEntry found entry.1 entry.2).stringTableAddress =
      if entry.1 = dynamicTagStringTable then some entry.2
      else found.stringTableAddress := by
  by_cases htag : entry.1 = dynamicTagStringTable
  · rw [if_pos htag, htag]
    rfl
  · rw [if_neg htag, recordEntry]
    split_ifs <;> rfl

theorem recordEntry_stringTableSize (found : DynamicArray)
    (entry : Nat × Nat) :
    (recordEntry found entry.1 entry.2).stringTableSize =
      if entry.1 = dynamicTagStringTableSize then some entry.2
      else found.stringTableSize := by
  by_cases htag : entry.1 = dynamicTagStringTableSize
  · rw [if_pos htag, htag]
    rfl
  · rw [if_neg htag, recordEntry]
    split_ifs <;> rfl

theorem prefix_recordEntries (found : DynamicArray) (entries : List (Nat × Nat)) :
    found.neededOffsets <+: (recordEntries found entries).neededOffsets := by
  induction entries generalizing found with
  | nil => exact List.prefix_rfl
  | cons entry entries ih =>
    have hone : found.neededOffsets <+:
        (recordEntry found entry.1 entry.2).neededOffsets := by
      rw [recordEntry]
      split_ifs
      · exact List.prefix_rfl
      · exact List.prefix_append _ _
      · exact List.prefix_rfl
      · exact List.prefix_rfl
      · exact List.prefix_rfl
      · exact List.prefix_rfl
    rw [recordEntries_cons]
    exact List.IsPrefix.trans hone (ih _)

theorem recordEntries_unplaced {entries : List (Nat × Nat)}
    (hother : ∀ entry ∈ entries, entry.1 ≠ dynamicTagStringTable)
    (found : DynamicArray) :
    (recordEntries found entries).stringTableAddress =
      found.stringTableAddress :=
  recordEntries_setBy recordEntry_stringTableAddress
    (fun entry hentry htag => absurd htag (hother entry hentry)) (Or.inl rfl)

end ElfReader

/-! ## The two views -/

/-- Where a shared object keeps its dynamic table and the strings of it, and
which headers say so. -/
structure DynamicLayout where
  offset : Nat
  size : Nat
  stringOffset : Nat
  stringSize : Nat
  address : Nat
  sectionCount : Nat
  dynamicSection : Nat
  stringSection : Nat
  segmentCount : Nat
  dynamicSegment : Nat
  loadSegment : Nat

/-- The bytes of an image from an offset on. -/
def ByteCursor.block (image : ByteCursor) (offset size : Nat) : ByteCursor :=
  ⟨(image.bytes.drop offset).take size, image.byteOrder⟩

namespace ElfReader

/-- A segment that is loaded from the file, with the address in the loaded
part. -/
structure Loads (reader : ElfReader) (index address : Nat)
    (start first length : Nat) : Prop where
  type : reader.field (reader.declaredEntry reader.segments index) segmentType =
    some segmentTypeLoad
  virtualAddress : reader.field (reader.declaredEntry reader.segments index)
    segmentVirtualAddress = some start
  fileOffset : reader.field (reader.declaredEntry reader.segments index)
    segmentFileOffset = some first
  fileSize : reader.field (reader.declaredEntry reader.segments index)
    segmentFileSize = some length
  start_le : start ≤ address
  lt_length : address - start < length

/-- The dynamic table as the program headers show it. -/
structure SegmentView (reader : ElfReader) (layout : DynamicLayout) : Prop where
  declared : reader.field reader.image headerSegmentCount =
    some layout.segmentCount
  whole : ∀ index < layout.segmentCount, reader.WholeEntry reader.segments index
  dynamic_lt : layout.dynamicSegment < layout.segmentCount
  dynamic_iff : ∀ index < layout.segmentCount,
    reader.field (reader.declaredEntry reader.segments index) segmentType =
      some segmentTypeDynamic ↔ index = layout.dynamicSegment
  dynamic_offset : reader.field (reader.declaredEntry reader.segments
    layout.dynamicSegment) segmentFileOffset = some layout.offset
  dynamic_size : reader.field (reader.declaredEntry reader.segments
    layout.dynamicSegment) segmentFileSize = some layout.size
  inside : layout.offset + layout.size ≤ reader.image.size
  address : Declares (tableEntries reader.is64Bit
    (reader.image.block layout.offset layout.size)) dynamicTagStringTable
    layout.address
  stringSize : Declares (tableEntries reader.is64Bit
    (reader.image.block layout.offset layout.size)) dynamicTagStringTableSize
    layout.stringSize
  load_lt : layout.loadSegment < layout.segmentCount
  load : ∃ start first length,
    reader.Loads layout.loadSegment layout.address start first length ∧
      layout.address - start + layout.stringSize ≤ length
  load_only : ∀ index < layout.segmentCount, ∀ start first length,
    reader.Loads index layout.address start first length →
      first + (layout.address - start) = layout.stringOffset
  strings_inside : layout.stringOffset < reader.image.size ∧
    layout.stringOffset + layout.stringSize ≤ reader.image.size

/-- The dynamic table as the section headers show it. -/
structure SectionView (reader : ElfReader) (layout : DynamicLayout) : Prop where
  declared : reader.field reader.image headerSectionCount =
    some layout.sectionCount
  whole : ∀ index < layout.sectionCount, reader.WholeEntry reader.sections index
  dynamic_lt : layout.dynamicSection < layout.sectionCount
  dynamic_iff : ∀ index < layout.sectionCount,
    reader.field (reader.declaredEntry reader.sections index) sectionType =
      some sectionTypeDynamic ↔ index = layout.dynamicSection
  dynamic_offset : reader.field (reader.declaredEntry reader.sections
    layout.dynamicSection) sectionFileOffset = some layout.offset
  dynamic_size : reader.field (reader.declaredEntry reader.sections
    layout.dynamicSection) sectionSize = some layout.size
  link : reader.field (reader.declaredEntry reader.sections
    layout.dynamicSection) sectionLink = some layout.stringSection
  strings_lt : layout.stringSection < layout.sectionCount
  strings_type : reader.field (reader.declaredEntry reader.sections
    layout.stringSection) sectionType = some sectionTypeStringTable
  strings_offset : reader.field (reader.declaredEntry reader.sections
    layout.stringSection) sectionFileOffset = some layout.stringOffset
  strings_size : reader.field (reader.declaredEntry reader.sections
    layout.stringSection) sectionSize = some layout.stringSize

/-- What the walk has to get to: the two segments, and the two entries that
place the strings. -/
structure Follows (reader : ElfReader) (layout : DynamicLayout) : Prop where
  dynamicSegment : layout.dynamicSegment < maxProgramHeaders
  loadSegment : layout.loadSegment < maxProgramHeaders
  address : (dynamicTagStringTable, layout.address) ∈
    (tableEntries reader.is64Bit
      (reader.image.block layout.offset layout.size)).take maxDynamicEntries
  stringSize : (dynamicTagStringTableSize, layout.stringSize) ∈
    (tableEntries reader.is64Bit
      (reader.image.block layout.offset layout.size)).take maxDynamicEntries

variable {reader : ElfReader} {layout : DynamicLayout}

theorem contents_block {offset size : Nat}
    (hinside : offset + size ≤ reader.image.size) :
    reader.contents (some offset) (some size) =
      some (reader.image.block offset size) := by
  have hguard : ¬ (reader.image.size < offset ∨ reader.image.size < size) := by
    omega
  rw [contents, if_neg hguard, ByteCursor.subrange_eq_some_iff]
  exact ⟨hinside, rfl⟩

/-- A type that only one entry has: the entry is found if it is followed. -/
theorem firstOfType_of_only {table : HeaderTable}
    (hbounded : reader.BoundedTable table) {typeField : ClassDependentField}
    {wanted count only : Nat} (hcount : table.count ≤ count)
    (honly : ∀ index < count,
      reader.field (reader.declaredEntry table index) typeField =
        some wanted ↔ index = only)
    (hwhole : only < table.count → reader.WholeEntry table only) :
    reader.firstOfType table typeField wanted =
      if only < table.count then some (reader.declaredEntry table only)
      else none := by
  split_ifs with hfollowed
  · rw [firstOfType_eq_some_iff hbounded]
    refine ⟨only, hfollowed, hwhole hfollowed,
      (honly only (by omega)).mpr rfl, rfl, ?_⟩
    intro earlier hearlier _ htype
    have heq := (honly earlier (by omega)).mp htype
    exact absurd heq hearlier.ne
  · rw [Option.eq_none_iff_forall_ne_some]
    intro header hheader
    obtain ⟨index, hindex, -, htype, -⟩ :=
      (firstOfType_eq_some_iff hbounded).mp hheader
    have heq := (honly index (by omega)).mp htype
    omega

/-- The program headers lead to the table. -/
theorem SegmentView.locateDynamicViaSegments (hview : reader.SegmentView layout)
    (hbounded : reader.BoundedTable reader.segments)
    (hcount : reader.segments.count = min layout.segmentCount maxProgramHeaders)
    (hfollowed : layout.dynamicSegment < maxProgramHeaders) :
    reader.locateDynamicViaSegments =
      (some ⟨reader.image.block layout.offset layout.size, false, none⟩, [])
    := by
  have hlt := hview.dynamic_lt
  rw [ElfReader.locateDynamicViaSegments,
    firstOfType_of_only hbounded (by omega) hview.dynamic_iff
      fun _ => hview.whole _ hlt,
    if_pos (by omega)]
  dsimp only
  rw [hview.dynamic_offset, hview.dynamic_size, contents_block hview.inside]

/-- The section headers lead to the same table, as far as they are followed. -/
theorem SectionView.locateDynamicViaSections (hview : reader.SectionView layout)
    (hbounded : reader.BoundedTable reader.sections)
    (hcount : reader.sections.count = min layout.sectionCount maxSectionHeaders)
    (hinside : layout.offset + layout.size ≤ reader.image.size) :
    reader.locateDynamicViaSections =
      if layout.dynamicSection < maxSectionHeaders then
        (some ⟨reader.image.block layout.offset layout.size, true,
          (some layout.stringSection).filter (· < reader.sections.count)⟩, [])
      else (none, []) := by
  have hlt := hview.dynamic_lt
  rw [ElfReader.locateDynamicViaSections,
    firstOfType_of_only hbounded (by omega) hview.dynamic_iff
      fun _ => hview.whole _ hlt]
  split_ifs with hcounted hfollowed hfollowed
  · dsimp only
    rw [sectionContents, hview.dynamic_offset, hview.dynamic_size,
      contents_block hinside, hview.link]
  · omega
  · omega
  · rfl

theorem SectionView.linkedStringTable (hview : reader.SectionView layout)
    (hbounded : reader.BoundedTable reader.sections)
    (hcount : reader.sections.count = min layout.sectionCount maxSectionHeaders)
    (hinside : layout.stringOffset + layout.stringSize ≤ reader.image.size) :
    reader.linkedStringTable
        ((some layout.stringSection).filter (· < reader.sections.count)) =
      if layout.stringSection < maxSectionHeaders then
        some (reader.image.block layout.stringOffset layout.stringSize)
      else none := by
  have hlt := hview.strings_lt
  rw [Option.filter_some]
  by_cases hfollowed : layout.stringSection < maxSectionHeaders
  · have hheader : reader.sectionHeader layout.stringSection =
        some (reader.declaredEntry reader.sections layout.stringSection) := by
      rw [sectionHeader, tableEntry_eq_some_iff hbounded hfollowed.le]
      exact ⟨hview.whole _ hlt, rfl⟩
    have hcounted : layout.stringSection < reader.sections.count := by omega
    rw [if_pos (decide_eq_true hcounted), if_pos hfollowed,
      ElfReader.linkedStringTable, Option.bind_some, hheader, Option.bind_some,
      if_pos hview.strings_type, sectionContents, hview.strings_offset,
      hview.strings_size, contents_block hinside]
  · have hcounted : ¬ layout.stringSection < reader.sections.count := by omega
    rw [if_neg (by simpa using hcounted), if_neg hfollowed]
    rfl

/-- The address of the strings leads to them. -/
theorem SegmentView.fileOffsetOfAddress (hview : reader.SegmentView layout)
    (hbounded : reader.BoundedTable reader.segments)
    (hcount : reader.segments.count = min layout.segmentCount maxProgramHeaders)
    (hfollowed : layout.loadSegment < maxProgramHeaders) :
    reader.fileOffsetOfAddress layout.address = some layout.stringOffset := by
  have hsize := hbounded.size
  obtain ⟨hinside, -⟩ := hview.strings_inside
  have hentry : ∀ index < reader.segments.count, reader.segmentHeader index =
        some (reader.declaredEntry reader.segments index) := by
    intro index hindex
    rw [segmentHeader, tableEntry_eq_some_iff hbounded
      (hindex.le.trans hbounded.count)]
    exact ⟨hview.whole _ (by omega), rfl⟩
  have hanswer : ∀ index < reader.segments.count, ∀ start first length,
      reader.Loads index layout.address start first length →
        reader.segmentFileOffsetOf layout.address index =
          some layout.stringOffset := by
    intro index hindex start first length hloads
    have hplace := hview.load_only index (by omega) start first length hloads
    have hexact : (first + (layout.address - start)) % 2 ^ 64 =
        layout.stringOffset := by
      rw [hplace]
      exact Nat.mod_eq_of_lt (by omega)
    have hkept : ¬ (layout.stringOffset < first ∨
        reader.image.size ≤ layout.stringOffset) := by
      omega
    rw [segmentFileOffsetOf, hentry index hindex]
    simp only [hloads.type, hloads.virtualAddress, hloads.fileOffset,
      hloads.fileSize, hexact]
    rw [if_neg (by simp), if_neg (not_lt.mpr hloads.start_le),
      if_neg (not_le.mpr hloads.lt_length), if_neg hkept]
  have honly : ∀ index < reader.segments.count, ∀ offset,
      reader.segmentFileOffsetOf layout.address index = some offset →
        offset = layout.stringOffset := by
    intro index hindex offset hoffset
    have hfound := hoffset
    rw [segmentFileOffsetOf, hentry index hindex] at hfound
    dsimp only at hfound
    split at hfound
    · next type start first length htype hstart hfirst hlength =>
        split_ifs at hfound with hother hbelow hbehind hwrapped
        have hloads : reader.Loads index layout.address start first length :=
          ⟨by rw [htype, Classical.not_not.mp hother], hstart, hfirst, hlength,
            not_lt.mp hbelow, not_le.mp hbehind⟩
        have hsame := hanswer index hindex start first length hloads
        rw [hoffset] at hsame
        exact Option.some.inj hsame
    · simp at hfound
  obtain ⟨start, first, length, hloads, -⟩ := hview.load
  have hload := hview.load_lt
  have hin : layout.loadSegment < reader.segments.count := by omega
  rw [ElfReader.fileOffsetOfAddress]
  cases hfound : (List.range reader.segments.count).findSome?
      (reader.segmentFileOffsetOf layout.address) with
  | none =>
    rw [List.findSome?_eq_none_iff] at hfound
    have hnone := hfound layout.loadSegment (List.mem_range.mpr hin)
    rw [hanswer _ hin _ _ _ hloads] at hnone
    simp at hnone
  | some offset =>
    obtain ⟨index, hindex, hoffset⟩ := List.exists_of_findSome?_eq_some hfound
    rw [honly index (List.mem_range.mp hindex) offset hoffset]

/-- What the walk of the table finds out about its strings. -/
theorem SegmentView.walkDynamicArray (hview : reader.SegmentView layout)
    (hfollows : reader.Follows layout) :
    (reader.walkDynamicArray (reader.image.block layout.offset
        layout.size)).stringTableAddress = some layout.address ∧
      (reader.walkDynamicArray (reader.image.block layout.offset
        layout.size)).stringTableSize = some layout.stringSize := by
  have haddress := hfollows.address
  have hstringSize := hfollows.stringSize
  have hmem : ∀ entry ∈ entriesFrom reader.is64Bit (reader.image.block
      layout.offset layout.size) maxDynamicEntries 0,
        entry ∈ tableEntries reader.is64Bit (reader.image.block layout.offset
          layout.size) := by
    intro entry hentry
    rw [← take_tableEntries] at hentry
    exact List.mem_of_mem_take hentry
  rw [take_tableEntries] at haddress hstringSize
  rw [ElfReader.walkDynamicArray, walkDynamicArrayFrom_eq]
  constructor
  · refine recordEntries_setBy recordEntry_stringTableAddress ?_
      (Or.inr ⟨_, haddress, rfl⟩)
    intro entry hentry htag
    rw [hview.address.only entry (hmem entry hentry) htag]
  · refine recordEntries_setBy recordEntry_stringTableSize ?_
      (Or.inr ⟨_, hstringSize, rfl⟩)
    intro entry hentry htag
    rw [hview.stringSize.only entry (hmem entry hentry) htag]

/-- The strings are found through a link to them, or without one. -/
theorem SegmentView.resolveStringTable (hview : reader.SegmentView layout)
    (hbounded : reader.BoundedTable reader.segments)
    (hcount : reader.segments.count = min layout.segmentCount maxProgramHeaders)
    (hfollows : reader.Follows layout) {location : DynamicLocation}
    (hlinked : reader.linkedStringTable location.stringTableSectionIndex = none ∨
      reader.linkedStringTable location.stringTableSectionIndex =
        some (reader.image.block layout.stringOffset layout.stringSize)) :
    (reader.resolveStringTable location (reader.walkDynamicArray
        (reader.image.block layout.offset layout.size))).1 =
      some (reader.image.block layout.stringOffset layout.stringSize) := by
  obtain ⟨haddress, hsize⟩ := hview.walkDynamicArray hfollows
  obtain ⟨-, hinside⟩ := hview.strings_inside
  rcases hlinked with hlinked | hlinked
  · have hmapped := hview.fileOffsetOfAddress hbounded hcount
      hfollows.loadSegment
    have hfits : layout.stringSize ≤ reader.image.size - layout.stringOffset := by
      omega
    have htable : reader.image.subrange layout.stringOffset layout.stringSize =
        some (reader.image.block layout.stringOffset layout.stringSize) := by
      rw [ByteCursor.subrange_eq_some_iff]
      exact ⟨hinside, rfl⟩
    simp only [ElfReader.resolveStringTable, hlinked, haddress, hmapped, hsize,
      if_pos hfits, htable]
  · simp only [ElfReader.resolveStringTable, hlinked]

/-- The part of an image that the dynamic table decides. -/
def names (image : ElfImage) : List (List UInt8) × List UInt8 :=
  (image.needed, image.soname)

theorem needed_eq_names (image : ElfImage) : image.needed = (names image).1 :=
  rfl

theorem names_recordNames_none (found : DynamicArray) :
    names (recordNames found none) = ([], []) := by
  have hnone : found.neededOffsets.filterMap (fun _ => (none : Option _)) =
      ([] : List (List UInt8)) := by
    rw [List.filterMap_eq_nil_iff]
    exact fun _ _ => rfl
  have hsoname : found.sonameOffset.bind (fun _ => (none : Option _)) =
      (none : Option (List UInt8)) := by
    cases found.sonameOffset <;> rfl
  simp only [names, recordNames, Option.bind_none, hnone, hsoname]
  rfl

theorem names_collectExportedSymbols (out : ElfImage) :
    names (reader.collectExportedSymbols out).1.1 = names out := by
  rw [collectExportedSymbols]
  split
  · rfl
  · split <;> rfl

theorem names_recordSymbols (location : DynamicLocation) (out : ElfImage) :
    names (reader.recordSymbols location out).1 = names out := by
  rw [recordSymbols]
  split_ifs
  · rfl
  · exact names_collectExportedSymbols out

theorem names_readDynamic (location : DynamicLocation) :
    names (reader.readDynamic location).1 =
      names (recordNames (reader.walkDynamicArray location.region)
        (reader.resolveStringTable location
          (reader.walkDynamicArray location.region)).1) :=
  names_recordSymbols location _

/-- An image whose tables begin in it and whose dynamic table was located. -/
theorem names_read {location : DynamicLocation} {messages : List String}
    (hheader : reader.headerSize ≤ reader.image.size)
    (hreachable : reader.unreachable reader.sections = false ∧
      reader.unreachable reader.segments = false)
    (hlocated : reader.locateDynamic = (some location, messages)) :
    names reader.read.1 =
      if reader.field reader.image headerType = some typeRelocatable then
        ([], [])
      else
        names (recordNames (reader.walkDynamicArray location.region)
          (reader.resolveStringTable location
            (reader.walkDynamicArray location.region)).1) := by
  obtain ⟨type, htype⟩ := exists_headerType hheader
  rw [ElfReader.read, if_neg (not_lt.mpr hheader), htype]
  simp only [hreachable.1, hreachable.2, Bool.or_self, Bool.false_eq_true,
    if_false, hlocated, Option.some.injEq]
  split_ifs with hrelocatable
  · rfl
  · exact names_readDynamic location

theorem SegmentView.unreachable_segments (hview : reader.SegmentView layout)
    (hbounded : reader.BoundedTable reader.segments) :
    reader.unreachable reader.segments = false := by
  have hwhole := hview.whole 0 (Nat.zero_lt_of_lt hview.dynamic_lt)
  rw [Bool.eq_false_iff, ne_eq, unreachable_eq_true_iff hbounded]
  exact not_not_intro fun _ => hwhole

/-- What is read of an image by the program headers. -/
theorem SegmentView.names_read (hview : reader.SegmentView layout)
    (hbounded : reader.BoundedTable reader.segments)
    (hcount : reader.segments.count = min layout.segmentCount maxProgramHeaders)
    (hfollows : reader.Follows layout)
    (hheader : reader.headerSize ≤ reader.image.size)
    (hsections : reader.unreachable reader.sections = false)
    {messages : List String}
    (hlocated : reader.locateDynamicViaSections = (none, messages) ∨
      ∃ link, reader.locateDynamicViaSections =
        (some ⟨reader.image.block layout.offset layout.size, true, link⟩,
          messages) ∧
        (reader.linkedStringTable link = none ∨ reader.linkedStringTable link =
            some (reader.image.block layout.stringOffset
              layout.stringSize))) :
    names reader.read.1 =
      if reader.field reader.image headerType = some typeRelocatable then
        ([], [])
      else
        names (recordNames
          (reader.walkDynamicArray (reader.image.block layout.offset layout.size))
          (some (reader.image.block layout.stringOffset layout.stringSize)))
    := by
  have hreachable := And.intro hsections (hview.unreachable_segments hbounded)
  rcases hlocated with hnone | ⟨link, hlocated, hlinked⟩
  · have hlocated : reader.locateDynamic =
        (some ⟨reader.image.block layout.offset layout.size, false, none⟩,
          messages ++ []) := by
      rw [locateDynamic, hnone]
      dsimp only
      rw [hview.locateDynamicViaSegments hbounded hcount
        hfollows.dynamicSegment]
    rw [ElfReader.names_read hheader hreachable hlocated,
      hview.resolveStringTable hbounded hcount hfollows (Or.inl rfl)]
  · have hlocated : reader.locateDynamic =
        (some ⟨reader.image.block layout.offset layout.size, true, link⟩,
          messages) := by
      rw [locateDynamic, hlocated]
    rw [ElfReader.names_read hheader hreachable hlocated,
      hview.resolveStringTable hbounded hcount hfollows hlinked]

/-! ## Stripping -/

/-- A byte that the program headers describe: one of theirs, or one of a
segment. -/
def Describes (reader : ElfReader) (position : Nat) : Prop :=
  ∃ count, reader.field reader.image headerSegmentCount = some count ∧
    (reader.segments.offset ≤ position ∧ position <
        reader.segments.offset + reader.segments.entrySize * count ∨
      ∃ index < count, ∃ first length,
        reader.field (reader.declaredEntry reader.segments index)
          segmentFileOffset = some first ∧
        reader.field (reader.declaredEntry reader.segments index)
          segmentFileSize = some length ∧
        first ≤ position ∧ position < first + length)

/-- The image without its section headers: its ELF header declares none, and
what the program headers describe stays where it was. -/
structure Strips (is64Bit : Bool) (image stripped : ByteCursor) : Prop where
  byteOrder : stripped.byteOrder = image.byteOrder
  header : (ofImage stripped is64Bit).headerSize ≤ stripped.size
  size_le : stripped.size ≤ image.size
  fields : ∀ field ∈ [headerType, headerSegmentTableOffset,
      headerSegmentEntrySize, headerSegmentCount],
    fieldOf is64Bit stripped field = fieldOf is64Bit image field
  noSections : fieldOf is64Bit stripped headerSectionTableOffset = some 0 ∧
    fieldOf is64Bit stripped headerSectionCount = some 0
  kept : ∀ position, (ofImage image is64Bit).headerSize ≤ position →
    (ofImage image is64Bit).Describes position →
      stripped.bytes[position]? = image.bytes[position]?

/-- A shared object that shows its dynamic table in both ways, behind its ELF
header. -/
structure BothViews (reader : ElfReader) (layout : DynamicLayout) : Prop where
  segments : reader.SegmentView layout
  sections : reader.SectionView layout
  header : reader.headerSize ≤ reader.image.size
  segmentTable : reader.headerSize ≤ reader.segments.offset
  table : reader.headerSize ≤ layout.offset
  strings : reader.headerSize ≤ layout.stringOffset

theorem block_congr {image stripped : ByteCursor} {offset size : Nat}
    (horder : stripped.byteOrder = image.byteOrder)
    (hkept : ∀ position, offset ≤ position → position < offset + size →
      stripped.bytes[position]? = image.bytes[position]?) :
    stripped.block offset size = image.block offset size := by
  have hbytes : (stripped.bytes.drop offset).take size =
      (image.bytes.drop offset).take size := by
    apply List.ext_getElem?
    intro index
    by_cases hinside : index < size
    · rw [List.getElem?_take_of_lt hinside, List.getElem?_take_of_lt hinside,
        List.getElem?_drop, List.getElem?_drop]
      exact hkept _ (by omega) (by omega)
    · rw [List.getElem?_eq_none (by rw [List.length_take]; omega),
        List.getElem?_eq_none (by rw [List.length_take]; omega)]
  rw [ByteCursor.block, ByteCursor.block, hbytes, horder]

theorem lt_size_of_kept {image stripped : ByteCursor} {position : Nat}
    (hinside : position < image.size)
    (hkept : stripped.bytes[position]? = image.bytes[position]?) :
    position < stripped.size := by
  rw [ByteCursor.size] at hinside
  rw [List.getElem?_eq_getElem hinside] at hkept
  exact (List.getElem?_eq_some_iff.mp hkept).1

theorem size_pos_of_mem_tableEntries {is64Bit : Bool} {region : ByteCursor}
    {entry : Nat × Nat} (hentry : entry ∈ tableEntries is64Bit region) :
    0 < region.size := by
  by_contra hempty
  have hnone : dynamicEntry is64Bit region 0 = none := by
    have hoff : region.subrange (0 * if is64Bit then 16 else 8)
        (if is64Bit then 16 else 8) = none := by
      rw [Option.eq_none_iff_forall_ne_some]
      intro part hpart
      have hle := (ByteCursor.subrange_eq_some_iff.mp hpart).1
      split_ifs at hle <;> omega
    rw [dynamicEntry, hoff]
    rfl
  obtain ⟨rounds, hrounds⟩ : ∃ rounds,
      maxDynamicEntries + region.size = rounds + 1 :=
    ⟨maxDynamicEntries - 1 + region.size, by
      have hpos : 0 < maxDynamicEntries := by decide
      omega⟩
  rw [tableEntries, hrounds, entriesFrom, hnone] at hentry
  simp at hentry

section Stripped

variable {is64Bit : Bool} {image stripped : ByteCursor}

theorem Strips.segments_eq (hstrips : Strips is64Bit image stripped) :
    (ofImage stripped is64Bit).segments = (ofImage image is64Bit).segments := by
  have hfields := hstrips.fields
  have hoffset := hfields headerSegmentTableOffset (by simp)
  have hentrySize := hfields headerSegmentEntrySize (by simp)
  have hcount := hfields headerSegmentCount (by simp)
  simp only [ofImage, readTable, hoffset, hentrySize, hcount]

theorem Strips.sections_count (hstrips : Strips is64Bit image stripped) :
    (ofImage stripped is64Bit).sections.count = 0 ∧
      (ofImage stripped is64Bit).sections.declared = false := by
  obtain ⟨hoffset, hcount⟩ := hstrips.noSections
  simp only [ofImage, readTable, hoffset, hcount]
  cases fieldOf is64Bit stripped headerSectionEntrySize with
  | none => exact ⟨rfl, rfl⟩
  | some entrySize => simp

/-- A table that stands in the file is followed up to its cap. -/
theorem count_readTable
    {offsetField entrySizeField countField : ClassDependentField}
    {maximum count : Nat} (hcount : fieldOf is64Bit image countField = some count)
    (hoffset : (readTable is64Bit image offsetField entrySizeField countField
      maximum).offset ≠ 0) :
    (readTable is64Bit image offsetField entrySizeField countField
      maximum).count = min count maximum := by
  revert hoffset
  rw [readTable, hcount]
  cases fieldOf is64Bit image offsetField with
  | none => exact fun hoffset => absurd rfl hoffset
  | some offset =>
    cases fieldOf is64Bit image entrySizeField with
    | none => exact fun hoffset => absurd rfl hoffset
    | some entrySize =>
      intro _
      dsimp only
      split_ifs <;> omega

variable {layout : DynamicLayout}

/-- Blocks that the program headers describe stay where they were. -/
theorem Strips.block_eq (hstrips : Strips is64Bit image stripped)
    {offset size : Nat} (hinside : offset + size ≤ image.size)
    (hbehind : (ofImage image is64Bit).headerSize ≤ offset)
    (hdescribes : ∀ position, offset ≤ position → position < offset + size →
      (ofImage image is64Bit).Describes position) :
    stripped.block offset size = image.block offset size ∧
      (0 < size → offset + size ≤ stripped.size) := by
  have hkept : ∀ position, offset ≤ position → position < offset + size →
      stripped.bytes[position]? = image.bytes[position]? := by
    intro position hfirst hlast
    exact hstrips.kept position (hbehind.trans hfirst)
      (hdescribes position hfirst hlast)
  refine ⟨block_congr hstrips.byteOrder hkept, ?_⟩
  intro hpos
  have hlast := lt_size_of_kept (by omega : offset + size - 1 < image.size)
    (hkept (offset + size - 1) (by omega) (by omega))
  omega

section Views

variable (hstrips : Strips is64Bit image stripped)
  (hviews : (ofImage image is64Bit).BothViews layout)

include hstrips hviews

/-- The program headers stay where they were. -/
theorem Strips.segmentHeader_eq {index : Nat}
    (hindex : index < layout.segmentCount) :
    (ofImage stripped is64Bit).declaredEntry
        (ofImage stripped is64Bit).segments index =
      (ofImage image is64Bit).declaredEntry
        (ofImage image is64Bit).segments index ∧
    (ofImage stripped is64Bit).WholeEntry
      (ofImage stripped is64Bit).segments index := by
  obtain ⟨hoffset, hentrySize, hinside⟩ := hviews.segments.whole index hindex
  have hrow := Nat.mul_le_mul_left (ofImage image is64Bit).segments.entrySize
    (Nat.succ_le_of_lt hindex)
  rw [Nat.mul_succ] at hrow
  obtain ⟨hblock, hsize⟩ := hstrips.block_eq hinside
    (hviews.segmentTable.trans (Nat.le_add_right _ _)) (by
      intro position hfirst hlast
      exact ⟨layout.segmentCount, hviews.segments.declared,
        Or.inl ⟨by omega, by omega⟩⟩)
  rw [hstrips.segments_eq]
  exact ⟨hblock, hoffset, hentrySize, hsize (Nat.pos_of_ne_zero hentrySize)⟩

theorem Strips.segmentField_eq {index : Nat}
    (hindex : index < layout.segmentCount) (field : ClassDependentField) :
    (ofImage stripped is64Bit).field
        ((ofImage stripped is64Bit).declaredEntry
          (ofImage stripped is64Bit).segments index) field =
      (ofImage image is64Bit).field
        ((ofImage image is64Bit).declaredEntry
          (ofImage image is64Bit).segments index) field := by
  rw [(hstrips.segmentHeader_eq hviews hindex).1]
  rfl

theorem Strips.loads_iff {index : Nat} (hindex : index < layout.segmentCount)
    (start first length : Nat) :
    (ofImage stripped is64Bit).Loads index layout.address start first length ↔
      (ofImage image is64Bit).Loads index layout.address start first length
    := by
  have hfield := hstrips.segmentField_eq hviews hindex
  constructor
  · rintro ⟨htype, hvirtual, hoffset, hsize, hle, hlt⟩
    rw [hfield] at htype hvirtual hoffset hsize
    exact ⟨htype, hvirtual, hoffset, hsize, hle, hlt⟩
  · rintro ⟨htype, hvirtual, hoffset, hsize, hle, hlt⟩
    rw [← hfield] at htype hvirtual hoffset hsize
    exact ⟨htype, hvirtual, hoffset, hsize, hle, hlt⟩

/-- The dynamic table stays where it was. -/
theorem Strips.dynamicBlock_eq :
    stripped.block layout.offset layout.size =
        image.block layout.offset layout.size ∧
      layout.offset + layout.size ≤ stripped.size := by
  have hview := hviews.segments
  have hregion := size_pos_of_mem_tableEntries hview.address.mem
  have hpos : 0 < layout.size := by
    rw [ByteCursor.size, ByteCursor.block, List.length_take] at hregion
    omega
  obtain ⟨hblock, hinside⟩ := hstrips.block_eq hview.inside hviews.table (by
    intro position hfirst hlast
    exact ⟨layout.segmentCount, hview.declared, Or.inr ⟨layout.dynamicSegment,
      hview.dynamic_lt, layout.offset, layout.size, hview.dynamic_offset,
      hview.dynamic_size, hfirst, hlast⟩⟩)
  exact ⟨hblock, hinside hpos⟩

/-- The strings stay where they were: the segment that is loaded over their
address holds them. -/
theorem Strips.stringBlock_eq :
    stripped.block layout.stringOffset layout.stringSize =
        image.block layout.stringOffset layout.stringSize ∧
      layout.stringOffset < stripped.size ∧
      layout.stringOffset + layout.stringSize ≤ stripped.size := by
  have hview := hviews.segments
  obtain ⟨start, first, length, hloads, hroom⟩ := hview.load
  have hplace := hview.load_only _ hview.load_lt _ _ _ hloads
  have hbelow := hloads.lt_length
  have hdescribes : ∀ position, layout.stringOffset ≤ position →
      position < first + length →
        (ofImage image is64Bit).Describes position := by
    intro position hfirst hlast
    exact ⟨layout.segmentCount, hview.declared, Or.inr ⟨layout.loadSegment,
      hview.load_lt, first, length, hloads.fileOffset, hloads.fileSize,
      by omega, hlast⟩⟩
  obtain ⟨hinside, hstringsInside⟩ := hview.strings_inside
  have hstart : layout.stringOffset < stripped.size := by
    refine lt_size_of_kept hinside (hstrips.kept _ hviews.strings ?_)
    exact hdescribes _ (le_refl _) (by omega)
  obtain ⟨hblock, hkept⟩ := hstrips.block_eq hstringsInside hviews.strings
    (fun position hfirst hlast => hdescribes position hfirst (by omega))
  refine ⟨hblock, hstart, ?_⟩
  rcases Nat.eq_zero_or_pos layout.stringSize with hzero | hpos
  · rw [hzero]
    exact hstart.le
  · exact hkept hpos

theorem Strips.tableEntries_eq :
    tableEntries is64Bit (stripped.block layout.offset layout.size) =
      tableEntries is64Bit (image.block layout.offset layout.size) := by
  rw [(hstrips.dynamicBlock_eq hviews).1]

/-- The program headers show the same of the stripped image. -/
theorem Strips.segmentView : (ofImage stripped is64Bit).SegmentView layout := by
  have hview := hviews.segments
  have hfield := @Strips.segmentField_eq _ _ _ _ hstrips hviews
  have hloads := @Strips.loads_iff _ _ _ _ hstrips hviews
  have hentries := hstrips.tableEntries_eq hviews
  exact
    { declared :=
        (hstrips.fields headerSegmentCount (by simp)).trans hview.declared
      whole := fun _ hindex => (hstrips.segmentHeader_eq hviews hindex).2
      dynamic_lt := hview.dynamic_lt
      dynamic_iff := fun index hindex => by
        rw [hfield hindex]
        exact hview.dynamic_iff index hindex
      dynamic_offset := (hfield hview.dynamic_lt _).trans hview.dynamic_offset
      dynamic_size := (hfield hview.dynamic_lt _).trans hview.dynamic_size
      inside := (hstrips.dynamicBlock_eq hviews).2
      address := hentries.symm ▸ hview.address
      stringSize := hentries.symm ▸ hview.stringSize
      load_lt := hview.load_lt
      load := by
        obtain ⟨start, first, length, hload, hroom⟩ := hview.load
        exact ⟨start, first, length, (hloads hview.load_lt _ _ _).mpr hload,
          hroom⟩
      load_only := fun index hindex start first length hload =>
        hview.load_only index hindex start first length
          ((hloads hindex start first length).mp hload)
      strings_inside := (hstrips.stringBlock_eq hviews).2 }

end Views

theorem BothViews.segments_count
    (hviews : (ofImage image is64Bit).BothViews layout) :
    (ofImage image is64Bit).segments.count =
      min layout.segmentCount maxProgramHeaders :=
  count_readTable hviews.segments.declared
    (hviews.segments.whole 0 (Nat.zero_lt_of_lt hviews.segments.dynamic_lt)).1

theorem BothViews.sections_count
    (hviews : (ofImage image is64Bit).BothViews layout) :
    (ofImage image is64Bit).sections.count =
      min layout.sectionCount maxSectionHeaders :=
  count_readTable hviews.sections.declared
    (hviews.sections.whole 0 (Nat.zero_lt_of_lt hviews.sections.dynamic_lt)).1

theorem BothViews.unreachable_sections
    (hviews : (ofImage image is64Bit).BothViews layout)
    (hsections : (ofImage image is64Bit).BoundedTable
      (ofImage image is64Bit).sections) :
    (ofImage image is64Bit).unreachable (ofImage image is64Bit).sections =
      false := by
  have hwhole := hviews.sections.whole 0
    (Nat.zero_lt_of_lt hviews.sections.dynamic_lt)
  rw [Bool.eq_false_iff, ne_eq, unreachable_eq_true_iff hsections]
  exact not_not_intro fun _ => hwhole

theorem Strips.segments_count (hstrips : Strips is64Bit image stripped)
    (hviews : (ofImage image is64Bit).BothViews layout) :
    (ofImage stripped is64Bit).segments.count =
      min layout.segmentCount maxProgramHeaders := by
  rw [hstrips.segments_eq]
  exact hviews.segments_count

theorem Strips.sections_none (hstrips : Strips is64Bit image stripped) :
    (ofImage stripped is64Bit).locateDynamicViaSections = (none, []) ∧
      (ofImage stripped is64Bit).unreachable
        (ofImage stripped is64Bit).sections = false := by
  obtain ⟨hzero, hundeclared⟩ := hstrips.sections_count
  have hfirst : (ofImage stripped is64Bit).firstOfType
      (ofImage stripped is64Bit).sections sectionType sectionTypeDynamic =
        none := by
    rw [firstOfType, hzero]
    rfl
  refine ⟨?_, ?_⟩
  · rw [locateDynamicViaSections, hfirst]
  · rw [unreachable, hundeclared, Bool.false_and]

/-- The whole image, read by its section headers. -/
theorem BothViews.names_read_linked
    (hviews : (ofImage image is64Bit).BothViews layout)
    (hdynamic : layout.dynamicSection < maxSectionHeaders)
    (hstrings : layout.stringSection < maxSectionHeaders)
    (hsize : image.size < 2 ^ 63) :
    names (ofImage image is64Bit).read.1 =
      if (ofImage image is64Bit).field image headerType =
          some typeRelocatable then ([], [])
      else
        names (recordNames
          ((ofImage image is64Bit).walkDynamicArray
            (image.block layout.offset layout.size))
          (some (image.block layout.stringOffset layout.stringSize))) := by
  obtain ⟨hsections, hsegments⟩ := boundedTable_ofImage is64Bit hsize
  have hlocated := hviews.sections.locateDynamicViaSections hsections
    hviews.sections_count hviews.segments.inside
  have hlinked := hviews.sections.linkedStringTable hsections
    hviews.sections_count hviews.segments.strings_inside.2
  rw [if_pos hdynamic] at hlocated
  rw [if_pos hstrings] at hlinked
  have hfound : (ofImage image is64Bit).locateDynamic = (some ⟨image.block
      layout.offset layout.size, true, (some layout.stringSection).filter
        (· < (ofImage image is64Bit).sections.count)⟩, []) := by
    rw [locateDynamic, hlocated]
    rfl
  have hreachable := And.intro (hviews.unreachable_sections hsections)
    (hviews.segments.unreachable_segments hsegments)
  rw [ElfReader.names_read hviews.header hreachable hfound,
    ElfReader.resolveStringTable, hlinked]
  rfl

/-- The whole image, read by its section headers or past them. -/
theorem BothViews.names_read (hviews : (ofImage image is64Bit).BothViews layout)
    (hfollows : (ofImage image is64Bit).Follows layout)
    (hsize : image.size < 2 ^ 63) :
    names (ofImage image is64Bit).read.1 =
      if (ofImage image is64Bit).field image headerType =
          some typeRelocatable then ([], [])
      else
        names (recordNames
          ((ofImage image is64Bit).walkDynamicArray
            (image.block layout.offset layout.size))
          (some (image.block layout.stringOffset layout.stringSize))) := by
  obtain ⟨hsections, hsegments⟩ := boundedTable_ofImage is64Bit hsize
  have hcount := hviews.segments_count
  have hreachable := hviews.unreachable_sections hsections
  have hlocated := hviews.sections.locateDynamicViaSections hsections
    hviews.sections_count hviews.segments.inside
  have hlinked := hviews.sections.linkedStringTable hsections
    hviews.sections_count hviews.segments.strings_inside.2
  by_cases hfollowed : layout.dynamicSection < maxSectionHeaders
  · rw [if_pos hfollowed] at hlocated
    refine hviews.segments.names_read hsegments hcount hfollows hviews.header
      hreachable (Or.inr ⟨_, hlocated, ?_⟩)
    by_cases hlink : layout.stringSection < maxSectionHeaders
    · rw [if_pos hlink] at hlinked
      exact Or.inr hlinked
    · rw [if_neg hlink] at hlinked
      exact Or.inl hlinked
  · rw [if_neg hfollowed] at hlocated
    exact hviews.segments.names_read hsegments hcount hfollows hviews.header
      hreachable (Or.inl hlocated)

/-- Stripping keeps the names that the dynamic table gives. -/
theorem Strips.names_read (hstrips : Strips is64Bit image stripped)
    (hviews : (ofImage image is64Bit).BothViews layout)
    (hfollows : (ofImage image is64Bit).Follows layout)
    (hsize : image.size < 2 ^ 63) :
    names (ofImage stripped is64Bit).read.1 =
      names (ofImage image is64Bit).read.1 := by
  have hview := hstrips.segmentView hviews
  have hblock := (hstrips.dynamicBlock_eq hviews).1
  have hstrings := (hstrips.stringBlock_eq hviews).1
  obtain ⟨-, hsegments⟩ := boundedTable_ofImage is64Bit
    (lt_of_le_of_lt hstrips.size_le hsize)
  have hcount := hstrips.segments_count hviews
  have hentries := hstrips.tableEntries_eq hviews
  have hstrippedFollows : (ofImage stripped is64Bit).Follows layout :=
    ⟨hfollows.dynamicSegment, hfollows.loadSegment,
      hentries.symm ▸ hfollows.address, hentries.symm ▸ hfollows.stringSize⟩
  obtain ⟨hnone, hreachable⟩ := hstrips.sections_none
  have hsame : (ofImage stripped is64Bit).walkDynamicArray
      (stripped.block layout.offset layout.size) =
        (ofImage image is64Bit).walkDynamicArray
          (image.block layout.offset layout.size) := by
    have hclass : (ofImage stripped is64Bit).is64Bit =
        (ofImage image is64Bit).is64Bit := rfl
    rw [hblock, walkDynamicArray_congr hclass]
  have htype : (ofImage stripped is64Bit).field stripped headerType =
      (ofImage image is64Bit).field image headerType :=
    hstrips.fields headerType (by simp)
  have hrest := hview.names_read hsegments hcount hstrippedFollows
    hstrips.header hreachable (Or.inl hnone)
  have hstripped : (ofImage stripped is64Bit).image = stripped := rfl
  rw [hstripped, hsame, hstrings, htype] at hrest
  rw [hrest, hviews.names_read hfollows hsize]

/-- Where the walk does not get to the address of the strings, the stripped
image yields no names. -/
theorem Strips.names_read_of_unplaced
    (hstrips : Strips is64Bit image stripped)
    (hviews : (ofImage image is64Bit).BothViews layout)
    (hfollowed : layout.dynamicSegment < maxProgramHeaders)
    (hunplaced : ∀ entry ∈ (tableEntries is64Bit (image.block layout.offset
      layout.size)).take maxDynamicEntries, entry.1 ≠ dynamicTagStringTable)
    (hsize : image.size < 2 ^ 63) :
    names (ofImage stripped is64Bit).read.1 = ([], []) := by
  have hview := hstrips.segmentView hviews
  have hblock := (hstrips.dynamicBlock_eq hviews).1
  obtain ⟨-, hsegments⟩ := boundedTable_ofImage is64Bit
    (lt_of_le_of_lt hstrips.size_le hsize)
  have hcount := hstrips.segments_count hviews
  obtain ⟨hnone, hreachable⟩ := hstrips.sections_none
  have hlocated : (ofImage stripped is64Bit).locateDynamic =
      (some ⟨stripped.block layout.offset layout.size, false, none⟩, []) := by
    rw [locateDynamic, hnone]
    dsimp only
    rw [hview.locateDynamicViaSegments hsegments hcount hfollowed]
    rfl
  have haddress : ((ofImage stripped is64Bit).walkDynamicArray
      (stripped.block layout.offset layout.size)).stringTableAddress =
        none := by
    rw [take_tableEntries] at hunplaced
    rw [hblock, walkDynamicArray, walkDynamicArrayFrom_eq]
    exact recordEntries_unplaced hunplaced {}
  rw [ElfReader.names_read hstrips.header
    ⟨hreachable, hview.unreachable_segments hsegments⟩ hlocated]
  split_ifs
  · rfl
  · have hunresolved : ((ofImage stripped is64Bit).resolveStringTable
        ⟨stripped.block layout.offset layout.size, false, none⟩
        ((ofImage stripped is64Bit).walkDynamicArray
          (stripped.block layout.offset layout.size))).1 = none := by
      rw [resolveStringTable, haddress]
      rfl
    rw [hunresolved]
    exact names_recordNames_none _

end Stripped

end ElfReader

end Bomwerk.Binscan
