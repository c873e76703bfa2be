import Bomwerk.Binscan.ElfRoundTrip
import Bomwerk.Binscan.ElfViews

/-!
# Stripped images

Within the caps of the reader, a shared object declares the same names with its
section headers and without them.  Beyond the caps the section headers still
name the string table, and the program headers do not lead to it.
-/

namespace Bomwerk.Binscan

open Bomwerk.Core Bomwerk.Support

/-- A shared object that shows its dynamic table in both ways, and its image
without the section headers. -/
structure StrippedObject where
  bytes : List UInt8
  stripped : List UInt8
  image : ByteCursor
  strippedImage : ByteCursor
  is64Bit : Bool
  layout : DynamicLayout
  identified : identify bytes = .elf image is64Bit
  strippedIdentified : identify stripped = .elf strippedImage is64Bit
  views : (ElfReader.ofImage image is64Bit).BothViews layout
  strips : ElfReader.Strips is64Bit image strippedImage

namespace StrippedObject

variable (object : StrippedObject)

/-- The same needed libraries and the same soname are read of both images. -/
def Agrees (path : String) : Prop :=
  (readElf path (some object.stripped)).value.needed =
      (readElf path (some object.bytes)).value.needed ∧
    (readElf path (some object.stripped)).value.soname =
      (readElf path (some object.bytes)).value.soname

/-- The file is read, and the headers and entries that place the strings are
among those that are followed. -/
structure WithinCaps (object : StrippedObject) : Prop where
  size : object.bytes.length ≤ maxBinaryBytes
  follows : (ElfReader.ofImage object.image object.is64Bit).Follows object.layout

variable {object}

theorem names_readElf {bytes : List UInt8} {image : ByteCursor} {is64Bit : Bool}
    (helf : identify bytes = .elf image is64Bit)
    (hsize : bytes.length ≤ maxBinaryBytes) (path : String) :
    ElfReader.names (readElf path (some bytes)).value =
      ElfReader.names (ElfReader.ofImage image is64Bit).read.1 := by
  simp only [readElf, if_neg (not_lt.mpr hsize), helf]

/-- Within the caps, stripping the section headers changes no name. -/
theorem agrees_of_withinCaps (object : StrippedObject)
    (hcaps : object.WithinCaps) (path : String) : object.Agrees path := by
  have hsize := size_of_identify object.identified
  have hstrippedSize := size_of_identify object.strippedIdentified
  have hle := object.strips.size_le
  have hcap := hcaps.size
  have hsmall : object.image.size < 2 ^ 63 := by
    rw [hsize]
    exact lt_of_le_of_lt hcap (by decide)
  have hnames := object.strips.names_read object.views hcaps.follows hsmall
  rw [← names_readElf object.identified hcap path,
    ← names_readElf object.strippedIdentified (by omega) path] at hnames
  exact Prod.mk.inj hnames

end StrippedObject

/-! ## Built images -/

namespace ElfBuildOptions

variable {options : ElfBuildOptions}

/-- A built image with both header tables. -/
structure ShowsBoth (options : ElfBuildOptions) : Prop where
  dynamic : options.includeDynamic = true
  sections : options.includeSectionHeaders = true
  segments : options.includeProgramHeaders = true
  size : (buildElf options).length ≤ maxBinaryBytes

/-- The options without section headers. -/
def bare (options : ElfBuildOptions) : ElfBuildOptions :=
  { options with includeSectionHeaders := false }

/-- The built image, its section headers no longer declared. -/
def stripped (options : ElfBuildOptions) : List UInt8 :=
  options.bare.header ++ (buildElf options).drop options.headerSize

/-- Where `build_elf` puts the dynamic table and its strings. -/
def dynamicLayout (options : ElfBuildOptions) : DynamicLayout :=
  { offset := options.dynamicOffset
    size := options.dynamicEntrySize * options.dynamicCount
    stringOffset := options.stringTableOffset
    stringSize := options.stringTable.bytes.length
    address := options.stringTableOffset
    sectionCount := options.sectionCount
    dynamicSection := 2
    stringSection := 1
    segmentCount := 2
    dynamicSegment := 1
    loadSegment := 0 }

/-- The entries of a built table, as many as are asked for. -/
theorem entriesFrom_dynamicRegion
    {entries : List (Nat × Nat)} {before : List (Nat × Nat)}
    (harray : options.dynamicArray = before ++ (entries ++ [(0, 0)]))
    (hfit : ∀ entry ∈ entries, entry.1 ≠ dynamicTagNull ∧
      options.FitsAddress entry.1 ∧ options.FitsAddress entry.2)
    (rounds : Nat) :
    entriesFrom options.is64Bit options.dynamicRegion rounds before.length =
      entries.take rounds := by
  have hentry : ∀ {index : Nat} {entry : Nat × Nat},
      options.dynamicArray[index]? = some entry →
        options.FitsAddress entry.1 → options.FitsAddress entry.2 →
          dynamicEntry options.is64Bit options.dynamicRegion index =
            some entry := by
    intro index entry hat htagFits hvalueFits
    obtain ⟨htag, hvalue⟩ := field_putDynamic options htagFits hvalueFits
    have hsubrange : options.dynamicRegion.subrange
        (index * if options.is64Bit then 16 else 8)
        (if options.is64Bit then 16 else 8) =
          some (options.cursor (options.putDynamic entry)) :=
      subrange_dynamicRegion hat
    rw [dynamicEntry, hsubrange, Option.bind_some, htag, Option.bind_some, hvalue,
      Option.map_some]
  induction entries generalizing before rounds with
  | nil =>
    cases rounds with
    | zero => rfl
    | succ rounds =>
      have hlast : options.dynamicArray[before.length]? = some (0, 0) := by
        rw [harray, List.nil_append, List.getElem?_append_right (le_refl _)]
        simp
      have hzero : options.FitsAddress 0 := fitsAddress_of_le (Nat.zero_le _)
      rw [entriesFrom, hentry hlast hzero hzero]
      rfl
  | cons entry entries ih =>
    cases rounds with
    | zero => rfl
    | succ rounds =>
      have hfirst : options.dynamicArray[before.length]? = some entry := by
        rw [harray, List.getElem?_append_right (le_refl _)]
        simp
      obtain ⟨hnull, htagFits, hvalueFits⟩ := hfit entry List.mem_cons_self
      have hshifted : options.dynamicArray =
          (before ++ [entry]) ++ (entries ++ [(0, 0)]) := by
        rw [harray]
        simp
      have hrest := ih hshifted
        (fun other hmem => hfit other (List.mem_cons_of_mem entry hmem))
        rounds
      rw [List.length_append, List.length_singleton] at hrest
      rw [entriesFrom, hentry hfirst htagFits hvalueFits]
      simp only [if_neg hnull]
      rw [hrest, List.take_succ_cons]

/-- The entries of the dynamic table of a built image. -/
theorem entriesFrom_block (hshows : options.ShowsBoth) (rounds : Nat) :
    entriesFrom options.is64Bit
        (options.reader.image.block options.dynamicLayout.offset
          options.dynamicLayout.size) rounds 0 =
      options.dynamicEntries.take rounds := by
  have hblock : options.reader.image.block options.dynamicLayout.offset
      options.dynamicLayout.size = options.dynamicRegion := by
    have hat := (layout options).dynamicArray.take_drop
    rw [length_dynamicBlock] at hat
    have hbytes : (options.reader.image.bytes.drop
        options.dynamicLayout.offset).take options.dynamicLayout.size =
          options.dynamicArray.flatMap options.putDynamic := hat
    rw [ByteCursor.block, hbytes]
    rfl
  have harray : options.dynamicArray =
      [] ++ (options.dynamicEntries ++ [(0, 0)]) := by
    rw [dynamicArray, if_pos hshows.dynamic, List.nil_append]
  rw [hblock]
  exact entriesFrom_dynamicRegion harray (dynamicEntries_fit hshows.size) rounds

/-- A program header of a built image, as the reader finds it. -/
structure SegmentFields (options : ElfBuildOptions) (index kind : Nat) :
    Prop where
  whole : options.reader.WholeEntry options.reader.segments index
  type : options.reader.field (options.reader.declaredEntry
    options.reader.segments index) segmentType = some kind
  fileOffset : options.reader.field (options.reader.declaredEntry
    options.reader.segments index) segmentFileOffset =
      some (options.segmentStart kind)
  virtualAddress : options.reader.field (options.reader.declaredEntry
    options.reader.segments index) segmentVirtualAddress =
      some (options.segmentStart kind)
  fileSize : options.reader.field (options.reader.declaredEntry
    options.reader.segments index) segmentFileSize =
      some (options.segmentLength kind)

theorem segmentFields_of_getElem? (hshows : options.ShowsBoth)
    {index type : Nat} (htype : options.segmentTypes[index]? = some type) :
    options.SegmentFields index type := by
  have hheader := segmentHeader_of_getElem? hshows.size htype
  have hindex := (List.getElem?_eq_some_iff.mp htype).1
  have hfew : options.segmentTypes.length ≤ maxSectionHeaders := by
    rw [segmentTypes]
    split_ifs <;> decide
  rw [ElfReader.segmentHeader, ElfReader.tableEntry_eq_some_iff
    (boundedTables hshows.size).2 (by omega)] at hheader
  obtain ⟨hwhole, hentry⟩ := hheader
  obtain ⟨hfield, hoffset, haddress, hlength⟩ :=
    field_segment hshows.size (List.mem_of_getElem? htype)
  rw [hentry] at hfield hoffset haddress hlength
  exact ⟨hwhole, hfield, hoffset, haddress, hlength⟩

/-- A section header of a built image, as the reader finds it. -/
structure SectionFields (options : ElfBuildOptions) (index : Nat)
    (entry : Section) : Prop where
  whole : options.reader.WholeEntry options.reader.sections index
  type : options.reader.field (options.reader.declaredEntry
    options.reader.sections index) sectionType = some entry.type
  fileOffset : options.reader.field (options.reader.declaredEntry
    options.reader.sections index) sectionFileOffset = some entry.offset
  size : options.reader.field (options.reader.declaredEntry
    options.reader.sections index) sectionSize = some entry.size
  link : options.reader.field (options.reader.declaredEntry
    options.reader.sections index) sectionLink = some entry.link

theorem sectionFields_of_getElem? (hshows : options.ShowsBoth) {index : Nat}
    {entry : Section} (hat : options.sections[index]? = some entry) :
    options.SectionFields index entry := by
  have hheader := sectionHeader_of_getElem? hshows.size hat
  have hindex := (List.getElem?_eq_some_iff.mp hat).1
  have hfew : options.sections.length ≤ maxSectionHeaders := by
    rw [length_sections, sectionCount]
    split_ifs <;> decide
  rw [ElfReader.sectionHeader, ElfReader.tableEntry_eq_some_iff
    (boundedTables hshows.size).1 (by omega)] at hheader
  obtain ⟨hwhole, hentry⟩ := hheader
  obtain ⟨htype, hoffset, hsize, hlink⟩ :=
    field_section hshows.size (List.mem_of_getElem? hat)
  rw [hentry] at htype hoffset hsize hlink
  exact ⟨hwhole, htype, hoffset, hsize, hlink⟩

theorem segmentTypes_eq (hshows : options.ShowsBoth) :
    options.segmentTypes = [segmentTypeLoad, segmentTypeDynamic] := by
  rw [segmentTypes, if_pos hshows.segments, if_pos hshows.dynamic]
  rfl

theorem declares_address (entries : List (Nat × Nat)) {size address : Nat}
    (hother : ∀ entry ∈ entries, entry.1 ≠ dynamicTagStringTable ∧
      entry.1 ≠ dynamicTagStringTableSize) :
    ElfReader.Declares (entries ++ [(dynamicTagStringTable, address),
        (dynamicTagStringTableSize, size)]) dynamicTagStringTable address ∧
      ElfReader.Declares (entries ++ [(dynamicTagStringTable, address),
        (dynamicTagStringTableSize, size)]) dynamicTagStringTableSize size := by
  have htags : dynamicTagStringTable ≠ dynamicTagStringTableSize := by decide
  refine ⟨⟨by simp, ?_⟩, ⟨by simp, ?_⟩⟩
  · intro entry hentry htag
    rcases List.mem_append.mp hentry with hmem | hmem
    · exact absurd htag (hother entry hmem).1
    · simp only [List.mem_cons, List.not_mem_nil, or_false] at hmem
      rcases hmem with rfl | rfl
      · rfl
      · exact absurd htag htags.symm
  · intro entry hentry htag
    rcases List.mem_append.mp hentry with hmem | hmem
    · exact absurd htag (hother entry hmem).2
    · simp only [List.mem_cons, List.not_mem_nil, or_false] at hmem
      rcases hmem with rfl | rfl
      · exact absurd htag htags
      · rfl

theorem declares_dynamicEntries (options : ElfBuildOptions) :
    ElfReader.Declares options.dynamicEntries dynamicTagStringTable
        options.stringTableOffset ∧
      ElfReader.Declares options.dynamicEntries dynamicTagStringTableSize
        options.stringTable.bytes.length := by
  apply declares_address
  intro entry hentry
  rcases List.mem_append.mp hentry with hneeded | hsoname
  · obtain ⟨name, -, rfl⟩ := List.mem_map.mp hneeded
    have htags : (1 : Nat) ≠ dynamicTagStringTable ∧
        1 ≠ dynamicTagStringTableSize := by decide
    exact htags
  · split_ifs at hsoname
    · simp at hsoname
    · rw [List.mem_singleton] at hsoname
      have htags : (14 : Nat) ≠ dynamicTagStringTable ∧
          14 ≠ dynamicTagStringTableSize := by decide
      rw [hsoname]
      exact htags

theorem length_dynamicEntries (hshows : options.ShowsBoth) :
    options.dynamicEntries.length + 1 = options.dynamicCount := by
  have hlength := length_dynamicArray options
  rw [dynamicArray, if_pos hshows.dynamic, List.length_append] at hlength
  exact hlength

theorem tableEntries_block (hshows : options.ShowsBoth) :
    tableEntries options.is64Bit
        (options.reader.image.block options.dynamicLayout.offset
          options.dynamicLayout.size) = options.dynamicEntries := by
  have hinside := (layout options).dynamicArray.length_le
  rw [length_dynamicBlock] at hinside
  have hsize : (options.reader.image.block options.dynamicLayout.offset
      options.dynamicLayout.size).size =
        options.dynamicEntrySize * options.dynamicCount := by
    have hroom : options.dynamicEntrySize * options.dynamicCount ≤
        (buildElf options).length - options.dynamicOffset := by
      omega
    rw [ByteCursor.size, ByteCursor.block, List.length_take, List.length_drop]
    exact Nat.min_eq_left hroom
  have hpos : 0 < options.dynamicEntrySize := by
    rw [dynamicEntrySize]
    split_ifs <;> decide
  have hmany := Nat.le_mul_of_pos_left options.dynamicCount hpos
  have hlength := length_dynamicEntries hshows
  rw [tableEntries, entriesFrom_block hshows, hsize]
  exact List.take_of_length_le (by omega)

theorem sectionCount_pos (hshows : options.ShowsBoth) :
    3 ≤ options.sectionCount := by
  rw [sectionCount, if_pos hshows.sections, if_pos hshows.dynamic]
  omega

/-- The sections in front are the same in every built image that has both
tables. -/
theorem sections_eq (hshows : options.ShowsBoth) :
    ∃ rest, options.sections = ⟨0, 0, 0, 0⟩ ::
        ⟨sectionTypeStringTable, options.stringTableOffset,
          options.stringTable.bytes.length, 0⟩ ::
        ⟨sectionTypeDynamic, options.dynamicOffset,
          options.dynamicEntrySize * options.dynamicCount, 1⟩ :: rest ∧
      ∀ entry ∈ rest, entry.type ≠ sectionTypeDynamic := by
  rw [sections, if_pos hshows.sections, if_pos hshows.dynamic]
  refine ⟨if options.hasSymbols then [⟨11, options.symbolTableOffset,
    options.symbolEntrySize * options.symbolCount, 1⟩] else [], rfl, ?_⟩
  intro entry hentry
  split_ifs at hentry
  · rw [List.mem_singleton] at hentry
    have htype : (11 : Nat) ≠ sectionTypeDynamic := by decide
    rw [hentry]
    exact htype
  · simp at hentry

theorem segmentFields_buildElf (hshows : options.ShowsBoth) :
    options.SegmentFields 0 segmentTypeLoad ∧
      options.SegmentFields 1 segmentTypeDynamic := by
  have htypes := segmentTypes_eq hshows
  constructor
  · apply segmentFields_of_getElem? hshows
    rw [htypes]
    rfl
  · apply segmentFields_of_getElem? hshows
    rw [htypes]
    rfl

/-- The strings stand ahead of the dynamic table, and that within the image. -/
theorem stringTable_inside (hshows : options.ShowsBoth) :
    options.stringTableOffset + options.stringTable.bytes.length ≤
        options.totalSize ∧
      options.stringTableOffset < options.totalSize ∧
      options.stringTableOffset < (buildElf options).length := by
  have htable : 1 ≤ options.dynamicEntrySize * options.dynamicCount := by
    have hlength := length_dynamicEntries hshows
    refine Nat.mul_pos ?_ (by omega)
    rw [dynamicEntrySize]
    split_ifs <;> decide
  have hinside := (layout options).dynamicArray.length_le
  rw [length_dynamicBlock] at hinside
  have hstringFits := stringTable_fits options
  have hdynamicFits := dynamicArray_fits options
  have hsymbolFits := symbols_fit options
  rw [totalSize]
  refine ⟨?_, ?_, ?_⟩ <;> omega

theorem loads_buildElf (hshows : options.ShowsBoth) :
    options.reader.Loads 0 options.stringTableOffset 0 0 options.totalSize := by
  obtain ⟨hload, -⟩ := segmentFields_buildElf hshows
  exact ⟨hload.type, hload.virtualAddress, hload.fileOffset, hload.fileSize,
    Nat.zero_le _, (stringTable_inside hshows).2.1⟩

theorem segmentView_buildElf (hshows : options.ShowsBoth) :
    options.reader.SegmentView options.dynamicLayout := by
  obtain ⟨hload, hdynamic⟩ := segmentFields_buildElf hshows
  have hdeclares := declares_dynamicEntries options
  rw [← tableEntries_block hshows] at hdeclares
  obtain ⟨hroom, -, hstart⟩ := stringTable_inside hshows
  have hinside := (layout options).dynamicArray.length_le
  rw [length_dynamicBlock] at hinside
  have htwo : ∀ index < options.dynamicLayout.segmentCount,
      index = 0 ∨ index = 1 := by
    intro index (hindex : index < 2)
    omega
  refine
    { declared := ?_
      whole := ?_
      dynamic_lt := Nat.one_lt_two
      dynamic_iff := ?_
      dynamic_offset := hdynamic.fileOffset
      dynamic_size := hdynamic.fileSize
      inside := hinside
      address := hdeclares.1
      stringSize := hdeclares.2
      load_lt := Nat.two_pos
      load := ⟨0, 0, options.totalSize, loads_buildElf hshows, hroom⟩
      load_only := ?_
      strings_inside := ⟨hstart, (layout options).stringTable.length_le⟩ }
  · have hcount := (headerFields_buildElf hshows.size).segmentCount
    rw [segmentTypes_eq hshows] at hcount
    exact hcount
  · intro index hindex
    rcases htwo index hindex with rfl | rfl
    · exact hload.whole
    · exact hdynamic.whole
  · intro index hindex
    rcases htwo index hindex with rfl | rfl
    · rw [hload.type]
      constructor
      · intro htype
        exact absurd (Option.some.inj htype) (by decide)
      · intro hone
        exact absurd hone Nat.zero_ne_one
    · exact ⟨fun _ => rfl, fun _ => hdynamic.type⟩
  · intro index hindex start first length hloads
    rcases htwo index hindex with rfl | rfl
    · have hplace : options.segmentStart segmentTypeLoad = 0 := rfl
      have hstart := hloads.virtualAddress.symm.trans hload.virtualAddress
      have hfirst := hloads.fileOffset.symm.trans hload.fileOffset
      rw [hplace] at hstart hfirst
      rw [Option.some.inj hstart, Option.some.inj hfirst, Nat.zero_add,
        Nat.sub_zero]
      rfl
    · have htype := hloads.type.symm.trans hdynamic.type
      exact absurd (Option.some.inj htype) (by decide)

theorem sectionView_buildElf (hshows : options.ShowsBoth) :
    options.reader.SectionView options.dynamicLayout := by
  obtain ⟨rest, hsections, hrest⟩ := sections_eq hshows
  have hstrings : options.SectionFields 1 ⟨sectionTypeStringTable,
      options.stringTableOffset, options.stringTable.bytes.length, 0⟩ := by
    apply sectionFields_of_getElem? hshows
    rw [hsections]
    rfl
  have hdynamic : options.SectionFields 2 ⟨sectionTypeDynamic,
      options.dynamicOffset,
      options.dynamicEntrySize * options.dynamicCount, 1⟩ := by
    apply sectionFields_of_getElem? hshows
    rw [hsections]
    rfl
  have hcount := sectionCount_pos hshows
  have hentry : ∀ index < options.sectionCount,
      ∃ entry, options.sections[index]? = some entry := by
    intro index hindex
    rw [← length_sections] at hindex
    exact ⟨_, List.getElem?_eq_getElem hindex⟩
  refine
    { declared := (headerFields_buildElf hshows.size).sectionCount
      whole := ?_
      dynamic_lt := hcount
      dynamic_iff := ?_
      dynamic_offset := hdynamic.fileOffset
      dynamic_size := hdynamic.size
      link := hdynamic.link
      strings_lt := lt_of_lt_of_le (by decide : 1 < 3) hcount
      strings_type := hstrings.type
      strings_offset := hstrings.fileOffset
      strings_size := hstrings.size }
  · intro index hindex
    obtain ⟨entry, hat⟩ := hentry index hindex
    exact (sectionFields_of_getElem? hshows hat).whole
  · intro index hindex
    obtain ⟨entry, hat⟩ := hentry index hindex
    constructor
    · intro htype
      rw [(sectionFields_of_getElem? hshows hat).type] at htype
      have hdynamicType := Option.some.inj htype
      rw [hsections] at hat
      match index, hat with
      | 0, hat =>
        obtain rfl := Option.some.inj hat
        exact absurd hdynamicType (by decide)
      | 1, hat =>
        obtain rfl := Option.some.inj hat
        have htags : sectionTypeStringTable ≠ sectionTypeDynamic := by decide
        exact absurd hdynamicType htags
      | 2, _ => rfl
      | index + 3, hat =>
        exact absurd hdynamicType (hrest entry (List.mem_of_getElem? hat))
    · rintro rfl
      exact hdynamic.type

theorem bothViews_buildElf (hshows : options.ShowsBoth) :
    options.reader.BothViews options.dynamicLayout := by
  have htypes := segmentTypes_eq hshows
  have hsegments : options.reader.segments.offset = options.headerSize := by
    rw [reader_segments hshows.size, segmentTable, htypes]
    rfl
  have hbehind : options.headerSize ≤ options.stringTableOffset :=
    Nat.le_add_right _ _
  have hfits := stringTable_fits options
  obtain ⟨rest, hbytes⟩ := buildElf_eq_header options
  refine ⟨segmentView_buildElf hshows, sectionView_buildElf hshows, ?_, ?_, ?_,
    hbehind⟩
  · have hlength := congrArg List.length hbytes
    rw [List.length_append, length_header] at hlength
    change options.headerSize ≤ (buildElf options).length
    omega
  · rw [hsegments]
    exact le_refl _
  · change options.headerSize ≤ options.dynamicOffset
    omega

theorem byteOrder_cursor (options : ElfBuildOptions) (record : List UInt8) :
    (options.cursor record).byteOrder = .ofBigEndian options.bigEndian := rfl

/-- Only what the header says of the sections is lost. -/
theorem strips_stripped (hshows : options.ShowsBoth) :
    ElfReader.Strips options.is64Bit (options.cursor (buildElf options))
      (options.cursor options.stripped) := by
  obtain ⟨rest, hbytes⟩ := buildElf_eq_header options
  have hheader := length_header options
  have hbare : options.bare.header.length = options.headerSize :=
    length_header options.bare
  have hstripped : options.stripped = options.bare.header ++ rest := by
    rw [stripped, hbytes, ← hheader, List.drop_left]
  have hfields := headerFields_buildElf hshows.size
  have hzero : options.bare.FitsAddress options.bare.sectionTable :=
    fitsAddress_of_le (Nat.zero_le _)
  have hbareFields := headerFields_header options.bare rest hzero
  have hlength : (options.header ++ rest).length =
      (options.bare.header ++ rest).length := by
    rw [List.length_append, List.length_append, hheader, hbare]
  have hlonger : options.headerSize ≤ (options.bare.header ++ rest).length := by
    rw [List.length_append, hbare]
    exact Nat.le_add_right _ _
  have hsame : ∀ position, options.headerSize ≤ position →
      (options.bare.header ++ rest)[position]? =
        (options.header ++ rest)[position]? := by
    intro position hposition
    rw [List.getElem?_append_right (hbare.le.trans hposition),
      List.getElem?_append_right (hheader.le.trans hposition), hbare, hheader]
  rw [hbytes] at hfields
  rw [hstripped, hbytes]
  refine ⟨?_, hlonger, hlength.ge, ?_,
    ⟨hbareFields.sectionTable, hbareFields.sectionCount⟩,
    fun position hposition _ => hsame position hposition⟩
  · rw [byteOrder_cursor, byteOrder_cursor]
  intro field hfield
  simp only [List.mem_cons, List.not_mem_nil, or_false] at hfield
  rcases hfield with rfl | rfl | rfl | rfl
  · exact hbareFields.type.trans hfields.type.symm
  · exact hbareFields.segmentTable.trans hfields.segmentTable.symm
  · exact hbareFields.segmentEntrySize.trans hfields.segmentEntrySize.symm
  · exact hbareFields.segmentCount.trans hfields.segmentCount.symm

theorem identify_stripped (options : ElfBuildOptions) :
    identify options.stripped =
      .elf (options.cursor options.stripped) options.is64Bit :=
  identify_header_append options.bare _

/-- A built image and its stripped form. -/
def strippedObject (options : ElfBuildOptions) (hshows : options.ShowsBoth) :
    StrippedObject where
  bytes := buildElf options
  stripped := options.stripped
  image := options.cursor (buildElf options)
  strippedImage := options.cursor options.stripped
  is64Bit := options.is64Bit
  layout := options.dynamicLayout
  identified := identify_buildElf options
  strippedIdentified := identify_stripped options
  views := bothViews_buildElf hshows
  strips := strips_stripped hshows

theorem length_buildElf_le (hcount : options.sectionCount ≠ 0) :
    (buildElf options).length ≤ options.totalSize := by
  have hstrings := stringTable_fits options
  have hdynamic := dynamicArray_fits options
  have hsymbols := symbols_fit options
  have hheader := length_header options
  have hsegments := length_flatMap_record (length_putSegment options)
    options.segmentTypes
  have hsections := length_flatMap_record (length_putSection options)
    options.sections
  have hsectionLength := length_sections options
  have hoffset : options.stringTableOffset = options.headerSize +
      options.segmentEntrySize * options.segmentTypes.length := rfl
  rw [hsectionLength] at hsections
  rw [totalSize]
  simp only [buildElf, if_neg hcount, List.length_append, length_padTo_eq_max,
    length_dynamicBlock, length_symbolBlock, hheader, hsegments, hsections]
  omega

/-- A library that declares one dependency in as many entries as the walk
follows. -/
def manyNeeded : ElfBuildOptions :=
  { is64Bit := false
    needed := List.replicate maxDynamicEntries [0x78]
    includeProgramHeaders := true }

theorem stringTable_manyNeeded :
    manyNeeded.stringTable = ⟨[0, 0x78, 0], [([0x78], 1)]⟩ := by
  have hnames : manyNeeded.names = List.replicate (4095 + 1) [0x78] := by
    have hcount : maxDynamicEntries = 4095 + 1 := rfl
    have hneeded : manyNeeded.names =
        List.replicate maxDynamicEntries [0x78] ++ [] ++ [] ++ [] := rfl
    rw [hneeded, hcount, List.append_nil, List.append_nil, List.append_nil]
  have hstay : ∀ count, (List.replicate count [0x78]).foldl StringTable.intern
      ⟨[0, 0x78, 0], [([0x78], 1)]⟩ = ⟨[0, 0x78, 0], [([0x78], 1)]⟩ := by
    intro count
    induction count with
    | zero => rfl
    | succ count ih =>
      rw [List.replicate_succ, List.foldl_cons]
      exact ih
  rw [stringTable, hnames, List.replicate_succ, List.foldl_cons]
  exact hstay 4095

theorem dynamicEntries_manyNeeded :
    manyNeeded.dynamicEntries =
      List.replicate maxDynamicEntries (dynamicTagNeeded, 1) ++
        [(dynamicTagStringTable, 116), (dynamicTagStringTableSize, 3)] := by
  have hoffset : manyNeeded.stringTable.offsetOf [0x78] = 1 := by
    rw [stringTable_manyNeeded]
    rfl
  have hsize : manyNeeded.stringTable.bytes.length = 3 := by
    rw [stringTable_manyNeeded]
    rfl
  have hplace : manyNeeded.stringTableOffset = 116 := rfl
  have hneeded : manyNeeded.needed = List.replicate maxDynamicEntries [0x78] :=
    rfl
  have hsoname : manyNeeded.soname = [] := rfl
  rw [ElfBuildOptions.dynamicEntries, hneeded, hsoname, if_pos rfl, List.map_replicate,
    hoffset, hsize, hplace, List.append_nil]
  rfl

theorem showsBoth_manyNeeded : manyNeeded.ShowsBoth := by
  refine ⟨rfl, rfl, rfl, ?_⟩
  have hsections : manyNeeded.sectionCount = 3 := rfl
  have hcount : manyNeeded.dynamicCount = 4099 := by
    have hlength := length_dynamicArray manyNeeded
    have harray : manyNeeded.dynamicArray =
        manyNeeded.dynamicEntries ++ [(0, 0)] := rfl
    rw [harray, dynamicEntries_manyNeeded] at hlength
    simp only [List.length_append, List.length_replicate] at hlength
    rw [← hlength]
    rfl
  have hsize : manyNeeded.stringTable.bytes.length = 3 := by
    rw [stringTable_manyNeeded]
    rfl
  have hplace : manyNeeded.stringTableOffset = 116 := rfl
  have hsymbols : manyNeeded.symbolCount = 0 := rfl
  have hentry : manyNeeded.dynamicEntrySize = 8 := rfl
  have hrow : manyNeeded.sectionEntrySize = 40 := rfl
  have hsymbolRow : manyNeeded.symbolEntrySize = 16 := rfl
  refine (length_buildElf_le (by rw [hsections]; decide)).trans ?_
  rw [totalSize, sectionTableOffset, symbolTableOffset, dynamicOffset, hplace,
    hsize, hentry, hcount, hsymbols, hsections, hrow, hsymbolRow]
  decide

theorem block_strings (options : ElfBuildOptions) :
    options.reader.image.block options.dynamicLayout.stringOffset
      options.dynamicLayout.stringSize = options.stringTableCursor := by
  have hat := (layout options).stringTable.take_drop
  have hbytes : (options.reader.image.bytes.drop
      options.dynamicLayout.stringOffset).take
        options.dynamicLayout.stringSize = options.stringTable.bytes := hat
  rw [ByteCursor.block, hbytes]
  rfl

/-- The first dependency is the first thing the walk records. -/
theorem mem_neededOffsets (hshows : options.ShowsBoth) {name : List UInt8}
    {others : List (List UInt8)} (hneeded : options.needed = name :: others) :
    options.stringTable.offsetOf name ∈
      (options.reader.walkDynamicArray (options.reader.image.block
        options.dynamicLayout.offset
        options.dynamicLayout.size)).neededOffsets := by
  obtain ⟨rest, hrest⟩ : ∃ rest, options.dynamicEntries =
      (dynamicTagNeeded, options.stringTable.offsetOf name) :: rest := by
    rw [dynamicEntries, hneeded]
    exact ⟨_, rfl⟩
  obtain ⟨rounds, hrounds⟩ : ∃ rounds, maxDynamicEntries = rounds + 1 :=
    ⟨_, rfl⟩
  have hentries := entriesFrom_block hshows maxDynamicEntries
  have hclass : options.reader.is64Bit = options.is64Bit := rfl
  have hfirst : ElfReader.recordEntry {} dynamicTagNeeded
      (options.stringTable.offsetOf name) =
        { neededOffsets := [options.stringTable.offsetOf name] } := rfl
  rw [ElfReader.walkDynamicArray, ElfReader.walkDynamicArrayFrom_eq, hclass,
    hentries, hrest, hrounds, List.take_succ_cons, ElfReader.recordEntries_cons,
    hfirst]
  exact (ElfReader.prefix_recordEntries _ _).subset List.mem_cons_self

/-- By its section headers an image declares its first dependency. -/
theorem needed_ne_nil (hshows : options.ShowsBoth)
    (htype : options.fileType.toNat ≠ typeRelocatable) {name : List UInt8}
    {others : List (List UInt8)} (hneeded : options.needed = name :: others)
    (hname : IsName name) (hne : name ≠ []) (path : String) :
    (readElf path (some (buildElf options))).value.needed ≠ [] := by
  have hsmall : (options.cursor (buildElf options)).size < 2 ^ 63 :=
    lt_of_le_of_lt hshows.size (by decide)
  have hnames := (bothViews_buildElf hshows).names_read_linked
    (by decide : 2 < maxSectionHeaders) (by decide : 1 < maxSectionHeaders)
    hsmall
  have hnotRelocatable : ¬ options.reader.field options.reader.image
      headerType = some typeRelocatable := by
    have hfield : options.reader.field options.reader.image headerType =
        some options.fileType.toNat := (headerFields_buildElf hshows.size).type
    rw [hfield, Option.some.injEq]
    exact htype
  have hread : name ∈ (options.reader.walkDynamicArray
      (options.reader.image.block options.dynamicLayout.offset
        options.dynamicLayout.size)).neededOffsets.filterMap
          (ElfReader.stringAt options.stringTableCursor) := by
    rw [List.mem_filterMap]
    refine ⟨_, mem_neededOffsets hshows hneeded, ?_⟩
    rw [stringAt_stringTableCursor hname (mem_names (Or.inl (by simp [hneeded]))),
      if_neg hne]
  have hvalue := (StrippedObject.names_readElf (identify_buildElf options)
    hshows.size path).trans (hnames.trans (if_neg hnotRelocatable))
  have hkept : (readElf path (some (buildElf options))).value.needed =
      (normalizeAndCap ((options.reader.walkDynamicArray
        (options.reader.image.block options.dynamicLayout.offset
          options.dynamicLayout.size)).neededOffsets.filterMap
            (ElfReader.stringAt options.stringTableCursor))
              maxNeededEntries).1 := by
    rw [← block_strings, ElfReader.needed_eq_names, hvalue]
    rfl
  rw [hkept]
  intro hempty
  rcases @mem_normalizeAndCap_or _ maxNeededEntries _ hread with hmem | ⟨hfull, -⟩
  · rw [hempty] at hmem
    simp at hmem
  · rw [hempty] at hfull
    exact absurd hfull (by decide)

/-- Without them it declares none when the walk ends ahead of the address of
the strings. -/
theorem needed_stripped_eq_nil (hshows : options.ShowsBoth)
    (hunplaced : ∀ entry ∈ options.dynamicEntries.take maxDynamicEntries,
      entry.1 ≠ dynamicTagStringTable) (path : String) :
    (readElf path (some options.stripped)).value.needed = [] := by
  have hstrips := strips_stripped hshows
  have hsmall : (options.cursor (buildElf options)).size < 2 ^ 63 :=
    lt_of_le_of_lt hshows.size (by decide)
  rw [← tableEntries_block hshows] at hunplaced
  have hnames := hstrips.names_read_of_unplaced (bothViews_buildElf hshows)
    (by decide : 1 < maxProgramHeaders) hunplaced hsmall
  have hsize : options.stripped.length ≤ maxBinaryBytes :=
    hstrips.size_le.trans hshows.size
  rw [ElfReader.needed_eq_names,
    StrippedObject.names_readElf (identify_stripped options) hsize path, hnames]

theorem bytes_strippedObject (hshows : options.ShowsBoth) :
    (options.strippedObject hshows).bytes = buildElf options := rfl

theorem stripped_strippedObject (hshows : options.ShowsBoth) :
    (options.strippedObject hshows).stripped = options.stripped := rfl

theorem not_agrees_of_unplaced (hshows : options.ShowsBoth)
    (htype : options.fileType.toNat ≠ typeRelocatable) {name : List UInt8}
    {others : List (List UInt8)} (hneeded : options.needed = name :: others)
    (hname : IsName name) (hne : name ≠ [])
    (hunplaced : ∀ entry ∈ options.dynamicEntries.take maxDynamicEntries,
      entry.1 ≠ dynamicTagStringTable) (path : String) :
    ¬ (options.strippedObject hshows).Agrees path := by
  rintro ⟨hsame, -⟩
  rw [stripped_strippedObject, bytes_strippedObject,
    needed_stripped_eq_nil hshows hunplaced path] at hsame
  exact needed_ne_nil hshows htype hneeded hname hne path hsame.symm

/-- The entry behind the cap gives the address of the strings: without section
headers no dependency is read. -/
theorem not_agrees_manyNeeded :
    ¬ (manyNeeded.strippedObject showsBoth_manyNeeded).Agrees "libmany.so" := by
  have htype : manyNeeded.fileType.toNat ≠ typeRelocatable := by
    have hshared : manyNeeded.fileType.toNat = 3 := rfl
    rw [hshared]
    decide
  have hfirst : manyNeeded.needed = [0x78] :: List.replicate 4095 [0x78] :=
    List.replicate_succ
  refine not_agrees_of_unplaced showsBoth_manyNeeded htype hfirst (by decide)
    (by decide) ?_ "libmany.so"
  intro entry hentry
  rw [dynamicEntries_manyNeeded, List.take_left' List.length_replicate]
    at hentry
  rw [List.eq_of_mem_replicate hentry]
  decide

theorem follows_buildElf (hshows : options.ShowsBoth)
    (hfew : options.dynamicEntries.length ≤ maxDynamicEntries) :
    options.reader.Follows options.dynamicLayout := by
  obtain ⟨haddress, hsize⟩ := declares_dynamicEntries options
  have hentries : (tableEntries options.reader.is64Bit
      (options.reader.image.block options.dynamicLayout.offset
        options.dynamicLayout.size)).take maxDynamicEntries =
          options.dynamicEntries := by
    have htable := tableEntries_block hshows
    have hclass : options.reader.is64Bit = options.is64Bit := rfl
    rw [hclass, htable, List.take_of_length_le hfew]
  refine ⟨(by decide : 1 < maxProgramHeaders),
    (by decide : 0 < maxProgramHeaders), ?_, ?_⟩
  · rw [hentries]
    exact haddress.mem
  · rw [hentries]
    exact hsize.mem

def oneNeeded : ElfBuildOptions :=
  { needed := [[0x7A]]
    soname := [0x66]
    includeProgramHeaders := true }

theorem showsBoth_oneNeeded : oneNeeded.ShowsBoth :=
  ⟨rfl, rfl, rfl, by decide +kernel⟩

theorem agrees_oneNeeded :
    (oneNeeded.strippedObject showsBoth_oneNeeded).Agrees "libz.so" := by
  have hfollows := follows_buildElf showsBoth_oneNeeded (by decide)
  exact StrippedObject.agrees_of_withinCaps
    (oneNeeded.strippedObject showsBoth_oneNeeded)
    ⟨showsBoth_oneNeeded.size, hfollows⟩ "libz.so"

end ElfBuildOptions

end Bomwerk.Binscan
