import Bomwerk.Binscan.ElfBuilder
import Bomwerk.Binscan.ElfRead

/-!
# The layout of a built image

What the reader finds in an image of `build_elf`: every record reads back
field by field in either class and byte order, every name stands in the string
table, and every block stands at the offset the header tables give.
-/

namespace Bomwerk.Binscan

open Bomwerk.Core Bomwerk.Support

/-! ## Fields -/

def ByteOrder.ofBigEndian (bigEndian : Bool) : ByteOrder :=
  if bigEndian then .big else .little

namespace ByteCursor

variable {order : ByteOrder}

/-- A field is read as it was written. -/
theorem uintAt_putUint_append {bigEndian : Bool} {value count : Nat}
    {width : IntegerWidth} (hcount : width.byteCount = count)
    (hvalue : value < 256 ^ count) (rest : List UInt8) :
    uintAt ⟨putUint bigEndian value count ++ rest, .ofBigEndian bigEndian⟩ 0
      width = some value := by
  have hlength := length_putUint bigEndian value count
  have hrange : hasRange ⟨putUint bigEndian value count ++ rest,
      .ofBigEndian bigEndian⟩ 0 count = true := by
    rw [hasRange_eq_true_iff, size, List.length_append, hlength]
    omega
  have hfield : ((putUint bigEndian value count ++ rest).drop 0).take count =
      putUint bigEndian value count := by
    rw [List.drop_zero, List.take_left' hlength]
  rw [uintAt, hcount, if_pos hrange]
  simp only [hfield]
  cases bigEndian with
  | false =>
    simp only [ByteOrder.ofBigEndian, putUint, Bool.false_eq_true, if_false,
      fromLittleEndian_littleEndian, Nat.mod_eq_of_lt hvalue]
  | true =>
    simp only [ByteOrder.ofBigEndian, putUint, if_true, List.reverse_reverse,
      fromLittleEndian_littleEndian, Nat.mod_eq_of_lt hvalue]

theorem uintAt_one {bigEndian : Bool} {value : Nat} (hvalue : value < 256 ^ 1)
    (rest : List UInt8) :
    uintAt ⟨putUint bigEndian value 1 ++ rest, .ofBigEndian bigEndian⟩ 0
      .oneByte = some value :=
  have hcount : IntegerWidth.oneByte.byteCount = 1 := rfl
  uintAt_putUint_append hcount hvalue rest

theorem uintAt_two {bigEndian : Bool} {value : Nat} (hvalue : value < 256 ^ 2)
    (rest : List UInt8) :
    uintAt ⟨putUint bigEndian value 2 ++ rest, .ofBigEndian bigEndian⟩ 0
      .twoBytes = some value :=
  have hcount : IntegerWidth.twoBytes.byteCount = 2 := rfl
  uintAt_putUint_append hcount hvalue rest

theorem uintAt_four {bigEndian : Bool} {value : Nat} (hvalue : value < 256 ^ 4)
    (rest : List UInt8) :
    uintAt ⟨putUint bigEndian value 4 ++ rest, .ofBigEndian bigEndian⟩ 0
      .fourBytes = some value :=
  have hcount : IntegerWidth.fourBytes.byteCount = 4 := rfl
  uintAt_putUint_append hcount hvalue rest

theorem uintAt_eight {bigEndian : Bool} {value : Nat} (hvalue : value < 256 ^ 8)
    (rest : List UInt8) :
    uintAt ⟨putUint bigEndian value 8 ++ rest, .ofBigEndian bigEndian⟩ 0
      .eightBytes = some value :=
  have hcount : IntegerWidth.eightBytes.byteCount = 8 := rfl
  uintAt_putUint_append hcount hvalue rest

/-- A field behind the first bytes. -/
theorem uintAt_append {first : List UInt8} {offset : Nat}
    (hoffset : first.length ≤ offset) (rest : List UInt8)
    (width : IntegerWidth) :
    uintAt ⟨first ++ rest, order⟩ offset width =
      uintAt ⟨rest, order⟩ (offset - first.length) width := by
  have hrange : hasRange ⟨first ++ rest, order⟩ offset width.byteCount =
      hasRange ⟨rest, order⟩ (offset - first.length) width.byteCount := by
    rw [Bool.eq_iff_iff, hasRange_eq_true_iff, hasRange_eq_true_iff, size, size]
    simp only [List.length_append]
    omega
  have hdrop : (first ++ rest).drop offset =
      rest.drop (offset - first.length) := by
    rw [List.drop_append, List.drop_eq_nil_of_le hoffset, List.nil_append]
  rw [uintAt, uintAt, hrange]
  simp only [hdrop]

theorem subrange_of_isAt {bytes block : List UInt8} {offset : Nat}
    (hblock : IsAt bytes offset block) :
    subrange ⟨bytes, order⟩ offset block.length = some ⟨block, order⟩ := by
  rw [subrange_eq_some_iff]
  refine ⟨hblock.length_le, ?_⟩
  rw [hblock.take_drop]

end ByteCursor

section Records

variable (options : ElfBuildOptions)

def ElfBuildOptions.cursor (record : List UInt8) : ByteCursor :=
  ⟨record, .ofBigEndian options.bigEndian⟩

def ElfBuildOptions.FitsAddress (value : Nat) : Prop :=
  value < 256 ^ options.addressWidth

theorem field_putSection {entry : ElfBuildOptions.Section}
    (htype : entry.type < 256 ^ 4) (hoffset : options.FitsAddress entry.offset)
    (hsize : options.FitsAddress entry.size) (hlink : entry.link < 256 ^ 4) :
    fieldOf options.is64Bit (options.cursor (options.putSection entry))
        sectionType = some entry.type ∧
      fieldOf options.is64Bit (options.cursor (options.putSection entry))
        sectionFileOffset = some entry.offset ∧
      fieldOf options.is64Bit (options.cursor (options.putSection entry))
        sectionSize = some entry.size ∧
      fieldOf options.is64Bit (options.cursor (options.putSection entry))
        sectionLink = some entry.link := by
  rw [ElfBuildOptions.FitsAddress, ElfBuildOptions.addressWidth] at hoffset hsize
  cases hclass : options.is64Bit with
  | true =>
    rw [hclass, if_pos rfl] at hoffset hsize
    simp [fieldOf, ElfBuildOptions.cursor, ElfBuildOptions.putSection,
      ElfBuildOptions.put, ElfBuildOptions.putAddress,
      ElfBuildOptions.addressWidth, hclass, sectionType, sectionFileOffset,
      sectionSize, sectionLink, ByteCursor.uintAt_append]
    exact ⟨ByteCursor.uintAt_four htype _, ByteCursor.uintAt_eight hoffset _,
      ByteCursor.uintAt_eight hsize _, ByteCursor.uintAt_four hlink _⟩
  | false =>
    rw [hclass, if_neg (by decide)] at hoffset hsize
    simp [fieldOf, ElfBuildOptions.cursor, ElfBuildOptions.putSection,
      ElfBuildOptions.put, ElfBuildOptions.putAddress,
      ElfBuildOptions.addressWidth, hclass, sectionType, sectionFileOffset,
      sectionSize, sectionLink, ByteCursor.uintAt_append]
    exact ⟨ByteCursor.uintAt_four htype _, ByteCursor.uintAt_four hoffset _,
      ByteCursor.uintAt_four hsize _, ByteCursor.uintAt_four hlink _⟩

/-- `p_offset`, which is `p_vaddr` too. -/
def ElfBuildOptions.segmentStart (segmentType : Nat) : Nat :=
  if segmentType = 1 then 0 else options.dynamicOffset

/-- `p_filesz`. -/
def ElfBuildOptions.segmentLength (segmentType : Nat) : Nat :=
  if segmentType = 1 then options.totalSize
  else options.dynamicEntrySize * options.dynamicCount

theorem field_putSegment {type : Nat} (htype : type < 256 ^ 4)
    (hstart : options.FitsAddress (options.segmentStart type))
    (hlength : options.FitsAddress (options.segmentLength type)) :
    fieldOf options.is64Bit (options.cursor (options.putSegment type))
        segmentType = some type ∧
      fieldOf options.is64Bit (options.cursor (options.putSegment type))
        segmentFileOffset = some (options.segmentStart type) ∧
      fieldOf options.is64Bit (options.cursor (options.putSegment type))
        segmentVirtualAddress = some (options.segmentStart type) ∧
      fieldOf options.is64Bit (options.cursor (options.putSegment type))
        segmentFileSize = some (options.segmentLength type) := by
  rw [ElfBuildOptions.FitsAddress, ElfBuildOptions.addressWidth] at hstart hlength
  rw [ElfBuildOptions.segmentStart] at hstart ⊢
  rw [ElfBuildOptions.segmentLength] at hlength ⊢
  cases hclass : options.is64Bit with
  | true =>
    rw [hclass, if_pos rfl] at hstart hlength
    simp [fieldOf, ElfBuildOptions.cursor, ElfBuildOptions.putSegment,
      ElfBuildOptions.put, ElfBuildOptions.putAddress,
      ElfBuildOptions.addressWidth, hclass, segmentType, segmentFileOffset,
      segmentVirtualAddress, segmentFileSize, ByteCursor.uintAt_append]
    exact ⟨ByteCursor.uintAt_four htype _, ByteCursor.uintAt_eight hstart _,
      ByteCursor.uintAt_eight hstart _, ByteCursor.uintAt_eight hlength _⟩
  | false =>
    rw [hclass, if_neg Bool.false_ne_true] at hstart hlength
    simp [fieldOf, ElfBuildOptions.cursor, ElfBuildOptions.putSegment,
      ElfBuildOptions.put, ElfBuildOptions.putAddress,
      ElfBuildOptions.addressWidth, hclass, segmentType, segmentFileOffset,
      segmentVirtualAddress, segmentFileSize, ByteCursor.uintAt_append]
    exact ⟨ByteCursor.uintAt_four htype _, ByteCursor.uintAt_four hstart _,
      ByteCursor.uintAt_four hstart _, ByteCursor.uintAt_four hlength _⟩

theorem field_putDynamic {tag value : Nat} (htag : options.FitsAddress tag)
    (hvalue : options.FitsAddress value) :
    fieldOf options.is64Bit (options.cursor (options.putDynamic (tag, value)))
        dynamicTag = some tag ∧
      fieldOf options.is64Bit (options.cursor (options.putDynamic (tag, value)))
        dynamicValue = some value := by
  rw [ElfBuildOptions.FitsAddress, ElfBuildOptions.addressWidth] at htag hvalue
  cases hclass : options.is64Bit with
  | true =>
    rw [hclass, if_pos rfl] at htag hvalue
    have hlast : ByteCursor.uintAt ⟨putUint options.bigEndian value 8,
        .ofBigEndian options.bigEndian⟩ 0 .eightBytes = some value := by
      simpa only [List.append_nil] using ByteCursor.uintAt_eight hvalue []
    simp [fieldOf, ElfBuildOptions.cursor, ElfBuildOptions.putDynamic,
      ElfBuildOptions.put, ElfBuildOptions.putAddress,
      ElfBuildOptions.addressWidth, hclass, dynamicTag, dynamicValue,
      ByteCursor.uintAt_append, hlast]
    exact ByteCursor.uintAt_eight htag _
  | false =>
    rw [hclass, if_neg (by decide)] at htag hvalue
    have hlast : ByteCursor.uintAt ⟨putUint options.bigEndian value 4,
        .ofBigEndian options.bigEndian⟩ 0 .fourBytes = some value := by
      simpa only [List.append_nil] using ByteCursor.uintAt_four hvalue []
    simp [fieldOf, ElfBuildOptions.cursor, ElfBuildOptions.putDynamic,
      ElfBuildOptions.put, ElfBuildOptions.putAddress,
      ElfBuildOptions.addressWidth, hclass, dynamicTag, dynamicValue,
      ByteCursor.uintAt_append, hlast]
    exact ByteCursor.uintAt_four htag _

/-- The order of the fields depends on the class, what is read does not. -/
theorem field_putSymbol {nameOffset info sectionIndex : Nat}
    (hname : nameOffset < 256 ^ 4) (hinfo : info < 256 ^ 1)
    (hsection : sectionIndex < 256 ^ 2) :
    fieldOf options.is64Bit (options.cursor (options.putSymbol
        (nameOffset, info, sectionIndex))) symbolName = some nameOffset ∧
      fieldOf options.is64Bit (options.cursor (options.putSymbol
        (nameOffset, info, sectionIndex))) symbolInfo = some info ∧
      fieldOf options.is64Bit (options.cursor (options.putSymbol
        (nameOffset, info, sectionIndex))) symbolSectionIndex =
          some sectionIndex := by
  cases hclass : options.is64Bit with
  | true =>
    simp [fieldOf, ElfBuildOptions.cursor, ElfBuildOptions.putSymbol,
      ElfBuildOptions.put, hclass, symbolName, symbolInfo,
      symbolSectionIndex, ByteCursor.uintAt_append]
    exact ⟨ByteCursor.uintAt_four hname _, ByteCursor.uintAt_one hinfo _,
      ByteCursor.uintAt_two hsection _⟩
  | false =>
    have hlast : ByteCursor.uintAt ⟨putUint options.bigEndian sectionIndex 2,
        .ofBigEndian options.bigEndian⟩ 0 .twoBytes = some sectionIndex := by
      simpa only [List.append_nil] using ByteCursor.uintAt_two hsection []
    simp [fieldOf, ElfBuildOptions.cursor, ElfBuildOptions.putSymbol,
      ElfBuildOptions.put, hclass, symbolName, symbolInfo,
      symbolSectionIndex, ByteCursor.uintAt_append, hlast]
    exact ⟨ByteCursor.uintAt_four hname _, ByteCursor.uintAt_one hinfo _⟩

theorem length_ident : options.ident.length = 16 := by
  rw [ElfBuildOptions.ident, length_padTo]
  simp [ElfBuildOptions.put]

theorem length_header : options.header.length = options.headerSize := by
  cases hclass : options.is64Bit <;>
    simp [ElfBuildOptions.header, length_ident, ElfBuildOptions.put,
      ElfBuildOptions.putAddress, ElfBuildOptions.addressWidth,
      ElfBuildOptions.headerSize, hclass]

theorem sectionCount_lt : options.sectionCount < 256 ^ 2 := by
  rw [ElfBuildOptions.sectionCount]
  split_ifs <;> decide

theorem length_segmentTypes_lt :
    options.segmentTypes.length < 256 ^ 2 := by
  rw [ElfBuildOptions.segmentTypes]
  split_ifs <;> decide

theorem entrySizes_lt :
    options.sectionEntrySize < 256 ^ 2 ∧ options.segmentEntrySize < 256 ^ 2 := by
  rw [ElfBuildOptions.sectionEntrySize, ElfBuildOptions.segmentEntrySize]
  cases options.is64Bit <;> decide

theorem segmentTable_lt : options.segmentTable < 256 ^ 4 := by
  rw [ElfBuildOptions.segmentTable, ElfBuildOptions.segmentTableOffset,
    ElfBuildOptions.headerSize]
  split_ifs <;> decide

/-- What the reader asks the header. -/
structure ElfBuildOptions.HeaderFields (options : ElfBuildOptions)
    (bytes : List UInt8) : Prop where
  type : fieldOf options.is64Bit (options.cursor bytes) headerType =
    some options.fileType.toNat
  sectionTable : fieldOf options.is64Bit (options.cursor bytes)
    headerSectionTableOffset = some options.sectionTable
  sectionEntrySize : fieldOf options.is64Bit (options.cursor bytes)
    headerSectionEntrySize = some options.sectionEntrySize
  sectionCount : fieldOf options.is64Bit (options.cursor bytes)
    headerSectionCount = some options.sectionCount
  segmentTable : fieldOf options.is64Bit (options.cursor bytes)
    headerSegmentTableOffset = some options.segmentTable
  segmentEntrySize : fieldOf options.is64Bit (options.cursor bytes)
    headerSegmentEntrySize = some options.segmentEntrySize
  segmentCount : fieldOf options.is64Bit (options.cursor bytes)
    headerSegmentCount = some options.segmentTypes.length

/-- The header holds them, whatever stands behind it. -/
theorem headerFields_header (rest : List UInt8)
    (hsections : options.FitsAddress options.sectionTable) :
    options.HeaderFields (options.header ++ rest) := by
  have htype : options.fileType.toNat < 256 ^ 2 := options.fileType.toNat_lt
  have hcount := sectionCount_lt options
  have hsegmentCount := length_segmentTypes_lt options
  obtain ⟨hentry, hsegmentEntry⟩ := entrySizes_lt options
  have hsegments := segmentTable_lt options
  rw [ElfBuildOptions.FitsAddress, ElfBuildOptions.addressWidth] at hsections
  cases hclass : options.is64Bit with
  | true =>
    rw [hclass, if_pos rfl] at hsections
    have hsegments' : options.segmentTable < 256 ^ 8 :=
      hsegments.trans (by decide)
    constructor
    all_goals simp [fieldOf, ElfBuildOptions.cursor, ElfBuildOptions.header,
        ElfBuildOptions.put, ElfBuildOptions.putAddress,
        ElfBuildOptions.addressWidth, hclass, headerType,
        headerSectionTableOffset, headerSectionEntrySize, headerSectionCount,
        headerSegmentTableOffset, headerSegmentEntrySize, headerSegmentCount,
        ByteCursor.uintAt_append, length_ident]
    · exact ByteCursor.uintAt_two htype _
    · exact ByteCursor.uintAt_eight hsections _
    · exact ByteCursor.uintAt_two hentry _
    · exact ByteCursor.uintAt_two hcount _
    · exact ByteCursor.uintAt_eight hsegments' _
    · exact ByteCursor.uintAt_two hsegmentEntry _
    · exact ByteCursor.uintAt_two hsegmentCount _
  | false =>
    rw [hclass, if_neg (by decide)] at hsections
    constructor
    all_goals simp [fieldOf, ElfBuildOptions.cursor, ElfBuildOptions.header,
        ElfBuildOptions.put, ElfBuildOptions.putAddress,
        ElfBuildOptions.addressWidth, hclass, headerType,
        headerSectionTableOffset, headerSectionEntrySize, headerSectionCount,
        headerSegmentTableOffset, headerSegmentEntrySize, headerSegmentCount,
        ByteCursor.uintAt_append, length_ident]
    · exact ByteCursor.uintAt_two htype _
    · exact ByteCursor.uintAt_four hsections _
    · exact ByteCursor.uintAt_two hentry _
    · exact ByteCursor.uintAt_two hcount _
    · exact ByteCursor.uintAt_four hsegments _
    · exact ByteCursor.uintAt_two hsegmentEntry _
    · exact ByteCursor.uintAt_two hsegmentCount _

theorem length_putSegment (segmentType : Nat) :
    (options.putSegment segmentType).length = options.segmentEntrySize := by
  cases hclass : options.is64Bit <;>
    simp [ElfBuildOptions.putSegment, ElfBuildOptions.put,
      ElfBuildOptions.putAddress, ElfBuildOptions.addressWidth,
      ElfBuildOptions.segmentEntrySize, hclass]

theorem length_putDynamic (entry : Nat × Nat) :
    (options.putDynamic entry).length = options.dynamicEntrySize := by
  cases hclass : options.is64Bit <;>
    simp [ElfBuildOptions.putDynamic, ElfBuildOptions.put,
      ElfBuildOptions.putAddress, ElfBuildOptions.addressWidth,
      ElfBuildOptions.dynamicEntrySize, hclass]

theorem length_putSymbol (symbol : Nat × Nat × Nat) :
    (options.putSymbol symbol).length = options.symbolEntrySize := by
  cases hclass : options.is64Bit <;>
    simp [ElfBuildOptions.putSymbol, ElfBuildOptions.put,
      ElfBuildOptions.symbolEntrySize, hclass]

theorem length_putSection (entry : ElfBuildOptions.Section) :
    (options.putSection entry).length = options.sectionEntrySize := by
  cases hclass : options.is64Bit <;>
    simp [ElfBuildOptions.putSection, ElfBuildOptions.put,
      ElfBuildOptions.putAddress, ElfBuildOptions.addressWidth,
      ElfBuildOptions.sectionEntrySize, hclass]

end Records

/-! ## Names -/

namespace StringTable

/-- Every name that has an offset stands there, terminated. -/
def Sound (table : StringTable) : Prop :=
  ∀ text offset, table.offsets.lookup text = some offset →
    IsAt table.bytes offset (text ++ [0])

theorem sound_intern {table : StringTable} (hsound : table.Sound)
    (text : List UInt8) : (table.intern text).Sound := by
  rw [intern]
  split
  · exact hsound
  · intro other offset hlookup
    rw [List.lookup_cons] at hlookup
    split at hlookup
    · next heq =>
        obtain rfl := Option.some.inj hlookup
        rw [beq_iff_eq.mp heq]
        dsimp only
        rw [List.append_assoc]
        exact IsAt.last _ _
    · dsimp only
      rw [List.append_assoc]
      exact (hsound other offset hlookup).append_right _

theorem lookup_intern {table : StringTable} {text other : List UInt8}
    (hother : (table.offsets.lookup other).isSome ∨ other = text) :
    ((table.intern text).offsets.lookup other).isSome := by
  rw [intern]
  split
  · next offset hknown =>
      rcases hother with hother | rfl
      · exact hother
      · rw [hknown]
        rfl
  · dsimp only
    rw [List.lookup_cons]
    split
    · rfl
    · next hne =>
        rcases hother with hother | rfl
        · exact hother
        · simp at hne

theorem foldl_intern {names : List (List UInt8)} {table : StringTable}
    (hsound : table.Sound) :
    (names.foldl intern table).Sound ∧
      ∀ text, (table.offsets.lookup text).isSome ∨ text ∈ names →
        ((names.foldl intern table).offsets.lookup text).isSome := by
  induction names generalizing table with
  | nil => exact ⟨hsound, fun text htext => by simpa using htext⟩
  | cons name names ih =>
    obtain ⟨hrest, hlookup⟩ := ih (sound_intern hsound name)
    refine ⟨hrest, fun text htext => hlookup text ?_⟩
    rcases htext with hknown | hmem
    · exact Or.inl (lookup_intern (Or.inl hknown))
    · rcases List.mem_cons.mp hmem with rfl | hmem
      · exact Or.inl (lookup_intern (Or.inr rfl))
      · exact Or.inr hmem

end StringTable

section Names

variable {options : ElfBuildOptions}

/-- Every name stands in the string table, at the offset the tables give. -/
theorem isAt_offsetOf {name : List UInt8} (hname : name ∈ options.names) :
    IsAt options.stringTable.bytes (options.stringTable.offsetOf name)
      (name ++ [0]) := by
  have hempty : ({} : StringTable).Sound := by
    intro text offset hlookup
    exact absurd hlookup (by simp)
  have hnames : options.stringTable.Sound ∧ ∀ text,
      (([] : List (List UInt8 × Nat)).lookup text).isSome ∨
        text ∈ options.names →
      (options.stringTable.offsets.lookup text).isSome :=
    StringTable.foldl_intern hempty
  obtain ⟨offset, hoffset⟩ :=
    Option.isSome_iff_exists.mp (hnames.2 name (Or.inr hname))
  rw [StringTable.offsetOf, hoffset]
  exact hnames.1 name offset hoffset

/-- The names the format can hold: without a NUL, and not over-long. -/
structure IsName (name : List UInt8) : Prop where
  noNul : 0 ∉ name
  short : name.length < maxStringLength

instance (name : List UInt8) : Decidable (IsName name) :=
  decidable_of_iff (0 ∉ name ∧ name.length < maxStringLength)
    ⟨fun h => ⟨h.1, h.2⟩, fun h => ⟨h.noNul, h.short⟩⟩

/-- The empty name is the one that is not recorded. -/
theorem stringAt_of_isAt {table name : List UInt8} {offset : Nat}
    {order : ByteOrder} (hname : IsName name)
    (hat : IsAt table offset (name ++ [0])) :
    ElfReader.stringAt ⟨table, order⟩ offset =
      if name = [] then none else some name := by
  have hbound := hat.length_le
  rw [List.length_append] at hbound
  have hsize : ¬ ByteCursor.size ⟨table, order⟩ < offset := by
    rw [ByteCursor.size]
    dsimp only
    omega
  obtain ⟨before, after, hbytes, hbefore⟩ := hat
  have hsearchable : (table.drop offset).take maxStringLength =
      name ++ 0 :: after.take (maxStringLength - name.length - 1) := by
    have hshort := hname.short
    obtain ⟨room, hroom⟩ : ∃ room, maxStringLength - name.length = room + 1 :=
      ⟨maxStringLength - name.length - 1, by omega⟩
    rw [hbytes, List.drop_left' hbefore, List.append_assoc, List.take_append,
      List.take_of_length_le hshort.le, hroom]
    rfl
  have htext : (name ++
      0 :: after.take (maxStringLength - name.length - 1)).takeWhile
        (fun byte => byte ≠ 0) = name := by
    rw [List.takeWhile_append_of_pos, List.takeWhile_cons_of_neg (by decide),
      List.append_nil]
    intro byte hbyte
    rw [decide_eq_true_iff]
    rintro rfl
    exact hname.noNul hbyte
  have hterminated : ByteCursor.cStringAt ⟨table, order⟩ offset maxStringLength =
      some name := by
    simp only [ByteCursor.cStringAt, hsearchable, htext]
    rw [if_neg hsize, if_pos]
    rw [List.length_append, List.length_cons]
    omega
  rw [ElfReader.stringAt, if_neg hsize, hterminated]

end Names

/-! ## Blocks -/

theorem isAt_padTo {bytes block : List UInt8} {offset : Nat}
    (hle : bytes.length ≤ offset) :
    IsAt (padTo bytes offset ++ block) offset block := by
  have hat := IsAt.last (padTo bytes offset) block
  rwa [length_padTo hle] at hat

theorem isAt_padTo_append {bytes block : List UInt8} {offset : Nat}
    (hat : IsAt bytes offset block) (position : Nat) (more : List UInt8) :
    IsAt (padTo bytes position ++ more) offset block :=
  (hat.append_right _).append_right more

section Layout

variable (options : ElfBuildOptions)

theorem length_dynamicArray :
    options.dynamicArray.length = options.dynamicCount := by
  rw [ElfBuildOptions.dynamicArray, ElfBuildOptions.dynamicCount]
  split_ifs with hdynamic hsoname
  · simp [ElfBuildOptions.dynamicEntries, hsoname]
  · simp [ElfBuildOptions.dynamicEntries, hsoname]
  · rfl

theorem length_symbols : options.symbols.length = options.symbolCount := by
  rw [ElfBuildOptions.symbols, ElfBuildOptions.symbolCount]
  split_ifs
  · simp
    omega
  · rfl

theorem length_sections : options.sections.length = options.sectionCount := by
  rw [ElfBuildOptions.sections, ElfBuildOptions.sectionCount]
  split_ifs <;> rfl

theorem le_aligned (offset : Nat) : offset ≤ ElfBuildOptions.aligned offset := by
  rw [ElfBuildOptions.aligned]
  omega

theorem stringTable_fits :
    options.stringTableOffset + options.stringTable.bytes.length ≤
      options.dynamicOffset := by
  rw [ElfBuildOptions.dynamicOffset]
  exact le_aligned _

theorem dynamicArray_fits :
    options.dynamicOffset + options.dynamicEntrySize * options.dynamicCount ≤
      options.symbolTableOffset := by
  rw [ElfBuildOptions.symbolTableOffset]
  exact le_aligned _

theorem symbols_fit :
    options.symbolTableOffset + options.symbolEntrySize * options.symbolCount ≤
      options.sectionTableOffset := by
  rw [ElfBuildOptions.sectionTableOffset]
  exact le_aligned _

/-- The places of the blocks `build_elf` writes. -/
structure Layout : Prop where
  header : IsAt (buildElf options) 0 options.header
  segments : IsAt (buildElf options) options.segmentTableOffset
    (options.segmentTypes.flatMap options.putSegment)
  stringTable : IsAt (buildElf options) options.stringTableOffset
    options.stringTable.bytes
  dynamicArray : IsAt (buildElf options) options.dynamicOffset
    (options.dynamicArray.flatMap options.putDynamic)
  symbols : IsAt (buildElf options) options.symbolTableOffset
    (options.symbols.flatMap options.putSymbol)
  sections : options.sectionCount ≠ 0 →
    IsAt (buildElf options) options.sectionTableOffset
      (options.sections.flatMap options.putSection)

theorem layout : Layout options := by
  obtain ⟨first, hfirst⟩ : ∃ first, first = options.header ++
    options.segmentTypes.flatMap options.putSegment := ⟨_, rfl⟩
  have hheader : IsAt first 0 options.header :=
    ⟨[], options.segmentTypes.flatMap options.putSegment,
      by rw [List.nil_append, hfirst], rfl⟩
  have hsegments : IsAt first options.segmentTableOffset
      (options.segmentTypes.flatMap options.putSegment) := by
    rw [hfirst, ElfBuildOptions.segmentTableOffset, ← length_header options]
    exact IsAt.last _ _
  have hfirstLength : first.length = options.stringTableOffset := by
    rw [hfirst, List.length_append, length_header,
      length_flatMap_record (length_putSegment options),
      ElfBuildOptions.stringTableOffset, ElfBuildOptions.segmentTableOffset]
  obtain ⟨second, hsecond⟩ : ∃ second, second =
    padTo first options.stringTableOffset ++ options.stringTable.bytes :=
    ⟨_, rfl⟩
  have hstringTable : IsAt second options.stringTableOffset
      options.stringTable.bytes := by
    rw [hsecond]
    exact isAt_padTo hfirstLength.le
  have hsecondLength : second.length ≤ options.dynamicOffset := by
    rw [hsecond, List.length_append, length_padTo hfirstLength.le]
    exact stringTable_fits options
  obtain ⟨third, hthird⟩ : ∃ third, third =
    padTo second options.dynamicOffset ++
      options.dynamicArray.flatMap options.putDynamic := ⟨_, rfl⟩
  have hdynamic : IsAt third options.dynamicOffset
      (options.dynamicArray.flatMap options.putDynamic) := by
    rw [hthird]
    exact isAt_padTo hsecondLength
  have hthirdLength : third.length ≤ options.symbolTableOffset := by
    rw [hthird, List.length_append, length_padTo hsecondLength,
      length_flatMap_record (length_putDynamic options), length_dynamicArray]
    exact dynamicArray_fits options
  obtain ⟨fourth, hfourth⟩ : ∃ fourth, fourth =
    padTo third options.symbolTableOffset ++
      options.symbols.flatMap options.putSymbol := ⟨_, rfl⟩
  have hsymbols : IsAt fourth options.symbolTableOffset
      (options.symbols.flatMap options.putSymbol) := by
    rw [hfourth]
    exact isAt_padTo hthirdLength
  have hfourthLength : fourth.length ≤ options.sectionTableOffset := by
    rw [hfourth, List.length_append, length_padTo hthirdLength,
      length_flatMap_record (length_putSymbol options), length_symbols]
    exact symbols_fit options
  have hbuilt : buildElf options = if options.sectionCount = 0 then fourth
      else padTo fourth options.sectionTableOffset ++
        options.sections.flatMap options.putSection := by
    rw [hfourth, hthird, hsecond, hfirst]
    simp only [buildElf]
  -- what stands in the fourth part stands in the image
  have hkeeps : ∀ {offset : Nat} {block : List UInt8}, IsAt fourth offset block →
      IsAt (buildElf options) offset block := by
    intro offset block hat
    rw [hbuilt]
    split_ifs
    · exact hat
    · exact isAt_padTo_append hat _ _
  have hsecondKept : ∀ {offset : Nat} {block : List UInt8},
      IsAt second offset block → IsAt (buildElf options) offset block := by
    intro offset block hat
    refine hkeeps ?_
    rw [hfourth, hthird]
    exact isAt_padTo_append (isAt_padTo_append hat _ _) _ _
  have hfirstKept : ∀ {offset : Nat} {block : List UInt8},
      IsAt first offset block → IsAt (buildElf options) offset block := by
    intro offset block hat
    refine hsecondKept ?_
    rw [hsecond]
    exact isAt_padTo_append hat _ _
  refine ⟨hfirstKept hheader, hfirstKept hsegments, hsecondKept hstringTable,
    hkeeps ?_, hkeeps hsymbols, ?_⟩
  · rw [hfourth]
    exact isAt_padTo_append hdynamic _ _
  · intro hcount
    rw [hbuilt, if_neg hcount]
    exact isAt_padTo hfourthLength

end Layout

end Bomwerk.Binscan
