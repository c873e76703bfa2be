import Bomwerk.Binscan.ElfLayout
import Bomwerk.Binscan.StaticVerdict

/-!
# Decoding what was encoded

`read_elf` on an image of `build_elf`: whatever the class and the byte order,
the lists come back sorted and without duplicates.
-/

namespace Bomwerk.Binscan

open Bomwerk.Core Bomwerk.Support

theorem map_getElem?_range {α : Type*} (values : List α) :
    (List.range values.length).map (fun index => values[index]?) =
      values.map some := by
  refine List.ext_getElem (by simp) ?_
  intro index hleft hright
  rw [List.length_map] at hright
  simp [List.getElem?_eq_getElem hright]

theorem filterMap_range_length {α β : Type*} {values : List α}
    {f : Nat → Option β} {g : α → Option β}
    (hf : ∀ index value, values[index]? = some value → f index = g value) :
    (List.range values.length).filterMap f = values.filterMap g := by
  have hbind : (List.range values.length).filterMap f =
      (List.range values.length).filterMap
        ((fun value => value.bind g) ∘ fun index => values[index]?) := by
    refine List.filterMap_congr ?_
    intro index hindex
    obtain ⟨value, hvalue⟩ :
        ∃ value, values[index]? = some value :=
      ⟨_, List.getElem?_eq_getElem (List.mem_range.mp hindex)⟩
    rw [Function.comp_apply, hvalue]
    exact hf index value hvalue
  rw [hbind, ← List.filterMap_map, map_getElem?_range, List.filterMap_map]
  rfl

theorem findSome?_range_length {α β : Type*} {values : List α}
    {f : Nat → Option β} {g : α → Option β}
    (hf : ∀ index value, values[index]? = some value → f index = g value) :
    (List.range values.length).findSome? f = values.findSome? g := by
  rw [← List.head?_filterMap, filterMap_range_length hf, List.head?_filterMap]

/-! ## The tables of a built image -/

namespace ElfReader

variable {reader : ElfReader} {table : HeaderTable}

theorem tableEntry_of_isAt (hbounded : reader.BoundedTable table)
    {index : Nat} (hindex : index ≤ maxSectionHeaders) {record : List UInt8}
    (hoffset : table.offset ≠ 0) (hrecord : record ≠ [])
    (hlength : record.length = table.entrySize)
    (hat : IsAt reader.image.bytes (table.offset + table.entrySize * index)
      record) :
    reader.tableEntry table index = some ⟨record, reader.image.byteOrder⟩ := by
  rw [tableEntry_eq_some_iff hbounded hindex]
  have hend := hat.length_le
  have htake := hat.take_drop
  have hpositive := List.length_pos_iff.mpr hrecord
  rw [hlength] at hend htake hpositive
  refine ⟨⟨hoffset, hpositive.ne', hend⟩, ?_⟩
  rw [declaredEntry, htake]

theorem contents_of_isAt {block : List UInt8} {offset : Nat}
    (hat : IsAt reader.image.bytes offset block) :
    reader.contents (some offset) (some block.length) =
      some ⟨block, reader.image.byteOrder⟩ := by
  have hend := hat.length_le
  have hinside : ¬ (reader.image.size < offset ∨
      reader.image.size < block.length) := by
    rw [ByteCursor.size]
    omega
  simp only [contents]
  rw [if_neg hinside]
  exact ByteCursor.subrange_of_isAt hat

/-- The first record of a type, where the records of a list fill the table. -/
theorem firstOfType_of_records {α : Type*} {records : List α}
    {record : α → ByteCursor} {type : α → Nat} {typeField : ClassDependentField}
    (hcount : table.count = records.length)
    (hentry : ∀ index value, records[index]? = some value →
      reader.tableEntry table index = some (record value))
    (htype : ∀ value ∈ records,
      reader.field (record value) typeField = some (type value))
    (wanted : Nat) :
    reader.firstOfType table typeField wanted =
      (records.find? fun value => type value = wanted).map record := by
  have hround : ∀ index value, records[index]? = some value →
      reader.entryOfType table typeField wanted index =
        if type value = wanted then some (record value) else none := by
    intro index value hvalue
    rw [entryOfType, hentry index value hvalue]
    simp only [htype value (List.mem_of_getElem? hvalue), Option.some.injEq]
  rw [firstOfType, hcount, findSome?_range_length hround]
  clear hcount hentry htype hround
  induction records with
  | nil => rfl
  | cons value records ih =>
    rw [List.findSome?_cons, List.find?_cons]
    by_cases hwanted : type value = wanted
    · simp [hwanted]
    · simpa [hwanted] using ih

end ElfReader

namespace ElfBuildOptions

variable (options : ElfBuildOptions)

def reader : ElfReader :=
  .ofImage (options.cursor (buildElf options)) options.is64Bit

/-- The bounds of the reader, and names the string table can hold. -/
structure Encodable : Prop where
  notRelocatable : options.fileType.toNat ≠ typeRelocatable
  dynamic : options.includeDynamic = true
  tables : options.includeSectionHeaders = true ∨
    options.includeProgramHeaders = true
  size : (buildElf options).length ≤ maxBinaryBytes
  needed : ∀ name ∈ options.needed, IsName name
  soname : IsName options.soname
  exported : ∀ name ∈ options.exportedSymbols, IsName name
  neededCount : options.needed.length ≤ maxNeededEntries
  symbolCount : options.symbolCount ≤ maxSymbolTableEntries
  sample : (normalized (options.exportedSymbols.filter (· ≠ []))).length ≤
    maxSymbolSample

variable {options}

theorem fitsAddress_of_le {value : Nat} (hvalue : value ≤ maxBinaryBytes + 8) :
    options.FitsAddress value := by
  have hsmall : value < 256 ^ 4 := lt_of_le_of_lt hvalue (by decide)
  rw [FitsAddress, addressWidth]
  split_ifs
  · exact hsmall.trans (by decide)
  · exact hsmall

theorem sectionTable_le : options.sectionTable ≤ (buildElf options).length := by
  rw [sectionTable]
  split_ifs with hcount
  · exact Nat.zero_le _
  · exact (Nat.le_add_right _ _).trans ((layout options).sections hcount).length_le

theorem buildElf_eq_header (options : ElfBuildOptions) :
    ∃ rest, buildElf options = options.header ++ rest := by
  obtain ⟨before, rest, hbytes, hbefore⟩ := (layout options).header
  rw [List.length_eq_zero_iff] at hbefore
  rw [hbefore, List.nil_append] at hbytes
  exact ⟨rest, hbytes⟩

theorem headerFields_buildElf
    (hsize : (buildElf options).length ≤ maxBinaryBytes) :
    options.HeaderFields (buildElf options) := by
  obtain ⟨rest, hbytes⟩ := buildElf_eq_header options
  rw [hbytes]
  apply headerFields_header
  exact fitsAddress_of_le (sectionTable_le.trans (Nat.le_add_right_of_le hsize))

theorem reader_sections (hsize : (buildElf options).length ≤ maxBinaryBytes) :
    options.reader.sections =
      { offset := options.sectionTable, entrySize := options.sectionEntrySize
        count := options.sectionCount
        capped := false
        declared := decide
          (options.sectionTable ≠ 0 ∧ 0 < options.sectionCount) } := by
  have hfields := headerFields_buildElf hsize
  have hfew : ¬ maxSectionHeaders < options.sectionCount := by
    rw [sectionCount]
    split_ifs <;> decide
  simp only [reader, ElfReader.ofImage, readTable, hfields.sectionTable,
    hfields.sectionEntrySize, hfields.sectionCount]
  simp only [hfew, if_false, decide_false]

theorem reader_segments (hsize : (buildElf options).length ≤ maxBinaryBytes) :
    options.reader.segments =
      { offset := options.segmentTable, entrySize := options.segmentEntrySize
        count := options.segmentTypes.length
        capped := false
        declared := decide
          (options.segmentTable ≠ 0 ∧ 0 < options.segmentTypes.length) } := by
  have hfields := headerFields_buildElf hsize
  have hfew : ¬ maxProgramHeaders < options.segmentTypes.length := by
    rw [segmentTypes]
    split_ifs <;> decide
  simp only [reader, ElfReader.ofImage, readTable, hfields.segmentTable,
    hfields.segmentEntrySize, hfields.segmentCount]
  simp only [hfew, if_false, decide_false]

theorem boundedTables (hsize : (buildElf options).length ≤ maxBinaryBytes) :
    options.reader.BoundedTable options.reader.sections ∧
      options.reader.BoundedTable options.reader.segments := by
  refine ElfReader.boundedTable_ofImage _ ?_
  refine lt_of_le_of_lt hsize ?_
  decide

theorem sectionHeader_of_getElem?
    (hsize : (buildElf options).length ≤ maxBinaryBytes) {index : Nat}
    {entry : Section} (hentry : options.sections[index]? = some entry) :
    options.reader.sectionHeader index =
      some (options.cursor (options.putSection entry)) := by
  have hbounded := (boundedTables hsize).1
  have hindex := (List.getElem?_eq_some_iff.mp hentry).1
  rw [length_sections] at hindex
  have hcount : options.sectionCount ≠ 0 := by omega
  have htable : options.sectionTable = options.sectionTableOffset := by
    rw [sectionTable, if_neg hcount]
  have hpositive : options.sectionTableOffset ≠ 0 := by
    have hheader : 0 < options.headerSize := by
      rw [headerSize]
      split_ifs <;> decide
    have hstrings := stringTable_fits options
    have hdynamic := dynamicArray_fits options
    have hsymbols := symbols_fit options
    rw [stringTableOffset, segmentTableOffset] at hstrings
    omega
  have hat := ((layout options).sections hcount).trans
    (isAt_flatMap (length_putSection options) options.sections hentry)
  have hlength := length_putSection options entry
  have hfew : options.sectionCount ≤ maxSectionHeaders := by
    rw [sectionCount]
    split_ifs <;> decide
  rw [ElfReader.sectionHeader]
  rw [reader_sections hsize] at hbounded ⊢
  refine ElfReader.tableEntry_of_isAt hbounded (by omega) ?_ ?_ hlength ?_
  · rwa [htable]
  · intro hnil
    rw [hnil, sectionEntrySize] at hlength
    split_ifs at hlength
  · rw [htable, Nat.mul_comm]
    exact hat

theorem segmentHeader_of_getElem?
    (hsize : (buildElf options).length ≤ maxBinaryBytes) {index type : Nat}
    (htype : options.segmentTypes[index]? = some type) :
    options.reader.segmentHeader index =
      some (options.cursor (options.putSegment type)) := by
  have hbounded := (boundedTables hsize).2
  have hindex := (List.getElem?_eq_some_iff.mp htype).1
  have hnonempty : options.segmentTypes.isEmpty = false := by
    rw [List.isEmpty_eq_false_iff]
    rintro hnil
    rw [hnil] at hindex
    simp at hindex
  have htable : options.segmentTable = options.segmentTableOffset := by
    rw [segmentTable, hnonempty, if_neg Bool.false_ne_true]
  have hat := (layout options).segments.trans
    (isAt_flatMap (length_putSegment options) options.segmentTypes htype)
  have hlength := length_putSegment options type
  have hfew : options.segmentTypes.length ≤ maxSectionHeaders := by
    rw [segmentTypes]
    split_ifs <;> decide
  rw [ElfReader.segmentHeader]
  rw [reader_segments hsize] at hbounded ⊢
  refine ElfReader.tableEntry_of_isAt hbounded (by omega) ?_ ?_ hlength ?_
  · dsimp only
    rw [htable, segmentTableOffset, headerSize]
    split_ifs <;> decide
  · intro hnil
    rw [hnil, segmentEntrySize] at hlength
    split_ifs at hlength
  · rw [htable, Nat.mul_comm]
    exact hat

/-! ## Blocks behind the headers -/

theorem contents_of_isAt {block : List UInt8} {offset length : Nat}
    (hat : IsAt (buildElf options) offset block) (hlength : block.length = length) :
    options.reader.contents (some offset) (some length) =
      some (options.cursor block) := by
  rw [← hlength]
  exact ElfReader.contents_of_isAt hat

theorem length_dynamicBlock :
    (options.dynamicArray.flatMap options.putDynamic).length =
      options.dynamicEntrySize * options.dynamicCount := by
  rw [length_flatMap_record (length_putDynamic options), length_dynamicArray]

theorem length_symbolBlock :
    (options.symbols.flatMap options.putSymbol).length =
      options.symbolEntrySize * options.symbolCount := by
  rw [length_flatMap_record (length_putSymbol options), length_symbols]

/-- The fields of a section header are wide enough for what stands in them. -/
theorem sections_fit (hsize : (buildElf options).length ≤ maxBinaryBytes) :
    ∀ entry ∈ options.sections, entry.type < 256 ^ 4 ∧
      options.FitsAddress entry.offset ∧ options.FitsAddress entry.size ∧
      entry.link < 256 ^ 4 := by
  have hfits : ∀ {value : Nat}, value ≤ (buildElf options).length →
      options.FitsAddress value := fun hle =>
    fitsAddress_of_le (hle.trans (Nat.le_add_right_of_le hsize))
  have hstrings := (layout options).stringTable.length_le
  have hdynamic := (layout options).dynamicArray.length_le
  have hsymbols := (layout options).symbols.length_le
  rw [length_dynamicBlock] at hdynamic
  rw [length_symbolBlock] at hsymbols
  intro entry hentry
  have hcases : entry = ⟨0, 0, 0, 0⟩ ∨ entry = ⟨3, options.stringTableOffset,
        options.stringTable.bytes.length, 0⟩ ∨
      entry = ⟨6, options.dynamicOffset,
        options.dynamicEntrySize * options.dynamicCount, 1⟩ ∨
      entry = ⟨11, options.symbolTableOffset,
        options.symbolEntrySize * options.symbolCount, 1⟩ := by
    rw [sections] at hentry
    split_ifs at hentry
    all_goals
      simp only [List.append_nil, List.cons_append, List.nil_append,
        List.mem_cons, List.not_mem_nil, or_false] at hentry
    all_goals tauto
  rcases hcases with rfl | rfl | rfl | rfl
  all_goals
    refine ⟨?_, hfits ?_, hfits ?_, ?_⟩
    all_goals
      dsimp only
      omega

theorem field_section (hsize : (buildElf options).length ≤ maxBinaryBytes)
    {entry : Section} (hentry : entry ∈ options.sections) :
    options.reader.field (options.cursor (options.putSection entry)) sectionType =
        some entry.type ∧
      options.reader.field (options.cursor (options.putSection entry))
        sectionFileOffset = some entry.offset ∧
      options.reader.field (options.cursor (options.putSection entry))
        sectionSize = some entry.size ∧
      options.reader.field (options.cursor (options.putSection entry))
        sectionLink = some entry.link := by
  obtain ⟨htype, hoffset, hlength, hlink⟩ := sections_fit hsize entry hentry
  exact field_putSection options htype hoffset hlength hlink

theorem firstOfType_sections (hsize : (buildElf options).length ≤ maxBinaryBytes)
    (wanted : Nat) :
    options.reader.firstOfType options.reader.sections sectionType wanted =
      (options.sections.find? fun entry => entry.type = wanted).map
        fun entry => options.cursor (options.putSection entry) := by
  refine ElfReader.firstOfType_of_records ?_ ?_ ?_ wanted
  · rw [reader_sections hsize, length_sections]
  · intro index entry hentry
    exact sectionHeader_of_getElem? hsize hentry
  · intro entry hentry
    exact (field_section hsize hentry).1

theorem totalSize_le (options : ElfBuildOptions) :
    options.totalSize ≤ (buildElf options).length + 8 := by
  rw [totalSize]
  by_cases hcount : options.sectionCount = 0
  · -- the end of the symbols was aligned for sections that do not follow
    have hsymbols := (layout options).symbols.length_le
    rw [length_symbolBlock] at hsymbols
    rw [hcount, sectionTableOffset, aligned]
    omega
  · have hsections := ((layout options).sections hcount).length_le
    rw [length_flatMap_record (length_putSection options), length_sections]
      at hsections
    omega

theorem field_segment (hsize : (buildElf options).length ≤ maxBinaryBytes)
    {type : Nat} (htype : type ∈ options.segmentTypes) :
    options.reader.field (options.cursor (options.putSegment type)) segmentType =
        some type ∧
      options.reader.field (options.cursor (options.putSegment type))
        segmentFileOffset = some (options.segmentStart type) ∧
      options.reader.field (options.cursor (options.putSegment type))
        segmentVirtualAddress = some (options.segmentStart type) ∧
      options.reader.field (options.cursor (options.putSegment type))
        segmentFileSize = some (options.segmentLength type) := by
  have htotal := totalSize_le options
  have hdynamic := (layout options).dynamicArray.length_le
  rw [length_dynamicBlock] at hdynamic
  have hsmall : type < 256 ^ 4 := by
    rw [segmentTypes] at htype
    split_ifs at htype <;> simp at htype <;> omega
  refine field_putSegment options hsmall (fitsAddress_of_le ?_)
    (fitsAddress_of_le ?_)
  · rw [segmentStart]
    split_ifs <;> omega
  · rw [segmentLength]
    split_ifs <;> omega

theorem firstOfType_segments (hsize : (buildElf options).length ≤ maxBinaryBytes)
    (wanted : Nat) :
    options.reader.firstOfType options.reader.segments segmentType wanted =
      (options.segmentTypes.find? fun type => type = wanted).map
        fun type => options.cursor (options.putSegment type) := by
  refine ElfReader.firstOfType_of_records ?_ ?_ ?_ wanted
  · rw [reader_segments hsize]
  · intro index type htype
    exact segmentHeader_of_getElem? hsize htype
  · intro type htype
    exact (field_segment hsize htype).1

/-! ## The dynamic array -/

theorem offsetOf_le {name : List UInt8} (hname : name ∈ options.names) :
    options.stringTable.offsetOf name ≤ (buildElf options).length := by
  have hinner := (isAt_offsetOf hname).length_le
  have houter := (layout options).stringTable.length_le
  omega

theorem mem_names {name : List UInt8}
    (hname : name ∈ options.needed ∨ name = options.soname ∧ name ≠ [] ∨
      name ∈ options.exportedSymbols ∨ name ∈ options.undefinedSymbols) :
    name ∈ options.names := by
  simp only [names, List.mem_append]
  rcases hname with hneeded | ⟨rfl, hne⟩ | hexported | hundefined
  · exact Or.inl (Or.inl (Or.inl hneeded))
  · rw [if_neg hne]
    exact Or.inl (Or.inl (Or.inr List.mem_cons_self))
  · exact Or.inl (Or.inr hexported)
  · exact Or.inr hundefined

theorem dynamicEntries_fit (hsize : (buildElf options).length ≤ maxBinaryBytes) :
    ∀ entry ∈ options.dynamicEntries,
      entry.1 ≠ dynamicTagNull ∧ options.FitsAddress entry.1 ∧
        options.FitsAddress entry.2 := by
  have hfits : ∀ {value : Nat}, value ≤ (buildElf options).length →
      options.FitsAddress value := fun hle =>
    fitsAddress_of_le (hle.trans (Nat.le_add_right_of_le hsize))
  have hstrings := (layout options).stringTable.length_le
  have htag : ∀ {tag : Nat}, tag ≤ 14 → options.FitsAddress tag := by
    intro tag htag
    refine fitsAddress_of_le (htag.trans ?_)
    decide
  intro entry hentry
  rw [dynamicEntries, List.mem_append, List.mem_append] at hentry
  rcases hentry with (hneeded | hsoname) | htable
  · obtain ⟨name, hname, rfl⟩ := List.mem_map.mp hneeded
    exact ⟨one_ne_zero, htag (by omega),
      hfits (offsetOf_le (mem_names (Or.inl hname)))⟩
  · split_ifs at hsoname with hempty
    · simp at hsoname
    · rw [List.mem_singleton] at hsoname
      rw [hsoname]
      exact ⟨Nat.succ_ne_zero _, htag (le_refl 14),
        hfits (offsetOf_le (mem_names (Or.inr (Or.inl ⟨rfl, hempty⟩))))⟩
  · rcases List.mem_cons.mp htable with rfl | htable
    · exact ⟨Nat.succ_ne_zero _, htag (by omega), hfits (by dsimp only; omega)⟩
    · rw [List.mem_singleton] at htable
      rw [htable]
      exact ⟨Nat.succ_ne_zero _, htag (by omega), hfits (by dsimp only; omega)⟩

def dynamicRegion (options : ElfBuildOptions) : ByteCursor :=
  options.cursor (options.dynamicArray.flatMap options.putDynamic)

theorem subrange_dynamicRegion {index : Nat} {entry : Nat × Nat}
    (hentry : options.dynamicArray[index]? = some entry) :
    options.dynamicRegion.subrange (index * options.reader.dynamicEntrySize)
        options.reader.dynamicEntrySize =
      some (options.cursor (options.putDynamic entry)) := by
  have hat := isAt_flatMap (length_putDynamic options) options.dynamicArray hentry
  have hsubrange : options.dynamicRegion.subrange
      (index * options.dynamicEntrySize) (options.putDynamic entry).length =
        some (options.cursor (options.putDynamic entry)) :=
    ByteCursor.subrange_of_isAt hat
  rw [length_putDynamic] at hsubrange
  exact hsubrange

/-- One entry after the other, up to `DT_NULL`. -/
theorem walkDynamicArrayFrom_dynamicRegion
    {entries : List (Nat × Nat)} {before : List (Nat × Nat)}
    (harray : options.dynamicArray = before ++ (entries ++ [(0, 0)]))
    (hfit : ∀ entry ∈ entries, entry.1 ≠ dynamicTagNull ∧
      options.FitsAddress entry.1 ∧ options.FitsAddress entry.2)
    {rounds : Nat} (hrounds : entries.length < rounds) (found : DynamicArray) :
    options.reader.walkDynamicArrayFrom options.dynamicRegion rounds
        before.length found =
      entries.foldl
        (fun found entry => ElfReader.recordEntry found entry.1 entry.2) found := by
  induction entries generalizing before rounds found with
  | nil =>
    obtain ⟨rounds, rfl⟩ : ∃ more, rounds = more + 1 :=
      ⟨rounds - 1, by simp at hrounds; omega⟩
    have hlast : options.dynamicArray[before.length]? = some (0, 0) := by
      rw [harray, List.nil_append, List.getElem?_append_right (le_refl _)]
      simp
    have hzero : options.FitsAddress 0 := fitsAddress_of_le (Nat.zero_le _)
    obtain ⟨htag, hvalue⟩ := field_putDynamic options hzero hzero
    rw [ElfReader.walkDynamicArrayFrom, subrange_dynamicRegion hlast]
    simp only [ElfReader.field, reader, ElfReader.ofImage, htag, hvalue]
    rfl
  | cons entry entries ih =>
    obtain ⟨rounds, rfl⟩ : ∃ more, rounds = more + 1 :=
      ⟨rounds - 1, by simp at hrounds; omega⟩
    have hfirst : options.dynamicArray[before.length]? = some entry := by
      rw [harray, List.getElem?_append_right (le_refl _)]
      simp
    obtain ⟨hnull, htagFits, hvalueFits⟩ := hfit entry List.mem_cons_self
    obtain ⟨htag, hvalue⟩ := field_putDynamic options htagFits hvalueFits
    have hshifted : options.dynamicArray =
        (before ++ [entry]) ++ (entries ++ [(0, 0)]) := by
      rw [harray]
      simp
    have hrest := ih hshifted
      (fun other hmem => hfit other (List.mem_cons_of_mem entry hmem))
      (by simpa using hrounds)
      (ElfReader.recordEntry found entry.1 entry.2)
    rw [List.length_append, List.length_singleton] at hrest
    rw [ElfReader.walkDynamicArrayFrom, subrange_dynamicRegion hfirst]
    simp only [ElfReader.field, reader, ElfReader.ofImage] at hrest ⊢
    simp only [htag, hvalue, if_neg hnull]
    exact hrest

theorem foldl_recordEntry_needed (offsets : List Nat) {found : DynamicArray}
    (hroom : found.neededOffsets.length + offsets.length ≤ maxNeededEntries) :
    (offsets.map fun offset => (dynamicTagNeeded, offset)).foldl
        (fun found entry => ElfReader.recordEntry found entry.1 entry.2) found =
      { found with neededOffsets := found.neededOffsets ++ offsets } := by
  induction offsets generalizing found with
  | nil => simp
  | cons offset offsets ih =>
    rw [List.length_cons] at hroom
    have hstep : ElfReader.recordEntry found dynamicTagNeeded offset =
        { found with neededOffsets := found.neededOffsets ++ [offset] } := by
      rw [ElfReader.recordEntry, if_pos rfl, if_neg (by omega)]
    rw [List.map_cons, List.foldl_cons, hstep, ih]
    · simp
    · rw [List.length_append, List.length_singleton]
      omega

def declaredArray (options : ElfBuildOptions) : DynamicArray :=
  { neededOffsets := options.needed.map options.stringTable.offsetOf
    sonameOffset :=
      if options.soname = [] then none
      else some (options.stringTable.offsetOf options.soname)
    stringTableAddress := some options.stringTableOffset
    stringTableSize := some options.stringTable.bytes.length }

theorem walkDynamicArray_dynamicRegion (hencodable : options.Encodable) :
    options.reader.walkDynamicArray options.dynamicRegion =
      options.declaredArray := by
  have harray : options.dynamicArray =
      [] ++ (options.dynamicEntries ++ [(0, 0)]) := by
    rw [dynamicArray, if_pos hencodable.dynamic, List.nil_append]
  have hcount := hencodable.neededCount
  have hrounds : options.dynamicEntries.length < maxDynamicEntries := by
    have hbound : options.dynamicEntries.length ≤ options.needed.length + 3 := by
      rw [dynamicEntries]
      split_ifs <;> simp
    refine lt_of_le_of_lt (hbound.trans (Nat.add_le_add_right hcount 3)) ?_
    decide
  have hneeded : (options.needed.map options.stringTable.offsetOf).length ≤
      maxNeededEntries := by
    rwa [List.length_map]
  rw [ElfReader.walkDynamicArray]
  have hwalk := walkDynamicArrayFrom_dynamicRegion harray
    (dynamicEntries_fit hencodable.size) hrounds {}
  rw [List.length_nil] at hwalk
  have hmap : options.needed.map
      (fun name => (1, options.stringTable.offsetOf name)) =
      (options.needed.map options.stringTable.offsetOf).map
        fun offset => (dynamicTagNeeded, offset) := by
    rw [List.map_map]
    rfl
  rw [hwalk, dynamicEntries, hmap, List.foldl_append, List.foldl_append,
    foldl_recordEntry_needed _ (by simpa using hneeded), declaredArray]
  split_ifs <;> rfl

/-! ## The string table -/

def stringTableCursor (options : ElfBuildOptions) : ByteCursor :=
  options.cursor options.stringTable.bytes

/-- Where the reader finds the dynamic array. -/
def dynamicLocation (options : ElfBuildOptions) : DynamicLocation :=
  { region := options.dynamicRegion
    fromSectionHeaders := options.includeSectionHeaders
    stringTableSectionIndex :=
      if options.includeSectionHeaders then some 1 else none }

theorem contents_stringTable :
    options.reader.contents (some options.stringTableOffset)
        (some options.stringTable.bytes.length) =
      some options.stringTableCursor :=
  contents_of_isAt (layout options).stringTable rfl

theorem contents_dynamicRegion :
    options.reader.contents (some options.dynamicOffset)
        (some (options.dynamicEntrySize * options.dynamicCount)) =
      some options.dynamicRegion :=
  contents_of_isAt (layout options).dynamicArray length_dynamicBlock

theorem getElem?_sections_one (hsections : options.includeSectionHeaders = true) :
    options.sections[1]? = some ⟨sectionTypeStringTable,
      options.stringTableOffset, options.stringTable.bytes.length, 0⟩ := by
  rw [sections, if_pos hsections]
  rfl

theorem linkedStringTable_one (hsize : (buildElf options).length ≤ maxBinaryBytes)
    (hsections : options.includeSectionHeaders = true) :
    options.reader.linkedStringTable (some 1) = some options.stringTableCursor := by
  have hone := getElem?_sections_one hsections
  obtain ⟨htype, hoffset, hlength, -⟩ :=
    field_section hsize (List.mem_of_getElem? hone)
  rw [ElfReader.linkedStringTable, Option.bind_some,
    sectionHeader_of_getElem? hsize hone, Option.bind_some, if_pos htype,
    ElfReader.sectionContents, hoffset, hlength]
  exact contents_stringTable

theorem filter_link (hsize : (buildElf options).length ≤ maxBinaryBytes)
    (hsections : options.includeSectionHeaders = true) :
    (some 1).filter (fun link => link < options.reader.sections.count) =
      some 1 := by
  rw [reader_sections hsize, Option.filter_some, sectionCount, if_pos hsections,
    if_pos]
  rw [decide_eq_true_iff]
  dsimp only
  omega

theorem locateDynamicViaSections_of_included (hencodable : options.Encodable)
    (hsections : options.includeSectionHeaders = true) :
    options.reader.locateDynamicViaSections =
      (some options.dynamicLocation, []) := by
  have hsize := hencodable.size
  have hfind : options.sections.find?
      (fun entry => entry.type = sectionTypeDynamic) =
        some ⟨sectionTypeDynamic, options.dynamicOffset,
          options.dynamicEntrySize * options.dynamicCount, 1⟩ := by
    rw [sections, if_pos hsections, if_pos hencodable.dynamic]
    rfl
  obtain ⟨-, hoffset, hlength, hlink⟩ :=
    field_section hsize (List.mem_of_find?_eq_some hfind)
  rw [ElfReader.locateDynamicViaSections, firstOfType_sections hsize, hfind,
    Option.map_some]
  simp only [ElfReader.sectionContents, hoffset, hlength, hlink,
    contents_dynamicRegion, filter_link hsize hsections, dynamicLocation,
    hsections, if_true]

theorem locateDynamicViaSections_of_stripped (hencodable : options.Encodable)
    (hsections : options.includeSectionHeaders = false) :
    options.reader.locateDynamicViaSections = (none, []) := by
  have hnil : options.sections = [] := by
    rw [sections, hsections, if_neg Bool.false_ne_true]
  rw [ElfReader.locateDynamicViaSections, firstOfType_sections hencodable.size,
    hnil]
  rfl

theorem locateDynamicViaSegments_of_stripped (hencodable : options.Encodable)
    (hsections : options.includeSectionHeaders = false) :
    options.reader.locateDynamicViaSegments =
      (some options.dynamicLocation, []) := by
  have hsize := hencodable.size
  have hsegments : options.includeProgramHeaders = true := by
    simpa [hsections] using hencodable.tables
  have hfind : options.segmentTypes.find? (fun type => type = segmentTypeDynamic) =
      some segmentTypeDynamic := by
    rw [segmentTypes, if_pos hsegments, if_pos hencodable.dynamic]
    rfl
  obtain ⟨-, hoffset, -, hlength⟩ :=
    field_segment hsize (List.mem_of_find?_eq_some hfind)
  rw [ElfReader.locateDynamicViaSegments, firstOfType_segments hsize, hfind,
    Option.map_some]
  rw [segmentStart, if_neg (by decide)] at hoffset
  rw [segmentLength, if_neg (by decide)] at hlength
  simp only [hoffset, hlength, contents_dynamicRegion, dynamicLocation, hsections,
    Bool.false_eq_true, if_false]

theorem locateDynamic_eq (hencodable : options.Encodable) :
    options.reader.locateDynamic = (some options.dynamicLocation, []) := by
  rw [ElfReader.locateDynamic]
  cases hsections : options.includeSectionHeaders with
  | true => rw [locateDynamicViaSections_of_included hencodable hsections]
  | false =>
    rw [locateDynamicViaSections_of_stripped hencodable hsections,
      locateDynamicViaSegments_of_stripped hencodable hsections]
    rfl

theorem fileOffsetOfAddress_stringTableOffset (hencodable : options.Encodable)
    (hsegments : options.includeProgramHeaders = true) :
    options.reader.fileOffsetOfAddress options.stringTableOffset =
      some options.stringTableOffset := by
  have hsize := hencodable.size
  have hfirst : options.segmentTypes[0]? = some segmentTypeLoad := by
    rw [segmentTypes, if_pos hsegments, if_pos hencodable.dynamic]
    rfl
  obtain ⟨htype, hoffset, haddress, hlength⟩ :=
    field_segment hsize (List.mem_of_getElem? hfirst)
  have hload : segmentTypeLoad = 1 := rfl
  rw [segmentStart, if_pos hload] at hoffset haddress
  rw [segmentLength, if_pos hload] at hlength
  have hdynamic := (layout options).dynamicArray.length_le
  have hstrings := stringTable_fits options
  have hdynamicFits := dynamicArray_fits options
  have hsymbols := symbols_fit options
  have hentries : 8 ≤ options.dynamicEntrySize * options.dynamicCount := by
    have hcount : 1 ≤ options.dynamicCount := by
      rw [dynamicCount, if_pos hencodable.dynamic]
      omega
    have hentrySize : 8 ≤ options.dynamicEntrySize := by
      rw [dynamicEntrySize]
      split_ifs <;> decide
    exact Nat.mul_le_mul hentrySize hcount
  rw [length_dynamicBlock] at hdynamic
  have hinside : options.stringTableOffset < (buildElf options).length := by
    omega
  have htotal : options.stringTableOffset < options.totalSize := by
    rw [totalSize]
    omega
  have hword : options.stringTableOffset < 2 ^ 64 :=
    hinside.trans (lt_of_le_of_lt hsize (by decide))
  have hanswer : options.reader.segmentFileOffsetOf options.stringTableOffset 0 =
      some options.stringTableOffset := by
    have himage : options.reader.image.size = (buildElf options).length := rfl
    rw [ElfReader.segmentFileOffsetOf, segmentHeader_of_getElem? hsize hfirst]
    simp only [htype, hoffset, haddress, hlength, himage, Nat.zero_add,
      Nat.sub_zero, Nat.mod_eq_of_lt hword]
    rw [if_neg (by simp), if_neg (by omega), if_neg (by omega),
      if_neg (by omega)]
  rw [ElfReader.fileOffsetOfAddress, ElfReader.findSome?_range_eq_some_iff]
  refine ⟨0, ?_, hanswer, ?_⟩
  · rw [reader_segments hsize]
    exact (List.getElem?_eq_some_iff.mp hfirst).1
  · intro earlier hlt
    exact absurd hlt (Nat.not_lt_zero earlier)

theorem resolveStringTable_eq (hencodable : options.Encodable) :
    options.reader.resolveStringTable options.dynamicLocation
        options.declaredArray = (some options.stringTableCursor, []) := by
  cases hsections : options.includeSectionHeaders with
  | true =>
    have hlinked := linkedStringTable_one hencodable.size hsections
    simp only [ElfReader.resolveStringTable, dynamicLocation, hsections,
      if_true, hlinked]
  | false =>
    have hsegments : options.includeProgramHeaders = true := by
      simpa [hsections] using hencodable.tables
    have haddress := fileOffsetOfAddress_stringTableOffset hencodable hsegments
    have hat := (layout options).stringTable
    have hfits : options.stringTable.bytes.length ≤
        options.reader.image.size - options.stringTableOffset := by
      have himage : options.reader.image.size = (buildElf options).length := rfl
      have hend := hat.length_le
      omega
    have hregion : options.reader.image.subrange options.stringTableOffset
        options.stringTable.bytes.length = some options.stringTableCursor :=
      ByteCursor.subrange_of_isAt hat
    simp only [ElfReader.resolveStringTable, dynamicLocation, hsections,
      Bool.false_eq_true, if_false, declaredArray, haddress, hfits, if_true,
      hregion, ElfReader.linkedStringTable, Option.bind_none]

theorem stringAt_stringTableCursor {name : List UInt8} (hname : IsName name)
    (hmem : name ∈ options.names) :
    ElfReader.stringAt options.stringTableCursor
        (options.stringTable.offsetOf name) =
      if name = [] then none else some name :=
  stringAt_of_isAt hname (isAt_offsetOf hmem)

theorem filterMap_stringAt {names : List (List UInt8)}
    (hnames : ∀ name ∈ names, IsName name ∧ name ∈ options.names) :
    (names.map options.stringTable.offsetOf).filterMap
        (ElfReader.stringAt options.stringTableCursor) =
      names.filter (· ≠ []) := by
  rw [List.filterMap_map, ← List.filterMap_eq_filter]
  refine List.filterMap_congr ?_
  intro name hname
  obtain ⟨hvalid, hmem⟩ := hnames name hname
  rw [Function.comp_apply, stringAt_stringTableCursor hvalid hmem]
  by_cases hempty : name = []
  · simp [hempty, Option.guard]
  · simp [hempty, Option.guard]

theorem recordNames_eq (hencodable : options.Encodable) :
    ElfReader.recordNames options.declaredArray (some options.stringTableCursor) =
      { shape := .dynamic
        soname := options.soname
        needed := normalized (options.needed.filter (· ≠ [])) } := by
  have hneeded : (options.needed.map options.stringTable.offsetOf).filterMap
      (ElfReader.stringAt options.stringTableCursor) =
        options.needed.filter (· ≠ []) := by
    refine filterMap_stringAt ?_
    intro name hname
    exact ⟨hencodable.needed name hname, mem_names (Or.inl hname)⟩
  have hsoname : (((if options.soname = [] then none
      else some (options.stringTable.offsetOf options.soname)).bind
        (ElfReader.stringAt options.stringTableCursor)).getD []) =
          options.soname := by
    by_cases hempty : options.soname = []
    · rw [if_pos hempty, hempty]
      rfl
    · rw [if_neg hempty, Option.bind_some,
        stringAt_stringTableCursor hencodable.soname
          (mem_names (Or.inr (Or.inl ⟨rfl, hempty⟩))), if_neg hempty,
        Option.getD_some]
  have hcap : (normalized (options.needed.filter (· ≠ []))).length ≤
      maxNeededEntries :=
    (length_normalized_le _).trans
      ((List.length_filter_le _ _).trans hencodable.neededCount)
  simp only [ElfReader.recordNames, declaredArray, Option.bind_some, hneeded,
    hsoname, normalizeAndCap, if_pos hcap]
  rfl

/-! ## Symbols -/

/-- The fields of a symbol are wide enough for what stands in them. -/
theorem symbolFields_fit (hsize : (buildElf options).length ≤ maxBinaryBytes) :
    ∀ symbol ∈ options.symbols,
      symbol.1 < 256 ^ 4 ∧ symbol.2.1 < 256 ^ 1 ∧ symbol.2.2 < 256 ^ 2 := by
  have hsmall : ∀ {name : List UInt8}, name ∈ options.names →
      options.stringTable.offsetOf name < 256 ^ 4 := by
    intro name hname
    exact lt_of_le_of_lt ((offsetOf_le hname).trans hsize) (by decide)
  intro symbol hsymbol
  rw [symbols] at hsymbol
  split_ifs at hsymbol
  · rw [List.cons_append, List.mem_cons, List.mem_append] at hsymbol
    rcases hsymbol with rfl | hexported | hundefined
    · exact ⟨by decide, by decide, by decide⟩
    · obtain ⟨name, hname, rfl⟩ := List.mem_map.mp hexported
      exact ⟨hsmall (mem_names (Or.inr (Or.inr (Or.inl hname)))),
        Nat.lt_of_sub_eq_succ rfl, Nat.lt_of_sub_eq_succ rfl⟩
    · obtain ⟨name, hname, rfl⟩ := List.mem_map.mp hundefined
      exact ⟨hsmall (mem_names (Or.inr (Or.inr (Or.inr hname)))),
        Nat.lt_of_sub_eq_succ rfl, Nat.lt_of_sub_eq_succ rfl⟩
  · simp at hsymbol

/-- The symbols, as the reader sees them. -/
def symbolRegion (options : ElfBuildOptions) : ByteCursor :=
  options.cursor (options.symbols.flatMap options.putSymbol)

/-- What the reader makes of one symbol. -/
def sampledName (options : ElfBuildOptions) (symbol : Nat × Nat × Nat) :
    Option (List UInt8) :=
  let binding := symbol.2.1 >>> symbolBindShift
  if symbol.2.2 = sectionIndexUndefined then none
  else if binding ≠ symbolBindGlobal ∧ binding ≠ symbolBindWeak then none
  else ElfReader.stringAt options.stringTableCursor symbol.1

theorem exportedSymbol_of_getElem?
    (hsize : (buildElf options).length ≤ maxBinaryBytes) {index : Nat}
    {symbol : Nat × Nat × Nat} (hsymbol : options.symbols[index]? = some symbol) :
    options.reader.exportedSymbol options.symbolRegion options.stringTableCursor
      index = options.sampledName symbol := by
  have hat := isAt_flatMap (length_putSymbol options) options.symbols hsymbol
  have hsubrange : options.symbolRegion.subrange (index * options.symbolEntrySize)
      (options.putSymbol symbol).length =
        some (options.cursor (options.putSymbol symbol)) :=
    ByteCursor.subrange_of_isAt hat
  rw [length_putSymbol] at hsubrange
  have hentry : options.symbolRegion.subrange
      (index * options.reader.symbolEntrySize) options.reader.symbolEntrySize =
        some (options.cursor (options.putSymbol symbol)) := hsubrange
  obtain ⟨hnameFits, hinfoFits, hsectionFits⟩ :=
    symbolFields_fit hsize symbol (List.mem_of_getElem? hsymbol)
  obtain ⟨hname, hinfo, hsection⟩ :=
    field_putSymbol options hnameFits hinfoFits hsectionFits
  rw [ElfReader.exportedSymbol, hentry]
  simp only [ElfReader.field, reader, ElfReader.ofImage, hname, hinfo, hsection,
    sampledName]

/-- The exported names, and neither the null symbol nor an import. -/
theorem filterMap_sampledName (hencodable : options.Encodable) :
    options.symbols.filterMap options.sampledName =
      options.exportedSymbols.filter (· ≠ []) := by
  have hexported : (options.exportedSymbols.map
      fun name => (options.stringTable.offsetOf name, 0x12, 1)).filterMap
        options.sampledName = options.exportedSymbols.filter (· ≠ []) := by
    rw [← filterMap_stringAt (fun name hname =>
      ⟨hencodable.exported name hname,
        mem_names (Or.inr (Or.inr (Or.inl hname)))⟩),
      List.filterMap_map, List.filterMap_map]
    refine List.filterMap_congr ?_
    intro name hname
    simp [sampledName, sectionIndexUndefined, symbolBindShift, symbolBindGlobal]
  have hundefined : (options.undefinedSymbols.map
      fun name => (options.stringTable.offsetOf name, 0x12, 0)).filterMap
        options.sampledName = [] := by
    rw [List.filterMap_map, List.filterMap_eq_nil_iff]
    intro name hname
    rfl
  rw [symbols]
  split_ifs with hsymbols
  · have hnull : options.sampledName (0, 0, 0) = none := rfl
    rw [List.cons_append, List.filterMap_cons_none hnull, List.filterMap_append,
      hexported, hundefined, List.append_nil]
  · rw [hasSymbols] at hsymbols
    have hnil : options.exportedSymbols = [] := by
      simp only [Bool.or_eq_true, Bool.not_eq_true', not_or,
        Bool.not_eq_false, List.isEmpty_iff] at hsymbols
      exact hsymbols.1
    rw [hnil]
    rfl

theorem symbolTables_of_included (hencodable : options.Encodable)
    (hsections : options.includeSectionHeaders = true)
    {entry : Section} (hentry : entry ∈ options.sections)
    (hsymbols : entry = ⟨sectionTypeDynamicSymbols, options.symbolTableOffset,
      options.symbolEntrySize * options.symbolCount, 1⟩) :
    options.reader.symbolTables (options.cursor (options.putSection entry)) =
      some (options.symbolRegion, options.stringTableCursor) := by
  have hsize := hencodable.size
  obtain ⟨-, hoffset, hlength, hlink⟩ := field_section hsize hentry
  have hone := getElem?_sections_one hsections
  obtain ⟨-, hnamesOffset, hnamesLength, -⟩ :=
    field_section hsize (List.mem_of_getElem? hone)
  have htable : options.reader.contents (some options.symbolTableOffset)
      (some (options.symbolEntrySize * options.symbolCount)) =
        some options.symbolRegion :=
    contents_of_isAt (layout options).symbols length_symbolBlock
  rw [hsymbols] at hoffset hlength hlink ⊢
  simp only [ElfReader.symbolTables, ElfReader.sectionContents, hoffset, hlength,
    hlink, htable, Option.bind_some, filter_link hsize hsections,
    sectionHeader_of_getElem? hsize hone, hnamesOffset, hnamesLength,
    contents_stringTable, Option.map_some]

/-- What read_elf makes of a built image. -/
def decodedImage (options : ElfBuildOptions) : ElfImage :=
  { shape := .dynamic
    soname := options.soname
    needed := normalized (options.needed.filter (· ≠ []))
    exportedSymbols :=
      if options.includeSectionHeaders then
        normalized (options.exportedSymbols.filter (· ≠ []))
      else []
    symbolsUnavailable :=
      !(options.includeSectionHeaders && options.hasSymbols) }

theorem collectExportedSymbols_eq (hencodable : options.Encodable)
    (hsections : options.includeSectionHeaders = true) (out : ElfImage) :
    options.reader.collectExportedSymbols out = (if options.hasSymbols then
        ({ out with
            exportedSymbols :=
              normalized (options.exportedSymbols.filter (· ≠ []))
            symbolsTruncated := false }, true)
      else (out, false), []) := by
  have hsize := hencodable.size
  by_cases hsymbols : options.hasSymbols = true
  · have hfind : options.sections.find?
        (fun entry => entry.type = sectionTypeDynamicSymbols) =
          some ⟨sectionTypeDynamicSymbols, options.symbolTableOffset,
            options.symbolEntrySize * options.symbolCount, 1⟩ := by
      rw [sections, if_pos hsections, if_pos hencodable.dynamic, if_pos hsymbols]
      rfl
    have htables := symbolTables_of_included hencodable hsections
      (List.mem_of_find?_eq_some hfind) rfl
    have hpositive : 0 < options.symbolEntrySize := by
      rw [symbolEntrySize]
      split_ifs <;> decide
    have hentries : options.symbolRegion.size / options.reader.symbolEntrySize =
        options.symbols.length := by
      have hwidth : options.reader.symbolEntrySize = options.symbolEntrySize := rfl
      have hregion : options.symbolRegion.size =
          options.symbolEntrySize * options.symbolCount := length_symbolBlock
      rw [hregion, hwidth, Nat.mul_div_cancel_left _ hpositive, length_symbols]
    have hfew : ¬ maxSymbolTableEntries < options.symbols.length := by
      rw [length_symbols]
      exact not_lt.mpr hencodable.symbolCount
    have hsampled : (List.range options.symbols.length).filterMap
        (options.reader.exportedSymbol options.symbolRegion
          options.stringTableCursor) =
        options.exportedSymbols.filter (· ≠ []) := by
      rw [← filterMap_sampledName hencodable]
      exact filterMap_range_length fun index symbol hsymbol =>
        exportedSymbol_of_getElem? hsize hsymbol
    rw [ElfReader.collectExportedSymbols, firstOfType_sections hsize, hfind,
      Option.map_some]
    simp only [htables, hentries, hfew, if_false, hsampled, normalizeAndCap,
      if_pos hencodable.sample, hsymbols, if_true, decide_false, Bool.or_self]
  · have hfind : options.sections.find?
        (fun entry => entry.type = sectionTypeDynamicSymbols) = none := by
      rw [sections, if_pos hsections, if_pos hencodable.dynamic, if_neg hsymbols]
      rfl
    rw [ElfReader.collectExportedSymbols, firstOfType_sections hsize, hfind,
      if_neg hsymbols]
    rfl

/-- The one warning of an image without section headers. -/
def strippedMessages (options : ElfBuildOptions) : List String :=
  if options.includeSectionHeaders then []
  else
    ["section headers are stripped; dynamic dependencies were recovered " ++
      "from PT_DYNAMIC but the exported-symbol sample was not"]

theorem recordSymbols_eq (hencodable : options.Encodable) :
    options.reader.recordSymbols options.dynamicLocation
        { shape := .dynamic
          soname := options.soname
          needed := normalized (options.needed.filter (· ≠ [])) } =
      (options.decodedImage, options.strippedMessages) := by
  cases hsections : options.includeSectionHeaders with
  | false =>
    simp [ElfReader.recordSymbols, dynamicLocation, decodedImage,
      strippedMessages, hsections]
  | true =>
    have hnil : options.hasSymbols = false →
        normalized (options.exportedSymbols.filter (· ≠ [])) = [] := by
      intro hnone
      rw [hasSymbols] at hnone
      simp only [Bool.or_eq_false_iff, Bool.not_eq_false', List.isEmpty_iff]
        at hnone
      rw [hnone.1]
      rfl
    simp only [ElfReader.recordSymbols, dynamicLocation, decodedImage,
      strippedMessages, hsections, Bool.not_true, Bool.false_eq_true, if_false,
      if_true, Bool.true_and, collectExportedSymbols_eq hencodable hsections]
    cases hsymbols : options.hasSymbols with
    | true => rfl
    | false =>
      rw [hnil hsymbols]
      rfl

theorem readDynamic_eq (hencodable : options.Encodable) :
    options.reader.readDynamic options.dynamicLocation =
      (options.decodedImage, options.strippedMessages) := by
  have hwalk : options.reader.walkDynamicArray options.dynamicLocation.region =
      options.declaredArray := walkDynamicArray_dynamicRegion hencodable
  have hcomplete : ElfReader.truncationWarnings options.declaredArray = [] := rfl
  simp only [ElfReader.readDynamic, hwalk, resolveStringTable_eq hencodable,
    recordNames_eq hencodable, recordSymbols_eq hencodable, hcomplete,
    List.nil_append]

/-- Both tables can be read. -/
theorem unreachable_eq_false (hsize : (buildElf options).length ≤ maxBinaryBytes) :
    options.reader.unreachable options.reader.sections = false ∧
      options.reader.unreachable options.reader.segments = false := by
  constructor
  · rw [ElfReader.unreachable]
    by_cases hcount : options.sections = []
    · have hzero : options.sectionCount = 0 := by
        rw [← length_sections, hcount, List.length_nil]
      rw [reader_sections hsize, hzero]
      simp
    · obtain ⟨entry, hentry⟩ : ∃ entry, options.sections[0]? = some entry :=
        ⟨_, List.getElem?_eq_getElem (List.length_pos_iff.mpr hcount)⟩
      have hheader := sectionHeader_of_getElem? hsize hentry
      rw [ElfReader.sectionHeader] at hheader
      rw [hheader, Option.isNone_some, Bool.and_false]
  · rw [ElfReader.unreachable]
    by_cases hcount : options.segmentTypes = []
    · rw [reader_segments hsize, hcount]
      simp
    · obtain ⟨type, htype⟩ : ∃ type, options.segmentTypes[0]? = some type :=
        ⟨_, List.getElem?_eq_getElem (List.length_pos_iff.mpr hcount)⟩
      have hheader := segmentHeader_of_getElem? hsize htype
      rw [ElfReader.segmentHeader] at hheader
      rw [hheader, Option.isNone_some, Bool.and_false]

theorem read_eq (hencodable : options.Encodable) :
    options.reader.read = (options.decodedImage, options.strippedMessages) := by
  have hsize := hencodable.size
  have hcaps : options.reader.capWarnings = [] := by
    rw [ElfReader.capWarnings, reader_sections hsize, reader_segments hsize]
    rfl
  have hheader : ¬ options.reader.image.size < options.reader.headerSize := by
    have himage : options.reader.image.size = (buildElf options).length := rfl
    have hwidth : options.reader.headerSize = options.headerSize := rfl
    have hend := (layout options).header.length_le
    rw [length_header] at hend
    omega
  have htype : options.reader.field options.reader.image headerType =
      some options.fileType.toNat := (headerFields_buildElf hsize).type
  obtain ⟨hsections, hsegments⟩ := unreachable_eq_false hsize
  rw [ElfReader.read, if_neg hheader]
  simp only [htype, hsections, hsegments, Bool.or_self, Bool.false_eq_true,
    if_false, if_neg hencodable.notRelocatable, locateDynamic_eq hencodable,
    readDynamic_eq hencodable, hcaps, List.nil_append]

/-! ## The file -/

theorem ident_eq (options : ElfBuildOptions) :
    options.ident = [0x7F, 0x45, 0x4C, 0x46, if options.is64Bit then 2 else 1,
      if options.bigEndian then 2 else 1, 1, 0, 0, 0, 0, 0, 0, 0, 0, 0] := by
  rw [ident, put, put, put]
  cases options.is64Bit <;> cases options.bigEndian <;> rfl

/-- The class and the byte order are read back, whatever stands behind the
header. -/
theorem identify_header_append (options : ElfBuildOptions) (rest : List UInt8) :
    identify (options.header ++ rest) =
      .elf (options.cursor (options.header ++ rest)) options.is64Bit := by
  obtain ⟨more, hbytes⟩ :
      ∃ more, options.header ++ rest = options.ident ++ more := by
    rw [header]
    simp only [List.append_assoc]
    exact ⟨_, rfl⟩
  rw [hbytes]
  have hlong : ¬ ByteCursor.size ⟨options.ident ++ more, .little⟩ <
      identSize := by
    rw [ByteCursor.size, List.length_append, length_ident, identSize]
    omega
  have hmagic : (options.ident ++ more).take magic.length = magic := by
    rw [ident_eq]
    rfl
  have hfield : ∀ {position : Nat} {byte : UInt8},
      options.ident[position]? = some byte →
      ByteCursor.uintAt ⟨options.ident ++ more, .little⟩ position .oneByte =
        some byte.toNat := by
    intro position byte hbyte
    refine ByteCursor.uintAt_oneByte ?_
    have hinside := (List.getElem?_eq_some_iff.mp hbyte).1
    dsimp only
    rw [List.getElem?_append_left hinside]
    exact hbyte
  have hclass : ByteCursor.uintAt ⟨options.ident ++ more, .little⟩
      identClassOffset .oneByte =
        some (if options.is64Bit then class64 else class32) := by
    rw [hfield (by rw [ident_eq]; rfl)]
    cases options.is64Bit <;> rfl
  have hdata : ByteCursor.uintAt ⟨options.ident ++ more, .little⟩
      identDataOffset .oneByte =
        some (if options.bigEndian then dataBigEndian else dataLittleEndian) := by
    rw [hfield (by rw [ident_eq]; rfl)]
    cases options.bigEndian <;> rfl
  simp only [identify]
  rw [if_neg hlong, if_neg (not_not.mpr hmagic)]
  simp only [hclass, hdata, cursor, ByteCursor.withByteOrder]
  cases options.is64Bit <;> cases options.bigEndian <;> rfl

theorem identify_buildElf (options : ElfBuildOptions) :
    identify (buildElf options) =
      .elf (options.cursor (buildElf options)) options.is64Bit := by
  obtain ⟨rest, hbytes⟩ := buildElf_eq_header options
  rw [hbytes]
  exact identify_header_append options rest

theorem readElf_buildElf (hencodable : options.Encodable) (path : String) :
    readElf path (some (buildElf options)) =
      { value := options.decodedImage
        warnings := options.strippedMessages.map fun message =>
          { code := .binaryMalformedHeader
            message := path ++ ": " ++ message } } := by
  have hread := read_eq hencodable
  rw [reader] at hread
  simp only [readElf, if_neg (not_lt.mpr hencodable.size), identify_buildElf, hread]

/-- The same options in another class and byte order. -/
def encodedAs (options : ElfBuildOptions) (is64Bit bigEndian : Bool) :
    ElfBuildOptions :=
  { options with is64Bit := is64Bit, bigEndian := bigEndian }

/-- Whatever the class and the byte order, an image is decoded alike: to the
names of its lists, in order and each once. -/
theorem readElf_encodedAs (options : ElfBuildOptions) (path : String)
    (is64Bit bigEndian : Bool)
    (hencodable : (options.encodedAs is64Bit bigEndian).Encodable) :
    readElf path (some (buildElf (options.encodedAs is64Bit bigEndian))) =
        { value := options.decodedImage
          warnings := options.strippedMessages.map fun message =>
            { code := .binaryMalformedHeader
              message := path ++ ": " ++ message } } ∧
      IsSortedSet options.decodedImage.needed
        (options.needed.filter (· ≠ [])) ∧
      IsSortedSet options.decodedImage.exportedSymbols
        (if options.includeSectionHeaders then
          options.exportedSymbols.filter (· ≠ []) else []) := by
  refine ⟨readElf_buildElf hencodable path, isSortedSet_normalized _, ?_⟩
  rw [decodedImage]
  split_ifs
  · exact isSortedSet_normalized _
  · exact ⟨List.Pairwise.nil, fun _ => Iff.rfl⟩

def sampleLibrary (imported : UInt8) : ElfBuildOptions :=
  { needed := [[0x7A], [0x63, 0x2E, 0x73, 0x6F], [0x7A]]
    soname := [0x66]
    exportedSymbols := [[0x67], [0x66], [0x67]]
    undefinedSymbols := [[imported]] }

theorem encodable_sampleLibrary (imported : UInt8) (is64Bit bigEndian : Bool)
    (hsize : (buildElf ((sampleLibrary imported).encodedAs is64Bit
      bigEndian)).length ≤ maxBinaryBytes) :
    ((sampleLibrary imported).encodedAs is64Bit bigEndian).Encodable := by
  have hneeded : ∀ name ∈ (sampleLibrary 0).needed, IsName name := by decide
  have hsoname : IsName (sampleLibrary 0).soname := by decide
  have hexported : ∀ name ∈ (sampleLibrary 0).exportedSymbols, IsName name := by
    decide
  have hneededCount : (sampleLibrary 0).needed.length ≤ maxNeededEntries := by
    decide
  have hsymbolCount : (sampleLibrary 0).symbolCount ≤ maxSymbolTableEntries := by
    decide
  have hsample : (normalized ((sampleLibrary 0).exportedSymbols.filter
      (· ≠ []))).length ≤ maxSymbolSample := by
    decide +kernel
  exact
    { notRelocatable := Nat.succ_succ_ne_one 1
      dynamic := rfl
      tables := Or.inl rfl
      size := hsize
      needed := hneeded
      soname := hsoname
      exported := hexported
      neededCount := hneededCount
      symbolCount := hsymbolCount
      sample := hsample }

theorem readElf_encodedAs_sampleLibrary :
    readElf "libz.so"
          (some (buildElf ((sampleLibrary 0x70).encodedAs false true))) =
        { value := (sampleLibrary 0x70).decodedImage } ∧
      IsSortedSet (sampleLibrary 0x70).decodedImage.needed
        [[0x7A], [0x63, 0x2E, 0x73, 0x6F], [0x7A]] ∧
      IsSortedSet (sampleLibrary 0x70).decodedImage.exportedSymbols
        [[0x67], [0x66], [0x67]] :=
  readElf_encodedAs (sampleLibrary 0x70) "libz.so" false true
    (encodable_sampleLibrary _ _ _ (by decide +kernel))

/-- The imports are not part of what is decoded. -/
theorem not_decodes_imports :
    ¬ ∃ importsOf : ElfImage → List (List UInt8),
      ∀ (options : ElfBuildOptions) (path : String), options.Encodable →
        IsSortedSet (importsOf (readElf path (some (buildElf options))).value)
          options.undefinedSymbols := by
  have hfirst : (sampleLibrary 0x70).Encodable :=
    encodable_sampleLibrary 0x70 true false (by decide +kernel)
  have hsecond : (sampleLibrary 0x71).Encodable :=
    encodable_sampleLibrary 0x71 true false (by decide +kernel)
  have hsame : (readElf "libz.so" (some (buildElf (sampleLibrary 0x70)))).value =
      (readElf "libz.so" (some (buildElf (sampleLibrary 0x71)))).value := by
    decide +kernel
  rintro ⟨importsOf, hdecodes⟩
  have himport := (hdecodes _ "libz.so" hfirst).mem_iff [0x70]
  rw [hsame, (hdecodes _ "libz.so" hsecond).mem_iff] at himport
  revert himport
  decide

end ElfBuildOptions

end Bomwerk.Binscan
