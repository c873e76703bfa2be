import Bomwerk.Binscan.ByteCursor
import Bomwerk.Core.Warning

/-!
# Reading ELF files

`binscan/elf_read.cpp`.  The walk keeps no state besides its warnings, which
each function returns beside its answer; the reader holds the image and the
bounds of the two header tables.
-/

namespace Bomwerk.Binscan

open Bomwerk.Core Bomwerk.Support

def identSize : Nat := 16

def magic : List UInt8 := [0x7F, 0x45, 0x4C, 0x46]

def identClassOffset : Nat := 4

def identDataOffset : Nat := 5

def class32 : Nat := 1

def class64 : Nat := 2

def dataLittleEndian : Nat := 1

def dataBigEndian : Nat := 2

def typeRelocatable : Nat := 1

def segmentTypeLoad : Nat := 1

def segmentTypeDynamic : Nat := 2

def sectionTypeStringTable : Nat := 3

def sectionTypeDynamic : Nat := 6

def sectionTypeDynamicSymbols : Nat := 11

def dynamicTagNull : Nat := 0

def dynamicTagNeeded : Nat := 1

def dynamicTagStringTable : Nat := 5

def dynamicTagStringTableSize : Nat := 10

def dynamicTagSoname : Nat := 14

def sectionIndexUndefined : Nat := 0

def symbolBindShift : Nat := 4

def symbolBindGlobal : Nat := 1

def symbolBindWeak : Nat := 2

structure FieldLocation where
  offset : Nat
  width : IntegerWidth

structure ClassDependentField where
  inClass32 : FieldLocation
  inClass64 : FieldLocation

def headerType : ClassDependentField := ⟨⟨16, .twoBytes⟩, ⟨16, .twoBytes⟩⟩

def headerSegmentTableOffset : ClassDependentField :=
  ⟨⟨28, .fourBytes⟩, ⟨32, .eightBytes⟩⟩

def headerSectionTableOffset : ClassDependentField :=
  ⟨⟨32, .fourBytes⟩, ⟨40, .eightBytes⟩⟩

def headerSegmentEntrySize : ClassDependentField :=
  ⟨⟨42, .twoBytes⟩, ⟨54, .twoBytes⟩⟩

def headerSegmentCount : ClassDependentField :=
  ⟨⟨44, .twoBytes⟩, ⟨56, .twoBytes⟩⟩

def headerSectionEntrySize : ClassDependentField :=
  ⟨⟨46, .twoBytes⟩, ⟨58, .twoBytes⟩⟩

def headerSectionCount : ClassDependentField :=
  ⟨⟨48, .twoBytes⟩, ⟨60, .twoBytes⟩⟩

def segmentType : ClassDependentField := ⟨⟨0, .fourBytes⟩, ⟨0, .fourBytes⟩⟩

def segmentFileOffset : ClassDependentField :=
  ⟨⟨4, .fourBytes⟩, ⟨8, .eightBytes⟩⟩

def segmentVirtualAddress : ClassDependentField :=
  ⟨⟨8, .fourBytes⟩, ⟨16, .eightBytes⟩⟩

def segmentFileSize : ClassDependentField :=
  ⟨⟨16, .fourBytes⟩, ⟨32, .eightBytes⟩⟩

def sectionType : ClassDependentField := ⟨⟨4, .fourBytes⟩, ⟨4, .fourBytes⟩⟩

def sectionFileOffset : ClassDependentField :=
  ⟨⟨16, .fourBytes⟩, ⟨24, .eightBytes⟩⟩

def sectionSize : ClassDependentField :=
  ⟨⟨20, .fourBytes⟩, ⟨32, .eightBytes⟩⟩

def sectionLink : ClassDependentField :=
  ⟨⟨24, .fourBytes⟩, ⟨40, .fourBytes⟩⟩

def dynamicTag : ClassDependentField := ⟨⟨0, .fourBytes⟩, ⟨0, .eightBytes⟩⟩

def dynamicValue : ClassDependentField :=
  ⟨⟨4, .fourBytes⟩, ⟨8, .eightBytes⟩⟩

def symbolName : ClassDependentField := ⟨⟨0, .fourBytes⟩, ⟨0, .fourBytes⟩⟩

def symbolInfo : ClassDependentField := ⟨⟨12, .oneByte⟩, ⟨4, .oneByte⟩⟩

def symbolSectionIndex : ClassDependentField :=
  ⟨⟨14, .twoBytes⟩, ⟨6, .twoBytes⟩⟩

inductive ElfShape
  | notElf
  | malformed
  | relocatable
  | staticExecutable
  | dynamic
  deriving DecidableEq, Repr

structure ElfImage where
  shape : ElfShape := .notElf
  soname : List UInt8 := []
  needed : List (List UInt8) := []
  exportedSymbols : List (List UInt8) := []
  neededTruncated : Bool := false
  symbolsTruncated : Bool := false
  symbolsUnavailable : Bool := false
  namesUnavailable : Bool := false
  deriving DecidableEq, Repr

/-- One header table: where the header puts it, and how much is followed. -/
structure HeaderTable where
  offset : Nat := 0
  entrySize : Nat := 0
  count : Nat := 0
  capped : Bool := false
  declared : Bool := false

/-- `ElfReader`, its tables bounded. -/
structure ElfReader where
  image : ByteCursor
  is64Bit : Bool
  sections : HeaderTable
  segments : HeaderTable

structure DynamicArray where
  neededOffsets : List Nat := []
  sonameOffset : Option Nat := none
  stringTableAddress : Option Nat := none
  stringTableSize : Option Nat := none
  arrayTruncated : Bool := false
  neededTruncated : Bool := false

structure DynamicLocation where
  region : ByteCursor
  fromSectionHeaders : Bool := false
  stringTableSectionIndex : Option Nat := none

def fieldOf (is64Bit : Bool) (record : ByteCursor)
    (field : ClassDependentField) : Option Nat :=
  let location := if is64Bit then field.inClass64 else field.inClass32
  record.uintAt location.offset location.width

/-- One half of `read_table_bounds`. -/
def readTable (is64Bit : Bool) (image : ByteCursor)
    (offsetField entrySizeField countField : ClassDependentField)
    (maximum : Nat) : HeaderTable :=
  match fieldOf is64Bit image offsetField, fieldOf is64Bit image entrySizeField,
    fieldOf is64Bit image countField with
  | some offset, some entrySize, some count =>
    let followed := if maximum < count then maximum else count
    { offset := offset, entrySize := entrySize, count := followed
      capped := decide (maximum < count)
      declared := decide (offset ≠ 0 ∧ 0 < followed) }
  | _, _, _ => {}

/-- The constructor of `ElfReader` and `read_table_bounds`. -/
def ElfReader.ofImage (image : ByteCursor) (is64Bit : Bool) : ElfReader :=
  { image := image
    is64Bit := is64Bit
    sections := readTable is64Bit image headerSectionTableOffset
      headerSectionEntrySize headerSectionCount maxSectionHeaders
    segments := readTable is64Bit image headerSegmentTableOffset
      headerSegmentEntrySize headerSegmentCount maxProgramHeaders }

namespace ElfReader

variable (reader : ElfReader)

def field (record : ByteCursor) (field : ClassDependentField) : Option Nat :=
  fieldOf reader.is64Bit record field

def dynamicEntrySize : Nat := if reader.is64Bit then 16 else 8

def symbolEntrySize : Nat := if reader.is64Bit then 24 else 16

/-- `table_entry`; the sum is of 64 bits. -/
def tableEntry (table : HeaderTable) (index : Nat) : Option ByteCursor :=
  if table.entrySize = 0 ∨ table.offset = 0 then none
  else
    let entryOffset := (table.offset + table.entrySize * index) % 2 ^ 64
    if entryOffset < table.offset then none
    else if reader.image.size < entryOffset then none
    else reader.image.subrange entryOffset table.entrySize

def sectionHeader (index : Nat) : Option ByteCursor :=
  reader.tableEntry reader.sections index

def segmentHeader (index : Nat) : Option ByteCursor :=
  reader.tableEntry reader.segments index

/-- The bytes a header says its contents are. -/
def contents (offset size : Option Nat) : Option ByteCursor :=
  match offset, size with
  | some offset, some size =>
    if reader.image.size < offset ∨ reader.image.size < size then none
    else reader.image.subrange offset size
  | _, _ => none

def sectionContents (header : ByteCursor) : Option ByteCursor :=
  reader.contents (reader.field header sectionFileOffset)
    (reader.field header sectionSize)

/-- One round of a loop over a header table in search of a type; an entry that
cannot be read is passed over. -/
def entryOfType (table : HeaderTable) (typeField : ClassDependentField)
    (wanted index : Nat) : Option ByteCursor :=
  match reader.tableEntry table index with
  | none => none
  | some header =>
    if reader.field header typeField = some wanted then some header
    else none

def firstOfType (table : HeaderTable) (typeField : ClassDependentField)
    (wanted : Nat) : Option ByteCursor :=
  (List.range table.count).findSome? (reader.entryOfType table typeField wanted)

/-! ## The dynamic section -/

def locateDynamicViaSections : Option DynamicLocation × List String :=
  match reader.firstOfType reader.sections sectionType sectionTypeDynamic with
  | none => (none, [])
  | some header =>
    match reader.sectionContents header with
    | none => (none, ["dynamic section lies outside the file"])
    | some region =>
      let link := (reader.field header sectionLink).filter
        (· < reader.sections.count)
      (some ⟨region, true, link⟩, [])

def locateDynamicViaSegments : Option DynamicLocation × List String :=
  match reader.firstOfType reader.segments segmentType segmentTypeDynamic with
  | none => (none, [])
  | some header =>
    match reader.contents (reader.field header segmentFileOffset)
        (reader.field header segmentFileSize) with
    | none => (none, ["PT_DYNAMIC segment lies outside the file"])
    | some region => (some ⟨region, false, none⟩, [])

/-- What one segment answers for an address; the sums are of 64 bits. -/
def segmentFileOffsetOf (address index : Nat) : Option Nat :=
  match reader.segmentHeader index with
  | none => none
  | some header =>
    match reader.field header segmentType,
      reader.field header segmentVirtualAddress,
      reader.field header segmentFileOffset,
      reader.field header segmentFileSize with
    | some type, some virtualAddress, some fileOffset, some fileSize =>
      if type ≠ segmentTypeLoad then none
      else if address < virtualAddress then none
      else if fileSize ≤ address - virtualAddress then none
      else
        let resolved := (fileOffset + (address - virtualAddress)) % 2 ^ 64
        if resolved < fileOffset ∨ reader.image.size ≤ resolved then none
        else some resolved
    | _, _, _, _ => none

def fileOffsetOfAddress (address : Nat) : Option Nat :=
  (List.range reader.segments.count).findSome? (reader.segmentFileOffsetOf address)

/-- One entry of the dynamic array that is not the last one. -/
def recordEntry (found : DynamicArray) (tag value : Nat) : DynamicArray :=
  if tag = dynamicTagNeeded then
    if maxNeededEntries ≤ found.neededOffsets.length then
      { found with neededTruncated := true }
    else { found with neededOffsets := found.neededOffsets ++ [value] }
  else if tag = dynamicTagSoname then { found with sonameOffset := some value }
  else if tag = dynamicTagStringTable then
    { found with stringTableAddress := some value }
  else if tag = dynamicTagStringTableSize then
    { found with stringTableSize := some value }
  else found

/-- The loop of `walk_dynamic_array` from `index` on, `rounds` entries at
most. -/
def walkDynamicArrayFrom (region : ByteCursor) :
    Nat → Nat → DynamicArray → DynamicArray
  | 0, _, found => { found with arrayTruncated := true }
  | rounds + 1, index, found =>
    match region.subrange (index * reader.dynamicEntrySize)
        reader.dynamicEntrySize with
    | none => found
    | some entry =>
      match reader.field entry dynamicTag, reader.field entry dynamicValue with
      | some tag, some value =>
        if tag = dynamicTagNull then found
        else
          walkDynamicArrayFrom region rounds (index + 1)
            (recordEntry found tag value)
      | _, _ => found

def walkDynamicArray (region : ByteCursor) : DynamicArray :=
  reader.walkDynamicArrayFrom region maxDynamicEntries 0 {}

/-- The string table `sh_link` names, when it is one. -/
def linkedStringTable (link : Option Nat) : Option ByteCursor :=
  link.bind fun index =>
  (reader.sectionHeader index).bind fun header =>
    if reader.field header sectionType = some sectionTypeStringTable then
      reader.sectionContents header
    else none

def resolveStringTable (location : DynamicLocation)
    (dynamicArray : DynamicArray) : Option ByteCursor × List String :=
  match reader.linkedStringTable location.stringTableSectionIndex with
  | some contents => (some contents, [])
  | none =>
    match dynamicArray.stringTableAddress with
    | none =>
      (none, ["dynamic section declares no string table (DT_STRTAB); no " ++
        "library names recoverable"])
    | some address =>
      match reader.fileOffsetOfAddress address with
      | none =>
        (none, ["DT_STRTAB address lies in no PT_LOAD segment; no " ++
          "library names recoverable"])
      | some offset =>
        let available := reader.image.size - offset
        let size :=
          match dynamicArray.stringTableSize with
          | some size => if size ≤ available then size else available
          | none => available
        match reader.image.subrange offset size with
        | none =>
          (none, ["string table does not fit the file; no library " ++
            "names recoverable"])
        | some table => (some table, [])

def stringAt (stringTable : ByteCursor) (offset : Nat) :
    Option (List UInt8) :=
  if stringTable.size < offset then none
  else
    match stringTable.cStringAt offset maxStringLength with
    | none => none
    | some text => if text = [] then none else some text

/-- One round of the loop over the symbols: the name of a defined symbol of
global or weak binding. -/
def exportedSymbol (table names : ByteCursor) (symbolIndex : Nat) :
    Option (List UInt8) :=
  match table.subrange (symbolIndex * reader.symbolEntrySize)
      reader.symbolEntrySize with
  | none => none
  | some entry =>
    match reader.field entry symbolSectionIndex,
      reader.field entry symbolInfo, reader.field entry symbolName with
    | some sectionIndex, some info, some nameOffset =>
      if sectionIndex = sectionIndexUndefined then none
      else
        let binding := info >>> symbolBindShift
        if binding ≠ symbolBindGlobal ∧ binding ≠ symbolBindWeak then none
        else stringAt names nameOffset
    | _, _, _ => none

/-- The symbol table and its names, when both can be read. -/
def symbolTables (header : ByteCursor) : Option (ByteCursor × ByteCursor) :=
  (reader.sectionContents header).bind fun table =>
  ((reader.field header sectionLink).filter (· < reader.sections.count)).bind
    fun link =>
  (reader.sectionHeader link).bind fun namesHeader =>
  (reader.sectionContents namesHeader).map fun names => (table, names)

/-- `collect_exported_symbols`: the image with its sample, and whether one was
taken.  As many entries as the table holds can all be read, so the loop never
breaks off. -/
def collectExportedSymbols (out : ElfImage) :
    (ElfImage × Bool) × List String :=
  match reader.firstOfType reader.sections sectionType
      sectionTypeDynamicSymbols with
  | none => ((out, false), [])
  | some header =>
    match reader.symbolTables header with
    | none =>
      ((out, false),
        ["dynamic symbol table is unreadable; symbol sample skipped"])
    | some (table, names) =>
      let declaredEntries := table.size / reader.symbolEntrySize
      let entries :=
        if maxSymbolTableEntries < declaredEntries then
          maxSymbolTableEntries
        else declaredEntries
      let symbols :=
        (List.range entries).filterMap (reader.exportedSymbol table names)
      let (sample, capped) := normalizeAndCap symbols maxSymbolSample
      (({ out with
          exportedSymbols := sample
          symbolsTruncated :=
            capped || decide (maxSymbolTableEntries < declaredEntries) },
        true), [])

/-- A table the header declares, no entry of which can be read. -/
def unreachable (table : HeaderTable) : Bool :=
  table.declared && (reader.tableEntry table 0).isNone

/-- `locate_dynamic_via_sections`, and `locate_dynamic_via_segments` where it
finds nothing. -/
def locateDynamic : Option DynamicLocation × List String :=
  match reader.locateDynamicViaSections with
  | (some location, messages) => (some location, messages)
  | (none, messages) =>
    let (location, more) := reader.locateDynamicViaSegments
    (location, messages ++ more)

/-- The warnings of the walk of the dynamic array. -/
def truncationWarnings (dynamicArray : DynamicArray) : List String :=
  (if dynamicArray.arrayTruncated then
    ["dynamic section declares more entries than bomwerk walks (" ++
      toString maxDynamicEntries ++ "); the rest were skipped"] else []) ++
  if dynamicArray.neededTruncated then
    ["declares more dynamic dependencies than bomwerk records (" ++
      toString maxNeededEntries ++ "); the rest were skipped"] else []

/-- The part of `read` that resolves the names of the dynamic array. -/
def recordNames (dynamicArray : DynamicArray)
    (stringTable : Option ByteCursor) : ElfImage :=
  let nameAt := fun offset =>
    stringTable.bind fun table => stringAt table offset
  let (needed, capped) :=
    normalizeAndCap (dynamicArray.neededOffsets.filterMap nameAt)
      maxNeededEntries
  { shape := .dynamic
    soname := (dynamicArray.sonameOffset.bind nameAt).getD []
    needed := needed
    neededTruncated :=
      capped || dynamicArray.arrayTruncated || dynamicArray.neededTruncated
    namesUnavailable := stringTable.isNone }

/-- The part of `read` that samples the symbols. -/
def recordSymbols (location : DynamicLocation) (out : ElfImage) :
    ElfImage × List String :=
  if !location.fromSectionHeaders then
    ({ out with symbolsUnavailable := true },
      ["section headers are stripped; dynamic dependencies were recovered " ++
        "from PT_DYNAMIC but the exported-symbol sample was not"])
  else
    let ((out, collected), messages) := reader.collectExportedSymbols out
    ({ out with symbolsUnavailable := !collected }, messages)

/-- The end of `read`: what the dynamic section declares. -/
def readDynamic (location : DynamicLocation) : ElfImage × List String :=
  let dynamicArray := reader.walkDynamicArray location.region
  let (stringTable, complaints) :=
    reader.resolveStringTable location dynamicArray
  let (out, messages) :=
    reader.recordSymbols location (recordNames dynamicArray stringTable)
  (out, truncationWarnings dynamicArray ++ complaints ++ messages)

/-- `kHeaderSize64` or `kHeaderSize32`. -/
def headerSize : Nat := if reader.is64Bit then 64 else 52

def capWarnings : List String :=
  if reader.sections.capped || reader.segments.capped then
    ["declares more headers than bomwerk follows; the rest were skipped"]
  else []

def read : ElfImage × List String :=
  let caps := reader.capWarnings
  if reader.image.size < reader.headerSize then
    ({ shape := .malformed },
      caps ++ ["ELF header is truncated; nothing about this image could be " ++
        "read"])
  else
    match reader.field reader.image headerType with
    | none => ({ shape := .malformed }, caps ++ ["ELF header is truncated"])
    | some type =>
      if reader.unreachable reader.sections ||
          reader.unreachable reader.segments then
        ({ shape := .malformed },
          caps ++ ["declares a header table that lies outside the file; " ++
            "nothing could be read from it"])
      else if type = typeRelocatable then ({ shape := .relocatable }, caps)
      else
        match reader.locateDynamic with
        | (none, messages) =>
          ({ shape := .staticExecutable }, caps ++ messages)
        | (some location, messages) =>
          let (out, more) := reader.readDynamic location
          (out, caps ++ messages ++ more)

end ElfReader

/-- What the identification of an image leads to. -/
inductive Identification
  | notElf
  | unknownClass
  | unknownDataEncoding
  | elf (image : ByteCursor) (is64Bit : Bool)
  deriving DecidableEq

/-- The checks of `read_elf` on `e_ident`. -/
def identify (bytes : List UInt8) : Identification :=
  let identification : ByteCursor := ⟨bytes, .little⟩
  if identification.size < identSize then .notElf
  else if bytes.take magic.length ≠ magic then .notElf
  else
    let fileClass := identification.uintAt identClassOffset .oneByte
    let fileData := identification.uintAt identDataOffset .oneByte
    if fileClass ≠ some class32 ∧ fileClass ≠ some class64 then .unknownClass
    else if fileData ≠ some dataLittleEndian ∧
        fileData ≠ some dataBigEndian then .unknownDataEncoding
    else
      .elf (identification.withByteOrder
          (if fileData = some dataBigEndian then .big else .little))
        (fileClass = some class64)

/-- `read_elf`; `none` is a file that cannot be read. -/
def readElf (path : String) (file : Option (List UInt8)) : Result ElfImage :=
  let outcome : Result ElfImage := { value := {} }
  match file with
  | none => outcome.warn .binaryUnreadable (path ++ ": cannot be read; skipped")
  | some bytes =>
    if maxBinaryBytes < bytes.length then
      outcome.warn .binaryTooLarge
        (path ++ ": larger than " ++ toString maxBinaryBytes ++
          " bytes; refused rather than parsed from a partial image")
    else
      match identify bytes with
      | .notElf => outcome
      | .unknownClass =>
        Result.warn { value := { shape := .malformed } }
          .binaryMalformedHeader
          (path ++ ": ELF magic with an unknown class byte; skipped")
      | .unknownDataEncoding =>
        Result.warn { value := { shape := .malformed } }
          .binaryMalformedHeader
          (path ++
            ": ELF magic with an unknown data-encoding byte; skipped")
      | .elf image is64Bit =>
        let (value, messages) := (ElfReader.ofImage image is64Bit).read
        { value := value
          warnings := messages.map fun message =>
            { code := .binaryMalformedHeader
              message := path ++ ": " ++ message } }

end Bomwerk.Binscan
