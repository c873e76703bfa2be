import Bomwerk.Binscan.ElfRead
import Bomwerk.Support.Traced

/-!
# What the ELF reader computes on the way

`binscan/elf_read.cpp` and `binscan/byte_cursor.hpp` once more, with every sum,
product and difference of 64 bits, every byte that is read and every round of a
loop as an event.  The warnings are left out: they compute nothing.
-/

namespace Bomwerk.Binscan

open Bomwerk.Core Bomwerk.Support

/-- The loops over what an image declares. -/
inductive DecodeLoop
  | sectionHeaders
  | segmentHeaders
  | dynamicEntries
  | neededEntries
  | symbols
  | stringBytes
  deriving DecidableEq

def DecodeLoop.cap : DecodeLoop → Nat
  | sectionHeaders => maxSectionHeaders
  | segmentHeaders => maxProgramHeaders
  | dynamicEntries => maxDynamicEntries
  | neededEntries => maxNeededEntries
  | symbols => maxSymbolTableEntries
  | stringBytes => maxStringLength

inductive ReadEvent
  | sum (left right : Nat)
  | product (left right : Nat)
  | difference (left right : Nat)
  /-- The sum of `file_offset_of_address`, and what is answered for it. -/
  | translation (fileOffset distance : Nat) (answer : Option Nat)
  | byteRead (position : Nat)
  | round (loop : DecodeLoop) (index : Nat)
  deriving DecidableEq

/-- A cursor over a part of an image, and the place of the part. -/
structure ImageRegion where
  base : Nat
  cursor : ByteCursor

open Traced (emit)

namespace ImageRegion

variable (region : ImageRegion)

/-- `bytes_[offset]`. -/
def readByte (offset : Nat) : Traced ReadEvent UInt8 := do
  emit (.byteRead (region.base + offset))
  pure (region.cursor.bytes[offset]?.getD 0)

def hasRange (offset length : Nat) : Traced ReadEvent Bool :=
  if region.cursor.size < length then pure false
  else do
    emit (.difference region.cursor.size length)
    pure (decide (offset ≤ region.cursor.size - length))

/-- The byte at `source_index`, in one round of the loop of `uint_at`. -/
def sourceByte (offset byteCount byteIndex : Nat) : Traced ReadEvent UInt8 :=
  match region.cursor.byteOrder with
  | .little => do
      emit (.sum offset byteIndex)
      region.readByte (offset + byteIndex)
  | .big => do
      emit (.sum offset byteCount)
      emit (.difference (offset + byteCount) 1)
      emit (.difference (offset + byteCount - 1) byteIndex)
      region.readByte (offset + byteCount - 1 - byteIndex)

/-- `uint_at`; the width, and with it the number of rounds, is fixed. -/
def uintAt (offset : Nat) (width : IntegerWidth) :
    Traced ReadEvent (Option Nat) := do
  let inside ← region.hasRange offset width.byteCount
  if inside then do
    let bytes ← Traced.forEach (List.range width.byteCount)
      (region.sourceByte offset width.byteCount)
    pure (some (fromLittleEndian bytes))
  else pure none

/-- The loop of `c_string_at`: the length of the text. -/
def scanString (offset : Nat) : Nat → Nat → Traced ReadEvent (Option Nat)
  | 0, _ => pure none
  | rounds + 1, length => do
      emit (.round .stringBytes length)
      emit (.sum offset length)
      let byte ← region.readByte (offset + length)
      if byte = 0 then pure (some length)
      else scanString offset rounds (length + 1)

def cStringAt (offset maxLength : Nat) :
    Traced ReadEvent (Option (List UInt8)) :=
  if region.cursor.size < offset then pure none
  else do
    emit (.difference region.cursor.size offset)
    let available := region.cursor.size - offset
    let searchable := if maxLength < available then maxLength else available
    let length ← region.scanString offset searchable 0
    pure (length.map fun length => (region.cursor.bytes.drop offset).take length)

def subrange (offset length : Nat) :
    Traced ReadEvent (Option ImageRegion) := do
  let inside ← region.hasRange offset length
  if inside then
    pure (some ⟨region.base + offset,
      ⟨(region.cursor.bytes.drop offset).take length, region.cursor.byteOrder⟩⟩)
  else pure none

end ImageRegion

/-! ## The reader -/

namespace ElfTrace

def fieldOf (is64Bit : Bool) (record : ImageRegion)
    (field : ClassDependentField) : Traced ReadEvent (Option Nat) :=
  let location := if is64Bit then field.inClass64 else field.inClass32
  record.uintAt location.offset location.width

/-- One half of `read_table_bounds`. -/
def readTable (is64Bit : Bool) (image : ImageRegion)
    (offsetField entrySizeField countField : ClassDependentField)
    (maximum : Nat) : Traced ReadEvent HeaderTable := do
  let offset ← fieldOf is64Bit image offsetField
  let entrySize ← fieldOf is64Bit image entrySizeField
  let count ← fieldOf is64Bit image countField
  match offset, entrySize, count with
  | some offset, some entrySize, some count =>
    let followed := if maximum < count then maximum else count
    pure
      { offset := offset, entrySize := entrySize, count := followed
        capped := decide (maximum < count)
        declared := decide (offset ≠ 0 ∧ 0 < followed) }
  | _, _, _ => pure {}

/-- The constructor of `ElfReader` and `read_table_bounds`. -/
def ofImage (image : ByteCursor) (is64Bit : Bool) :
    Traced ReadEvent ElfReader := do
  let sections ← readTable is64Bit ⟨0, image⟩ headerSectionTableOffset
    headerSectionEntrySize headerSectionCount maxSectionHeaders
  let segments ← readTable is64Bit ⟨0, image⟩ headerSegmentTableOffset
    headerSegmentEntrySize headerSegmentCount maxProgramHeaders
  pure
    { image := image, is64Bit := is64Bit, sections := sections
      segments := segments }

variable (reader : ElfReader)

def field (record : ImageRegion) (field : ClassDependentField) :
    Traced ReadEvent (Option Nat) :=
  fieldOf reader.is64Bit record field

def image : ImageRegion := ⟨0, reader.image⟩

def tableEntry (table : HeaderTable) (index : Nat) :
    Traced ReadEvent (Option ImageRegion) :=
  if table.entrySize = 0 ∨ table.offset = 0 then pure none
  else do
    emit (.product table.entrySize index)
    emit (.sum table.offset (table.entrySize * index))
    let entryOffset := (table.offset + table.entrySize * index) % 2 ^ 64
    if entryOffset < table.offset then pure none
    else if reader.image.size < entryOffset then pure none
    else (image reader).subrange entryOffset table.entrySize

/-- The bytes a header says its contents are. -/
def contents (offset size : Option Nat) :
    Traced ReadEvent (Option ImageRegion) :=
  match offset, size with
  | some offset, some size =>
    if reader.image.size < offset ∨ reader.image.size < size then pure none
    else (image reader).subrange offset size
  | _, _ => pure none

def sectionContents (header : ImageRegion) :
    Traced ReadEvent (Option ImageRegion) := do
  let offset ← field reader header sectionFileOffset
  let size ← field reader header sectionSize
  contents reader offset size

/-- One round of a loop over a header table in search of a type. -/
def entryOfType (table : HeaderTable) (loop : DecodeLoop)
    (typeField : ClassDependentField) (wanted index : Nat) :
    Traced ReadEvent (Option ImageRegion) := do
  emit (.round loop index)
  match ← tableEntry reader table index with
  | none => pure none
  | some header => do
      let type ← field reader header typeField
      pure (if type = some wanted then some header else none)

def firstOfType (table : HeaderTable) (loop : DecodeLoop)
    (typeField : ClassDependentField) (wanted : Nat) :
    Traced ReadEvent (Option ImageRegion) :=
  Traced.findSome (List.range table.count)
    (entryOfType reader table loop typeField wanted)

/-- `DynamicLocation`, its region in its place. -/
structure Location where
  region : ImageRegion
  fromSectionHeaders : Bool
  stringTableSectionIndex : Option Nat

def locateDynamicViaSections : Traced ReadEvent (Option Location) := do
  match ← firstOfType reader reader.sections .sectionHeaders sectionType
      sectionTypeDynamic with
  | none => pure none
  | some header => do
      match ← sectionContents reader header with
      | none => pure none
      | some region => do
          let link ← field reader header sectionLink
          pure (some ⟨region, true, link.filter (· < reader.sections.count)⟩)

def locateDynamicViaSegments : Traced ReadEvent (Option Location) := do
  match ← firstOfType reader reader.segments .segmentHeaders segmentType
      segmentTypeDynamic with
  | none => pure none
  | some header => do
      let offset ← field reader header segmentFileOffset
      let size ← field reader header segmentFileSize
      match ← contents reader offset size with
      | none => pure none
      | some region => pure (some ⟨region, false, none⟩)

/-- What one segment answers for an address. -/
def segmentFileOffsetOf (address index : Nat) :
    Traced ReadEvent (Option Nat) := do
  emit (.round .segmentHeaders index)
  match ← tableEntry reader reader.segments index with
  | none => pure none
  | some header => do
      let type ← field reader header segmentType
      let virtualAddress ← field reader header segmentVirtualAddress
      let fileOffset ← field reader header segmentFileOffset
      let fileSize ← field reader header segmentFileSize
      match type, virtualAddress, fileOffset, fileSize with
      | some type, some virtualAddress, some fileOffset, some fileSize =>
        if type ≠ segmentTypeLoad then pure none
        else if address < virtualAddress then pure none
        else do
          emit (.difference address virtualAddress)
          let distance := address - virtualAddress
          if fileSize ≤ distance then pure none
          else do
            let resolved := (fileOffset + distance) % 2 ^ 64
            let answer :=
              if resolved < fileOffset ∨ reader.image.size ≤ resolved then none
              else some resolved
            emit (.translation fileOffset distance answer)
            pure answer
      | _, _, _, _ => pure none

def fileOffsetOfAddress (address : Nat) : Traced ReadEvent (Option Nat) :=
  Traced.findSome (List.range reader.segments.count)
    (segmentFileOffsetOf reader address)

/-- The loop of `walk_dynamic_array`. -/
def walkDynamicArrayFrom (region : ImageRegion) :
    Nat → Nat → DynamicArray → Traced ReadEvent DynamicArray
  | 0, _, found => pure { found with arrayTruncated := true }
  | rounds + 1, index, found => do
      emit (.round .dynamicEntries index)
      emit (.product index reader.dynamicEntrySize)
      match ← region.subrange (index * reader.dynamicEntrySize)
          reader.dynamicEntrySize with
      | none => pure found
      | some entry => do
          let tag ← field reader entry dynamicTag
          let value ← field reader entry dynamicValue
          match tag, value with
          | some tag, some value =>
            if tag = dynamicTagNull then pure found
            else
              walkDynamicArrayFrom region rounds (index + 1)
                (ElfReader.recordEntry found tag value)
          | _, _ => pure found

def walkDynamicArray (region : ImageRegion) : Traced ReadEvent DynamicArray :=
  walkDynamicArrayFrom reader region maxDynamicEntries 0 {}

/-- The string table `sh_link` names, when it is one. -/
def linkedStringTable (link : Option Nat) :
    Traced ReadEvent (Option ImageRegion) :=
  match link with
  | none => pure none
  | some index => do
      match ← tableEntry reader reader.sections index with
      | none => pure none
      | some header => do
          let type ← field reader header sectionType
          if type = some sectionTypeStringTable then
            sectionContents reader header
          else pure none

def resolveStringTable (link : Option Nat) (dynamicArray : DynamicArray) :
    Traced ReadEvent (Option ImageRegion) := do
  match ← linkedStringTable reader link with
  | some contents => pure (some contents)
  | none =>
    match dynamicArray.stringTableAddress with
    | none => pure none
    | some address => do
        match ← fileOffsetOfAddress reader address with
        | none => pure none
        | some offset => do
            emit (.difference reader.image.size offset)
            let available := reader.image.size - offset
            let size :=
              match dynamicArray.stringTableSize with
              | some size => if size ≤ available then size else available
              | none => available
            (image reader).subrange offset size

def stringAt (stringTable : ImageRegion) (offset : Nat) :
    Traced ReadEvent (Option (List UInt8)) :=
  if stringTable.cursor.size < offset then pure none
  else do
    match ← stringTable.cStringAt offset maxStringLength with
    | none => pure none
    | some text => pure (if text = [] then none else some text)

/-- One round of the loop over the symbols. -/
def exportedSymbol (table names : ImageRegion) (symbolIndex : Nat) :
    Traced ReadEvent (Option (List UInt8)) := do
  emit (.round .symbols symbolIndex)
  emit (.product symbolIndex reader.symbolEntrySize)
  match ← table.subrange (symbolIndex * reader.symbolEntrySize)
      reader.symbolEntrySize with
  | none => pure none
  | some entry => do
      let sectionIndex ← field reader entry symbolSectionIndex
      let info ← field reader entry symbolInfo
      let nameOffset ← field reader entry symbolName
      match sectionIndex, info, nameOffset with
      | some sectionIndex, some info, some nameOffset =>
        if sectionIndex = sectionIndexUndefined then pure none
        else
          let binding := info >>> symbolBindShift
          if binding ≠ symbolBindGlobal ∧ binding ≠ symbolBindWeak then
            pure none
          else stringAt names nameOffset
      | _, _, _ => pure none

/-- The symbol table and its names, when both can be read. -/
def symbolTables (header : ImageRegion) :
    Traced ReadEvent (Option (ImageRegion × ImageRegion)) := do
  let table ← sectionContents reader header
  let link ← field reader header sectionLink
  match table, link.filter (· < reader.sections.count) with
  | some table, some link => do
      match ← tableEntry reader reader.sections link with
      | none => pure none
      | some namesHeader => do
          match ← sectionContents reader namesHeader with
          | none => pure none
          | some names => pure (some (table, names))
  | _, _ => pure none

def collectExportedSymbols (out : ElfImage) :
    Traced ReadEvent (ElfImage × Bool) := do
  match ← firstOfType reader reader.sections .sectionHeaders sectionType
      sectionTypeDynamicSymbols with
  | none => pure (out, false)
  | some header => do
      match ← symbolTables reader header with
      | none => pure (out, false)
      | some (table, names) => do
          let declaredEntries := table.cursor.size / reader.symbolEntrySize
          let entries :=
            if maxSymbolTableEntries < declaredEntries then
              maxSymbolTableEntries
            else declaredEntries
          let symbols ← Traced.forEach (List.range entries)
            (exportedSymbol reader table names)
          let sample := normalizeAndCap (symbols.filterMap id) maxSymbolSample
          pure
            ({ out with
                exportedSymbols := sample.1
                symbolsTruncated :=
                  sample.2 || decide (maxSymbolTableEntries < declaredEntries) },
              true)

/-- A table the header declares, no entry of which can be read. -/
def unreachable (table : HeaderTable) : Traced ReadEvent Bool :=
  if table.declared then do
    let first ← tableEntry reader table 0
    pure first.isNone
  else pure false

/-- `locate_dynamic_via_sections`, and `locate_dynamic_via_segments` where it
finds nothing. -/
def locateDynamic : Traced ReadEvent (Option Location) := do
  match ← locateDynamicViaSections reader with
  | some location => pure (some location)
  | none => locateDynamicViaSegments reader

/-- The name at an offset, when there is a string table. -/
def nameAt (stringTable : Option ImageRegion) (offset : Nat) :
    Traced ReadEvent (Option (List UInt8)) :=
  match stringTable with
  | none => pure none
  | some table => stringAt table offset

def sonameOf (dynamicArray : DynamicArray)
    (stringTable : Option ImageRegion) :
    Traced ReadEvent (Option (List UInt8)) :=
  match dynamicArray.sonameOffset with
  | none => pure none
  | some offset => nameAt stringTable offset

/-- The part of `read` that resolves the names of the dynamic array. -/
def recordNames (dynamicArray : DynamicArray)
    (stringTable : Option ImageRegion) : Traced ReadEvent ElfImage := do
  let names ← Traced.forEach dynamicArray.neededOffsets.zipIdx fun entry => do
    emit (.round .neededEntries entry.2)
    nameAt stringTable entry.1
  let soname ← sonameOf dynamicArray stringTable
  let needed := normalizeAndCap (names.filterMap id) maxNeededEntries
  pure
    { shape := .dynamic
      soname := soname.getD []
      needed := needed.1
      neededTruncated :=
        needed.2 || dynamicArray.arrayTruncated || dynamicArray.neededTruncated
      namesUnavailable := stringTable.isNone }

/-- The part of `read` that samples the symbols. -/
def recordSymbols (location : Location) (out : ElfImage) :
    Traced ReadEvent ElfImage :=
  if !location.fromSectionHeaders then
    pure { out with symbolsUnavailable := true }
  else do
    let collected ← collectExportedSymbols reader out
    pure { collected.1 with symbolsUnavailable := !collected.2 }

/-- The end of `read`: what the dynamic section declares. -/
def readDynamic (location : Location) : Traced ReadEvent ElfImage := do
  let dynamicArray ← walkDynamicArray reader location.region
  let stringTable ←
    resolveStringTable reader location.stringTableSectionIndex dynamicArray
  let out ← recordNames dynamicArray stringTable
  recordSymbols reader location out

def read : Traced ReadEvent ElfImage :=
  if reader.image.size < reader.headerSize then pure { shape := .malformed }
  else do
    match ← field reader (image reader) headerType with
    | none => pure { shape := .malformed }
    | some type => do
        let sections ← unreachable reader reader.sections
        let segments ← unreachable reader reader.segments
        if sections || segments then pure { shape := .malformed }
        else if type = typeRelocatable then pure { shape := .relocatable }
        else do
          match ← locateDynamic reader with
          | none => pure { shape := .staticExecutable }
          | some location => readDynamic reader location

/-- `kMagic[index]`, in one round of the loop of `read_elf`: whether another
byte stands there. -/
def magicMismatch (identification : ImageRegion) (index : Nat) :
    Traced ReadEvent (Option Unit) := do
  let byte ← identification.uintAt index .oneByte
  pure (if byte = magic[index]?.map UInt8.toNat then none else some ())

/-- `read_elf`, of a file that can be read. -/
def readElf (bytes : List UInt8) : Traced ReadEvent ElfImage :=
  if maxBinaryBytes < bytes.length then pure {}
  else
    let identification : ImageRegion := ⟨0, ⟨bytes, .little⟩⟩
    if identification.cursor.size < identSize then pure {}
    else do
      match ← Traced.findSome (List.range magic.length)
          (magicMismatch identification) with
      | some _ => pure {}
      | none => do
          let fileClass ← identification.uintAt identClassOffset .oneByte
          let fileData ← identification.uintAt identDataOffset .oneByte
          if fileClass ≠ some class32 ∧ fileClass ≠ some class64 then
            pure { shape := .malformed }
          else if fileData ≠ some dataLittleEndian ∧
              fileData ≠ some dataBigEndian then
            pure { shape := .malformed }
          else do
            let reader ← ofImage
              (identification.cursor.withByteOrder
                (if fileData = some dataBigEndian then .big else .little))
              (fileClass = some class64)
            read reader

end ElfTrace

end Bomwerk.Binscan
