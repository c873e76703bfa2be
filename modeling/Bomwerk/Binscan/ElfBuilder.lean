import Bomwerk.Binscan.ByteCursor

/-!
# Building ELF files

`tests/support/elf_builder.hpp` and the part of `binary_writer.hpp` it uses:
the encoder the reader is tested against.
-/

namespace Bomwerk.Binscan

open Bomwerk.Support

def putUint (bigEndian : Bool) (value width : Nat) : List UInt8 :=
  if bigEndian then (littleEndian width value).reverse
  else littleEndian width value

def padTo (bytes : List UInt8) (offset : Nat) : List UInt8 :=
  bytes ++ List.replicate (offset - bytes.length) 0

@[simp] theorem length_putUint (bigEndian : Bool) (value width : Nat) :
    (putUint bigEndian value width).length = width := by
  cases bigEndian <;> simp [putUint]

theorem length_padTo_eq_max (bytes : List UInt8) (offset : Nat) :
    (padTo bytes offset).length = max bytes.length offset := by
  rw [padTo, List.length_append, List.length_replicate]
  omega

theorem length_padTo {bytes : List UInt8} {offset : Nat}
    (hle : bytes.length ≤ offset) : (padTo bytes offset).length = offset := by
  rw [length_padTo_eq_max, max_eq_right hle]

structure ElfBuildOptions where
  is64Bit : Bool := true
  bigEndian : Bool := false
  fileType : UInt16 := 3
  needed : List (List UInt8) := []
  soname : List UInt8 := []
  exportedSymbols : List (List UInt8) := []
  undefinedSymbols : List (List UInt8) := []
  includeSectionHeaders : Bool := true
  includeProgramHeaders : Bool := false
  includeDynamic : Bool := true

/-- `string_table` and `string_offsets`. -/
structure StringTable where
  bytes : List UInt8 := [0]
  offsets : List (List UInt8 × Nat) := []

def StringTable.intern (table : StringTable) (text : List UInt8) :
    StringTable :=
  match table.offsets.lookup text with
  | some _ => table
  | none =>
    { bytes := table.bytes ++ text ++ [0]
      offsets := (text, table.bytes.length) :: table.offsets }

/-- `string_offsets[text]`. -/
def StringTable.offsetOf (table : StringTable) (text : List UInt8) : Nat :=
  (table.offsets.lookup text).getD 0

namespace ElfBuildOptions

variable (options : ElfBuildOptions)

/-- The names, in the order they are interned. -/
def names : List (List UInt8) :=
  options.needed ++ (if options.soname = [] then [] else [options.soname]) ++
    options.exportedSymbols ++ options.undefinedSymbols

def stringTable : StringTable :=
  options.names.foldl StringTable.intern {}

def addressWidth : Nat := if options.is64Bit then 8 else 4
def headerSize : Nat := if options.is64Bit then 64 else 52
def segmentEntrySize : Nat := if options.is64Bit then 56 else 32
def sectionEntrySize : Nat := if options.is64Bit then 64 else 40
def dynamicEntrySize : Nat := if options.is64Bit then 16 else 8
def symbolEntrySize : Nat := if options.is64Bit then 24 else 16

def hasSymbols : Bool :=
  !options.exportedSymbols.isEmpty || !options.undefinedSymbols.isEmpty

def symbolCount : Nat :=
  if options.hasSymbols then
    1 + options.exportedSymbols.length + options.undefinedSymbols.length
  else 0

def dynamicCount : Nat :=
  if options.includeDynamic then
    options.needed.length + (if options.soname = [] then 0 else 1) + 3
  else 0

/-- `kSegmentTypeLoad` is 1, `kSegmentTypeDynamic` 2. -/
def segmentTypes : List Nat :=
  if options.includeProgramHeaders then
    if options.includeDynamic then [1, 2] else [1]
  else []

def aligned (offset : Nat) : Nat := (offset + 7) / 8 * 8

def segmentTableOffset : Nat := options.headerSize

def stringTableOffset : Nat :=
  options.segmentTableOffset +
    options.segmentEntrySize * options.segmentTypes.length

def dynamicOffset : Nat :=
  aligned (options.stringTableOffset + options.stringTable.bytes.length)

def symbolTableOffset : Nat :=
  aligned (options.dynamicOffset +
    options.dynamicEntrySize * options.dynamicCount)

def sectionTableOffset : Nat :=
  aligned (options.symbolTableOffset +
    options.symbolEntrySize * options.symbolCount)

/-- `e_phoff`. -/
def segmentTable : Nat :=
  if options.segmentTypes.isEmpty then 0 else options.segmentTableOffset

/-- Null, `.dynstr`, and what there is of `.dynamic` and `.dynsym`. -/
def sectionCount : Nat :=
  if options.includeSectionHeaders then
    2 + (if options.includeDynamic then 1 else 0) +
      (if options.hasSymbols then 1 else 0)
  else 0

/-- `e_shoff`. -/
def sectionTable : Nat :=
  if options.sectionCount = 0 then 0 else options.sectionTableOffset

def totalSize : Nat :=
  options.sectionTableOffset + options.sectionEntrySize * options.sectionCount

def put (value width : Nat) : List UInt8 :=
  putUint options.bigEndian value width

def putAddress (value : Nat) : List UInt8 :=
  options.put value options.addressWidth

/-- `e_ident`. -/
def ident : List UInt8 :=
  padTo ([0x7F, 0x45, 0x4C, 0x46] ++
    options.put (if options.is64Bit then 2 else 1) 1 ++
    options.put (if options.bigEndian then 2 else 1) 1 ++ options.put 1 1) 16

def header : List UInt8 :=
  options.ident ++
  options.put options.fileType.toNat 2 ++ options.put 62 2 ++ options.put 1 4 ++
  options.putAddress 0 ++
  options.putAddress options.segmentTable ++
  options.putAddress options.sectionTable ++
  options.put 0 4 ++ options.put options.headerSize 2 ++
  options.put options.segmentEntrySize 2 ++
  options.put options.segmentTypes.length 2 ++
  options.put options.sectionEntrySize 2 ++ options.put options.sectionCount 2 ++
  options.put 0 2

/-- One program header; the flags stand before the offsets in ELF64 only. -/
def putSegment (segmentType : Nat) : List UInt8 :=
  let isLoad := segmentType = 1
  let offset := if isLoad then 0 else options.dynamicOffset
  let size :=
    if isLoad then options.totalSize
    else options.dynamicEntrySize * options.dynamicCount
  options.put segmentType 4 ++
  (if options.is64Bit then options.put 0 4 else []) ++
  options.putAddress offset ++ options.putAddress offset ++
  options.putAddress offset ++ options.putAddress size ++
  options.putAddress size ++
  (if options.is64Bit then [] else options.put 0 4) ++ options.putAddress 1

def putDynamic (entry : Nat × Nat) : List UInt8 :=
  options.putAddress entry.1 ++ options.putAddress entry.2

/-- `put_symbol`: ELF32 and ELF64 order the fields differently. -/
def putSymbol (symbol : Nat × Nat × Nat) : List UInt8 :=
  let (nameOffset, info, sectionIndex) := symbol
  options.put nameOffset 4 ++
  if options.is64Bit then
    options.put info 1 ++ options.put 0 1 ++ options.put sectionIndex 2 ++
      options.put 0 8 ++ options.put 0 8
  else
    options.put 0 4 ++ options.put 0 4 ++ options.put info 1 ++
      options.put 0 1 ++ options.put sectionIndex 2

/-- One section: its type, offset, size and link. -/
structure Section where
  type : Nat
  offset : Nat
  size : Nat
  link : Nat

def putSection (entry : Section) : List UInt8 :=
  options.put 0 4 ++ options.put entry.type 4 ++ options.putAddress 0 ++
  options.putAddress entry.offset ++ options.putAddress entry.offset ++
  options.putAddress entry.size ++ options.put entry.link 4 ++
  options.put 0 4 ++ options.putAddress 1 ++ options.putAddress 0

/-- The entries before the last: `DT_NEEDED` is 1, `DT_SONAME` 14,
`DT_STRTAB` 5 and `DT_STRSZ` 10. -/
def dynamicEntries : List (Nat × Nat) :=
  options.needed.map (fun name => (1, options.stringTable.offsetOf name)) ++
  (if options.soname = [] then []
    else [(14, options.stringTable.offsetOf options.soname)]) ++
  [(5, options.stringTableOffset), (10, options.stringTable.bytes.length)]

/-- The whole dynamic array, with `DT_NULL` behind it. -/
def dynamicArray : List (Nat × Nat) :=
  if options.includeDynamic then options.dynamicEntries ++ [(0, 0)] else []

/-- The null symbol, the exported symbols and the imports, all of them global
functions. -/
def symbols : List (Nat × Nat × Nat) :=
  if options.hasSymbols then
    (0, 0, 0) :: options.exportedSymbols.map
        (fun name => (options.stringTable.offsetOf name, 0x12, 1)) ++
      options.undefinedSymbols.map
        (fun name => (options.stringTable.offsetOf name, 0x12, 0))
  else []

/-- `SHT_STRTAB` is 3, `SHT_DYNAMIC` 6 and `SHT_DYNSYM` 11. -/
def sections : List Section :=
  if options.includeSectionHeaders then
    [⟨0, 0, 0, 0⟩,
      ⟨3, options.stringTableOffset, options.stringTable.bytes.length, 0⟩] ++
    (if options.includeDynamic then
      [⟨6, options.dynamicOffset,
        options.dynamicEntrySize * options.dynamicCount, 1⟩] else []) ++
    (if options.hasSymbols then
      [⟨11, options.symbolTableOffset,
        options.symbolEntrySize * options.symbolCount, 1⟩] else [])
  else []

end ElfBuildOptions

def buildElf (options : ElfBuildOptions) : List UInt8 :=
  let written := options.header ++
    options.segmentTypes.flatMap options.putSegment
  let written := padTo written options.stringTableOffset ++
    options.stringTable.bytes
  let written := padTo written options.dynamicOffset ++
    options.dynamicArray.flatMap options.putDynamic
  let written := padTo written options.symbolTableOffset ++
    options.symbols.flatMap options.putSymbol
  if options.sectionCount = 0 then written
  else
    padTo written options.sectionTableOffset ++
      options.sections.flatMap options.putSection

end Bomwerk.Binscan
