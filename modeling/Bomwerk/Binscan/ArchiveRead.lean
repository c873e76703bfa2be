import Bomwerk.Binscan.ByteCursor
import Bomwerk.Core.Warning
import Mathlib.Data.List.DropRight

/-!
# Reading `ar` archives

`binscan/archive_read.cpp`: the walk over the members, the four spellings of a
member name, and the sample of the symbol index.
-/

namespace Bomwerk.Binscan

open Bomwerk.Core Bomwerk.Support

/-- `kArchiveMagic`, `!<arch>` and a newline. -/
def archiveMagic : List UInt8 := [0x21, 0x3C, 0x61, 0x72, 0x63, 0x68, 0x3E, 0x0A]

def memberHeaderSize : Nat := 60

def memberNameOffset : Nat := 0

def memberNameLength : Nat := 16

def memberSizeOffset : Nat := 48

def memberSizeLength : Nat := 10

def memberTrailerOffset : Nat := 58

/-- `kMemberTrailer`, a backtick and a newline. -/
def memberTrailer : List UInt8 := [0x60, 0x0A]

def memberAlignment : Nat := 2

/-- `kGnuSymbolIndexName`, `/`. -/
def gnuSymbolIndexName : List UInt8 := [0x2F]

/-- `kGnuSymbolIndex64Name`, `/SYM64/`. -/
def gnuSymbolIndex64Name : List UInt8 := [0x2F, 0x53, 0x59, 0x4D, 0x36, 0x34, 0x2F]

/-- `kGnuLongNameTableName`, `//`. -/
def gnuLongNameTableName : List UInt8 := [0x2F, 0x2F]

/-- `kBsdSymbolIndexName`, `__.SYMDEF`. -/
def bsdSymbolIndexName : List UInt8 :=
  [0x5F, 0x5F, 0x2E, 0x53, 0x59, 0x4D, 0x44, 0x45, 0x46]

/-- `kBsdLongNamePrefix`, `#1/`. -/
def bsdLongNamePrefix : List UInt8 := [0x23, 0x31, 0x2F]

/-- `kAsciiWhitespace`. -/
def isAsciiWhitespace (byte : UInt8) : Bool :=
  byte = 0x20 ∨ byte = 0x09 ∨ byte = 0x0D ∨ byte = 0x0A

def trimmedView (text : List UInt8) : List UInt8 :=
  (text.dropWhile isAsciiWhitespace).rdropWhile isAsciiWhitespace

/-- The loop of `parse_decimal_field`. -/
def parseDigits : Nat → List UInt8 → Option Nat
  | value, [] => some value
  | value, character :: rest =>
    if character < 0x30 ∨ 0x39 < character then none
    else
      let digit := character.toNat - 0x30
      if (2 ^ 64 - 1 - digit) / 10 < value then none
      else parseDigits (value * 10 + digit) rest

def parseDecimalField (field : List UInt8) : Option Nat :=
  let digits := trimmedView field
  if digits = [] then none else parseDigits 0 digits

def rawMemberName (header : List UInt8) : List UInt8 :=
  trimmedView ((header.drop memberNameOffset).take memberNameLength)

def isBookkeepingMember (name : List UInt8) : Bool :=
  name = gnuSymbolIndexName ∨ name = gnuSymbolIndex64Name ∨
    name = gnuLongNameTableName ∨ bsdSymbolIndexName.isPrefixOf name

def nonEmptyName (name : List UInt8) : Option (List UInt8) :=
  if name = [] then none else some name

def resolveMemberName (rawName longNameTable memberData : List UInt8) :
    Option (List UInt8) :=
  if rawName = [] ∨ isBookkeepingMember rawName then none
  else if bsdLongNamePrefix.isPrefixOf rawName then
    match parseDecimalField (rawName.drop bsdLongNamePrefix.length) with
    | none => none
    | some length =>
      if memberData.length < length ∨ maxStringLength < length then none
      else nonEmptyName ((memberData.take length).takeWhile (· ≠ 0))
  else if rawName.head? = some 0x2F then
    match parseDecimalField (rawName.drop 1) with
    | none => none
    | some offset =>
      if longNameTable.length ≤ offset then none
      else
        let name := (longNameTable.drop offset).takeWhile
          fun byte => byte ≠ 0x2F ∧ byte ≠ 0x0A
        nonEmptyName (name.take maxStringLength)
  else if rawName.getLast? = some 0x2F then nonEmptyName rawName.dropLast
  else nonEmptyName rawName

/-! ## The walk -/

structure ArchiveContents where
  isArchive : Bool := false
  memberNames : List (List UInt8) := []
  indexedSymbols : List (List UInt8) := []
  membersTruncated : Bool := false
  symbolsTruncated : Bool := false
  symbolsUnavailable : Bool := false
  deriving DecidableEq, Repr

/-- `ArchiveReader`, with the position of the walk and its messages. -/
structure ArchiveReader where
  offset : Nat := archiveMagic.length
  memberCount : Nat := 0
  longNameTable : List UInt8 := []
  sawSymbolIndex : Bool := false
  out : ArchiveContents := { isArchive := true }
  messages : List String := []

/-- The names of the symbol index from an offset on, `count` at most. -/
def indexNames (index : ByteCursor) : Nat → Nat → List (List UInt8)
  | 0, _ => []
  | count + 1, nameOffset =>
    match index.cStringAt nameOffset maxStringLength with
    | none => []
    | some name =>
      (if name = [] then [] else [name]) ++
        indexNames index count (nameOffset + name.length + 1)

def readGnuSymbolIndex (indexData : List UInt8) (is64Bit : Bool)
    (out : ArchiveContents) : ArchiveContents :=
  let index : ByteCursor := ⟨indexData, .big⟩
  let width : IntegerWidth := if is64Bit then .eightBytes else .fourBytes
  match index.uintAt 0 width with
  | none => { out with symbolsUnavailable := true }
  | some declaredCount =>
    let cappedCount :=
      if maxSymbolTableEntries < declaredCount then maxSymbolTableEntries
      else declaredCount
    let nameOffset := width.byteCount + width.byteCount * cappedCount
    let names := indexNames index cappedCount nameOffset
    let (sample, capped) :=
      normalizeAndCap (out.indexedSymbols ++ names) maxSymbolSample
    { out with
      indexedSymbols := sample
      symbolsTruncated :=
        capped || out.symbolsTruncated || decide (declaredCount ≠ cappedCount) }

namespace ArchiveReader

def stop (reader : ArchiveReader) (message : String) : ArchiveReader × Bool :=
  ({ reader with
      out := { reader.out with membersTruncated := true }
      messages := reader.messages ++ [message] }, false)

/-- The member is none of those `read` treats by their name. -/
def isListed (rawName : List UInt8) : Bool :=
  rawName ≠ gnuLongNameTableName ∧ rawName ≠ gnuSymbolIndexName ∧
    rawName ≠ gnuSymbolIndex64Name ∧ !bsdSymbolIndexName.isPrefixOf rawName

/-- What the walk keeps of one member, the cap on members aside. -/
def recordMember (reader : ArchiveReader) (rawName data : List UInt8) :
    ArchiveReader :=
  if rawName = gnuLongNameTableName then { reader with longNameTable := data }
  else if rawName = gnuSymbolIndexName ∨ rawName = gnuSymbolIndex64Name then
    { reader with
      sawSymbolIndex := true
      out := readGnuSymbolIndex data (rawName = gnuSymbolIndex64Name)
        reader.out }
  else if bsdSymbolIndexName.isPrefixOf rawName then
    { reader with out := { reader.out with symbolsUnavailable := true } }
  else
    match resolveMemberName rawName reader.longNameTable data with
    | none => reader
    | some name =>
      { reader with
        memberCount := reader.memberCount + 1
        out := { reader.out with
          memberNames := reader.out.memberNames ++ [name] } }

/-- One round of the loop of `read`, and whether another follows. -/
def readMember (bytes : List UInt8) (reader : ArchiveReader) :
    ArchiveReader × Bool :=
  let offset := reader.offset
  if bytes.length - offset < memberHeaderSize then
    reader.stop ("member header at byte " ++ toString offset ++
      " is cut off by the end of the file; the rest was skipped")
  else
    let header := (bytes.drop offset).take memberHeaderSize
    if (header.drop memberTrailerOffset).take memberTrailer.length ≠
        memberTrailer then
      reader.stop ("member header at byte " ++ toString offset ++
        " is malformed; the rest was skipped")
    else
      match parseDecimalField
          ((header.drop memberSizeOffset).take memberSizeLength) with
      | none =>
        reader.stop ("member at byte " ++ toString offset ++
          " declares an unreadable size; the rest was skipped")
      | some declaredSize =>
        let dataOffset := offset + memberHeaderSize
        if bytes.length - dataOffset < declaredSize then
          reader.stop ("member at byte " ++ toString offset ++
            " declares a size running past the end of the file; the rest " ++
            "was skipped")
        else
          let data := (bytes.drop dataOffset).take declaredSize
          let rawName := rawMemberName header
          if isListed rawName ∧ maxArchiveMembers ≤ reader.memberCount then
            reader.stop ("holds more members than bomwerk lists (" ++
              toString maxArchiveMembers ++ "); the rest were skipped")
          else
            let reader := reader.recordMember rawName data
            let paddedSize := declaredSize + declaredSize % memberAlignment
            if bytes.length - dataOffset < paddedSize then (reader, false)
            else ({ reader with offset := dataOffset + paddedSize }, true)

/-- The loop of `read`, `rounds` members at most. -/
def readMembers (bytes : List UInt8) : Nat → ArchiveReader → ArchiveReader
  | 0, reader => reader
  | rounds + 1, reader =>
    if reader.offset < bytes.length then
      let (reader, again) := readMember bytes reader
      if again then readMembers bytes rounds reader else reader
    else reader

/-- `read`.  A round that another follows moves on, so that there are fewer
rounds than bytes. -/
def read (bytes : List UInt8) : ArchiveReader :=
  let reader := readMembers bytes bytes.length {}
  { reader with
    out := { reader.out with
      memberNames := (normalizeAndCap reader.out.memberNames maxArchiveMembers).1
      symbolsUnavailable :=
        reader.out.symbolsUnavailable || !reader.sawSymbolIndex } }

/-- A round that another follows moves on. -/
theorem offset_lt_of_readMember {bytes : List UInt8}
    {reader next : ArchiveReader}
    (hnext : readMember bytes reader = (next, true)) :
    reader.offset < next.offset := by
  have hstop : ∀ message, reader.stop message ≠ (next, true) := by
    intro message hstopped
    simp [stop] at hstopped
  simp only [readMember] at hnext
  split at hnext
  · exact absurd hnext (hstop _)
  split at hnext
  · exact absurd hnext (hstop _)
  split at hnext
  · exact absurd hnext (hstop _)
  split at hnext
  · exact absurd hnext (hstop _)
  split at hnext
  · exact absurd hnext (hstop _)
  split at hnext
  · simp at hnext
  · obtain ⟨rfl, -⟩ := Prod.mk.inj hnext
    dsimp only
    rw [memberHeaderSize]
    omega

/-- More rounds than bytes that are left change nothing. -/
theorem readMembers_of_le {bytes : List UInt8} {rounds : Nat}
    {reader : ArchiveReader} (hrounds : bytes.length ≤ reader.offset + rounds)
    (more : Nat) :
    readMembers bytes (rounds + more) reader =
      readMembers bytes rounds reader := by
  induction rounds generalizing reader with
  | zero =>
    have hend : ¬ reader.offset < bytes.length := by omega
    cases more with
    | zero => rfl
    | succ more =>
      rw [Nat.zero_add, readMembers.eq_2, if_neg hend, readMembers.eq_1]
  | succ rounds ih =>
    rw [Nat.add_right_comm, readMembers, readMembers]
    split_ifs with hinside
    · rcases hround : readMember bytes reader with ⟨next, again⟩
      cases again with
      | false => rfl
      | true =>
        have hmoved := offset_lt_of_readMember hround
        exact ih (by omega)
    · rfl

theorem readMembers_of_le_unfinished :
    readMembers (archiveMagic ++ [0x0A]) 3 {} =
      readMembers (archiveMagic ++ [0x0A]) 1 {} :=
  readMembers_of_le (by decide) 2

end ArchiveReader

/-- `read_archive`; `none` is a file that cannot be read. -/
def readArchive (path : String) (file : Option (List UInt8)) :
    Result ArchiveContents :=
  let outcome : Result ArchiveContents := { value := {} }
  match file with
  | none => outcome.warn .binaryUnreadable (path ++ ": cannot be read; skipped")
  | some bytes =>
    if maxBinaryBytes < bytes.length then
      outcome.warn .binaryTooLarge
        (path ++ ": larger than " ++ toString maxBinaryBytes ++
          " bytes; refused rather than parsed from a partial image")
    else if bytes.take archiveMagic.length ≠ archiveMagic then outcome
    else
      let reader := ArchiveReader.read bytes
      { value := reader.out
        warnings := reader.messages.map fun message =>
          { code := .binaryMalformedHeader
            message := path ++ ": " ++ message } }

end Bomwerk.Binscan
