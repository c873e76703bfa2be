import Bomwerk.Binscan.ArchiveRead

/-!
# Building `ar` archives

The archives of `tests/support/archive_builder.hpp`, with what the format leaves
open besides: the contents of the symbol index, the fields of a header the
reader skips, bare BSD names and the padding of extended ones.  The walk visits
such an archive member by member.
-/

namespace Bomwerk.Binscan

open Bomwerk.Core Bomwerk.Support

def putPadded (raw : List UInt8) (width : Nat) : List UInt8 :=
  raw.take width ++ List.replicate (width - raw.length) 0x20

/-- `std::to_string`, of an unsigned number. -/
def decimal (value : Nat) : List UInt8 :=
  (Nat.toDigits 10 value).map fun digit => UInt8.ofNat digit.toNat

/-- What a member header holds between the name and the size: the time, the
owner, the group and the mode. -/
structure MemberMetadata where
  bytes : List UInt8
  length_bytes : bytes.length = 32

/-- A member as it is written: its name field, and all of its data area. -/
structure MemberRecord where
  field : List UInt8
  data : List UInt8
  metadata : MemberMetadata

/-- The header of `put_member`. -/
def putHeader (record : MemberRecord) : List UInt8 :=
  putPadded record.field memberNameLength ++ (record.metadata.bytes ++
    (putPadded (decimal record.data.length) memberSizeLength ++ memberTrailer))

def putMember (record : MemberRecord) : List UInt8 :=
  putHeader record ++ (record.data ++
    if record.data.length % 2 ≠ 0 then [0x0A] else [])

/-! ## Archives -/

structure ArchiveMember where
  name : List UInt8
  data : List UInt8
  metadata : MemberMetadata

/-- How the names of the members are spelled. -/
inductive NameSpelling
  /-- `name/` where it fits and is not forced out of the header, and an offset
  into the `//` table elsewhere. -/
  | gnu (forceLongNameTable : Bool)
  /-- `#1/<length>` with the name ahead of the data and NULs behind the name;
  with `shortNames`, a bare name where it fits. -/
  | bsd (shortNames : Bool) (padding : Nat → Nat)

inductive SymbolIndexName
  | gnu
  | gnu64
  | bsd
  | bsdSorted

structure SymbolIndex where
  name : SymbolIndexName
  contents : List UInt8
  metadata : MemberMetadata

structure Archive where
  spelling : NameSpelling
  members : List ArchiveMember
  index : Option SymbolIndex
  tableMetadata : MemberMetadata

def SymbolIndexName.field : SymbolIndexName → List UInt8
  | gnu => gnuSymbolIndexName
  | gnu64 => gnuSymbolIndex64Name
  | bsd => bsdSymbolIndexName
  | bsdSorted =>
    bsdSymbolIndexName ++ [0x20, 0x53, 0x4F, 0x52, 0x54, 0x45, 0x44]

namespace NameSpelling

/-- A bare name has no blanks and does not look like an extended one. -/
def fitsBare (name : List UInt8) : Bool :=
  name.length ≤ memberNameLength ∧ name.all (fun byte => !isAsciiWhitespace byte) ∧
    !bsdLongNamePrefix.isPrefixOf name

/-- The name does not stand in the header. -/
def isLong : NameSpelling → List UInt8 → Bool
  | gnu force, name => force || decide (memberNameLength ≤ name.length)
  | bsd shortNames _, name => !(shortNames && fitsBare name)

/-- The name in the `//` table. -/
def tableEntry (name : List UInt8) : List UInt8 := name ++ [0x2F, 0x0A]

def storedName (padding : Nat → Nat) (name : List UInt8) : List UInt8 :=
  name ++ List.replicate (padding name.length) 0

/-- The records of the members, the next long name at an offset of the table. -/
def records (spelling : NameSpelling) : Nat → List ArchiveMember → List MemberRecord
  | _, [] => []
  | offset, member :: members =>
    match spelling, spelling.isLong member.name with
    | gnu _, true =>
      ⟨0x2F :: decimal offset, member.data, member.metadata⟩ ::
        records spelling (offset + (tableEntry member.name).length) members
    | gnu _, false =>
      ⟨member.name ++ [0x2F], member.data, member.metadata⟩ ::
        records spelling offset members
    | bsd _ padding, true =>
      ⟨bsdLongNamePrefix ++ decimal (storedName padding member.name).length,
        storedName padding member.name ++ member.data, member.metadata⟩ ::
        records spelling offset members
    | bsd _ _, false =>
      ⟨member.name, member.data, member.metadata⟩ ::
        records spelling offset members

/-- The `//` table. -/
def longNameTable (spelling : NameSpelling) (members : List ArchiveMember) :
    List UInt8 :=
  match spelling with
  | gnu _ =>
    ((members.map ArchiveMember.name).filter spelling.isLong).flatMap tableEntry
  | bsd _ _ => []

end NameSpelling

namespace Archive

variable (archive : Archive)

/-- The symbol index and the `//` table. -/
def bookkeeping : List MemberRecord :=
  archive.index.toList.map
    (fun index => ⟨index.name.field, index.contents, index.metadata⟩) ++
  let table := archive.spelling.longNameTable archive.members
  if table = [] then []
  else [⟨gnuLongNameTableName, table, archive.tableMetadata⟩]

def records : List MemberRecord :=
  archive.bookkeeping ++ archive.spelling.records 0 archive.members

end Archive

def buildArchive (archive : Archive) : List UInt8 :=
  archiveMagic ++ archive.records.flatMap putMember

theorem length_putPadded {raw : List UInt8} {width : Nat}
    (hraw : raw.length ≤ width) : (putPadded raw width).length = width := by
  rw [putPadded, List.take_of_length_le hraw, List.length_append,
    List.length_replicate]
  omega

/-- Blanks behind a text are dropped with the others. -/
theorem trimmedView_append_blanks (text : List UInt8) {last : UInt8}
    (hlast : isAsciiWhitespace last = false) (count : Nat) :
    trimmedView (text ++ [last] ++ List.replicate count 0x20) =
      text.dropWhile isAsciiWhitespace ++ [last] := by
  have hfront : (text ++ [last] ++ List.replicate count 0x20).dropWhile
      isAsciiWhitespace = text.dropWhile isAsciiWhitespace ++ [last] ++
          List.replicate count 0x20 := by
    induction text with
    | nil => simp [hlast]
    | cons byte text ih =>
      by_cases hblank : isAsciiWhitespace byte = true
      · simpa [List.dropWhile_cons, hblank] using ih
      · simp [hblank]
  rw [trimmedView, hfront, List.rdropWhile, List.reverse_append,
    List.reverse_replicate, List.dropWhile_append_of_pos, List.reverse_append,
    List.reverse_singleton, List.singleton_append, List.dropWhile_cons_of_neg,
    List.reverse_cons, List.reverse_reverse]
  · simp [hlast]
  · intro byte hbyte
    rw [List.eq_of_mem_replicate hbyte]
    decide

theorem trimmedView_putPadded {text : List UInt8} {last : UInt8} {width : Nat}
    (hlast : isAsciiWhitespace last = false)
    (hwidth : (text ++ [last]).length ≤ width) :
    trimmedView (putPadded (text ++ [last]) width) =
      text.dropWhile isAsciiWhitespace ++ [last] := by
  rw [putPadded, List.take_of_length_le hwidth]
  exact trimmedView_append_blanks text hlast _

/-- A text without blanks is found again between them. -/
theorem trimmedView_putPadded_of_solid {raw : List UInt8} {width : Nat}
    (hraw : ∀ byte ∈ raw, isAsciiWhitespace byte = false)
    (hwidth : raw.length ≤ width) : trimmedView (putPadded raw width) = raw := by
  rcases List.eq_nil_or_concat raw with rfl | ⟨text, last, rfl⟩
  · rw [putPadded, List.take_nil, List.nil_append, trimmedView]
    have hblank : (List.replicate (width - 0) 0x20).dropWhile
        isAsciiWhitespace = [] := by
      rw [List.dropWhile_eq_nil_iff]
      intro byte hbyte
      rw [List.eq_of_mem_replicate hbyte]
      rfl
    rw [List.length_nil, hblank, List.rdropWhile_nil]
  · rw [List.concat_eq_append] at hraw hwidth ⊢
    rw [trimmedView_putPadded (hraw last (by simp)) hwidth]
    congr 1
    cases text with
    | nil => rfl
    | cons byte text =>
      have hsolid := hraw byte (by simp)
      simp [hsolid]

theorem length_decimal_le {value count : Nat} (hcount : 0 < count)
    (hvalue : value < 10 ^ count) : (decimal value).length ≤ count := by
  rw [decimal, List.length_map]
  exact Nat.toDigits_length 10 value count hcount hvalue

theorem decimal_ne_nil (value : Nat) : decimal value ≠ [] := by
  rw [decimal, ne_eq, List.map_eq_nil_iff]
  exact Nat.toDigits_ne_nil

theorem toNat_of_mem_decimal {value : Nat} {byte : UInt8}
    (hbyte : byte ∈ decimal value) : 0x30 ≤ byte.toNat ∧ byte.toNat ≤ 0x39 := by
  obtain ⟨digit, hdigit, rfl⟩ := List.mem_map.mp hbyte
  have hisDigit := Nat.isDigit_of_mem_toDigits (by decide) (by decide) hdigit
  rw [Char.isDigit_iff_toNat] at hisDigit
  rw [UInt8.toNat_ofNat']
  have hlow : '0'.toNat = 48 := rfl
  have hhigh : '9'.toNat = 57 := rfl
  omega

theorem parseDigits_map_toDigits {digits : List Char} {value : Nat}
    (hdigits : ∀ digit ∈ digits, digit.isDigit = true)
    (hfits : Nat.ofDigitChars 10 digits value < 2 ^ 64) :
    parseDigits value (digits.map fun digit => UInt8.ofNat digit.toNat) =
      some (Nat.ofDigitChars 10 digits value) := by
  induction digits generalizing value with
  | nil => rfl
  | cons digit digits ih =>
    have hisDigit := hdigits digit List.mem_cons_self
    rw [Char.isDigit_iff_toNat] at hisDigit
    have hlow : '0'.toNat = 48 := rfl
    have hhigh : '9'.toNat = 57 := rfl
    have hbyte : (UInt8.ofNat digit.toNat).toNat = digit.toNat := by
      rw [UInt8.toNat_ofNat']
      omega
    have hdigit : ¬ (UInt8.ofNat digit.toNat < 0x30 ∨
        0x39 < UInt8.ofNat digit.toNat) := by
      rw [UInt8.lt_iff_toNat_lt, UInt8.lt_iff_toNat_lt, hbyte]
      have hzero : (0x30 : UInt8).toNat = 48 := rfl
      have hnine : (0x39 : UInt8).toNat = 57 := rfl
      omega
    rw [Nat.ofDigitChars_cons, hlow] at hfits ⊢
    -- the digits behind can only make the number larger
    have hgrows : 10 * value + (digit.toNat - 48) ≤
        Nat.ofDigitChars 10 digits (10 * value + (digit.toNat - 48)) := by
      rw [Nat.ofDigitChars_eq_ofDigitChars_zero]
      exact (Nat.le_mul_of_pos_left _ (by positivity)).trans
        (Nat.le_add_right _ _)
    have hroom : ¬ (2 ^ 64 - 1 - (digit.toNat - 0x30)) / 10 < value := by
      omega
    rw [List.map_cons, parseDigits, if_neg hdigit]
    simp only [hbyte]
    rw [if_neg hroom, Nat.mul_comm value 10]
    exact ih (fun other hother => hdigits other (List.mem_cons_of_mem _ hother))
      hfits

/-- A number that fits its field is read back. -/
theorem parseDecimalField_putPadded {value width : Nat} (hvalue : value < 2 ^ 64)
    (hwidth : (decimal value).length ≤ width) :
    parseDecimalField (putPadded (decimal value) width) = some value := by
  have hsolid : ∀ byte ∈ decimal value, isAsciiWhitespace byte = false := by
    intro byte hbyte
    obtain ⟨hlow, hhigh⟩ := toNat_of_mem_decimal hbyte
    rw [isAsciiWhitespace, decide_eq_false_iff_not]
    rintro (rfl | rfl | rfl | rfl) <;> revert hlow <;> decide
  have hdigits : parseDigits 0 (decimal value) =
      some (Nat.ofDigitChars 10 (Nat.toDigits 10 value) 0) := by
    refine parseDigits_map_toDigits ?_ ?_
    · intro digit hdigit
      exact Nat.isDigit_of_mem_toDigits (by decide) (by decide) hdigit
    · rwa [Nat.ofDigitChars_ten_toDigits]
  rw [Nat.ofDigitChars_ten_toDigits] at hdigits
  simp only [parseDecimalField, trimmedView_putPadded_of_solid hsolid hwidth]
  rw [if_neg (decimal_ne_nil value)]
  exact hdigits

theorem parseDecimalField_decimal {value : Nat} (hvalue : value < 2 ^ 64) :
    parseDecimalField (decimal value) = some value := by
  have hpadded := parseDecimalField_putPadded hvalue (le_refl _)
  rwa [putPadded, List.take_length, Nat.sub_self, List.replicate_zero,
    List.append_nil] at hpadded

/-! ## Members -/

/-- A record whose name and size fit their fields. -/
structure MemberRecord.Fits (record : MemberRecord) : Prop where
  field : record.field.length ≤ memberNameLength
  data : record.data.length < 10 ^ memberSizeLength

/-- The name the walk takes from the header. -/
def MemberRecord.rawName (record : MemberRecord) : List UInt8 :=
  trimmedView (putPadded record.field memberNameLength)

theorem length_putHeader {record : MemberRecord} (hfits : record.Fits) :
    (putHeader record).length = memberHeaderSize := by
  have hsize := length_decimal_le (by decide) hfits.data
  simp only [putHeader, List.length_append, length_putPadded hfits.field,
    length_putPadded hsize, record.metadata.length_bytes]
  rfl

/-- The fields of a header stand where the walk looks for them. -/
theorem fields_putHeader {record : MemberRecord} (hfits : record.Fits) :
    rawMemberName (putHeader record) = record.rawName ∧
      parseDecimalField (((putHeader record).drop memberSizeOffset).take
        memberSizeLength) = some record.data.length ∧
      ((putHeader record).drop memberTrailerOffset).take memberTrailer.length =
        memberTrailer := by
  have hsize := length_decimal_le (by decide) hfits.data
  have hfield := length_putPadded hfits.field
  have hsizeField := length_putPadded hsize
  have hmetadata := record.metadata.length_bytes
  have hword : record.data.length < 2 ^ 64 := hfits.data.trans (by decide)
  refine ⟨?_, ?_, ?_⟩
  · rw [rawMemberName, MemberRecord.rawName, putHeader, memberNameOffset,
      List.drop_zero, List.take_left' hfield]
  · have hbefore : (putPadded record.field memberNameLength ++
        record.metadata.bytes).length = memberSizeOffset := by
      rw [List.length_append, hfield, hmetadata]
      rfl
    rw [putHeader, ← List.append_assoc, List.drop_left' hbefore,
      List.take_left' hsizeField, parseDecimalField_putPadded hword hsize]
  · have hbefore : (putPadded record.field memberNameLength ++
        record.metadata.bytes ++
          putPadded (decimal record.data.length) memberSizeLength).length =
            memberTrailerOffset := by
      rw [List.length_append, List.length_append, hfield, hmetadata, hsizeField]
      rfl
    rw [putHeader, ← List.append_assoc, ← List.append_assoc,
      List.drop_left' hbefore, List.take_length]

theorem length_putMember {record : MemberRecord} (hfits : record.Fits) :
    (putMember record).length = memberHeaderSize +
      (record.data.length + record.data.length % memberAlignment) := by
  rw [putMember, List.length_append, length_putHeader hfits, List.length_append,
    memberAlignment]
  split_ifs with hodd
  · rw [List.length_singleton]
    omega
  · rw [List.length_nil]
    omega

namespace ArchiveReader

theorem readMember_of_record {bytes before rest : List UInt8}
    {record : MemberRecord} {reader : ArchiveReader} (hfits : record.Fits)
    (hbytes : bytes = before ++ (putMember record ++ rest))
    (hoffset : reader.offset = before.length)
    (hcap : isListed record.rawName = true →
      reader.memberCount < maxArchiveMembers) :
    readMember bytes reader =
      ({ reader.recordMember record.rawName record.data with
          offset := (before ++ putMember record).length }, true) := by
  obtain ⟨hname, hsize, htrailer⟩ := fields_putHeader hfits
  have hheader : (bytes.drop before.length).take memberHeaderSize =
      putHeader record := by
    rw [hbytes, List.drop_left, putMember, List.append_assoc,
      List.take_left' (length_putHeader hfits)]
  have hdata : (bytes.drop (before.length + memberHeaderSize)).take
      record.data.length = record.data := by
    have hfront : (before ++ putHeader record).length =
        before.length + memberHeaderSize := by
      rw [List.length_append, length_putHeader hfits]
    rw [hbytes, putMember, List.append_assoc, ← List.append_assoc before,
      List.drop_left' hfront, List.append_assoc, List.take_left]
  have hlength : bytes.length = before.length + (memberHeaderSize +
      (record.data.length + record.data.length % memberAlignment)) +
        rest.length := by
    rw [hbytes, List.length_append, List.length_append, length_putMember hfits]
    omega
  simp only [readMember, hoffset, hheader, hname, hsize, htrailer, hdata]
  rw [if_neg (by omega), if_neg (fun hne => hne rfl), if_neg (by omega),
    if_neg (fun hfull => absurd (hcap hfull.1) (not_lt.mpr hfull.2)),
    if_neg (by omega), List.length_append, length_putMember hfits]
  simp only [Nat.add_assoc]

def recordMembers (reader : ArchiveReader) (records : List MemberRecord) :
    ArchiveReader :=
  records.foldl
    (fun reader record => reader.recordMember record.rawName record.data) reader

/-- The names a walk over records lists, with a `//` table to begin with. -/
def listedNames : List UInt8 → List MemberRecord → List (List UInt8)
  | _, [] => []
  | table, record :: records =>
    (resolveMemberName record.rawName table record.data).toList ++ listedNames
        (if record.rawName = gnuLongNameTableName then record.data else table)
        records

theorem resolveMemberName_of_not_isListed {rawName : List UInt8}
    (hlisted : isListed rawName = false) (table data : List UInt8) :
    resolveMemberName rawName table data = none := by
  have hbookkeeping : isBookkeepingMember rawName = true := by
    simp only [isListed, decide_eq_false_iff_not] at hlisted
    simp only [isBookkeepingMember, decide_eq_true_iff]
    by_contra hnone
    simp only [not_or] at hnone
    exact hlisted ⟨hnone.2.2.1, hnone.1, hnone.2.1,
      (Bool.not_eq_true' _).mpr (Bool.eq_false_iff.mpr hnone.2.2.2)⟩
  rw [resolveMemberName, if_pos (Or.inr hbookkeeping)]

theorem readGnuSymbolIndex_memberNames (indexData : List UInt8) (is64Bit : Bool)
    (out : ArchiveContents) :
    (readGnuSymbolIndex indexData is64Bit out).memberNames = out.memberNames := by
  simp only [readGnuSymbolIndex]
  split <;> rfl

theorem recordMember_names (reader : ArchiveReader) (rawName data : List UInt8) :
    (reader.recordMember rawName data).out.memberNames =
        reader.out.memberNames ++
          (resolveMemberName rawName reader.longNameTable data).toList ∧
      (reader.recordMember rawName data).longNameTable =
        (if rawName = gnuLongNameTableName then data
          else reader.longNameTable) ∧
      (reader.recordMember rawName data).memberCount ≤
        reader.memberCount + if isListed rawName then 1 else 0 := by
  by_cases hlisted : isListed rawName = true
  · have hlisted' := hlisted
    simp only [isListed, decide_eq_true_iff] at hlisted'
    obtain ⟨htable, hgnu, hgnu64, hbsd⟩ := hlisted'
    rw [recordMember, if_neg htable, if_neg (not_or.mpr ⟨hgnu, hgnu64⟩),
      if_neg (Bool.eq_false_iff.mp ((Bool.not_eq_true' _).mp hbsd)),
      if_neg htable, if_pos hlisted]
    cases resolveMemberName rawName reader.longNameTable data with
    | none => exact ⟨(List.append_nil _).symm, rfl, Nat.le_succ _⟩
    | some name => exact ⟨rfl, rfl, le_refl _⟩
  · have hnone := resolveMemberName_of_not_isListed
      (Bool.eq_false_iff.mpr hlisted) reader.longNameTable data
    rw [hnone, Option.toList_none, List.append_nil, if_neg hlisted,
      Nat.add_zero, recordMember]
    split_ifs with htable hgnu hbsd
    · exact ⟨rfl, rfl, le_refl _⟩
    · exact ⟨readGnuSymbolIndex_memberNames _ _ _, rfl, le_refl _⟩
    · exact ⟨rfl, rfl, le_refl _⟩
    · exact absurd (by
        simp only [isListed, decide_eq_true_iff]
        exact ⟨htable, fun heq => hgnu (Or.inl heq),
          fun heq => hgnu (Or.inr heq),
          (Bool.not_eq_true' _).mpr (Bool.eq_false_iff.mpr hbsd)⟩) hlisted

theorem recordMembers_memberNames (records : List MemberRecord)
    (reader : ArchiveReader) :
    (reader.recordMembers records).out.memberNames =
      reader.out.memberNames ++ listedNames reader.longNameTable records := by
  induction records generalizing reader with
  | nil => exact (List.append_nil _).symm
  | cons record records ih =>
    obtain ⟨hnames, htable, -⟩ :=
      recordMember_names reader record.rawName record.data
    have hrest := ih (reader.recordMember record.rawName record.data)
    rw [recordMembers] at hrest
    rw [recordMembers, List.foldl_cons, hrest, hnames, htable, listedNames,
      List.append_assoc]

/-- The position plays no part in what is kept. -/
theorem recordMembers_offset (records : List MemberRecord)
    (reader : ArchiveReader) (offset : Nat) :
    ({ reader with offset := offset } : ArchiveReader).recordMembers records =
      { reader.recordMembers records with offset := offset } := by
  induction records generalizing reader with
  | nil => rfl
  | cons record records ih =>
    have hstep : ({ reader with offset := offset } : ArchiveReader).recordMember
        record.rawName record.data =
          { reader.recordMember record.rawName record.data with
            offset := offset } := by
      rw [recordMember, recordMember]
      split_ifs
      · rfl
      · rfl
      · rfl
      · dsimp only
        split <;> rfl
    have hrest := ih (reader.recordMember record.rawName record.data)
    rw [recordMembers] at hrest
    rw [recordMembers, List.foldl_cons, hstep, hrest]
    rfl

/-- The walk over an archive ends behind its last record. -/
theorem readMembers_of_records {records : List MemberRecord}
    {bytes before : List UInt8} {reader : ArchiveReader} {rounds : Nat}
    (hfits : ∀ record ∈ records, record.Fits)
    (hbytes : bytes = before ++ records.flatMap putMember)
    (hoffset : reader.offset = before.length)
    (hcap : reader.memberCount +
      records.countP (fun record => isListed record.rawName) ≤
        maxArchiveMembers)
    (hrounds : records.length ≤ rounds) :
    readMembers bytes rounds reader =
      { reader.recordMembers records with offset := bytes.length } := by
  induction records generalizing before reader rounds with
  | nil =>
    have hend : reader.offset = bytes.length := by
      rw [hoffset, hbytes, List.flatMap_nil, List.append_nil]
    have hstay : readMembers bytes rounds reader = reader := by
      cases rounds with
      | zero => rfl
      | succ rounds => rw [readMembers, if_neg (by omega)]
    rw [hstay, ← hend]
    rfl
  | cons record records ih =>
    obtain ⟨rounds, rfl⟩ : ∃ more, rounds = more + 1 :=
      ⟨rounds - 1, by rw [List.length_cons] at hrounds; omega⟩
    have hrecord := hfits record List.mem_cons_self
    rw [List.flatMap_cons] at hbytes
    rw [List.countP_cons] at hcap
    have hone : isListed record.rawName = true →
        reader.memberCount < maxArchiveMembers := by
      intro hlisted
      rw [if_pos hlisted] at hcap
      omega
    have hinside : reader.offset < bytes.length := by
      rw [hoffset, hbytes, List.length_append, List.length_append,
        length_putMember hrecord, memberHeaderSize]
      omega
    obtain ⟨-, -, hcount⟩ :=
      recordMember_names reader record.rawName record.data
    rw [readMembers, if_pos hinside,
      readMember_of_record hrecord hbytes hoffset hone]
    dsimp only
    rw [if_pos rfl, ih
      (fun other hother => hfits other (List.mem_cons_of_mem _ hother))
      (by rw [hbytes, List.append_assoc]) rfl (by dsimp only; omega)
      (Nat.le_of_succ_le_succ hrounds), recordMembers_offset]
    rfl

end ArchiveReader

end Bomwerk.Binscan
