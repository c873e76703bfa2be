import Bomwerk.Binscan.ElfRead

/-!
# The static verdict

What an ELF header declares, entry by entry, against what the reader makes of
it.  An image is called static when neither lookup of the dynamic section
succeeds, which is also the case when the section is declared and cannot be
read.
-/

namespace Bomwerk.Binscan

open Bomwerk.Core Bomwerk.Support

namespace ElfReader

variable (reader : ElfReader)

/-- The declared entry of a header table, as far as it lies in the file. -/
def declaredEntry (table : HeaderTable) (index : Nat) : ByteCursor :=
  ⟨(reader.image.bytes.drop (table.offset + table.entrySize * index)).take
    table.entrySize, reader.image.byteOrder⟩

/-- The declared entry lies in the file as a whole. -/
def WholeEntry (table : HeaderTable) (index : Nat) : Prop :=
  table.offset ≠ 0 ∧ table.entrySize ≠ 0 ∧
    table.offset + table.entrySize * index + table.entrySize ≤ reader.image.size

/-- The header declares a table with an entry of the type. -/
def DeclaresEntry (table : HeaderTable)
    (countField typeField : ClassDependentField) (wanted : Nat) : Prop :=
  table.offset ≠ 0 ∧
    ∃ count, reader.field reader.image countField = some count ∧
      ∃ index < count, reader.field (reader.declaredEntry table index) typeField =
        some wanted

/-- The program headers or the section headers hold a dynamic entry. -/
def DeclaresDynamic : Prop :=
  reader.DeclaresEntry reader.sections headerSectionCount sectionType
      sectionTypeDynamic ∨
    reader.DeclaresEntry reader.segments headerSegmentCount segmentType
      segmentTypeDynamic

/-- The first whole entry of the type, among the entries that are followed,
says that its contents lie in the file. -/
def ReadableEntry (table : HeaderTable)
    (typeField offsetField sizeField : ClassDependentField) (wanted : Nat) :
    Prop :=
  ∃ index < table.count, reader.WholeEntry table index ∧
    reader.field (reader.declaredEntry table index) typeField = some wanted ∧
    (∀ earlier < index, reader.WholeEntry table earlier →
      reader.field (reader.declaredEntry table earlier) typeField ≠
        some wanted) ∧
    ∃ offset size, reader.field (reader.declaredEntry table index) offsetField =
        some offset ∧
      reader.field (reader.declaredEntry table index) sizeField = some size ∧
      offset + size ≤ reader.image.size

/-- The dynamic section can be read through one of the tables. -/
def ReadableDynamic : Prop :=
  reader.ReadableEntry reader.sections sectionType sectionFileOffset sectionSize
      sectionTypeDynamic ∨
    reader.ReadableEntry reader.segments segmentType segmentFileOffset
      segmentFileSize segmentTypeDynamic

/-- A whole header, tables that begin in the file, and not an object file. -/
def Accepted : Prop :=
  reader.headerSize ≤ reader.image.size ∧
    (∀ table ∈ [reader.sections, reader.segments],
      table.declared = true → reader.WholeEntry table 0) ∧
    reader.field reader.image headerType ≠ some typeRelocatable

/-! ## Table entries -/

/-- The bounds every table of `read_table_bounds` keeps. -/
structure BoundedTable (table : HeaderTable) : Prop where
  offset : table.offset < 2 ^ 64
  entrySize : table.entrySize < 2 ^ 16
  count : table.count ≤ maxSectionHeaders
  size : reader.image.size < 2 ^ 63

variable {reader} {table : HeaderTable}

theorem tableEntry_eq_some_iff (hbounded : reader.BoundedTable table)
    {index : Nat} (hindex : index ≤ maxSectionHeaders) {header : ByteCursor} :
    reader.tableEntry table index = some header ↔
      reader.WholeEntry table index ∧
        header = reader.declaredEntry table index := by
  have hproduct : table.entrySize * index < 2 ^ 32 := by
    have hle := Nat.mul_le_mul hbounded.entrySize.le hindex
    exact lt_of_le_of_lt hle (by decide)
  have hoffset := hbounded.offset
  have hsize := hbounded.size
  simp only [tableEntry]
  split_ifs with hnone hwrapped houtside
  · simp only [false_iff, WholeEntry, not_and]
    intro h
    omega
  · -- the sum wrapped, so the entry begins far behind the end of the file
    simp only [false_iff, WholeEntry, not_and]
    intro h
    omega
  · simp only [false_iff, WholeEntry, not_and]
    intro h
    omega
  · rw [ByteCursor.subrange_eq_some_iff]
    have hsum : (table.offset + table.entrySize * index) % 2 ^ 64 =
        table.offset + table.entrySize * index := by
      omega
    rw [hsum, WholeEntry, declaredEntry]
    constructor
    · rintro ⟨hrange, rfl⟩
      exact ⟨⟨by omega, by omega, hrange⟩, rfl⟩
    · rintro ⟨⟨-, -, hrange⟩, rfl⟩
      exact ⟨hrange, rfl⟩

theorem tableEntry_eq_none_iff (hbounded : reader.BoundedTable table)
    {index : Nat} (hindex : index ≤ maxSectionHeaders) :
    reader.tableEntry table index = none ↔ ¬ reader.WholeEntry table index := by
  rw [Option.eq_none_iff_forall_ne_some]
  constructor
  · intro hnone hwhole
    exact hnone _ ((tableEntry_eq_some_iff hbounded hindex).mpr ⟨hwhole, rfl⟩)
  · intro hpartial header hheader
    exact hpartial ((tableEntry_eq_some_iff hbounded hindex).mp hheader).1

/-- Contents can be read when the header places them in the file. -/
theorem contents_eq_none_iff {offset size : Option Nat} :
    reader.contents offset size = none ↔
      ¬ ∃ first length, offset = some first ∧ size = some length ∧
        first + length ≤ reader.image.size := by
  rcases offset with _ | first
  · simp [contents]
  rcases size with _ | length
  · simp [contents]
  · simp only [contents, Option.some.injEq]
    split_ifs with houtside
    · simp only [true_iff, not_exists, not_and]
      omega
    · rw [Option.eq_none_iff_forall_ne_some]
      simp only [ne_eq, ByteCursor.subrange_eq_some_iff, not_and]
      constructor
      · intro hnone hfits
        obtain ⟨first', length', rfl, rfl, hfits⟩ := hfits
        exact hnone _ hfits rfl
      · intro hlong _ hfits
        exact absurd ⟨first, length, rfl, rfl, hfits⟩ hlong

theorem findSome?_range_eq_some_iff {β : Type*} {f : Nat → Option β} {n : Nat}
    {b : β} :
    (List.range n).findSome? f = some b ↔
      ∃ i < n, f i = some b ∧ ∀ j < i, f j = none := by
  induction n with
  | zero => simp
  | succ n ih =>
    rw [List.range_succ, List.findSome?_append, Option.or_eq_some_iff, ih]
    constructor
    · rintro (⟨i, hi, hvalue, hearlier⟩ | ⟨hnone, hlast⟩)
      · exact ⟨i, by omega, hvalue, hearlier⟩
      · refine ⟨n, Nat.lt_succ_self n, by simpa using hlast, ?_⟩
        intro j hj
        exact List.findSome?_eq_none_iff.mp hnone j (List.mem_range.mpr hj)
    · rintro ⟨i, hi, hvalue, hearlier⟩
      rcases Nat.lt_succ_iff_lt_or_eq.mp hi with hlt | rfl
      · exact Or.inl ⟨i, hlt, hvalue, hearlier⟩
      · refine Or.inr ⟨?_, by simpa using hvalue⟩
        rw [List.findSome?_eq_none_iff]
        intro j hj
        exact hearlier j (List.mem_range.mp hj)

/-- One round of the loop over a table. -/
theorem entryOfType_eq_some_iff (hbounded : reader.BoundedTable table)
    {typeField : ClassDependentField} {wanted index : Nat}
    (hindex : index ≤ maxSectionHeaders) {header : ByteCursor} :
    reader.entryOfType table typeField wanted index = some header ↔
      reader.WholeEntry table index ∧
        reader.field (reader.declaredEntry table index) typeField =
          some wanted ∧
        header = reader.declaredEntry table index := by
  rw [entryOfType]
  cases hentry : reader.tableEntry table index with
  | none =>
    rw [tableEntry_eq_none_iff hbounded hindex] at hentry
    simp [hentry]
  | some entry =>
    obtain ⟨hwhole, rfl⟩ := (tableEntry_eq_some_iff hbounded hindex).mp hentry
    simp [hwhole, eq_comm]

theorem firstOfType_eq_some_iff (hbounded : reader.BoundedTable table)
    {typeField : ClassDependentField} {wanted : Nat} {header : ByteCursor} :
    reader.firstOfType table typeField wanted = some header ↔
      ∃ index < table.count, reader.WholeEntry table index ∧
        reader.field (reader.declaredEntry table index) typeField =
          some wanted ∧
        header = reader.declaredEntry table index ∧
        ∀ earlier < index, reader.WholeEntry table earlier →
          reader.field (reader.declaredEntry table earlier) typeField ≠
            some wanted := by
  have hcount := hbounded.count
  rw [firstOfType, findSome?_range_eq_some_iff]
  constructor
  · rintro ⟨index, hindex, hvalue, hearlier⟩
    obtain ⟨hwhole, htype, hheader⟩ :=
      (entryOfType_eq_some_iff hbounded (by omega)).mp hvalue
    refine ⟨index, hindex, hwhole, htype, hheader, ?_⟩
    intro earlier hlt hwhole' htype'
    have hsome := (entryOfType_eq_some_iff hbounded (by omega)).mpr
      ⟨hwhole', htype', rfl⟩
    rw [hearlier earlier hlt] at hsome
    exact absurd hsome (by simp)
  · rintro ⟨index, hindex, hwhole, htype, hheader, hearlier⟩
    refine ⟨index, hindex, (entryOfType_eq_some_iff hbounded (by omega)).mpr
      ⟨hwhole, htype, hheader⟩, ?_⟩
    intro earlier hlt
    rw [Option.eq_none_iff_forall_ne_some]
    intro header hsome
    obtain ⟨hwhole', htype', -⟩ :=
      (entryOfType_eq_some_iff hbounded (by omega)).mp hsome
    exact hearlier earlier hlt hwhole' htype'

theorem fieldOf_lt {is64Bit : Bool} {record : ByteCursor}
    {field : ClassDependentField} {value : Nat}
    (hvalue : fieldOf is64Bit record field = some value) : value < 2 ^ 64 := by
  refine lt_of_lt_of_le (ByteCursor.uintAt_lt hvalue) ?_
  cases (if is64Bit then field.inClass64 else field.inClass32).width <;> decide

theorem fieldOf_lt_of_twoBytes {is64Bit : Bool} {record : ByteCursor}
    {field : ClassDependentField} {value : Nat}
    (hwidth : field.inClass32.width = .twoBytes ∧
      field.inClass64.width = .twoBytes)
    (hvalue : fieldOf is64Bit record field = some value) : value < 2 ^ 16 := by
  have hlt := ByteCursor.uintAt_lt hvalue
  cases is64Bit with
  | true => simpa [hwidth.2, IntegerWidth.byteCount] using hlt
  | false => simpa [hwidth.1, IntegerWidth.byteCount] using hlt

/-- What `read_table_bounds` reads is bounded by the width of its fields. -/
theorem boundedTable_readTable {is64Bit : Bool}
    (hsize : reader.image.size < 2 ^ 63)
    (offsetField entrySizeField countField : ClassDependentField)
    {maximum : Nat} (hmaximum : maximum ≤ maxSectionHeaders)
    (hentrySize : entrySizeField.inClass32.width = .twoBytes ∧
      entrySizeField.inClass64.width = .twoBytes) :
    reader.BoundedTable (readTable is64Bit reader.image offsetField
      entrySizeField countField maximum) := by
  rw [readTable]
  split
  · next offset entrySize count hoffset hentry hcount =>
      refine ⟨fieldOf_lt hoffset, fieldOf_lt_of_twoBytes hentrySize hentry, ?_,
        hsize⟩
      dsimp only
      split_ifs <;> omega
  · exact ⟨by decide, by decide, by decide, hsize⟩

theorem readableEntry_iff (hbounded : reader.BoundedTable table)
    {typeField offsetField sizeField : ClassDependentField} {wanted : Nat} :
    reader.ReadableEntry table typeField offsetField sizeField wanted ↔
      ∃ header, reader.firstOfType table typeField wanted = some header ∧
        reader.contents (reader.field header offsetField)
          (reader.field header sizeField) ≠ none := by
  simp only [firstOfType_eq_some_iff hbounded, ne_eq, contents_eq_none_iff,
    Classical.not_not, ReadableEntry]
  constructor
  · rintro ⟨index, hindex, hwhole, htype, hearlier, hcontents⟩
    exact ⟨_, ⟨index, hindex, hwhole, htype, rfl, hearlier⟩, hcontents⟩
  · rintro ⟨_, ⟨index, hindex, hwhole, htype, rfl, hearlier⟩, hcontents⟩
    exact ⟨index, hindex, hwhole, htype, hearlier, hcontents⟩

theorem locateDynamicViaSections_eq_none_iff
    (hbounded : reader.BoundedTable reader.sections) :
    reader.locateDynamicViaSections.1 = none ↔
      ¬ reader.ReadableEntry reader.sections sectionType sectionFileOffset
        sectionSize sectionTypeDynamic := by
  rw [readableEntry_iff hbounded, locateDynamicViaSections]
  cases hfirst : reader.firstOfType reader.sections sectionType
      sectionTypeDynamic with
  | none => simp
  | some header =>
    cases hcontents : reader.sectionContents header with
    | none =>
      have hnone := hcontents
      rw [sectionContents] at hnone
      simp [hcontents, hnone]
    | some region =>
      have hsome := hcontents
      rw [sectionContents] at hsome
      simp [hcontents, hsome]

theorem locateDynamicViaSegments_eq_none_iff
    (hbounded : reader.BoundedTable reader.segments) :
    reader.locateDynamicViaSegments.1 = none ↔
      ¬ reader.ReadableEntry reader.segments segmentType segmentFileOffset
        segmentFileSize segmentTypeDynamic := by
  rw [readableEntry_iff hbounded, locateDynamicViaSegments]
  cases hfirst : reader.firstOfType reader.segments segmentType
      segmentTypeDynamic with
  | none => simp
  | some header =>
    cases hcontents : reader.contents (reader.field header segmentFileOffset)
        (reader.field header segmentFileSize) with
    | none => simp [hcontents]
    | some region => simp [hcontents]

theorem locateDynamic_eq_none_iff
    (hsections : reader.BoundedTable reader.sections)
    (hsegments : reader.BoundedTable reader.segments) :
    reader.locateDynamic.1 = none ↔ ¬ reader.ReadableDynamic := by
  rw [ReadableDynamic, not_or, ← locateDynamicViaSections_eq_none_iff hsections,
    ← locateDynamicViaSegments_eq_none_iff hsegments, locateDynamic]
  rcases reader.locateDynamicViaSections with ⟨_ | location, messages⟩ <;> simp

theorem collectExportedSymbols_shape (out : ElfImage) :
    (reader.collectExportedSymbols out).1.1.shape = out.shape := by
  rw [collectExportedSymbols]
  split
  · rfl
  · split <;> rfl

theorem recordSymbols_shape (location : DynamicLocation) (out : ElfImage) :
    (reader.recordSymbols location out).1.shape = out.shape := by
  rw [recordSymbols]
  split_ifs
  · rfl
  · exact collectExportedSymbols_shape out

theorem readDynamic_shape (location : DynamicLocation) :
    (reader.readDynamic location).1.shape = .dynamic :=
  recordSymbols_shape location _

theorem unreachable_eq_true_iff (hbounded : reader.BoundedTable table) :
    reader.unreachable table = true ↔
      ¬ (table.declared = true → reader.WholeEntry table 0) := by
  rw [unreachable, Bool.and_eq_true, Option.isNone_iff_eq_none,
    tableEntry_eq_none_iff hbounded (Nat.zero_le _), Classical.not_imp]

/-- The type field lies inside a whole header. -/
theorem exists_headerType (hheader : reader.headerSize ≤ reader.image.size) :
    ∃ type, reader.field reader.image headerType = some type := by
  have hrange : reader.image.hasRange 16 IntegerWidth.twoBytes.byteCount =
      true := by
    rw [ByteCursor.hasRange_eq_true_iff]
    rw [headerSize] at hheader
    refine le_trans ?_ hheader
    cases reader.is64Bit <;> decide
  have hfield : reader.field reader.image headerType =
      reader.image.uintAt 16 .twoBytes := by
    rw [field, fieldOf]
    cases reader.is64Bit <;> rfl
  rw [hfield, ByteCursor.uintAt, if_pos hrange]
  cases reader.image.byteOrder
  · exact ⟨_, rfl⟩
  · exact ⟨_, rfl⟩

/-- The reader calls an accepted image static exactly when it cannot read the
dynamic section, declared or not. -/
theorem read_shape_eq_static_iff
    (hsections : reader.BoundedTable reader.sections)
    (hsegments : reader.BoundedTable reader.segments) :
    reader.read.1.shape = .staticExecutable ↔
      reader.Accepted ∧ ¬ reader.ReadableDynamic := by
  have hreachable : (∀ table ∈ [reader.sections, reader.segments],
      table.declared = true → reader.WholeEntry table 0) ↔
        ¬ ((reader.unreachable reader.sections ||
          reader.unreachable reader.segments) = true) := by
    rw [Bool.or_eq_true, unreachable_eq_true_iff hsections,
      unreachable_eq_true_iff hsegments]
    simp only [List.forall_mem_cons, List.not_mem_nil, IsEmpty.forall_iff,
      implies_true, and_true]
    tauto
  rw [← locateDynamic_eq_none_iff hsections hsegments, Accepted, hreachable,
    read]
  by_cases hheader : reader.image.size < reader.headerSize
  · simp [hheader]
  obtain ⟨type, htype⟩ := exists_headerType (Nat.not_lt.mp hheader)
  simp only [if_neg hheader, htype]
  by_cases hunreachable : (reader.unreachable reader.sections ||
      reader.unreachable reader.segments) = true
  · simp [hunreachable]
  rw [if_neg hunreachable]
  by_cases hrelocatable : type = typeRelocatable
  · simp [hrelocatable]
  rw [if_neg hrelocatable]
  rcases hlocate : reader.locateDynamic with ⟨_ | location, messages⟩
  · simpa [hunreachable, hrelocatable] using hheader
  · simp [readDynamic_shape]

theorem boundedTable_ofImage {image : ByteCursor} (is64Bit : Bool)
    (hsize : image.size < 2 ^ 63) :
    (ofImage image is64Bit).BoundedTable (ofImage image is64Bit).sections ∧
      (ofImage image is64Bit).BoundedTable (ofImage image is64Bit).segments :=
  ⟨boundedTable_readTable hsize _ _ _ (le_refl _) ⟨rfl, rfl⟩,
    boundedTable_readTable hsize _ _ _ (by decide) ⟨rfl, rfl⟩⟩

end ElfReader

def DeclaresDynamic (bytes : List UInt8) : Prop :=
  ∃ image is64Bit, identify bytes = .elf image is64Bit ∧
    (ElfReader.ofImage image is64Bit).DeclaresDynamic

/-- The image declares no dynamic entry, or is refused before it is asked for
one, or the entry that is asked for can be read. -/
def DynamicAnswered (bytes : List UInt8) : Prop :=
  ¬ DeclaresDynamic bytes ∨ maxBinaryBytes < bytes.length ∨
    ∃ image is64Bit, identify bytes = .elf image is64Bit ∧
      (¬ (ElfReader.ofImage image is64Bit).Accepted ∨
        (ElfReader.ofImage image is64Bit).ReadableDynamic)

theorem size_of_identify {bytes : List UInt8} {image : ByteCursor}
    {is64Bit : Bool} (helf : identify bytes = .elf image is64Bit) :
    image.size = bytes.length := by
  simp only [identify] at helf
  split_ifs at helf
  all_goals
    obtain ⟨rfl, -⟩ := Identification.elf.inj helf
    rfl

theorem readElf_shape_eq_static_iff {path : String} {bytes : List UInt8} :
    (readElf path (some bytes)).value.shape = .staticExecutable ↔
      bytes.length ≤ maxBinaryBytes ∧
        ∃ image is64Bit, identify bytes = .elf image is64Bit ∧
          (ElfReader.ofImage image is64Bit).Accepted ∧
          ¬ (ElfReader.ofImage image is64Bit).ReadableDynamic := by
  simp only [readElf]
  by_cases hlarge : maxBinaryBytes < bytes.length
  · simp [hlarge, not_le.mpr hlarge]
  rw [if_neg hlarge]
  cases hidentify : identify bytes with
  | notElf => simp
  | unknownClass => simp
  | unknownDataEncoding => simp
  | elf image is64Bit =>
    have hsize : image.size < 2 ^ 63 := by
      rw [size_of_identify hidentify]
      exact lt_of_le_of_lt (not_lt.mp hlarge) (by decide)
    obtain ⟨hsections, hsegments⟩ :=
      ElfReader.boundedTable_ofImage is64Bit hsize
    simp only [ElfReader.read_shape_eq_static_iff hsections hsegments]
    constructor
    · rintro ⟨haccepted, hunread⟩
      exact ⟨not_lt.mp hlarge, image, is64Bit, rfl, haccepted, hunread⟩
    · rintro ⟨-, image', is64Bit', helf, hverdict⟩
      obtain ⟨rfl, rfl⟩ := Identification.elf.inj helf
      exact hverdict

/-- The static verdict means that nothing dynamic is declared exactly where the
dynamic entry is answered for. -/
theorem static_sound_iff (path : String) (bytes : List UInt8) :
    ((readElf path (some bytes)).value.shape = .staticExecutable →
      ¬ DeclaresDynamic bytes) ↔ DynamicAnswered bytes := by
  rw [readElf_shape_eq_static_iff, DynamicAnswered]
  constructor
  · intro hsound
    by_cases hdeclares : DeclaresDynamic bytes
    · right
      by_cases hlarge : maxBinaryBytes < bytes.length
      · exact Or.inl hlarge
      · right
        obtain ⟨image, is64Bit, helf, -⟩ := id hdeclares
        refine ⟨image, is64Bit, helf, ?_⟩
        by_contra hunread
        rw [not_or, Classical.not_not] at hunread
        exact hsound ⟨not_lt.mp hlarge, image, is64Bit, helf, hunread.1,
          hunread.2⟩ hdeclares
    · exact Or.inl hdeclares
  · rintro hanswered ⟨hsmall, image, is64Bit, helf, haccepted, hunread⟩
    rcases hanswered with hnone | hlarge | ⟨image', is64Bit', helf', hanswer⟩
    · exact hnone
    · exact absurd hsmall (not_le.mpr hlarge)
    · rw [helf] at helf'
      obtain ⟨rfl, rfl⟩ := Identification.elf.inj helf'
      rcases hanswer with hrefused | hread
      · exact absurd haccepted hrefused
      · exact absurd hread hunread

/-- A shared object of one section, `SHT_DYNAMIC`, that begins behind the end
of the file. -/
def danglingDynamicSection : List UInt8 :=
  [0x7F, 0x45, 0x4C, 0x46, 2, 1, 1, 0, 0, 0, 0, 0, 0, 0, 0, 0] ++
    [3, 0, 62, 0, 1, 0, 0, 0] ++ List.replicate 16 0 ++
    [64, 0, 0, 0, 0, 0, 0, 0] ++ [0, 0, 0, 0, 64, 0, 56, 0] ++
    [0, 0, 64, 0, 1, 0, 0, 0] ++
    [0, 0, 0, 0, 6, 0, 0, 0] ++ List.replicate 16 0 ++
    [0, 16, 0, 0, 0, 0, 0, 0] ++ [32, 0, 0, 0, 0, 0, 0, 0] ++
    List.replicate 24 0

theorem not_static_sound_of_dangling_section :
    ¬ ((readElf "libbroken.so" (some danglingDynamicSection)).value.shape =
        .staticExecutable → ¬ DeclaresDynamic danglingDynamicSection) := by
  intro hsound
  refine hsound (by decide +kernel)
    ⟨⟨danglingDynamicSection, .little⟩, true, by decide +kernel, Or.inl ?_⟩
  exact ⟨by decide +kernel, 1, by decide +kernel, 0, by decide, by decide +kernel⟩

end Bomwerk.Binscan
