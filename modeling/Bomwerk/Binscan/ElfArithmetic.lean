import Bomwerk.Binscan.ElfTrace
import Bomwerk.Binscan.StaticVerdict

/-!
# The arithmetic of the ELF reader

No sum, product or difference of the reader leaves the 64 bits, no byte outside
the image is read and no loop passes its cap.  One sum is the exception, and on
purpose: the file offset of an address may wrap and is then thrown away.
-/

namespace Bomwerk.Binscan

open Bomwerk.Core Bomwerk.Support
open Traced (Ensures ensures_pure ensures_bind ensures_emit_bind
  ensures_bind_option ensures_forEach ensures_findSome)

/-- The step keeps to 64 bits, to an image of `size` bytes and to the caps; the
file offset of an address that is answered is the sum itself. -/
def ReadEvent.IsSafe (size : Nat) : ReadEvent → Prop
  | sum left right => left + right < 2 ^ 64
  | product left right => left * right < 2 ^ 64
  | difference left right => right ≤ left
  | translation fileOffset distance answer =>
    ∀ offset ∈ answer, offset = fileOffset + distance ∧ offset < size
  | byteRead position => position < size
  | round loop index => index < loop.cap

/-- Not even the file offset of an address wraps. -/
def ReadEvent.NeverWraps : ReadEvent → Prop
  | translation fileOffset distance _ => fileOffset + distance < 2 ^ 64
  | _ => True

instance : DecidablePred ReadEvent.NeverWraps
  | .translation fileOffset distance _ =>
    inferInstanceAs (Decidable (fileOffset + distance < 2 ^ 64))
  | .sum _ _ => inferInstanceAs (Decidable True)
  | .product _ _ => inferInstanceAs (Decidable True)
  | .difference _ _ => inferInstanceAs (Decidable True)
  | .byteRead _ => inferInstanceAs (Decidable True)
  | .round _ _ => inferInstanceAs (Decidable True)

/-- The region is the cursor, in its place in an image of `size` bytes. -/
structure Places (size : Nat) (region : ImageRegion) (cursor : ByteCursor) :
    Prop where
  cursor_eq : region.cursor = cursor
  inside : region.base + cursor.size ≤ size

/-! ## The cursor -/

namespace ImageRegion

variable {size : Nat} {region : ImageRegion} {cursor : ByteCursor}

theorem ensures_readByte (hplaces : Places size region cursor) {offset : Nat}
    (hoffset : offset < cursor.size) :
    (region.readByte offset).Ensures (ReadEvent.IsSafe size)
      (· = cursor.bytes[offset]?.getD 0) := by
  obtain ⟨rfl, hinside⟩ := hplaces
  apply ensures_emit_bind
  · change region.base + offset < size
    omega
  · exact ensures_pure rfl

theorem ensures_hasRange (hplaces : Places size region cursor)
    (offset length : Nat) :
    (region.hasRange offset length).Ensures (ReadEvent.IsSafe size)
      (· = cursor.hasRange offset length) := by
  obtain ⟨rfl, -⟩ := hplaces
  rw [hasRange, ByteCursor.hasRange]
  split_ifs with hlong
  · exact ensures_pure rfl
  · exact ensures_emit_bind (not_lt.mp hlong) (ensures_pure rfl)

/-- The byte of a field that is read in one round. -/
def byteInOrder (cursor : ByteCursor) (offset byteCount byteIndex : Nat) :
    UInt8 :=
  match cursor.byteOrder with
  | .little => cursor.bytes[offset + byteIndex]?.getD 0
  | .big => cursor.bytes[offset + byteCount - 1 - byteIndex]?.getD 0

theorem ensures_sourceByte (hplaces : Places size region cursor)
    (hsize : size < 2 ^ 63) {offset byteCount byteIndex : Nat}
    (hrange : offset + byteCount ≤ cursor.size)
    (hindex : byteIndex < byteCount) :
    (region.sourceByte offset byteCount byteIndex).Ensures
      (ReadEvent.IsSafe size)
      (· = byteInOrder cursor offset byteCount byteIndex) := by
  have hinside := hplaces.inside
  have horder := congrArg ByteCursor.byteOrder hplaces.cursor_eq
  rw [sourceByte, byteInOrder, horder]
  cases cursor.byteOrder with
  | little =>
    apply ensures_emit_bind
    · change offset + byteIndex < 2 ^ 64
      omega
    · apply ensures_readByte hplaces
      omega
  | big =>
    apply ensures_emit_bind
    · change offset + byteCount < 2 ^ 64
      omega
    apply ensures_emit_bind
    · change 1 ≤ offset + byteCount
      omega
    apply ensures_emit_bind
    · change byteIndex ≤ offset + byteCount - 1
      omega
    · apply ensures_readByte hplaces
      omega

theorem map_byteInOrder {offset byteCount : Nat}
    (hrange : offset + byteCount ≤ cursor.size) :
    (List.range byteCount).map (byteInOrder cursor offset byteCount) =
      match cursor.byteOrder with
      | .little => (cursor.bytes.drop offset).take byteCount
      | .big => ((cursor.bytes.drop offset).take byteCount).reverse := by
  obtain ⟨bytes, order⟩ := cursor
  change offset + byteCount ≤ bytes.length at hrange
  cases order
  · apply List.ext_getElem
    · simp only [List.length_map, List.length_range, List.length_take,
        List.length_drop]
      omega
    · intro index hleft _
      rw [List.length_map, List.length_range] at hleft
      rw [List.getElem_map, List.getElem_range, List.getElem_take,
        List.getElem_drop]
      simp only [byteInOrder]
      rw [List.getElem?_eq_getElem (by omega), Option.getD_some]
  · apply List.ext_getElem
    · simp only [List.length_map, List.length_range, List.length_reverse,
        List.length_take, List.length_drop]
      omega
    · intro index hleft _
      rw [List.length_map, List.length_range] at hleft
      simp only [List.getElem_map, List.getElem_range, List.getElem_reverse,
        List.getElem_take, List.getElem_drop, List.length_take,
        List.length_drop, byteInOrder]
      rw [List.getElem?_eq_getElem (by omega), Option.getD_some]
      congr 1
      omega

theorem ensures_uintAt (hplaces : Places size region cursor)
    (hsize : size < 2 ^ 63) (offset : Nat) (width : IntegerWidth) :
    (region.uintAt offset width).Ensures (ReadEvent.IsSafe size)
      (· = cursor.uintAt offset width) := by
  apply ensures_bind (ensures_hasRange hplaces offset width.byteCount)
  rintro _ rfl
  rw [ByteCursor.uintAt]
  split_ifs with hfits
  · have hrange := (cursor.hasRange_eq_true_iff _ _).mp hfits
    have hbytes : ∀ index ∈ List.range width.byteCount,
        (region.sourceByte offset width.byteCount index).Ensures
          (ReadEvent.IsSafe size)
          (· = byteInOrder cursor offset width.byteCount index) := by
      intro index hindex
      exact ensures_sourceByte hplaces hsize hrange (List.mem_range.mp hindex)
    apply ensures_bind (ensures_forEach hbytes)
    rintro _ rfl
    apply ensures_pure
    rw [map_byteInOrder hrange]
    cases cursor.byteOrder <;> rfl
  · exact ensures_pure rfl

/-- How many bytes stand before the first zero, when there is one. -/
def terminatorAt (bytes : List UInt8) : Option Nat :=
  let text := bytes.takeWhile (· ≠ 0)
  if text.length < bytes.length then some text.length else none

theorem terminatorAt_cons (byte : UInt8) (bytes : List UInt8) :
    terminatorAt (byte :: bytes) =
      if byte = 0 then some 0 else (terminatorAt bytes).map (· + 1) := by
  rw [terminatorAt, terminatorAt, List.takeWhile_cons]
  by_cases hzero : byte = 0
  · simp [hzero]
  · simp only [hzero, ne_eq, not_false_eq_true, decide_true, if_true,
      List.length_cons, Nat.add_lt_add_iff_right, if_false]
    split_ifs <;> rfl

theorem ensures_scanString (hplaces : Places size region cursor)
    (hsize : size < 2 ^ 63) {offset : Nat} :
    ∀ {rounds length : Nat}, offset + length + rounds ≤ cursor.size →
      length + rounds ≤ maxStringLength →
      (region.scanString offset rounds length).Ensures (ReadEvent.IsSafe size)
        (· = (terminatorAt ((cursor.bytes.drop (offset + length)).take
          rounds)).map (length + ·)) := by
  have hinside := hplaces.inside
  intro rounds
  induction rounds with
  | zero =>
    intro length _ _
    exact ensures_pure rfl
  | succ rounds ih =>
    intro length hrange hcap
    have hlt : offset + length < cursor.bytes.length := by
      rw [ByteCursor.size] at hrange
      omega
    rw [scanString, List.drop_eq_getElem_cons hlt, List.take_succ_cons,
      terminatorAt_cons]
    apply ensures_emit_bind
    · change length < maxStringLength
      omega
    apply ensures_emit_bind
    · change offset + length < 2 ^ 64
      omega
    apply ensures_bind (ensures_readByte hplaces hlt)
    rintro _ rfl
    rw [List.getElem?_eq_getElem hlt, Option.getD_some]
    split_ifs with hzero
    · exact ensures_pure rfl
    · have hrest := @ih (length + 1) (by omega) (by omega)
      have hcount : (length + ·) ∘ (· + 1) = (length + 1 + ·) := by
        funext rest
        change length + (rest + 1) = length + 1 + rest
        omega
      rwa [Option.map_map, hcount]

theorem ensures_cStringAt (hplaces : Places size region cursor)
    (hsize : size < 2 ^ 63) (offset : Nat) {maxLength : Nat}
    (hmaximum : maxLength ≤ maxStringLength) :
    (region.cStringAt offset maxLength).Ensures (ReadEvent.IsSafe size)
      (· = cursor.cStringAt offset maxLength) := by
  have hcursor := hplaces.cursor_eq
  rw [cStringAt, ByteCursor.cStringAt, hcursor]
  split_ifs with houtside
  · exact ensures_pure rfl
  · apply ensures_emit_bind
    · exact not_lt.mp houtside
    dsimp only
    generalize hsearchable : (if maxLength < cursor.size - offset then maxLength
      else cursor.size - offset) = searchable
    have hle : searchable ≤ maxLength ∧ offset + searchable ≤ cursor.size := by
      split_ifs at hsearchable <;> omega
    have htake : (cursor.bytes.drop offset).take searchable =
        (cursor.bytes.drop offset).take maxLength := by
      split_ifs at hsearchable with hlarge
      · rw [hsearchable]
      · rw [List.take_of_length_le, List.take_of_length_le]
        all_goals
          rw [List.length_drop]
          rw [ByteCursor.size] at hsearchable hlarge
          omega
    have hscan := @ensures_scanString size region cursor hplaces hsize offset
      searchable 0 (by omega) (by omega)
    apply ensures_bind hscan
    rintro _ rfl
    apply ensures_pure
    rw [Nat.add_zero, htake]
    simp only [terminatorAt]
    split_ifs with hterminated
    · -- the text is a prefix of what the loop looks at
      rw [Option.map_some, Option.map_some, Nat.zero_add, Option.some.injEq]
      have hprefix : List.IsPrefix
          (((cursor.bytes.drop offset).take maxLength).takeWhile (· ≠ 0))
          (cursor.bytes.drop offset) :=
        List.IsPrefix.trans (List.takeWhile_prefix _)
          (List.take_prefix maxLength _)
      exact (List.prefix_iff_eq_take.mp hprefix).symm
    · rfl

theorem ensures_subrange (hplaces : Places size region cursor)
    (offset length : Nat) :
    (region.subrange offset length).Ensures (ReadEvent.IsSafe size)
      (Option.Rel (Places size) · (cursor.subrange offset length)) := by
  apply ensures_bind (ensures_hasRange hplaces offset length)
  rintro _ rfl
  rw [ByteCursor.subrange]
  split_ifs with hfits
  · have hrange := (cursor.hasRange_eq_true_iff _ _).mp hfits
    have hinside := hplaces.inside
    apply ensures_pure
    apply Option.Rel.some
    constructor
    · rw [hplaces.cursor_eq]
    · simp only [ByteCursor.size, List.length_take, List.length_drop] at *
      omega
  · exact ensures_pure Option.Rel.none

end ImageRegion

/-! ## The header tables -/

/-- No more entries than the loop over them has rounds, and all of them at
offsets of 64 bits. -/
structure WithinCap (table : HeaderTable) (loop : DecodeLoop) : Prop where
  count_le : table.count ≤ loop.cap
  offset_lt : ∀ index < table.count,
    table.offset + table.entrySize * index < 2 ^ 64

/-- The reader past its checks. -/
structure Checked (reader : ElfReader) : Prop where
  size_lt : reader.image.size < 2 ^ 63
  sections : WithinCap reader.sections .sectionHeaders
  segments : WithinCap reader.segments .segmentHeaders

namespace ElfTrace

variable {size : Nat} {reader : ElfReader} {record : ImageRegion}
  {cursor : ByteCursor} {table : HeaderTable} {loop : DecodeLoop}

theorem ensures_fieldOf (hplaces : Places size record cursor)
    (hsize : size < 2 ^ 63) (is64Bit : Bool) (field : ClassDependentField) :
    (fieldOf is64Bit record field).Ensures (ReadEvent.IsSafe size)
      (· = Binscan.fieldOf is64Bit cursor field) :=
  ImageRegion.ensures_uintAt hplaces hsize _ _

theorem ensures_field (hsize : reader.image.size < 2 ^ 63)
    (hplaces : Places reader.image.size record cursor)
    (f : ClassDependentField) :
    (field reader record f).Ensures (ReadEvent.IsSafe reader.image.size)
      (· = reader.field cursor f) :=
  ensures_fieldOf hplaces hsize _ _

theorem places_image : Places reader.image.size (image reader) reader.image :=
  ⟨rfl, (Nat.zero_add _).le⟩

theorem ensures_tableEntry {index : Nat}
    (hoffset : table.offset + table.entrySize * index < 2 ^ 64) :
    (tableEntry reader table index).Ensures
      (ReadEvent.IsSafe reader.image.size)
      (Option.Rel (Places reader.image.size) ·
        (reader.tableEntry table index)) := by
  rw [tableEntry, ElfReader.tableEntry]
  split_ifs with habsent
  · exact ensures_pure Option.Rel.none
  apply ensures_emit_bind
  · change table.entrySize * index < 2 ^ 64
    omega
  apply ensures_emit_bind
  · exact hoffset
  dsimp only
  split_ifs
  · exact ensures_pure Option.Rel.none
  · exact ensures_pure Option.Rel.none
  · exact ImageRegion.ensures_subrange places_image _ _

theorem ensures_contents (offset length : Option Nat) :
    (contents reader offset length).Ensures
      (ReadEvent.IsSafe reader.image.size)
      (Option.Rel (Places reader.image.size) ·
        (reader.contents offset length)) := by
  rcases offset with _ | offset
  · exact ensures_pure Option.Rel.none
  rcases length with _ | length
  · exact ensures_pure Option.Rel.none
  rw [contents, ElfReader.contents]
  split_ifs
  · exact ensures_pure Option.Rel.none
  · exact ImageRegion.ensures_subrange places_image _ _

theorem ensures_sectionContents (hsize : reader.image.size < 2 ^ 63)
    (hplaces : Places reader.image.size record cursor) :
    (sectionContents reader record).Ensures
      (ReadEvent.IsSafe reader.image.size)
      (Option.Rel (Places reader.image.size) ·
        (reader.sectionContents cursor)) := by
  apply ensures_bind (ensures_field hsize hplaces _)
  rintro _ rfl
  apply ensures_bind (ensures_field hsize hplaces _)
  rintro _ rfl
  exact ensures_contents _ _

theorem ensures_entryOfType (hsize : reader.image.size < 2 ^ 63)
    (hwithin : WithinCap table loop) (typeField : ClassDependentField)
    (wanted : Nat) {index : Nat} (hindex : index < table.count) :
    (entryOfType reader table loop typeField wanted index).Ensures
      (ReadEvent.IsSafe reader.image.size)
      (Option.Rel (Places reader.image.size) ·
        (reader.entryOfType table typeField wanted index)) := by
  apply ensures_emit_bind
  · exact lt_of_lt_of_le hindex hwithin.count_le
  rw [ElfReader.entryOfType]
  apply ensures_bind_option
    (ensures_tableEntry (hwithin.offset_lt index hindex))
  · intro hnone
    rw [hnone]
    exact ensures_pure Option.Rel.none
  · intro header cursor hsome hplaces
    rw [hsome]
    apply ensures_bind (ensures_field hsize hplaces _)
    rintro _ rfl
    apply ensures_pure
    dsimp only
    split_ifs
    · exact Option.Rel.some hplaces
    · exact Option.Rel.none

theorem ensures_firstOfType (hsize : reader.image.size < 2 ^ 63)
    (hwithin : WithinCap table loop) (typeField : ClassDependentField)
    (wanted : Nat) :
    (firstOfType reader table loop typeField wanted).Ensures
      (ReadEvent.IsSafe reader.image.size)
      (Option.Rel (Places reader.image.size) ·
        (reader.firstOfType table typeField wanted)) := by
  apply ensures_findSome
  intro index hindex
  exact ensures_entryOfType hsize hwithin _ _ (List.mem_range.mp hindex)

/-! ## The dynamic section -/

variable {location : Location} {located : DynamicLocation}

/-- The location is the one that is found, its region in its place. -/
structure Locates (reader : ElfReader) (location : Location)
    (located : DynamicLocation) : Prop where
  places : Places reader.image.size location.region located.region
  fromSectionHeaders : location.fromSectionHeaders = located.fromSectionHeaders
  link : location.stringTableSectionIndex = located.stringTableSectionIndex
  link_lt : ∀ index ∈ location.stringTableSectionIndex,
    index < reader.sections.count

theorem ensures_locateDynamicViaSections (hchecked : Checked reader) :
    (locateDynamicViaSections reader).Ensures
      (ReadEvent.IsSafe reader.image.size)
      (Option.Rel (Locates reader) · reader.locateDynamicViaSections.1) := by
  have hsize := hchecked.size_lt
  rw [ElfReader.locateDynamicViaSections]
  apply ensures_bind_option
    (ensures_firstOfType hsize hchecked.sections _ _)
  · intro hnone
    rw [hnone]
    exact ensures_pure Option.Rel.none
  intro header cursor hsome hheader
  rw [hsome]
  apply ensures_bind_option (ensures_sectionContents hsize hheader)
  · intro hnone
    simp only [hnone]
    exact ensures_pure Option.Rel.none
  intro region contents hcontents hregion
  simp only [hcontents]
  apply ensures_bind (ensures_field hsize hheader _)
  rintro _ rfl
  apply ensures_pure
  apply Option.Rel.some
  refine ⟨hregion, rfl, rfl, ?_⟩
  intro index hindex
  exact of_decide_eq_true (Option.mem_filter_iff.mp hindex).2

theorem ensures_locateDynamicViaSegments (hchecked : Checked reader) :
    (locateDynamicViaSegments reader).Ensures
      (ReadEvent.IsSafe reader.image.size)
      (Option.Rel (Locates reader) · reader.locateDynamicViaSegments.1) := by
  have hsize := hchecked.size_lt
  rw [ElfReader.locateDynamicViaSegments]
  apply ensures_bind_option
    (ensures_firstOfType hsize hchecked.segments _ _)
  · intro hnone
    rw [hnone]
    exact ensures_pure Option.Rel.none
  intro header cursor hsome hheader
  rw [hsome]
  apply ensures_bind (ensures_field hsize hheader _)
  rintro _ rfl
  apply ensures_bind (ensures_field hsize hheader _)
  rintro _ rfl
  apply ensures_bind_option (ensures_contents _ _)
  · intro hnone
    simp only [hnone]
    exact ensures_pure Option.Rel.none
  intro region contents hcontents hregion
  simp only [hcontents]
  apply ensures_pure
  apply Option.Rel.some
  refine ⟨hregion, rfl, rfl, ?_⟩
  intro index hindex
  exact absurd hindex (Option.not_mem_none _)

theorem ensures_locateDynamic (hchecked : Checked reader) :
    (locateDynamic reader).Ensures (ReadEvent.IsSafe reader.image.size)
      (Option.Rel (Locates reader) · reader.locateDynamic.1) := by
  rw [ElfReader.locateDynamic]
  apply ensures_bind_option (ensures_locateDynamicViaSections hchecked)
  · intro hnone
    obtain ⟨messages, hsections⟩ : ∃ messages,
        reader.locateDynamicViaSections = (none, messages) :=
      ⟨_, Prod.ext hnone rfl⟩
    rw [hsections]
    exact ensures_locateDynamicViaSegments hchecked
  · intro location located hsome hlocates
    obtain ⟨messages, hsections⟩ : ∃ messages,
        reader.locateDynamicViaSections = (some located, messages) :=
      ⟨_, Prod.ext hsome rfl⟩
    rw [hsections]
    exact ensures_pure (Option.Rel.some hlocates)

/-- An offset that is answered lies in the image. -/
def IsOffset (size answer expected : Nat) : Prop :=
  answer = expected ∧ expected < size

theorem ensures_segmentFileOffsetOf (hchecked : Checked reader)
    (address : Nat) {index : Nat} (hindex : index < reader.segments.count) :
    (segmentFileOffsetOf reader address index).Ensures
      (ReadEvent.IsSafe reader.image.size)
      (Option.Rel (IsOffset reader.image.size) ·
        (reader.segmentFileOffsetOf address index)) := by
  have hsize := hchecked.size_lt
  apply ensures_emit_bind
  · exact lt_of_lt_of_le hindex hchecked.segments.count_le
  rw [ElfReader.segmentFileOffsetOf, ElfReader.segmentHeader]
  apply ensures_bind_option
    (ensures_tableEntry (hchecked.segments.offset_lt index hindex))
  · intro hnone
    rw [hnone]
    exact ensures_pure Option.Rel.none
  intro header cursor hsome hheader
  rw [hsome]
  dsimp only
  apply ensures_bind (ensures_field hsize hheader _)
  rintro type htype
  apply ensures_bind (ensures_field hsize hheader _)
  rintro virtualAddress hvirtualAddress
  apply ensures_bind (ensures_field hsize hheader _)
  rintro fileOffset hfileOffset
  apply ensures_bind (ensures_field hsize hheader _)
  rintro fileSize hfileSize
  rw [← htype, ← hvirtualAddress, ← hfileOffset, ← hfileSize]
  rcases type with _ | type
  · exact ensures_pure Option.Rel.none
  rcases virtualAddress with _ | virtualAddress
  · exact ensures_pure Option.Rel.none
  rcases fileOffset with _ | fileOffset
  · exact ensures_pure Option.Rel.none
  rcases fileSize with _ | fileSize
  · exact ensures_pure Option.Rel.none
  dsimp only
  split_ifs with htype hbelow hbeyond hrefused
  · exact ensures_pure Option.Rel.none
  · exact ensures_pure Option.Rel.none
  · apply ensures_emit_bind
    · exact not_lt.mp hbelow
    · exact ensures_pure Option.Rel.none
  · apply ensures_emit_bind
    · exact not_lt.mp hbelow
    apply ensures_emit_bind
    · intro offset hoffset
      exact absurd hoffset (Option.not_mem_none _)
    · exact ensures_pure Option.Rel.none
  · -- a sum that is not smaller than its summand has not wrapped
    rw [not_or, not_lt, not_le] at hrefused
    have hfile := ElfReader.fieldOf_lt hfileOffset.symm
    have hdistance : address - virtualAddress < 2 ^ 64 := by
      have hfileSizeLt := ElfReader.fieldOf_lt hfileSize.symm
      omega
    apply ensures_emit_bind
    · exact not_lt.mp hbelow
    apply ensures_emit_bind
    · intro offset hoffset
      obtain rfl := Option.mem_some_iff.mp hoffset
      refine ⟨?_, hrefused.2⟩
      omega
    · exact ensures_pure (Option.Rel.some ⟨rfl, hrefused.2⟩)

theorem ensures_fileOffsetOfAddress (hchecked : Checked reader)
    (address : Nat) :
    (fileOffsetOfAddress reader address).Ensures
      (ReadEvent.IsSafe reader.image.size)
      (Option.Rel (IsOffset reader.image.size) ·
        (reader.fileOffsetOfAddress address)) := by
  apply ensures_findSome
  intro index hindex
  exact ensures_segmentFileOffsetOf hchecked address (List.mem_range.mp hindex)

theorem ensures_walkDynamicArrayFrom (hsize : reader.image.size < 2 ^ 63)
    {region : ImageRegion} (hregion : Places reader.image.size region cursor) :
    ∀ {rounds index : Nat} {found : DynamicArray},
      index + rounds ≤ maxDynamicEntries →
      (walkDynamicArrayFrom reader region rounds index found).Ensures
        (ReadEvent.IsSafe reader.image.size)
        (· = reader.walkDynamicArrayFrom cursor rounds index found) := by
  intro rounds
  induction rounds with
  | zero =>
    intro index found _
    exact ensures_pure rfl
  | succ rounds ih =>
    intro index found hrounds
    have hindex : index < maxDynamicEntries := by omega
    rw [ElfReader.walkDynamicArrayFrom]
    apply ensures_emit_bind
    · exact hindex
    apply ensures_emit_bind
    · have hentrySize : reader.dynamicEntrySize ≤ 16 := by
        rw [ElfReader.dynamicEntrySize]
        split_ifs <;> omega
      calc index * reader.dynamicEntrySize ≤ maxDynamicEntries * 16 :=
            Nat.mul_le_mul hindex.le hentrySize
        _ < 2 ^ 64 := by decide
    apply ensures_bind_option (ImageRegion.ensures_subrange hregion _ _)
    · intro hnone
      rw [hnone]
      exact ensures_pure rfl
    intro entry entryCursor hsome hentry
    rw [hsome]
    dsimp only
    apply ensures_bind (ensures_field hsize hentry _)
    rintro tag htag
    apply ensures_bind (ensures_field hsize hentry _)
    rintro value hvalue
    rw [← htag, ← hvalue]
    rcases tag with _ | tag
    · exact ensures_pure rfl
    rcases value with _ | value
    · exact ensures_pure rfl
    dsimp only
    split_ifs with hlast
    · exact ensures_pure rfl
    · exact ih (by omega)

theorem ensures_walkDynamicArray (hsize : reader.image.size < 2 ^ 63)
    {region : ImageRegion} (hregion : Places reader.image.size region cursor) :
    (walkDynamicArray reader region).Ensures
      (ReadEvent.IsSafe reader.image.size)
      (· = reader.walkDynamicArray cursor) :=
  ensures_walkDynamicArrayFrom hsize hregion (by decide)

theorem ensures_linkedStringTable (hchecked : Checked reader)
    {link : Option Nat} (hlink : ∀ index ∈ link, index < reader.sections.count) :
    (linkedStringTable reader link).Ensures
      (ReadEvent.IsSafe reader.image.size)
      (Option.Rel (Places reader.image.size) ·
        (reader.linkedStringTable link)) := by
  rcases link with _ | index
  · exact ensures_pure Option.Rel.none
  have hoffset := hchecked.sections.offset_lt index (hlink index rfl)
  rw [ElfReader.linkedStringTable, Option.bind_some, ElfReader.sectionHeader]
  apply ensures_bind_option (ensures_tableEntry hoffset)
  · intro hnone
    rw [hnone]
    exact ensures_pure Option.Rel.none
  intro header cursor hsome hheader
  rw [hsome, Option.bind_some]
  apply ensures_bind (ensures_field hchecked.size_lt hheader _)
  rintro _ rfl
  split_ifs with hstrings
  · exact ensures_sectionContents hchecked.size_lt hheader
  · exact ensures_pure Option.Rel.none

theorem ensures_resolveStringTable (hchecked : Checked reader)
    (hlocates : Locates reader location located)
    (dynamicArray : DynamicArray) :
    (resolveStringTable reader location.stringTableSectionIndex
        dynamicArray).Ensures (ReadEvent.IsSafe reader.image.size)
      (Option.Rel (Places reader.image.size) ·
        (reader.resolveStringTable located dynamicArray).1) := by
  rw [ElfReader.resolveStringTable, ← hlocates.link]
  apply ensures_bind_option
    (ensures_linkedStringTable hchecked hlocates.link_lt)
  · intro hnone
    rw [hnone]
    dsimp only
    rcases dynamicArray.stringTableAddress with _ | address
    · exact ensures_pure Option.Rel.none
    apply ensures_bind_option (ensures_fileOffsetOfAddress hchecked address)
    · intro hnone
      simp only [hnone]
      exact ensures_pure Option.Rel.none
    intro answer offset hsome hanswer
    obtain ⟨rfl, hinside⟩ := hanswer
    simp only [hsome]
    apply ensures_emit_bind
    · exact hinside.le
    have htable := ImageRegion.ensures_subrange
      (@places_image reader) answer
    split
    · next hsubrange =>
        rw [← hsubrange]
        exact htable _
    · next table hsubrange =>
        rw [← hsubrange]
        exact htable _
  · intro contents cursor hsome hplaces
    rw [hsome]
    exact ensures_pure (Option.Rel.some hplaces)

/-! ## Names and symbols -/

theorem ensures_stringAt (hsize : size < 2 ^ 63)
    (hplaces : Places size record cursor) (offset : Nat) :
    (stringAt record offset).Ensures (ReadEvent.IsSafe size)
      (· = ElfReader.stringAt cursor offset) := by
  rw [stringAt, ElfReader.stringAt, hplaces.cursor_eq]
  split_ifs with houtside
  · exact ensures_pure rfl
  apply ensures_bind
    (ImageRegion.ensures_cStringAt hplaces hsize offset (le_refl _))
  rintro text htext
  rw [← htext]
  rcases text with _ | text
  · exact ensures_pure rfl
  · exact ensures_pure rfl

theorem ensures_exportedSymbol (hsize : reader.image.size < 2 ^ 63)
    {table names : ImageRegion} {tableCursor namesCursor : ByteCursor}
    (htable : Places reader.image.size table tableCursor)
    (hnames : Places reader.image.size names namesCursor) {symbolIndex : Nat}
    (hindex : symbolIndex < maxSymbolTableEntries) :
    (exportedSymbol reader table names symbolIndex).Ensures
      (ReadEvent.IsSafe reader.image.size)
      (· = reader.exportedSymbol tableCursor namesCursor symbolIndex) := by
  rw [ElfReader.exportedSymbol]
  apply ensures_emit_bind
  · exact hindex
  apply ensures_emit_bind
  · have hentrySize : reader.symbolEntrySize ≤ 24 := by
      rw [ElfReader.symbolEntrySize]
      split_ifs <;> omega
    calc symbolIndex * reader.symbolEntrySize ≤ maxSymbolTableEntries * 24 :=
          Nat.mul_le_mul hindex.le hentrySize
      _ < 2 ^ 64 := by decide
  apply ensures_bind_option (ImageRegion.ensures_subrange htable _ _)
  · intro hnone
    rw [hnone]
    exact ensures_pure rfl
  intro entry entryCursor hsome hentry
  rw [hsome]
  dsimp only
  apply ensures_bind (ensures_field hsize hentry _)
  rintro sectionIndex hsectionIndex
  apply ensures_bind (ensures_field hsize hentry _)
  rintro info hinfo
  apply ensures_bind (ensures_field hsize hentry _)
  rintro nameOffset hnameOffset
  rw [← hsectionIndex, ← hinfo, ← hnameOffset]
  rcases sectionIndex with _ | sectionIndex
  · exact ensures_pure rfl
  rcases info with _ | info
  · exact ensures_pure rfl
  rcases nameOffset with _ | nameOffset
  · exact ensures_pure rfl
  dsimp only
  split_ifs with hundefined hlocal
  · exact ensures_pure rfl
  · exact ensures_pure rfl
  · exact ensures_stringAt hsize hnames nameOffset

/-- A table and its names, in their places. -/
def PlaceBoth (size : Nat) (regions : ImageRegion × ImageRegion)
    (cursors : ByteCursor × ByteCursor) : Prop :=
  Places size regions.1 cursors.1 ∧ Places size regions.2 cursors.2

theorem ensures_symbolTables (hchecked : Checked reader)
    (hplaces : Places reader.image.size record cursor) :
    (symbolTables reader record).Ensures (ReadEvent.IsSafe reader.image.size)
      (Option.Rel (PlaceBoth reader.image.size) ·
        (reader.symbolTables cursor)) := by
  have hsize := hchecked.size_lt
  rw [ElfReader.symbolTables]
  apply ensures_bind_option (ensures_sectionContents hsize hplaces)
  · intro hnone
    rw [hnone]
    apply ensures_bind (ensures_field hsize hplaces _)
    rintro _ rfl
    exact ensures_pure Option.Rel.none
  intro table tableCursor htableSome htable
  rw [htableSome, Option.bind_some]
  apply ensures_bind (ensures_field hsize hplaces _)
  rintro _ rfl
  generalize hlink : Option.filter (fun link => decide
    (link < reader.sections.count)) (reader.field cursor sectionLink) = link
  rcases link with _ | link
  · exact ensures_pure Option.Rel.none
  have hlt : link < reader.sections.count :=
    of_decide_eq_true (Option.mem_filter_iff.mp hlink).2
  rw [Option.bind_some, ElfReader.sectionHeader]
  apply ensures_bind_option
    (ensures_tableEntry (hchecked.sections.offset_lt link hlt))
  · intro hnone
    rw [hnone]
    exact ensures_pure Option.Rel.none
  intro header headerCursor hheaderSome hheader
  rw [hheaderSome, Option.bind_some]
  apply ensures_bind_option (ensures_sectionContents hsize hheader)
  · intro hnone
    rw [hnone]
    exact ensures_pure Option.Rel.none
  intro names namesCursor hnamesSome hnames
  rw [hnamesSome]
  exact ensures_pure (Option.Rel.some ⟨htable, hnames⟩)

theorem ensures_collectExportedSymbols (hchecked : Checked reader)
    (out : ElfImage) :
    (collectExportedSymbols reader out).Ensures
      (ReadEvent.IsSafe reader.image.size)
      (· = (reader.collectExportedSymbols out).1) := by
  have hsize := hchecked.size_lt
  rw [ElfReader.collectExportedSymbols]
  apply ensures_bind_option
    (ensures_firstOfType hsize hchecked.sections _ _)
  · intro hnone
    rw [hnone]
    exact ensures_pure rfl
  intro header cursor hsome hheader
  rw [hsome]
  apply ensures_bind_option (ensures_symbolTables hchecked hheader)
  · intro hnone
    simp only [hnone]
    exact ensures_pure rfl
  rintro ⟨table, names⟩ ⟨tableCursor, namesCursor⟩ htables ⟨htable, hnames⟩
  have hcursor : table.cursor = tableCursor := htable.cursor_eq
  simp only [htables, hcursor]
  generalize hentries : (if maxSymbolTableEntries <
      tableCursor.size / reader.symbolEntrySize then maxSymbolTableEntries
    else tableCursor.size / reader.symbolEntrySize) = entries
  have hcap : entries ≤ maxSymbolTableEntries := by
    split_ifs at hentries <;> omega
  have hsymbols : ∀ index ∈ List.range entries,
      (exportedSymbol reader table names index).Ensures
        (ReadEvent.IsSafe reader.image.size)
        (· = reader.exportedSymbol tableCursor namesCursor index) := by
    intro index hindex
    have hlt := List.mem_range.mp hindex
    exact ensures_exportedSymbol hsize htable hnames (by omega)
  apply ensures_bind (ensures_forEach hsymbols)
  rintro _ rfl
  apply ensures_pure
  rw [List.filterMap_map, Function.id_comp]

theorem ensures_nameAt (hsize : size < 2 ^ 63)
    {stringTable : Option ImageRegion} {expected : Option ByteCursor}
    (hplaces : Option.Rel (Places size) stringTable expected) (offset : Nat) :
    (nameAt stringTable offset).Ensures (ReadEvent.IsSafe size)
      (· = expected.bind fun table => ElfReader.stringAt table offset) := by
  cases hplaces with
  | none => exact ensures_pure rfl
  | some htable => exact ensures_stringAt hsize htable offset

theorem ensures_recordNames (hsize : size < 2 ^ 63)
    {dynamicArray : DynamicArray}
    (hneeded : dynamicArray.neededOffsets.length ≤ maxNeededEntries)
    {stringTable : Option ImageRegion} {expected : Option ByteCursor}
    (hplaces : Option.Rel (Places size) stringTable expected) :
    (recordNames dynamicArray stringTable).Ensures (ReadEvent.IsSafe size)
      (· = ElfReader.recordNames dynamicArray expected) := by
  have hnames : ∀ entry ∈ dynamicArray.neededOffsets.zipIdx,
      (do Traced.emit (ReadEvent.round .neededEntries entry.2)
          nameAt stringTable entry.1).Ensures (ReadEvent.IsSafe size)
        (· = expected.bind fun table => ElfReader.stringAt table entry.1) := by
    intro entry hentry
    have hlt := List.snd_lt_of_mem_zipIdx hentry
    apply ensures_emit_bind
    · change entry.2 < maxNeededEntries
      omega
    · exact ensures_nameAt hsize hplaces entry.1
  apply ensures_bind (ensures_forEach hnames)
  rintro _ rfl
  have hsoname : (sonameOf dynamicArray stringTable).Ensures
      (ReadEvent.IsSafe size)
      (· = dynamicArray.sonameOffset.bind fun offset =>
        expected.bind fun table => ElfReader.stringAt table offset) := by
    rw [sonameOf]
    rcases dynamicArray.sonameOffset with _ | offset
    · exact ensures_pure rfl
    · exact ensures_nameAt hsize hplaces offset
  apply ensures_bind hsoname
  rintro _ rfl
  apply ensures_pure
  have hfirst : dynamicArray.neededOffsets.zipIdx.map Prod.fst =
      dynamicArray.neededOffsets := List.zipIdx_map_fst _ _
  have hisNone : stringTable.isNone = expected.isNone := by
    cases hplaces <;> rfl
  rw [ElfReader.recordNames, hisNone, List.filterMap_map]
  conv_rhs => rw [← hfirst, List.filterMap_map]
  rfl

theorem length_neededOffsets_walkDynamicArrayFrom (reader : ElfReader)
    (cursor : ByteCursor) : ∀ (rounds index : Nat) (found : DynamicArray),
      found.neededOffsets.length ≤ maxNeededEntries →
      (reader.walkDynamicArrayFrom cursor rounds index
        found).neededOffsets.length ≤ maxNeededEntries := by
  intro rounds
  induction rounds with
  | zero =>
    intro index found hfound
    exact hfound
  | succ rounds ih =>
    intro index found hfound
    rw [ElfReader.walkDynamicArrayFrom]
    split
    · exact hfound
    split
    · split_ifs
      · exact hfound
      · apply ih
        rw [ElfReader.recordEntry]
        split_ifs with hneeded hfull
        · exact hfound
        · rw [List.length_append, List.length_singleton]
          omega
        all_goals exact hfound
    · exact hfound

theorem ensures_recordSymbols (hchecked : Checked reader)
    (hlocates : Locates reader location located) (out : ElfImage) :
    (recordSymbols reader location out).Ensures
      (ReadEvent.IsSafe reader.image.size)
      (· = (reader.recordSymbols located out).1) := by
  rw [recordSymbols, ElfReader.recordSymbols, hlocates.fromSectionHeaders]
  split_ifs with hstripped
  · exact ensures_pure rfl
  · apply ensures_bind (ensures_collectExportedSymbols hchecked out)
    rintro _ rfl
    exact ensures_pure rfl

theorem ensures_readDynamic (hchecked : Checked reader)
    (hlocates : Locates reader location located) :
    (readDynamic reader location).Ensures
      (ReadEvent.IsSafe reader.image.size)
      (· = (reader.readDynamic located).1) := by
  have hsize := hchecked.size_lt
  apply ensures_bind (ensures_walkDynamicArray hsize hlocates.places)
  rintro _ rfl
  apply ensures_bind (ensures_resolveStringTable hchecked hlocates _)
  intro stringTable hstringTable
  have hneeded : (reader.walkDynamicArray
      located.region).neededOffsets.length ≤ maxNeededEntries :=
    length_neededOffsets_walkDynamicArrayFrom reader _ _ _ _ (Nat.zero_le _)
  apply ensures_bind (ensures_recordNames hsize hneeded hstringTable)
  rintro _ rfl
  exact ensures_recordSymbols hchecked hlocates _

/-! ## The whole image -/

theorem ensures_unreachable (hoffset : table.offset < 2 ^ 64) :
    (unreachable reader table).Ensures (ReadEvent.IsSafe reader.image.size)
      (· = reader.unreachable table) := by
  rw [unreachable, ElfReader.unreachable]
  split_ifs with hdeclared
  · apply ensures_bind (ensures_tableEntry (by simpa using hoffset))
    intro first hfirst
    apply ensures_pure
    rw [hdeclared, Bool.true_and]
    generalize reader.tableEntry table 0 = expected at hfirst
    cases hfirst <;> rfl
  · apply ensures_pure
    rw [Bool.not_eq_true] at hdeclared
    rw [hdeclared, Bool.false_and]

theorem ensures_readTable (hsize : size < 2 ^ 63)
    (hplaces : Places size record cursor) (is64Bit : Bool)
    (offsetField entrySizeField countField : ClassDependentField)
    (maximum : Nat) :
    (readTable is64Bit record offsetField entrySizeField countField
        maximum).Ensures (ReadEvent.IsSafe size)
      (· = Binscan.readTable is64Bit cursor offsetField entrySizeField
        countField maximum) := by
  rw [Binscan.readTable]
  apply ensures_bind (ensures_fieldOf hplaces hsize _ _)
  rintro offset hoffset
  apply ensures_bind (ensures_fieldOf hplaces hsize _ _)
  rintro entrySize hentrySize
  apply ensures_bind (ensures_fieldOf hplaces hsize _ _)
  rintro count hcount
  rw [← hoffset, ← hentrySize, ← hcount]
  rcases offset with _ | offset
  · exact ensures_pure rfl
  rcases entrySize with _ | entrySize
  · exact ensures_pure rfl
  rcases count with _ | count
  · exact ensures_pure rfl
  · exact ensures_pure rfl

theorem ensures_ofImage {image : ByteCursor} (hsize : image.size < 2 ^ 63)
    (is64Bit : Bool) :
    (ofImage image is64Bit).Ensures (ReadEvent.IsSafe image.size)
      (· = ElfReader.ofImage image is64Bit) := by
  have hplaces : Places image.size ⟨0, image⟩ image :=
    ⟨rfl, (Nat.zero_add _).le⟩
  apply ensures_bind (ensures_readTable hsize hplaces _ _ _ _ _)
  rintro _ rfl
  apply ensures_bind (ensures_readTable hsize hplaces _ _ _ _ _)
  rintro _ rfl
  exact ensures_pure rfl

/-- What `read_table_bounds` keeps of a table. -/
structure FollowedTable (table : HeaderTable) (maximum : Nat) : Prop where
  count_le : table.count ≤ maximum
  declared_eq : table.declared = decide (table.offset ≠ 0 ∧ 0 < table.count)

theorem followedTable_readTable (is64Bit : Bool) (image : ByteCursor)
    (offsetField entrySizeField countField : ClassDependentField)
    (maximum : Nat) :
    FollowedTable (Binscan.readTable is64Bit image offsetField entrySizeField
      countField maximum) maximum := by
  rw [Binscan.readTable]
  split
  · constructor
    · dsimp only
      split_ifs <;> omega
    · rfl
  · exact ⟨Nat.zero_le _, rfl⟩

/-- Where the first entry of a declared table is readable, all of them stand at
offsets of 64 bits. -/
theorem withinCap_of_reachable (hbounded : reader.BoundedTable table)
    (hfollowed : FollowedTable table loop.cap)
    (hreachable : ¬ reader.unreachable table = true) :
    WithinCap table loop := by
  refine ⟨hfollowed.count_le, ?_⟩
  intro index hindex
  have hproduct : table.entrySize * index ≤ 2 ^ 16 * maxSectionHeaders :=
    Nat.mul_le_mul hbounded.entrySize.le (hindex.le.trans hbounded.count)
  have hsmall : 2 ^ 16 * maxSectionHeaders < 2 ^ 32 := by decide
  have hsize := hbounded.size
  by_cases habsent : table.offset = 0
  · omega
  · have hdeclared : table.declared = true := by
      rw [hfollowed.declared_eq, decide_eq_true_iff]
      exact ⟨habsent, by omega⟩
    rw [ElfReader.unreachable_eq_true_iff hbounded, not_not] at hreachable
    obtain ⟨-, -, hfirst⟩ := hreachable hdeclared
    omega

theorem ensures_read (hsections : reader.BoundedTable reader.sections)
    (hsegments : reader.BoundedTable reader.segments)
    (hfollowedSections : FollowedTable reader.sections maxSectionHeaders)
    (hfollowedSegments : FollowedTable reader.segments maxProgramHeaders) :
    (read reader).Ensures (ReadEvent.IsSafe reader.image.size)
      (· = reader.read.1) := by
  have hsize := hsections.size
  rw [read, ElfReader.read]
  dsimp only
  by_cases htruncated : reader.image.size < reader.headerSize
  · rw [if_pos htruncated, if_pos htruncated]
    exact ensures_pure rfl
  rw [if_neg htruncated, if_neg htruncated]
  apply ensures_bind (ensures_field hsize places_image _)
  rintro type htype
  rw [← htype]
  rcases type with _ | type
  · exact ensures_pure rfl
  apply ensures_bind (ensures_unreachable hsections.offset)
  rintro _ rfl
  apply ensures_bind (ensures_unreachable hsegments.offset)
  rintro _ rfl
  dsimp only
  split_ifs with hunreachable hrelocatable
  · exact ensures_pure rfl
  · exact ensures_pure rfl
  rw [Bool.or_eq_true, not_or] at hunreachable
  have hchecked : Checked reader :=
    ⟨hsize, withinCap_of_reachable hsections hfollowedSections hunreachable.1,
      withinCap_of_reachable hsegments hfollowedSegments hunreachable.2⟩
  apply ensures_bind_option (ensures_locateDynamic hchecked)
  · intro hnone
    obtain ⟨messages, hlocate⟩ : ∃ messages,
        reader.locateDynamic = (none, messages) := ⟨_, Prod.ext hnone rfl⟩
    rw [hlocate]
    exact ensures_pure rfl
  · intro location located hsome hlocates
    obtain ⟨messages, hlocate⟩ : ∃ messages,
        reader.locateDynamic = (some located, messages) :=
      ⟨_, Prod.ext hsome rfl⟩
    rw [hlocate]
    exact ensures_readDynamic hchecked hlocates

/-! ## Files -/

theorem uintAt_oneByte_eq_map {offset : Nat} (hoffset : offset < cursor.size) :
    cursor.uintAt offset .oneByte = cursor.bytes[offset]?.map UInt8.toNat := by
  have hbyte : cursor.bytes[offset]? = some cursor.bytes[offset] :=
    List.getElem?_eq_getElem hoffset
  rw [ByteCursor.uintAt_oneByte hbyte, hbyte, Option.map_some]

/-- The loop over the magic bytes finds no other byte exactly where the image
begins with them. -/
theorem ensures_magicMismatch (hsize : size < 2 ^ 63)
    (hplaces : Places size record cursor) (hident : identSize ≤ cursor.size) :
    (Traced.findSome (List.range magic.length)
        (magicMismatch record)).Ensures (ReadEvent.IsSafe size)
      (fun answer => answer = none ↔ cursor.bytes.take magic.length = magic) := by
  have hlength : magic.length ≤ cursor.size :=
    Nat.le_trans (by decide) hident
  have hround : ∀ index ∈ List.range magic.length,
      (magicMismatch record index).Ensures (ReadEvent.IsSafe size)
        (Option.Rel (fun _ _ => True) ·
          (if cursor.bytes[index]? = magic[index]? then none else some ())) := by
    intro index hindex
    have hlt := (List.mem_range.mp hindex).trans_le hlength
    apply ensures_bind (ImageRegion.ensures_uintAt hplaces hsize index _)
    rintro _ rfl
    apply ensures_pure
    have hinjective : Function.Injective (Option.map UInt8.toNat) :=
      Option.map_injective fun _ _ => UInt8.toNat_inj.mp
    simp only [uintAt_oneByte_eq_map hlt, hinjective.eq_iff]
    split_ifs
    · exact Option.Rel.none
    · exact Option.Rel.some trivial
  apply (ensures_findSome hround).imp
  intro answer hanswer
  have hnone : answer = none ↔ ((List.range magic.length).findSome?
      fun index => if cursor.bytes[index]? = magic[index]? then none
        else some ()) = none := by
    generalize (List.range magic.length).findSome? _ = expected at hanswer
    cases hanswer <;> simp
  rw [hnone, List.findSome?_eq_none_iff]
  constructor
  · intro hequal
    apply List.ext_getElem?
    intro index
    by_cases hindex : index < magic.length
    · have hbyte := hequal index (List.mem_range.mpr hindex)
      rw [List.getElem?_take_of_lt hindex]
      by_contra hne
      rw [if_neg hne] at hbyte
      exact absurd hbyte (Option.some_ne_none _)
    · rw [List.getElem?_eq_none, List.getElem?_eq_none (not_lt.mp hindex)]
      rw [List.length_take]
      omega
  · intro hmagic index hindex
    apply if_pos
    rw [← List.getElem?_take_of_lt (List.mem_range.mp hindex), hmagic]

theorem ensures_readElf (path : String) (bytes : List UInt8) :
    (readElf bytes).Ensures (ReadEvent.IsSafe bytes.length)
      (· = (Binscan.readElf path (some bytes)).value) := by
  rw [readElf, Binscan.readElf]
  dsimp only
  split_ifs with hlarge hshort
  · exact ensures_pure rfl
  · have hidentify : identify bytes = .notElf := by
      rw [identify]
      exact if_pos hshort
    rw [hidentify]
    exact ensures_pure rfl
  have hsize : bytes.length < 2 ^ 63 :=
    lt_of_le_of_lt (not_lt.mp hlarge) (by decide)
  have hplaces : Places bytes.length ⟨0, ⟨bytes, .little⟩⟩ ⟨bytes, .little⟩ :=
    ⟨rfl, (Nat.zero_add _).le⟩
  apply ensures_bind
    (ensures_magicMismatch hsize hplaces (not_lt.mp hshort))
  intro mismatch hmismatch
  rcases mismatch with _ | mismatch
  · have hmagic := hmismatch.mp rfl
    apply ensures_bind (ImageRegion.ensures_uintAt hplaces hsize _ _)
    rintro fileClass hfileClass
    apply ensures_bind (ImageRegion.ensures_uintAt hplaces hsize _ _)
    rintro fileData hfileData
    rw [identify]
    dsimp only
    rw [if_neg hshort, if_neg (not_not.mpr hmagic), ← hfileClass, ← hfileData]
    by_cases hclass : fileClass ≠ some class32 ∧ fileClass ≠ some class64
    · rw [if_pos hclass, if_pos hclass]
      exact ensures_pure rfl
    rw [if_neg hclass, if_neg hclass]
    by_cases hdata : fileData ≠ some dataLittleEndian ∧
        fileData ≠ some dataBigEndian
    · rw [if_pos hdata, if_pos hdata]
      exact ensures_pure rfl
    rw [if_neg hdata, if_neg hdata]
    generalize (if fileData = some dataBigEndian then ByteOrder.big
      else ByteOrder.little) = order
    generalize decide (fileClass = some class64) = is64Bit
    have himage : (ByteCursor.withByteOrder ⟨bytes, .little⟩ order).size <
        2 ^ 63 := hsize
    obtain ⟨hsections, hsegments⟩ := ElfReader.boundedTable_ofImage is64Bit himage
    apply ensures_bind (ensures_ofImage himage is64Bit)
    rintro _ rfl
    exact ensures_read hsections hsegments
      (followedTable_readTable _ _ _ _ _ _)
      (followedTable_readTable _ _ _ _ _ _)
  · have hidentify : identify bytes = .notElf := by
      rw [identify]
      dsimp only
      rw [if_neg hshort, if_pos fun hmagic =>
        Option.some_ne_none _ (hmismatch.mpr hmagic)]
    rw [hidentify]
    exact ensures_pure rfl

/-- The trace is one of `read_elf`, and every step of it is safe. -/
theorem readElf_isSafe (path : String) (bytes : List UInt8) :
    (readElf bytes).value = (Binscan.readElf path (some bytes)).value ∧
      ∀ event ∈ (readElf bytes).events, event.IsSafe bytes.length := by
  obtain ⟨hevents, hvalue⟩ := ensures_readElf path bytes
  exact ⟨hvalue, hevents⟩

/-- The identification and the header of an image of 64 bits: two program
headers right behind it and no section headers. -/
def wrappingHeader : List UInt8 :=
  magic ++ [2, 1, 1, 0] ++ List.replicate 8 0 ++
  [3, 0, 62, 0, 1, 0, 0, 0] ++ List.replicate 8 0 ++
  [64, 0, 0, 0, 0, 0, 0, 0] ++ List.replicate 8 0 ++
  [0, 0, 0, 0, 64, 0, 56, 0, 2, 0, 0, 0, 0, 0, 0, 0]

/-- A segment that is loaded from the last offset of 64 bits. -/
def wrappingLoad : List UInt8 :=
  [1, 0, 0, 0, 4, 0, 0, 0] ++ List.replicate 8 255 ++ List.replicate 16 0 ++
  [0, 1, 0, 0, 0, 0, 0, 0] ++ List.replicate 16 0

/-- The dynamic segment, and its array: a string table at address 1. -/
def wrappingDynamic : List UInt8 :=
  [2, 0, 0, 0, 4, 0, 0, 0] ++ [176, 0, 0, 0, 0, 0, 0, 0] ++
  List.replicate 16 0 ++ [32, 0, 0, 0, 0, 0, 0, 0] ++ List.replicate 16 0 ++
  [5, 0, 0, 0, 0, 0, 0, 0, 1, 0, 0, 0, 0, 0, 0, 0] ++ List.replicate 16 0

theorem not_neverWraps_wrappingImage :
    ¬ ∀ event ∈ (readElf
        (wrappingHeader ++ wrappingLoad ++ wrappingDynamic)).events,
      event.NeverWraps := by
  decide +kernel

end ElfTrace

end Bomwerk.Binscan
