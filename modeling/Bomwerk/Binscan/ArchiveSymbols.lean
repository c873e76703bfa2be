import Bomwerk.Binscan.ArchiveNames
import Bomwerk.Binscan.ElfLayout
import Mathlib.Data.Finset.Card

/-!
# The GNU symbol index

The index holds a count, a table of that many member offsets, and then the
names.  The reader caps the count and looks for the names behind the capped
part of the table, so that beyond the cap it takes offsets for names.  A name
that reaches the limit for strings ends the reading without a flag.
-/

namespace Bomwerk.Binscan

open Bomwerk.Core Bomwerk.Support

/-! ## Texts behind one another -/

theorem cStringAt_append {before text after : List UInt8} {order : ByteOrder}
    (hnul : 0 ∉ text) (limit : Nat) :
    ByteCursor.cStringAt ⟨before ++ (text ++ 0 :: after), order⟩ before.length
        limit =
      if text.length < limit then some text else none := by
  have hplain : ∀ byte ∈ text, decide (byte ≠ (0 : UInt8)) = true := by
    intro byte hbyte
    rw [decide_eq_true_iff]
    rintro rfl
    exact hnul hbyte
  have hinside : ¬ (before ++ (text ++ 0 :: after)).length < before.length := by
    rw [List.length_append]
    omega
  rw [ByteCursor.cStringAt, ByteCursor.size, if_neg hinside, List.drop_left]
  by_cases hshort : text.length < limit
  · obtain ⟨room, rfl⟩ := Nat.exists_eq_add_of_lt hshort
    have hread : ((text ++ 0 :: after).take (text.length + room + 1)).takeWhile
        (· ≠ 0) = text := by
      rw [Nat.add_assoc, List.take_length_add_append, List.take_succ_cons,
        List.takeWhile_append_of_pos hplain, List.takeWhile_cons_of_neg (by simp),
        List.append_nil]
    have hlength : text.length <
        ((text ++ 0 :: after).take (text.length + room + 1)).length := by
      rw [List.length_take, List.length_append, List.length_cons]
      omega
    simp only [hread]
    rw [if_pos hlength, if_pos hshort]
  · have hread : (text ++ 0 :: after).take limit = text.take limit :=
      List.take_append_of_le_length (not_lt.mp hshort)
    have hwhole : (text.take limit).takeWhile (· ≠ 0) = text.take limit := by
      rw [List.takeWhile_eq_self_iff]
      exact fun byte hbyte => hplain byte (List.mem_of_mem_take hbyte)
    simp only [hread, hwhole]
    rw [if_neg (lt_irrefl _), if_neg hshort]

/-- One name is read, and the next is looked for behind its NUL. -/
theorem indexNames_append {before text after : List UInt8} {order : ByteOrder}
    (hnul : 0 ∉ text) (count : Nat) :
    indexNames ⟨before ++ (text ++ 0 :: after), order⟩ (count + 1)
        before.length =
      if text.length < maxStringLength then
        (if text = [] then [] else [text]) ++
          indexNames ⟨(before ++ (text ++ [0])) ++ after, order⟩ count
            (before ++ (text ++ [0])).length
      else [] := by
  rw [indexNames, cStringAt_append hnul]
  by_cases hshort : text.length < maxStringLength
  · have hbytes : before ++ (text ++ 0 :: after) =
        (before ++ (text ++ [0])) ++ after := by
      simp
    have hnext : before.length + text.length + 1 =
        (before ++ (text ++ [0])).length := by
      simp [Nat.add_assoc]
    simp only [if_pos hshort]
    rw [hbytes, hnext]
  · simp only [if_neg hshort]

def terminated (names : List (List UInt8)) : List UInt8 :=
  names.flatMap (· ++ [0])

/-- The names the reader gets to: those before the first that is too long. -/
def readable (names : List (List UInt8)) : List (List UInt8) :=
  names.takeWhile fun name => name.length < maxStringLength

theorem mem_of_mem_readable {names : List (List UInt8)} {name : List UInt8}
    (hname : name ∈ readable names) : name ∈ names :=
  (List.takeWhile_sublist _).subset hname

/-- The name of a symbol: a text without NULs that no control byte begins. -/
structure IsSymbolName (name : List UInt8) : Prop where
  noNul : 0 ∉ name
  begins : ∃ first ∈ name.head?, 0x20 < first

theorem IsSymbolName.ne_nil {name : List UInt8} (hname : IsSymbolName name) :
    name ≠ [] := by
  rintro rfl
  obtain ⟨first, hfirst, -⟩ := hname.begins
  simp at hfirst

/-- Names that stand behind one another are read in order. -/
theorem indexNames_terminated {before after : List UInt8}
    {names : List (List UInt8)} {count : Nat}
    (hnames : ∀ name ∈ names, IsSymbolName name)
    (hcount : count ≤ names.length) (order : ByteOrder) :
    indexNames ⟨before ++ (terminated names ++ after), order⟩ count
        before.length =
      readable (names.take count) := by
  induction count generalizing before names with
  | zero => simp [indexNames, readable]
  | succ count ih =>
    cases names with
    | nil => simp at hcount
    | cons name names =>
      have hname := hnames name List.mem_cons_self
      have hbytes : before ++ (terminated (name :: names) ++ after) =
          before ++ (name ++ 0 :: (terminated names ++ after)) := by
        simp [terminated]
      have hrest := @ih (before ++ (name ++ [0])) names
        (fun other hother => hnames other (List.mem_cons_of_mem _ hother))
        (Nat.le_of_succ_le_succ hcount)
      rw [hbytes, indexNames_append hname.noNul, hrest,
        if_neg hname.ne_nil, List.take_succ_cons, readable, readable,
        List.takeWhile_cons]
      simp only [decide_eq_true_eq, List.singleton_append]

section

variable {values : List (List UInt8)} {maximum : Nat} {value : List UInt8}

theorem nodup_normalized (values : List (List UInt8)) :
    (normalized values).Nodup := by
  refine (isSortedSet_normalized values).ascending.imp ?_
  rintro left _ hlt rfl
  exact lt_irrefl _ hlt

theorem length_normalized (values : List (List UInt8)) :
    (normalized values).length = values.toFinset.card := by
  have hmem := (isSortedSet_normalized values).mem_iff
  have hset : (normalized values).toFinset = values.toFinset := by
    ext value
    simp only [List.mem_toFinset, hmem]
  rw [← hset, List.toFinset_card_of_nodup (nodup_normalized values)]

theorem nodup_normalizeAndCap (values : List (List UInt8)) (maximum : Nat) :
    (normalizeAndCap values maximum).1.Nodup := by
  have hnodup := nodup_normalized values
  simp only [normalizeAndCap]
  split_ifs
  · exact hnodup
  · exact (List.take_sublist _ _).nodup hnodup

theorem normalizeAndCap_capped_iff :
    (normalizeAndCap values maximum).2 = true ↔
      maximum < values.toFinset.card := by
  rw [← length_normalized]
  simp only [normalizeAndCap]
  split_ifs with hfits
  · simp [hfits]
  · simp [not_le.mp hfits]

theorem length_normalizeAndCap (hcapped : maximum < values.toFinset.card) :
    (normalizeAndCap values maximum).1.length = maximum := by
  rw [← length_normalized] at hcapped
  simp only [normalizeAndCap, if_neg (not_le.mpr hcapped), List.length_take]
  omega

/-- Every kept value is smaller than another exactly when there are as many
smaller ones. -/
theorem forall_kept_lt_iff (hcapped : maximum < values.toFinset.card) :
    (∀ kept ∈ (normalizeAndCap values maximum).1,
        byteKey kept < byteKey value) ↔
      maximum ≤
        (values.filter fun other => byteKey other < byteKey value).toFinset.card
    := by
  have hlength := length_normalizeAndCap hcapped
  have hnodup := nodup_normalizeAndCap values maximum
  have hcard := List.toFinset_card_of_nodup hnodup
  constructor
  · intro hlt
    rw [← hlength, ← hcard]
    refine Finset.card_le_card ?_
    intro kept hkept
    rw [List.mem_toFinset] at hkept
    rw [List.mem_toFinset, List.mem_filter, decide_eq_true_iff]
    exact ⟨mem_of_mem_normalizeAndCap hkept, hlt kept hkept⟩
  · intro hmany kept hkept
    by_contra hge
    -- the smaller values are then all kept, beside one that is none of them
    have hsubset : (values.filter fun other =>
        byteKey other < byteKey value).toFinset ⊆
          (normalizeAndCap values maximum).1.toFinset.erase kept := by
      intro other hother
      rw [List.mem_toFinset, List.mem_filter, decide_eq_true_iff] at hother
      have hbefore := lt_of_lt_of_le hother.2 (not_lt.mp hge)
      rw [Finset.mem_erase, List.mem_toFinset]
      refine ⟨?_, ?_⟩
      · rintro rfl
        exact lt_irrefl _ hbefore
      · rcases @mem_normalizeAndCap_or _ maximum _ hother.1 with
          hin | hout
        · exact hin
        · exact absurd (hout.2.1 kept hkept) (lt_asymm hbefore)
    have hle := Finset.card_le_card hsubset
    rw [Finset.card_erase_of_mem (List.mem_toFinset.mpr hkept), hcard, hlength]
      at hle
    have hpos : 0 < maximum := by
      rw [← hlength]
      exact List.length_pos_of_mem hkept
    omega

end

/-! ## The index -/

/-- A symbol index as `ar` writes it, but for the member offsets: the names, and
what fills the member behind them. -/
structure GnuSymbolIndex where
  wide : Bool
  names : List (List UInt8)
  padding : List UInt8
  count_fits : names.length < 256 ^ (if wide then 8 else 4)
  isSymbolName : ∀ name ∈ names, IsSymbolName name

namespace GnuSymbolIndex

variable (index : GnuSymbolIndex)

/-- The width of the count and of each offset. -/
def width : Nat := if index.wide then 8 else 4

def table (offsets : Nat → Nat) (count : Nat) : List UInt8 :=
  (List.range count).flatMap fun symbol =>
    putUint true (offsets symbol) index.width

/-- The member's data with an offset for each name. -/
def contents (offsets : Nat → Nat) : List UInt8 :=
  putUint true index.names.length index.width ++
    (index.table offsets index.names.length ++
      (terminated index.names ++ index.padding))

/-- The archive with the index in front. -/
def into (archive : Archive) (metadata : MemberMetadata)
    (offsets : Nat → Nat) : Archive :=
  { archive with
    index := some ⟨if index.wide then .gnu64 else .gnu, index.contents offsets,
      metadata⟩ }

variable {index}

theorem length_table (offsets : Nat → Nat) (count : Nat) :
    (index.table offsets count).length = index.width * count := by
  simp [table, Nat.mul_comm]

theorem table_add (offsets : Nat → Nat) (first more : Nat) :
    index.table offsets (first + more) = index.table offsets first ++
        index.table (fun symbol => offsets (first + symbol)) more := by
  rw [table, table, table, List.range_add, List.flatMap_append,
    List.flatMap_map]

theorem length_contents (offsets : Nat → Nat) :
    (index.contents offsets).length = index.width +
      (index.width * index.names.length +
        (terminated index.names ++ index.padding).length) := by
  rw [contents, List.length_append, List.length_append, length_putUint,
    length_table]

theorem declaredCount_contents (offsets : Nat → Nat) :
    ByteCursor.uintAt ⟨index.contents offsets, .big⟩ 0
        (if index.wide then IntegerWidth.eightBytes else .fourBytes) =
      some index.names.length := by
  have hbound := index.count_fits
  have hwidth : (if index.wide then IntegerWidth.eightBytes
      else .fourBytes).byteCount = index.width := by
    rw [width]
    split_ifs <;> rfl
  exact @ByteCursor.uintAt_putUint_append true _ _ _ hwidth hbound _

/-- The offset from which the reader looks for names. -/
def nameOffset (index : GnuSymbolIndex) : Nat :=
  index.width + index.width * min index.names.length maxSymbolTableEntries

def readNames (index : GnuSymbolIndex) (offsets : Nat → Nat) :
    List (List UInt8) :=
  indexNames ⟨index.contents offsets, .big⟩
    (min index.names.length maxSymbolTableEntries) index.nameOffset

theorem readGnuSymbolIndex_contents (offsets : Nat → Nat)
    (out : ArchiveContents) :
    readGnuSymbolIndex (index.contents offsets) index.wide out =
      { out with
        indexedSymbols := (normalizeAndCap
          (out.indexedSymbols ++ index.readNames offsets) maxSymbolSample).1
        symbolsTruncated := (normalizeAndCap
            (out.indexedSymbols ++ index.readNames offsets)
              maxSymbolSample).2 ||
          out.symbolsTruncated ||
          decide (maxSymbolTableEntries < index.names.length) } := by
  have hcapped : (if maxSymbolTableEntries < index.names.length then
      maxSymbolTableEntries else index.names.length) =
        min index.names.length maxSymbolTableEntries := by
    split_ifs <;> omega
  have hwidth : (if index.wide then IntegerWidth.eightBytes
      else .fourBytes).byteCount = index.width := by
    rw [width]
    split_ifs <;> rfl
  have hflag : decide (index.names.length ≠
      min index.names.length maxSymbolTableEntries) =
        decide (maxSymbolTableEntries < index.names.length) := by
    congr 1
    rw [eq_iff_iff]
    omega
  simp only [readGnuSymbolIndex, declaredCount_contents, hcapped, hwidth, hflag]
  rfl

theorem readNames_of_le (offsets : Nat → Nat)
    (hcap : index.names.length ≤ maxSymbolTableEntries) :
    index.readNames offsets = readable index.names := by
  have hbefore : (putUint true index.names.length index.width ++
      index.table offsets index.names.length).length = index.nameOffset := by
    rw [List.length_append, length_putUint, length_table, nameOffset,
      min_eq_left hcap]
  have hnames := @indexNames_terminated
    (putUint true index.names.length index.width ++
      index.table offsets index.names.length) index.padding index.names
    index.names.length index.isSymbolName (le_refl _) .big
  rw [hbefore, List.take_length, List.append_assoc] at hnames
  rw [readNames, min_eq_left hcap, contents]
  exact hnames

/-- An offset whose bytes are all the same, and none of them NUL. -/
def onesOffset : Nat := 0x0101010101010101

theorem table_onesOffset (count : Nat) :
    index.table (fun _ => onesOffset) count =
      List.replicate (index.width * count) 1 := by
  have hones : putUint true onesOffset index.width =
      List.replicate index.width 1 := by
    rw [width]
    cases index.wide <;> decide
  induction count with
  | zero => rfl
  | succ count ih =>
    have hone : index.table (fun _ => onesOffset) 1 =
        List.replicate index.width 1 := by
      simp [table, hones]
    rw [table_add, ih, hone, Nat.mul_succ, List.replicate_add]

/-- Beyond the cap, the offsets left over are read with the first name. -/
theorem readNames_onesOffset
    (hcap : maxSymbolTableEntries < index.names.length) :
    ∃ name ∈ index.names.take maxSymbolTableEntries,
      index.readNames (fun _ => onesOffset) = [] ∨ 1 :: (List.replicate
          (index.width * (index.names.length - maxSymbolTableEntries) - 1) 1 ++
            name) ∈ index.readNames fun _ => onesOffset := by
  obtain ⟨more, hmore⟩ := Nat.exists_eq_add_of_lt hcap
  have hcount : index.names.length = maxSymbolTableEntries + (more + 1) := by
    omega
  obtain ⟨name, names, hnames⟩ : ∃ name names, index.names = name :: names :=
    List.exists_cons_of_length_pos (by omega)
  have hname := index.isSymbolName name (by rw [hnames]; exact List.mem_cons_self)
  have hwidth : 0 < index.width := by
    rw [width]
    split_ifs <;> decide
  obtain ⟨left, hleft⟩ : ∃ left, index.width * (more + 1) = left + 1 :=
    Nat.exists_eq_succ_of_ne_zero (Nat.mul_pos hwidth more.succ_pos).ne'
  have hnul : (0 : UInt8) ∉ 1 :: (List.replicate left 1 ++ name) := by
    simp [hname.noNul]
  have hcontents : index.contents (fun _ => onesOffset) =
      (putUint true index.names.length index.width ++
        index.table (fun _ => onesOffset) maxSymbolTableEntries) ++
      ((1 :: (List.replicate left 1 ++ name)) ++
        0 :: (terminated names ++ index.padding)) := by
    have hterminated : terminated index.names =
        name ++ 0 :: terminated names := by
      simp [hnames, terminated]
    have htable : index.table (fun _ => onesOffset) index.names.length =
        index.table (fun _ => onesOffset) maxSymbolTableEntries ++
          1 :: List.replicate left 1 := by
      rw [hcount, table_add]
      simp only [table_onesOffset, hleft]
      rfl
    rw [contents, htable, hterminated]
    simp only [List.append_assoc, List.cons_append]
  have hbefore : (putUint true index.names.length index.width ++
      index.table (fun _ => onesOffset) maxSymbolTableEntries).length =
        index.nameOffset := by
    rw [List.length_append, length_putUint, length_table, nameOffset,
      min_eq_right hcap.le]
  have hread := @indexNames_append
    (putUint true index.names.length index.width ++
      index.table (fun _ => onesOffset) maxSymbolTableEntries) _
    (terminated names ++ index.padding) .big hnul
    (maxSymbolTableEntries - 1)
  rw [hbefore, ← hcontents] at hread
  refine ⟨name, ?_, ?_⟩
  · rw [hnames]
    exact List.mem_cons_self
  · have hfirst : index.width * (index.names.length - maxSymbolTableEntries) -
        1 = left := by
      rw [hcount, Nat.add_sub_cancel_left, hleft, Nat.add_sub_cancel]
    have hcapped : min index.names.length maxSymbolTableEntries =
        maxSymbolTableEntries - 1 + 1 := by
      rw [min_eq_right hcap.le]
      rfl
    rw [hfirst, readNames, hcapped, hread]
    split_ifs with hshort hempty
    · simp at hempty
    · exact Or.inr (List.mem_append_left _ List.mem_cons_self)
    · exact Or.inl rfl

end GnuSymbolIndex

namespace ArchiveReader

theorem recordMember_symbols (reader : ArchiveReader)
    {rawName : List UInt8} (data : List UInt8)
    (hname : rawName ≠ gnuSymbolIndexName ∧ rawName ≠ gnuSymbolIndex64Name) :
    (reader.recordMember rawName data).out.indexedSymbols =
        reader.out.indexedSymbols ∧
      (reader.recordMember rawName data).out.symbolsTruncated =
        reader.out.symbolsTruncated := by
  rw [recordMember, if_neg (not_or.mpr hname)]
  split_ifs
  · exact ⟨rfl, rfl⟩
  · exact ⟨rfl, rfl⟩
  · split <;> exact ⟨rfl, rfl⟩

theorem recordMembers_symbols {records : List MemberRecord}
    (hnames : ∀ record ∈ records, record.rawName ≠ gnuSymbolIndexName ∧
      record.rawName ≠ gnuSymbolIndex64Name)
    (reader : ArchiveReader) :
    (reader.recordMembers records).out.indexedSymbols =
        reader.out.indexedSymbols ∧
      (reader.recordMembers records).out.symbolsTruncated =
        reader.out.symbolsTruncated := by
  induction records generalizing reader with
  | nil => exact ⟨rfl, rfl⟩
  | cons record records ih =>
    obtain ⟨hsymbols, htruncated⟩ := reader.recordMember_symbols record.data
      (hnames record List.mem_cons_self)
    obtain ⟨hrest, hrest'⟩ := ih
      (fun other hother => hnames other (List.mem_cons_of_mem _ hother))
      (reader.recordMember record.rawName record.data)
    rw [recordMembers] at hrest hrest'
    rw [recordMembers, List.foldl_cons, hrest, hrest', hsymbols, htruncated]
    exact ⟨rfl, rfl⟩

end ArchiveReader

/-! ## What is reported -/

/-- The symbols reported are names of the index; a name up to the cap that is
not reported stands behind a full sample; and what is left out is flagged. -/
structure ReportsNames (names : List (List UInt8))
    (contents : ArchiveContents) : Prop where
  stored : ∀ symbol ∈ contents.indexedSymbols, symbol ∈ names
  reported : ∀ name ∈ names.take maxSymbolTableEntries,
    name ∈ contents.indexedSymbols ∨
      contents.indexedSymbols.length = maxSymbolSample ∧
        ∀ symbol ∈ contents.indexedSymbols, byteKey symbol < byteKey name
  flagged : (maxSymbolTableEntries < names.length ∨
      ∃ name ∈ names, name ∉ contents.indexedSymbols) →
    contents.symbolsTruncated = true

/-- A full sample of smaller names is kept, and there is one more name. -/
def StandsBehindSample (names : List (List UInt8)) (name : List UInt8) : Prop :=
  maxSymbolSample < (readable names).toFinset.card ∧
    maxSymbolSample ≤ ((readable names).filter fun other =>
      byteKey other < byteKey name).toFinset.card

def Archive.HasNoIndexMember (archive : Archive) : Prop :=
  ∀ record ∈ archive.memberRecords, record.rawName ≠ gnuSymbolIndexName ∧
    record.rawName ≠ gnuSymbolIndex64Name

namespace GnuSymbolIndex

variable {index : GnuSymbolIndex} {archive : Archive}
  {metadata : MemberMetadata}

/-- The index as a record of an archive. -/
def record (index : GnuSymbolIndex) (metadata : MemberMetadata)
    (offsets : Nat → Nat) : MemberRecord :=
  ⟨(if index.wide then SymbolIndexName.gnu64 else .gnu).field,
    index.contents offsets, metadata⟩

def behind (archive : Archive) : List MemberRecord :=
  (if archive.table = [] then []
    else [⟨gnuLongNameTableName, archive.table, archive.tableMetadata⟩]) ++
      archive.memberRecords

theorem records_into (offsets : Nat → Nat) :
    (index.into archive metadata offsets).records =
      index.record metadata offsets :: behind archive := rfl

theorem length_buildArchive_into (index : GnuSymbolIndex) (archive : Archive)
    (metadata : MemberMetadata) (offsets others : Nat → Nat) :
    (buildArchive (index.into archive metadata offsets)).length =
      (buildArchive (index.into archive metadata others)).length := by
  have hlength : (index.contents offsets).length =
      (index.contents others).length := by
    rw [length_contents, length_contents]
  rw [buildArchive, buildArchive, records_into, records_into]
  simp [record, putMember, putHeader, hlength]

theorem inBounds_into {others : Nat → Nat}
    (hbounds : (index.into archive metadata others).InBounds)
    (offsets : Nat → Nat) :
    (index.into archive metadata offsets).InBounds := by
  refine ⟨?_, hbounds.count, hbounds.names⟩
  rw [length_buildArchive_into index archive metadata offsets others]
  exact hbounds.size

theorem rawName_record (offsets : Nat → Nat) :
    (index.record metadata offsets).rawName =
      if index.wide then gnuSymbolIndex64Name else gnuSymbolIndexName := by
  have hname : trimmedView (putPadded SymbolIndexName.gnu.field
      memberNameLength) = gnuSymbolIndexName := by
    decide +kernel
  have hname64 : trimmedView (putPadded SymbolIndexName.gnu64.field
      memberNameLength) = gnuSymbolIndex64Name := by
    decide +kernel
  rw [MemberRecord.rawName, record]
  split_ifs
  · exact hname64
  · exact hname

theorem recordMember_record (offsets : Nat → Nat) :
    ({} : ArchiveReader).recordMember (index.record metadata offsets).rawName
        (index.record metadata offsets).data =
      { ({} : ArchiveReader) with
        sawSymbolIndex := true
        out := readGnuSymbolIndex (index.contents offsets) index.wide
          ({} : ArchiveReader).out } := by
  rw [rawName_record]
  cases hwide : index.wide <;> rfl

theorem rawName_behind (honly : archive.HasNoIndexMember) :
    ∀ record ∈ behind archive, record.rawName ≠ gnuSymbolIndexName ∧
      record.rawName ≠ gnuSymbolIndex64Name := by
  intro record hrecord
  rcases List.mem_append.mp hrecord with htable | hmember
  · split_ifs at htable
    · simp at htable
    · rw [List.mem_singleton] at htable
      subst htable
      have hname : MemberRecord.rawName ⟨gnuLongNameTableName, archive.table,
          archive.tableMetadata⟩ = gnuLongNameTableName :=
        Archive.field_gnuLongNameTableName.2.2
      rw [hname]
      decide
  · exact honly record hmember

theorem symbols_readArchive {offsets : Nat → Nat}
    (hbounds : (index.into archive metadata offsets).InBounds)
    (honly : archive.HasNoIndexMember) (path : String) :
    (readArchive path (some (buildArchive
        (index.into archive metadata offsets)))).value.indexedSymbols =
        (normalizeAndCap (index.readNames offsets) maxSymbolSample).1 ∧
      (readArchive path (some (buildArchive
        (index.into archive metadata offsets)))).value.symbolsTruncated =
        ((normalizeAndCap (index.readNames offsets) maxSymbolSample).2 ||
          decide (maxSymbolTableEntries < index.names.length)) := by
  have hall := ArchiveReader.recordMembers_symbols (rawName_behind honly)
    { ({} : ArchiveReader) with
      sawSymbolIndex := true
      out := readGnuSymbolIndex (index.contents offsets) index.wide
        ({} : ArchiveReader).out }
  have hread : ({} : ArchiveReader).recordMembers
      (index.into archive metadata offsets).records =
        ArchiveReader.recordMembers
          { ({} : ArchiveReader) with
            sawSymbolIndex := true
            out := readGnuSymbolIndex (index.contents offsets) index.wide
              ({} : ArchiveReader).out } (behind archive) := by
    rw [records_into, ArchiveReader.recordMembers, List.foldl_cons,
      recordMember_record]
    rfl
  rw [← hread, readGnuSymbolIndex_contents] at hall
  rw [Archive.value_readArchive_buildArchive hbounds]
  simp only [ArchiveReader.read, Archive.readMembers_buildArchive hbounds]
  simpa using hall

theorem byteKey_lt_of_isSymbolName {name : List UInt8}
    (hname : IsSymbolName name) (rest : List UInt8) :
    byteKey (1 :: rest) < byteKey name := by
  obtain ⟨first, hfirst, hlow⟩ := hname.begins
  cases name with
  | nil => simp at hfirst
  | cons byte others =>
    obtain rfl : byte = first := by simpa using hfirst
    rw [UInt8.lt_iff_toNat_lt] at hlow
    have hword : (0x20 : UInt8).toNat = 32 := rfl
    have hone : (1 : UInt8).toNat = 1 := rfl
    rw [byteKey, byteKey, List.map_cons, List.map_cons]
    exact List.Lex.rel (by omega)

/-- Beyond the cap, some table of offsets is taken for names. -/
theorem not_reportsNames_of_lt
    (hbounds : (index.into archive metadata fun _ => onesOffset).InBounds)
    (honly : archive.HasNoIndexMember)
    (hcap : maxSymbolTableEntries < index.names.length) (path : String) :
    ¬ ReportsNames index.names (readArchive path (some (buildArchive
      (index.into archive metadata fun _ => onesOffset)))).value := by
  intro hreports
  obtain ⟨hsymbols, -⟩ := symbols_readArchive hbounds honly path
  obtain ⟨name, hname, hread⟩ := readNames_onesOffset hcap
  have hstored := hreports.stored
  rw [hsymbols] at hstored
  rcases hread with hnone | hread
  · -- the text is too long for a string, and nothing is read
    rcases hreports.reported name hname with hkept | ⟨hfull, -⟩
    · rw [hsymbols, hnone] at hkept
      exact List.not_mem_nil (mem_of_mem_normalizeAndCap hkept)
    · rw [hsymbols, hnone] at hfull
      exact absurd hfull (by decide)
  · rcases @mem_normalizeAndCap_or _ maxSymbolSample _ hread with
      hkept | ⟨hfull, hlt, -⟩
    · have hsymbol := index.isSymbolName _ (hstored _ hkept)
      exact lt_irrefl _ (byteKey_lt_of_isSymbolName hsymbol _)
    · obtain ⟨kept, hkept⟩ := List.exists_mem_of_length_pos
        (lt_of_lt_of_eq (by decide : 0 < maxSymbolSample) hfull.symm)
      have hsymbol := index.isSymbolName _ (hstored _ hkept)
      exact lt_asymm (hlt kept hkept) (byteKey_lt_of_isSymbolName hsymbol _)

/-- Up to the cap, the names are reported when those the reader does not get to
stand behind the sample. -/
theorem reportsNames_iff_of_le {offsets : Nat → Nat}
    (hbounds : (index.into archive metadata offsets).InBounds)
    (honly : archive.HasNoIndexMember)
    (hcap : index.names.length ≤ maxSymbolTableEntries) (path : String) :
    ReportsNames index.names (readArchive path (some (buildArchive
        (index.into archive metadata offsets)))).value ↔
      ∀ name ∈ index.names,
        name ∈ readable index.names ∨ StandsBehindSample index.names name := by
  obtain ⟨hsymbols, htruncated⟩ := symbols_readArchive hbounds honly path
  rw [readNames_of_le offsets hcap] at hsymbols htruncated
  have hall : index.names.take maxSymbolTableEntries = index.names :=
    List.take_of_length_le hcap
  constructor
  · intro hreports name hname
    have hreported := hreports.reported name (by rw [hall]; exact hname)
    rw [hsymbols] at hreported
    rcases hreported with hkept | ⟨-, hlt⟩
    · exact Or.inl (mem_of_mem_normalizeAndCap hkept)
    · have hout : name ∉ (normalizeAndCap (readable index.names)
          maxSymbolSample).1 := fun hkept => lt_irrefl _ (hlt name hkept)
      have hflagged := hreports.flagged
        (Or.inr ⟨name, hname, by rw [hsymbols]; exact hout⟩)
      rw [htruncated, decide_eq_false (not_lt.mpr hcap), Bool.or_false,
        normalizeAndCap_capped_iff] at hflagged
      exact Or.inr ⟨hflagged, (forall_kept_lt_iff hflagged).mp hlt⟩
  · intro hnames
    have houtside : ∀ name ∈ index.names,
        name ∈ (normalizeAndCap (readable index.names) maxSymbolSample).1 ∨
          (normalizeAndCap (readable index.names) maxSymbolSample).1.length =
              maxSymbolSample ∧
            (∀ kept ∈
              (normalizeAndCap (readable index.names) maxSymbolSample).1,
              byteKey kept < byteKey name) ∧
            (normalizeAndCap (readable index.names) maxSymbolSample).2 =
              true := by
      intro name hname
      rcases hnames name hname with hread | ⟨hcapped, hmany⟩
      · exact mem_normalizeAndCap_or hread
      · refine Or.inr ⟨?_, (forall_kept_lt_iff hcapped).mpr hmany,
          normalizeAndCap_capped_iff.mpr hcapped⟩
        exact length_normalizeAndCap hcapped
    refine ⟨?_, ?_, ?_⟩
    · rw [hsymbols]
      intro symbol hsymbol
      exact mem_of_mem_readable (mem_of_mem_normalizeAndCap hsymbol)
    · rw [hsymbols, hall]
      intro name hname
      exact (houtside name hname).imp_right fun h => ⟨h.1, h.2.1⟩
    · rw [hsymbols, htruncated]
      rintro (hbeyond | ⟨name, hname, hout⟩)
      · exact absurd hbeyond (not_lt.mpr hcap)
      · rcases houtside name hname with hkept | ⟨-, -, hcapped⟩
        · exact absurd hkept hout
        · rw [hcapped, Bool.true_or]

/-- The index is reported whatever its offsets exactly when it has no more names
than the cap, and none the reader does not get to would belong to the sample. -/
theorem reportsNames_iff (index : GnuSymbolIndex) (archive : Archive)
    (metadata : MemberMetadata)
    (hbounds : (index.into archive metadata fun _ => 0).InBounds)
    (honly : archive.HasNoIndexMember) (path : String) :
    (∀ offsets, ReportsNames index.names (readArchive path (some (buildArchive
        (index.into archive metadata offsets)))).value) ↔
      index.names.length ≤ maxSymbolTableEntries ∧
        ∀ name ∈ index.names,
          name ∈ readable index.names ∨
            StandsBehindSample index.names name := by
  constructor
  · intro hreports
    have hcap : index.names.length ≤ maxSymbolTableEntries := by
      by_contra hbeyond
      exact not_reportsNames_of_lt (inBounds_into hbounds _) honly
        (not_le.mp hbeyond) path (hreports _)
    exact ⟨hcap, (reportsNames_iff_of_le hbounds honly hcap path).mp
      (hreports _)⟩
  · rintro ⟨hcap, hnames⟩ offsets
    exact (reportsNames_iff_of_le (inBounds_into hbounds offsets) honly hcap
      path).mpr hnames

/-- An archive of one object, `a.o`. -/
def oneObject : Archive :=
  { spelling := .gnu false
    members := [⟨[0x61, 0x2E, 0x6F], [0x78], Archive.plainMetadata⟩]
    index := none
    tableMetadata := Archive.plainMetadata }

/-- The name `f`, for one symbol more than the cap. -/
def overfull : GnuSymbolIndex where
  wide := false
  names := List.replicate (maxSymbolTableEntries + 1) [0x66]
  padding := []
  count_fits := by
    rw [List.length_replicate]
    decide
  isSymbolName := by
    intro name hname
    rw [List.eq_of_mem_replicate hname]
    exact ⟨by decide, 0x66, rfl, by decide⟩

def objectOffset : Nat := 1200078

theorem names_overfull :
    overfull.names = [0x66] :: List.replicate maxSymbolTableEntries [0x66] :=
  List.replicate_succ

theorem length_terminated_replicate (count : Nat) :
    (terminated (List.replicate count [0x66])).length = 2 * count := by
  simp [terminated, Nat.mul_comm]

theorem length_contents_overfull (offsets : Nat → Nat) :
    (overfull.contents offsets).length = 1200010 := by
  have hcount : overfull.names.length = 200001 := List.length_replicate
  have hnames : (terminated overfull.names).length = 2 * 200001 :=
    length_terminated_replicate (maxSymbolTableEntries + 1)
  have hwidth : overfull.width = 4 := rfl
  have hpadding : overfull.padding.length = 0 := rfl
  rw [length_contents, List.length_append, hcount, hnames, hwidth, hpadding]

theorem holds_oneObject : ∀ member ∈ oneObject.members,
    oneObject.spelling.Holds member.name := by
  intro member hmember
  rw [oneObject, List.mem_singleton] at hmember
  rw [hmember]
  exact ⟨by decide, by decide, by decide⟩

theorem hasNoIndexMember_oneObject : oneObject.HasNoIndexMember := by
  have hrecords : oneObject.memberRecords = [⟨[0x61, 0x2E, 0x6F, 0x2F], [0x78],
      Archive.plainMetadata⟩] := by
    rfl
  intro record hrecord
  rw [hrecords, List.mem_singleton] at hrecord
  rw [hrecord]
  decide +kernel

theorem inBounds_overfull (offsets : Nat → Nat) :
    (overfull.into oneObject Archive.plainMetadata offsets).InBounds := by
  refine ⟨?_, (by decide : 1 ≤ maxArchiveMembers), holds_oneObject⟩
  · have hindex : (overfull.record Archive.plainMetadata offsets).Fits := by
      refine ⟨(by decide : gnuSymbolIndexName.length ≤ memberNameLength), ?_⟩
      rw [record, length_contents_overfull]
      decide
    have hbehind : ((behind oneObject).flatMap putMember).length ≤ 1000 := by
      decide +kernel
    have hmagic : archiveMagic.length = 8 := rfl
    rw [buildArchive, records_into, List.flatMap_cons, List.length_append,
      List.length_append, length_putMember hindex, record,
      length_contents_overfull, memberHeaderSize, memberAlignment, maxBinaryBytes]
    omega

/-- What is read for the first names: the rest of an offset and a name. -/
theorem readNames_overfull :
    [0x12, 0x4F, 0xCE, 0x66] ∈ overfull.readNames fun _ => objectOffset := by
  have hcontents : overfull.contents (fun _ => objectOffset) =
      (putUint true (maxSymbolTableEntries + 1) 4 ++
        overfull.table (fun _ => objectOffset) maxSymbolTableEntries) ++
      ([] ++ 0 :: ([0x12, 0x4F, 0xCE, 0x66] ++ 0 ::
        terminated (List.replicate maxSymbolTableEntries [0x66]))) := by
    have hone : overfull.table (fun _ => objectOffset) 1 =
        [0x00, 0x12, 0x4F, 0xCE] := by
      decide
    have hcount : overfull.names.length = maxSymbolTableEntries + 1 :=
      List.length_replicate
    have hnames : terminated overfull.names =
        0x66 :: 0 :: terminated (List.replicate maxSymbolTableEntries [0x66]) := by
      rw [names_overfull, terminated, List.flatMap_cons]
      rfl
    have hwidth : overfull.width = 4 := rfl
    have hpadding : overfull.padding = [] := rfl
    rw [contents, hcount, table_add, hone, hnames, hwidth, hpadding]
    simp only [List.append_assoc, List.cons_append, List.nil_append,
      List.append_nil]
  have hoffset : (putUint true (maxSymbolTableEntries + 1) 4 ++
      overfull.table (fun _ => objectOffset) maxSymbolTableEntries).length =
        overfull.nameOffset := by
    have hcount : min overfull.names.length maxSymbolTableEntries =
        maxSymbolTableEntries := by
      rw [names_overfull, List.length_cons, List.length_replicate]
      omega
    have hwidth : overfull.width = 4 := rfl
    rw [List.length_append, length_putUint, length_table, nameOffset, hcount,
      hwidth]
  have hcapped : min overfull.names.length maxSymbolTableEntries =
      199998 + 1 + 1 := by
    rw [names_overfull, List.length_cons, List.length_replicate]
    rfl
  rw [readNames, hcapped, hcontents, ← hoffset, indexNames_append (by simp),
    if_pos (by decide), if_pos rfl, List.nil_append, List.nil_append,
    indexNames_append (by decide), if_pos (by decide), if_neg (by decide)]
  exact List.mem_append_left _ List.mem_cons_self

/-- The rest of an offset is reported. -/
theorem not_reportsNames_overfull :
    ¬ ReportsNames overfull.names (readArchive "libf.a" (some (buildArchive
      (overfull.into oneObject Archive.plainMetadata
        fun _ => objectOffset)))).value := by
  intro hreports
  obtain ⟨hsymbols, -⟩ := symbols_readArchive
    (inBounds_overfull fun _ => objectOffset)
    hasNoIndexMember_oneObject "libf.a"
  have hstored := hreports.stored
  rw [hsymbols] at hstored
  rcases @mem_normalizeAndCap_or _ maxSymbolSample _ readNames_overfull with
    hkept | ⟨hfull, hlt, -⟩
  · have hname := List.eq_of_mem_replicate (hstored _ hkept)
    exact absurd hname (by decide)
  · obtain ⟨kept, hkept⟩ := List.exists_mem_of_length_pos
      (lt_of_lt_of_eq (by decide : 0 < maxSymbolSample) hfull.symm)
    have hname := List.eq_of_mem_replicate (hstored _ hkept)
    have hbefore := hlt kept hkept
    rw [hname] at hbefore
    exact absurd hbefore (by decide)

/-- `f` and `g`, in words of eight bytes. -/
def twoNames : GnuSymbolIndex where
  wide := true
  names := [[0x66], [0x67]]
  padding := [0]
  count_fits := by decide
  isSymbolName := by
    intro name hname
    simp only [List.mem_cons, List.not_mem_nil, or_false] at hname
    rcases hname with rfl | rfl
    · exact ⟨by decide, 0x66, rfl, by decide⟩
    · exact ⟨by decide, 0x67, rfl, by decide⟩

theorem reportsNames_iff_twoNames :
    (∀ offsets, ReportsNames twoNames.names (readArchive "libf.a"
        (some (buildArchive (twoNames.into oneObject Archive.plainMetadata
          offsets)))).value) ↔
      twoNames.names.length ≤ maxSymbolTableEntries ∧
        ∀ name ∈ twoNames.names,
          name ∈ readable twoNames.names ∨
            StandsBehindSample twoNames.names name := by
  apply reportsNames_iff
  · exact ⟨by decide +kernel, by decide, holds_oneObject⟩
  · exact hasNoIndexMember_oneObject

end GnuSymbolIndex

end Bomwerk.Binscan
