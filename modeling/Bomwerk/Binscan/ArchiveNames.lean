import Bomwerk.Binscan.ArchiveBuilder

/-!
# Member names

Which names of an archive come back as they were stored.  A `//` table ends its
names at a slash and a newline, and the reader ends them at the first slash.
-/

namespace Bomwerk.Binscan

open Bomwerk.Core Bomwerk.Support

/-- The names of a symbol index; no object member has one. -/
def IsIndexName (name : List UInt8) : Prop := bsdSymbolIndexName <+: name

instance (name : List UInt8) : Decidable (IsIndexName name) :=
  inferInstanceAs (Decidable (bsdSymbolIndexName <+: name))

theorem takeWhile_eq_self_of_plain {name : List UInt8} (hslash : 0x2F ∉ name)
    (hline : 0x0A ∉ name) :
    (name.takeWhile fun byte => byte ≠ 0x2F ∧ byte ≠ 0x0A) = name := by
  rw [List.takeWhile_eq_self_iff]
  intro byte hbyte
  rw [decide_eq_true_iff]
  constructor
  · rintro rfl
    exact hslash hbyte
  · rintro rfl
    exact hline hbyte

namespace NameSpelling

/-- A name in the header that no other spelling of a name looks like. -/
def KeepsSlashed (name : List UInt8) : Prop :=
  (∀ byte ∈ name.head?, isAsciiWhitespace byte = false ∧ byte ≠ 0x2F) ∧
    ¬ bsdLongNamePrefix <+: name ++ [0x2F]

/-- The name comes back as it was stored, or belongs to an index and does not
come back. -/
def Keeps (spelling : NameSpelling) (name : List UInt8) : Prop :=
  match spelling, spelling.isLong name with
  | gnu _, true => 0x2F ∉ name ∧ 0x0A ∉ name ∧ ¬ IsIndexName name
  | gnu _, false => IsIndexName name ∨ KeepsSlashed name
  | bsd _ _, true => ¬ IsIndexName name
  | bsd _ _, false =>
    IsIndexName name ∨ name.head? ≠ some 0x2F ∧ name.getLast? ≠ some 0x2F

/-- The record of a member, in each of the four spellings. -/
inductive Spelled (table : List UInt8) (member : ArchiveMember) :
    NameSpelling → MemberRecord → Prop
  | inTable {force : Bool} {offset : Nat}
      (hlong : (gnu force).isLong member.name = true)
      (hat : IsAt table offset (tableEntry member.name)) :
      Spelled table member (gnu force)
        ⟨0x2F :: decimal offset, member.data, member.metadata⟩
  | slashed {force : Bool} (hshort : (gnu force).isLong member.name = false) :
      Spelled table member (gnu force)
        ⟨member.name ++ [0x2F], member.data, member.metadata⟩
  | extended {shortNames : Bool} {padding : Nat → Nat}
      (hlong : (bsd shortNames padding).isLong member.name = true) :
      Spelled table member (bsd shortNames padding)
        ⟨bsdLongNamePrefix ++ decimal (storedName padding member.name).length,
          storedName padding member.name ++ member.data, member.metadata⟩
  | bare {shortNames : Bool} {padding : Nat → Nat}
      (hshort : (bsd shortNames padding).isLong member.name = false) :
      Spelled table member (bsd shortNames padding)
        ⟨member.name, member.data, member.metadata⟩

theorem longNameTable_cons (force : Bool) (member : ArchiveMember)
    (members : List ArchiveMember) :
    (gnu force).longNameTable (member :: members) =
      (if (gnu force).isLong member.name then tableEntry member.name else []) ++
        (gnu force).longNameTable members := by
  rw [longNameTable, longNameTable, List.map_cons, List.filter_cons]
  split_ifs
  · rw [List.flatMap_cons]
  · rfl

/-- The records spell the members one by one, with the `//` table of the archive
behind what was filed before. -/
theorem forall₂_spelled (spelling : NameSpelling) {members : List ArchiveMember}
    {table before : List UInt8}
    (htable : spelling.longNameTable members ≠ [] →
      table = before ++ spelling.longNameTable members) :
    List.Forall₂ (fun member record => Spelled table member spelling record)
      members (spelling.records before.length members) := by
  induction members generalizing before with
  | nil =>
    rw [records]
    exact List.Forall₂.nil
  | cons member members ih =>
    cases spelling with
    | gnu force =>
      rw [longNameTable_cons] at htable
      cases hlong : (gnu force).isLong member.name with
      | true =>
        rw [hlong, if_pos rfl] at htable
        have hwhole := htable (by simp [tableEntry])
        have hat : IsAt table before.length (tableEntry member.name) :=
          ⟨before, _, hwhole, rfl⟩
        have hrest := @ih (before ++ tableEntry member.name)
          fun _ => by rw [hwhole, List.append_assoc]
        rw [List.length_append] at hrest
        simp only [records, hlong]
        exact List.Forall₂.cons (.inTable hlong hat) hrest
      | false =>
        rw [hlong, if_neg Bool.false_ne_true, List.nil_append] at htable
        simp only [records, hlong]
        exact List.Forall₂.cons (.slashed hlong) (ih htable)
    | bsd shortNames padding =>
      have hrest := @ih before fun hne => absurd rfl hne
      cases hlong : (bsd shortNames padding).isLong member.name with
      | true =>
        simp only [records, hlong]
        exact List.Forall₂.cons (.extended hlong) hrest
      | false =>
        simp only [records, hlong]
        exact List.Forall₂.cons (.bare hlong) hrest

end NameSpelling

theorem exists_of_forall₂_left {α β : Type*} {R : α → β → Prop} {as : List α}
    {bs : List β} (hall : List.Forall₂ R as bs) {a : α} (ha : a ∈ as) :
    ∃ b ∈ bs, R a b := by
  induction hall with
  | nil => simp at ha
  | cons hfirst _ ih =>
    rcases List.mem_cons.mp ha with rfl | ha
    · exact ⟨_, List.mem_cons_self, hfirst⟩
    · obtain ⟨b, hb, hab⟩ := ih ha
      exact ⟨b, List.mem_cons_of_mem _ hb, hab⟩

theorem exists_of_forall₂_right {α β : Type*} {R : α → β → Prop} {as : List α}
    {bs : List β} (hall : List.Forall₂ R as bs) {b : β} (hb : b ∈ bs) :
    ∃ a ∈ as, R a b :=
  exists_of_forall₂_left hall.flip hb

/-! ## Names in the header -/

/-- A text that ends in a slash is no number. -/
theorem parseDecimalField_slashed (text : List UInt8) :
    parseDecimalField (text ++ [0x2F]) = none := by
  have hdigits : ∀ (digits : List UInt8) (value : Nat),
      parseDigits value (digits ++ [0x2F]) = none := by
    intro digits
    induction digits with
    | nil =>
      intro value
      rw [List.nil_append, parseDigits, if_pos (by decide)]
    | cons digit digits ih =>
      intro value
      rw [List.cons_append, parseDigits]
      simp only [ih, ite_self]
  have hslash : isAsciiWhitespace 0x2F = false := by decide
  have htrimmed := trimmedView_append_blanks text hslash 0
  rw [List.replicate_zero, List.append_nil] at htrimmed
  simp only [parseDecimalField, htrimmed, hdigits, ite_self]

theorem isIndexName_append_slash {name : List UInt8} :
    IsIndexName (name ++ [0x2F]) ↔ IsIndexName name := by
  rw [IsIndexName, IsIndexName, List.prefix_concat_iff]
  constructor
  · rintro (heq | hprefix)
    · have hlast := congrArg List.getLast? heq
      rw [List.getLast?_concat] at hlast
      exact absurd hlast (by decide)
    · exact hprefix
  · exact Or.inr

theorem isBookkeepingMember_iff {name : List UInt8} :
    isBookkeepingMember name = true ↔
      name = gnuSymbolIndexName ∨ name = gnuSymbolIndex64Name ∨
        name = gnuLongNameTableName ∨ IsIndexName name := by
  rw [isBookkeepingMember, decide_eq_true_iff, List.isPrefixOf_iff_prefix]
  rfl

theorem nonEmptyName_eq_some_iff {name found : List UInt8} :
    nonEmptyName name = some found ↔ found = name ∧ found ≠ [] := by
  rw [nonEmptyName]
  split_ifs with hempty
  · simp only [false_iff]
    rintro ⟨rfl, hne⟩
    exact hne hempty
  · simp only [Option.some.injEq]
    constructor
    · rintro rfl
      exact ⟨rfl, hempty⟩
    · rintro ⟨rfl, -⟩
      rfl

theorem resolveMemberName_slashed {name table data found : List UInt8} :
    resolveMemberName (name ++ [0x2F]) table data = some found ↔
      found = name ∧ name ≠ [] ∧ ¬ IsIndexName name ∧
        name.head? ≠ some 0x2F ∧ ¬ bsdLongNamePrefix <+: name ++ [0x2F] := by
  rw [resolveMemberName]
  by_cases hextended : bsdLongNamePrefix <+: name ++ [0x2F]
  · -- what follows the prefix ends in the slash, so that it is no length
    have hnumber : parseDecimalField
        ((name ++ [0x2F]).drop bsdLongNamePrefix.length) = none := by
      by_cases hshort : name.length < bsdLongNamePrefix.length
      · rw [List.drop_eq_nil_of_le (by rw [List.length_append]; exact hshort)]
        rfl
      · rw [List.drop_append_of_le_length (not_lt.mp hshort)]
        exact parseDecimalField_slashed _
    rw [if_pos (List.isPrefixOf_iff_prefix.mpr hextended), hnumber]
    simp [hextended]
  rw [if_neg (mt List.isPrefixOf_iff_prefix.mp hextended)]
  by_cases hempty : name = []
  · simp [hempty, isBookkeepingMember, gnuSymbolIndexName]
  by_cases hslash : name.head? = some 0x2F
  · -- neither is what follows a leading slash
    obtain ⟨rest, rfl⟩ : ∃ rest, name = 0x2F :: rest := by
      cases name with
      | nil => exact absurd rfl hempty
      | cons byte rest => exact ⟨rest, by simpa using hslash⟩
    simp [parseDecimalField_slashed]
  have hhead : (name ++ [0x2F]).head? = name.head? := by
    rw [List.head?_append_of_ne_nil _ hempty]
  have hnot : ∀ rest, name ++ [0x2F] ≠ 0x2F :: rest := by
    intro rest heq
    rw [heq] at hhead
    exact hslash hhead.symm
  have hbookkeeping : isBookkeepingMember (name ++ [0x2F]) = true ↔
      IsIndexName name := by
    rw [isBookkeepingMember_iff, isIndexName_append_slash]
    constructor
    · rintro (heq | heq | heq | hindex)
      · exact absurd heq (hnot _)
      · exact absurd heq (hnot _)
      · exact absurd heq (hnot _)
      · exact hindex
    · exact fun hindex => Or.inr (Or.inr (Or.inr hindex))
  by_cases hindex : IsIndexName name
  · rw [if_pos (Or.inr (hbookkeeping.mpr hindex))]
    simp [hindex]
  · rw [if_neg (by simp [hbookkeeping, hindex]), hhead, if_neg hslash,
      List.getLast?_concat, if_pos rfl, List.dropLast_concat, nonEmptyName,
      if_neg hempty]
    simp [hempty, hindex, hslash, hextended, eq_comm]

theorem isBookkeepingMember_tabled (offset : Nat) :
    isBookkeepingMember (0x2F :: decimal offset) = false := by
  obtain ⟨digit, digits, hdecimal⟩ : ∃ digit digits,
      decimal offset = digit :: digits :=
    List.exists_cons_of_ne_nil (decimal_ne_nil offset)
  have hdigit := toNat_of_mem_decimal (hdecimal ▸ List.mem_cons_self)
  rw [Bool.eq_false_iff, ne_eq, isBookkeepingMember_iff, hdecimal]
  rintro (heq | heq | heq | hindex)
  · simp [gnuSymbolIndexName] at heq
  · obtain ⟨rfl, -⟩ := by simpa [gnuSymbolIndex64Name] using heq
    exact absurd hdigit (by decide)
  · obtain ⟨rfl, -⟩ := by simpa [gnuLongNameTableName] using heq
    exact absurd hdigit (by decide)
  · simp [IsIndexName, bsdSymbolIndexName] at hindex

theorem resolveMemberName_tabled {offset : Nat} (hoffset : offset < 2 ^ 64)
    (table data : List UInt8) :
    resolveMemberName (0x2F :: decimal offset) table data =
      if table.length ≤ offset then none
      else nonEmptyName (((table.drop offset).takeWhile
        fun byte => byte ≠ 0x2F ∧ byte ≠ 0x0A).take maxStringLength) := by
  have hbookkeeping := isBookkeepingMember_tabled offset
  have hextended : ¬ (bsdLongNamePrefix.isPrefixOf (0x2F :: decimal offset)) =
      true := by
    simp [bsdLongNamePrefix]
  rw [resolveMemberName, if_neg (by simp [hbookkeeping]), if_neg hextended,
    if_pos List.head?_cons, List.drop_one, List.tail_cons,
    parseDecimalField_decimal hoffset]

/-- A name from the `//` table has neither of the bytes that end it. -/
theorem not_mem_of_head?_eq_slash {rawName table data found : List UInt8}
    (hhead : rawName.head? = some 0x2F)
    (hfound : resolveMemberName rawName table data = some found) :
    0x2F ∉ found ∧ 0x0A ∉ found := by
  have hextended : ¬ bsdLongNamePrefix.isPrefixOf rawName = true := by
    cases rawName with
    | nil => simp at hhead
    | cons byte rest =>
      obtain rfl := Option.some.inj hhead
      simp [bsdLongNamePrefix]
  rw [resolveMemberName, if_neg hextended, if_pos hhead] at hfound
  split at hfound
  · simp at hfound
  split at hfound
  · simp at hfound
  split at hfound
  · simp at hfound
  rw [nonEmptyName_eq_some_iff] at hfound
  have hends : ∀ byte ∈ found, byte ≠ 0x2F ∧ byte ≠ 0x0A := by
    intro byte hbyte
    rw [hfound.1] at hbyte
    simpa using List.mem_takeWhile_imp (List.mem_of_mem_take hbyte)
  exact ⟨fun hslash => (hends _ hslash).1 rfl, fun hline => (hends _ hline).2 rfl⟩

/-- A name that stands in the table comes back up to its first slash. -/
theorem resolveMemberName_of_isAt {offset : Nat} (hoffset : offset < 2 ^ 64)
    {table data name : List UInt8} (hname : name.length ≤ maxStringLength)
    (hat : IsAt table offset (NameSpelling.tableEntry name)) :
    resolveMemberName (0x2F :: decimal offset) table data =
      nonEmptyName (name.takeWhile fun byte => byte ≠ 0x2F ∧ byte ≠ 0x0A) := by
  have hlength := hat.length_le
  rw [NameSpelling.tableEntry, List.length_append, List.length_cons] at hlength
  obtain ⟨before, after, rfl, hbefore⟩ := hat
  have hend : (name ++ [0x2F, 0x0A] ++ after).takeWhile
      (fun byte => byte ≠ 0x2F ∧ byte ≠ 0x0A) =
        name.takeWhile fun byte => byte ≠ 0x2F ∧ byte ≠ 0x0A := by
    have hstop : ([0x2F, 0x0A] ++ after).takeWhile
        (fun byte => byte ≠ 0x2F ∧ byte ≠ 0x0A) = [] := rfl
    rw [List.append_assoc, List.takeWhile_append, hstop, List.append_nil]
    split_ifs with hwhole
    · exact ((List.takeWhile_prefix _).eq_of_length hwhole).symm
    · rfl
  rw [resolveMemberName_tabled hoffset, if_neg (by omega),
    List.drop_left' hbefore, NameSpelling.tableEntry, hend,
    List.take_of_length_le]
  exact (List.takeWhile_prefix _).length_le.trans hname

theorem isBookkeepingMember_extended (rest : List UInt8) :
    isBookkeepingMember (bsdLongNamePrefix ++ rest) = false := by
  rw [Bool.eq_false_iff, ne_eq, isBookkeepingMember_iff]
  rintro (heq | heq | heq | hindex)
  · simp [bsdLongNamePrefix, gnuSymbolIndexName] at heq
  · simp [bsdLongNamePrefix, gnuSymbolIndex64Name] at heq
  · simp [bsdLongNamePrefix, gnuLongNameTableName] at heq
  · simp [IsIndexName, bsdLongNamePrefix, bsdSymbolIndexName] at hindex

/-- A length, and the name ahead of the data. -/
theorem resolveMemberName_extended {padding : Nat → Nat} {name : List UInt8}
    (hname : name ≠ []) (hnul : 0 ∉ name)
    (hlength : (NameSpelling.storedName padding name).length ≤ maxStringLength)
    (table data : List UInt8) :
    resolveMemberName (bsdLongNamePrefix ++
        decimal (NameSpelling.storedName padding name).length) table
          (NameSpelling.storedName padding name ++ data) = some name := by
  have hword : (NameSpelling.storedName padding name).length < 2 ^ 64 :=
    lt_of_le_of_lt hlength (by decide)
  have htext : (NameSpelling.storedName padding name).takeWhile (· ≠ 0) =
      name := by
    have hpadding : (List.replicate (padding name.length) (0 : UInt8)).takeWhile
        (· ≠ 0) = [] := by
      rw [List.takeWhile_eq_nil_iff]
      intro hlt
      simp
    rw [NameSpelling.storedName, List.takeWhile_append_of_pos, hpadding,
      List.append_nil]
    intro byte hbyte
    rw [decide_eq_true_iff]
    rintro rfl
    exact hnul hbyte
  have hbookkeeping := isBookkeepingMember_extended
    (decimal (NameSpelling.storedName padding name).length)
  have hshort : ¬ ((NameSpelling.storedName padding name ++ data).length <
      (NameSpelling.storedName padding name).length ∨
        maxStringLength < (NameSpelling.storedName padding name).length) := by
    rw [List.length_append]
    omega
  have hsome : ¬ (bsdLongNamePrefix ++
      decimal (NameSpelling.storedName padding name).length = [] ∨
        isBookkeepingMember (bsdLongNamePrefix ++
          decimal (NameSpelling.storedName padding name).length) = true) := by
    rw [hbookkeeping]
    simp [bsdLongNamePrefix]
  rw [resolveMemberName, if_neg hsome,
    if_pos (List.isPrefixOf_iff_prefix.mpr (List.prefix_append _ _)),
    List.drop_left, parseDecimalField_decimal hword]
  dsimp only
  rw [if_neg hshort, List.take_left, htext, nonEmptyName, if_neg hname]

theorem resolveMemberName_bare {name : List UInt8} (hname : name ≠ [])
    (hextended : ¬ bsdLongNamePrefix <+: name) (hindex : ¬ IsIndexName name)
    (hhead : name.head? ≠ some 0x2F) (table data : List UInt8) :
    resolveMemberName name table data =
      if name.getLast? = some 0x2F then nonEmptyName name.dropLast
      else some name := by
  have hbookkeeping : isBookkeepingMember name = false := by
    rw [Bool.eq_false_iff, ne_eq, isBookkeepingMember_iff]
    rintro (rfl | rfl | rfl | hindex')
    · exact hhead rfl
    · exact hhead rfl
    · exact hhead rfl
    · exact hindex hindex'
  rw [resolveMemberName, if_neg (by simp [hname, hbookkeeping]),
    if_neg (mt List.isPrefixOf_iff_prefix.mp hextended), if_neg hhead]
  split_ifs
  · rfl
  · rw [nonEmptyName, if_neg hname]

/-! ## Records -/

theorem isAsciiWhitespace_of_mem_decimal {value : Nat} {byte : UInt8}
    (hbyte : byte ∈ decimal value) : isAsciiWhitespace byte = false := by
  obtain ⟨hlow, -⟩ := toNat_of_mem_decimal hbyte
  rw [isAsciiWhitespace, decide_eq_false_iff_not]
  rintro (rfl | rfl | rfl | rfl) <;> revert hlow <;> decide

theorem rawName_of_solid {record : MemberRecord}
    (hsolid : ∀ byte ∈ record.field, isAsciiWhitespace byte = false)
    (hwidth : record.field.length ≤ memberNameLength) :
    record.rawName = record.field :=
  trimmedView_putPadded_of_solid hsolid hwidth

/-- The name of a member in the header, without the blanks it starts with. -/
def headerText (name : List UInt8) : List UInt8 :=
  name.dropWhile isAsciiWhitespace

theorem rawName_slashed {name data : List UInt8} {metadata : MemberMetadata}
    (hshort : (name ++ [0x2F]).length ≤ memberNameLength) :
    (MemberRecord.mk (name ++ [0x2F]) data metadata).rawName =
      headerText name ++ [0x2F] :=
  trimmedView_putPadded (by decide) hshort

theorem head?_headerText {name : List UInt8} {byte : UInt8}
    (hbyte : byte ∈ (headerText name).head?) : isAsciiWhitespace byte = false := by
  have hhead := List.head?_dropWhile_not isAsciiWhitespace name
  rw [headerText] at hbyte
  rw [Option.mem_def.mp hbyte] at hhead
  simpa using hhead

theorem headerText_eq_self {name : List UInt8}
    (hhead : ∀ byte ∈ name.head?, isAsciiWhitespace byte = false) :
    headerText name = name := by
  cases name with
  | nil => rfl
  | cons byte name =>
    have hfirst := hhead byte rfl
    simp [headerText, hfirst]

namespace NameSpelling

/-- What of a name has to fit: the NULs behind an extended one too. -/
def stored : NameSpelling → List UInt8 → List UInt8
  | gnu _, name => name
  | bsd _ padding, name => storedName padding name

/-- A name the spelling can hold. -/
structure Holds (spelling : NameSpelling) (name : List UInt8) : Prop where
  ne_nil : name ≠ []
  noNul : 0 ∉ name
  short : (spelling.stored name).length ≤ maxStringLength

variable {table : List UInt8} {member : ArchiveMember} {record : MemberRecord}

theorem length_lt_of_isLong_gnu {force : Bool} {name : List UInt8}
    (hshort : (gnu force).isLong name = false) :
    (name ++ [0x2F]).length ≤ memberNameLength := by
  simp only [isLong, Bool.or_eq_false_iff, decide_eq_false_iff_not] at hshort
  rw [List.length_append, List.length_singleton]
  omega

theorem offset_of_isAt {offset : Nat} {name : List UInt8}
    (htable : table.length ≤ maxBinaryBytes)
    (hat : IsAt table offset (tableEntry name)) :
    offset < 2 ^ 64 ∧ (0x2F :: decimal offset).length ≤ memberNameLength := by
  have hle := hat.length_le
  have hoffset : offset < 10 ^ 9 := by
    refine lt_of_le_of_lt (le_trans (Nat.le_add_right _ _) (hle.trans htable)) ?_
    decide
  have hdigits := length_decimal_le (by decide) hoffset
  refine ⟨hoffset.trans (by decide), ?_⟩
  rw [List.length_cons, memberNameLength]
  omega

theorem length_extended_le {padding : Nat → Nat} {name : List UInt8}
    (hshort : (storedName padding name).length ≤ maxStringLength) :
    (bsdLongNamePrefix ++ decimal (storedName padding name).length).length ≤
      memberNameLength := by
  have hlength : (storedName padding name).length < 10 ^ 4 :=
    lt_of_le_of_lt hshort (by decide)
  have hdigits := length_decimal_le (by decide) hlength
  rw [List.length_append, memberNameLength, bsdLongNamePrefix]
  simp only [List.length_cons, List.length_nil]
  omega

theorem rawName_inTable {offset : Nat} {data name : List UInt8}
    {metadata : MemberMetadata} (htable : table.length ≤ maxBinaryBytes)
    (hat : IsAt table offset (tableEntry name)) :
    (MemberRecord.mk (0x2F :: decimal offset) data metadata).rawName =
      0x2F :: decimal offset := by
  refine rawName_of_solid ?_ (offset_of_isAt htable hat).2
  intro byte hbyte
  rcases List.mem_cons.mp hbyte with rfl | hdigit
  · decide
  · exact isAsciiWhitespace_of_mem_decimal hdigit

theorem rawName_extended {padding : Nat → Nat} {name data : List UInt8}
    {metadata : MemberMetadata}
    (hshort : (storedName padding name).length ≤ maxStringLength) :
    (MemberRecord.mk (bsdLongNamePrefix ++
        decimal (storedName padding name).length) data metadata).rawName =
      bsdLongNamePrefix ++ decimal (storedName padding name).length := by
  have hplain : ∀ byte ∈ bsdLongNamePrefix, isAsciiWhitespace byte = false := by
    simp [bsdLongNamePrefix, isAsciiWhitespace]
  refine rawName_of_solid ?_ (length_extended_le hshort)
  intro byte hbyte
  rcases List.mem_append.mp hbyte with hprefix | hdigit
  · exact hplain byte hprefix
  · exact isAsciiWhitespace_of_mem_decimal hdigit

theorem fitsBare_of_not_isLong {shortNames : Bool} {padding : Nat → Nat}
    {name : List UInt8} (hshort : (bsd shortNames padding).isLong name = false) :
    name.length ≤ memberNameLength ∧
      (∀ byte ∈ name, isAsciiWhitespace byte = false) ∧
      ¬ bsdLongNamePrefix <+: name := by
  simp only [isLong, Bool.not_eq_false', Bool.and_eq_true, fitsBare,
    decide_eq_true_iff, List.all_eq_true, Bool.not_eq_true'] at hshort
  refine ⟨hshort.2.1, hshort.2.2.1, ?_⟩
  rw [← List.isPrefixOf_iff_prefix]
  exact Bool.eq_false_iff.mp hshort.2.2.2

theorem tabled_ne_gnuLongNameTableName (offset : Nat) :
    0x2F :: decimal offset ≠ gnuLongNameTableName := by
  intro heq
  have hdigits : decimal offset = [0x2F] := (List.cons.inj heq).2
  have hdigit := toNat_of_mem_decimal (hdigits ▸ List.mem_cons_self)
  exact absurd hdigit (by decide)

theorem extended_ne_gnuLongNameTableName (rest : List UInt8) :
    bsdLongNamePrefix ++ rest ≠ gnuLongNameTableName := by
  simp [bsdLongNamePrefix, gnuLongNameTableName]

theorem resolveMemberName_of_isIndexName {rawName : List UInt8}
    (hindex : IsIndexName rawName) (table data : List UInt8) :
    resolveMemberName rawName table data = none := by
  rw [resolveMemberName, if_pos]
  exact Or.inr (isBookkeepingMember_iff.mpr (Or.inr (Or.inr (Or.inr hindex))))

theorem head?_of_isIndexName {name : List UInt8} (hindex : IsIndexName name) :
    name.head? = some 0x5F := by
  obtain ⟨rest, rfl⟩ := hindex
  rfl

/-- A kept name comes back, unless it is that of an index, and leaves the table
as it is. -/
theorem resolve_of_keeps {spelling : NameSpelling}
    (hspelled : Spelled table member spelling record)
    (htable : table.length ≤ maxBinaryBytes)
    (hholds : spelling.Holds member.name) (hkeeps : spelling.Keeps member.name) :
    record.rawName ≠ gnuLongNameTableName ∧
      resolveMemberName record.rawName table record.data =
        if IsIndexName member.name then none else some member.name := by
  cases hspelled with
  | inTable hlong hat =>
    simp only [Keeps, hlong] at hkeeps
    obtain ⟨hslash, hline, hindex⟩ := hkeeps
    obtain ⟨hword, -⟩ := offset_of_isAt htable hat
    have hlength : member.name.length ≤ maxStringLength := hholds.short
    rw [rawName_inTable htable hat, if_neg hindex,
      resolveMemberName_of_isAt hword hlength hat,
      takeWhile_eq_self_of_plain hslash hline, nonEmptyName,
      if_neg hholds.ne_nil]
    exact ⟨tabled_ne_gnuLongNameTableName _, rfl⟩
  | slashed hshort =>
    simp only [Keeps, hshort] at hkeeps
    have hhead : ∀ byte ∈ member.name.head?,
        isAsciiWhitespace byte = false ∧ byte ≠ 0x2F := by
      rcases hkeeps with hindex | hslashed
      · intro byte hbyte
        rw [head?_of_isIndexName hindex] at hbyte
        obtain rfl := Option.some.inj hbyte
        decide
      · exact hslashed.1
    have htext := headerText_eq_self fun byte hbyte => (hhead byte hbyte).1
    have hslash : member.name.head? ≠ some 0x2F := fun heq =>
      (hhead 0x2F heq).2 rfl
    rw [rawName_slashed (length_lt_of_isLong_gnu hshort), htext]
    constructor
    · intro heq
      have hname : member.name = [0x2F] := List.append_cancel_right heq
      rw [hname] at hslash
      exact hslash rfl
    · split_ifs with hindex
      · exact resolveMemberName_of_isIndexName
          (isIndexName_append_slash.mpr hindex) _ _
      · rw [resolveMemberName_slashed]
        exact ⟨rfl, hholds.ne_nil, hindex, hslash,
          (hkeeps.resolve_left hindex).2⟩
  | extended hlong =>
    simp only [Keeps, hlong] at hkeeps
    rw [rawName_extended hholds.short, if_neg hkeeps,
      resolveMemberName_extended hholds.ne_nil hholds.noNul hholds.short]
    exact ⟨extended_ne_gnuLongNameTableName _, rfl⟩
  | bare hshort =>
    simp only [Keeps, hshort] at hkeeps
    obtain ⟨hwidth, hsolid, hextended⟩ := fitsBare_of_not_isLong hshort
    rw [rawName_of_solid hsolid hwidth]
    rcases hkeeps with hindex | ⟨hhead, hlast⟩
    · rw [if_pos hindex]
      refine ⟨?_, resolveMemberName_of_isIndexName hindex _ _⟩
      intro heq
      have hfirst := head?_of_isIndexName hindex
      dsimp only at heq
      rw [heq] at hfirst
      exact absurd hfirst (by decide)
    · refine ⟨fun heq => hhead (by dsimp only at heq; rw [heq]; rfl), ?_⟩
      split_ifs with hindex
      · exact resolveMemberName_of_isIndexName hindex _ _
      · rw [resolveMemberName_bare hholds.ne_nil hextended hindex hhead,
          if_neg hlast]

/-- What comes back of a GNU name, whatever the table holds by then. -/
theorem found_of_spelled_gnu {force : Bool} {found current : List UInt8}
    (hspelled : Spelled table member (gnu force) record)
    (htable : table.length ≤ maxBinaryBytes)
    (hfound : resolveMemberName record.rawName current record.data =
      some found) :
    ((gnu force).isLong member.name = true ∧ 0x2F ∉ found ∧ 0x0A ∉ found) ∨
      ((gnu force).isLong found = false ∧ KeepsSlashed found ∧
        ¬ IsIndexName found) := by
  cases hspelled with
  | inTable hlong hat =>
    rw [rawName_inTable htable hat] at hfound
    exact Or.inl ⟨hlong, not_mem_of_head?_eq_slash List.head?_cons hfound⟩
  | slashed hshort =>
    rw [rawName_slashed (length_lt_of_isLong_gnu hshort),
      resolveMemberName_slashed] at hfound
    obtain ⟨rfl, -, hindex, hslash, hextended⟩ := hfound
    refine Or.inr ⟨?_, ⟨?_, hextended⟩, hindex⟩
    · have hle : (headerText member.name).length ≤ member.name.length :=
        (List.dropWhile_suffix _).length_le
      simp only [isLong, Bool.or_eq_false_iff, decide_eq_false_iff_not]
        at hshort ⊢
      exact ⟨hshort.1, by omega⟩
    · intro byte hbyte
      refine ⟨head?_headerText hbyte, ?_⟩
      rintro rfl
      exact hslash hbyte

/-- What comes back of a BSD name, whatever a `//` table holds by then. -/
theorem found_of_spelled_bsd {shortNames : Bool} {padding : Nat → Nat}
    {found current : List UInt8}
    (hspelled : Spelled table member (bsd shortNames padding) record)
    (hholds : (bsd shortNames padding).Holds member.name)
    (hfound : resolveMemberName record.rawName current record.data =
      some found) :
    ((bsd shortNames padding).isLong member.name = true ∧ found = member.name) ∨
      ((bsd shortNames padding).isLong member.name = false ∧
        ¬ IsIndexName member.name ∧
        (0x2F ∉ found ∨ member.name.head? ≠ some 0x2F ∧
          (member.name = found ++ [0x2F] ∨
            found = member.name ∧ member.name.getLast? ≠ some 0x2F))) := by
  cases hspelled with
  | extended hlong =>
    rw [rawName_extended hholds.short, resolveMemberName_extended
      hholds.ne_nil hholds.noNul hholds.short] at hfound
    exact Or.inl ⟨hlong, (Option.some.inj hfound).symm⟩
  | bare hshort =>
    obtain ⟨hwidth, hsolid, hextended⟩ := fitsBare_of_not_isLong hshort
    rw [rawName_of_solid hsolid hwidth] at hfound
    have hindex : ¬ IsIndexName member.name := by
      intro hindex
      rw [resolveMemberName_of_isIndexName hindex] at hfound
      simp at hfound
    refine Or.inr ⟨hshort, hindex, ?_⟩
    by_cases hhead : member.name.head? = some 0x2F
    · exact Or.inl (not_mem_of_head?_eq_slash hhead hfound).1
    · rw [resolveMemberName_bare hholds.ne_nil hextended hindex hhead] at hfound
      refine Or.inr ⟨hhead, ?_⟩
      split_ifs at hfound with hlast
      · left
        rw [nonEmptyName_eq_some_iff] at hfound
        rw [hfound.1]
        exact (List.dropLast_append_getLast? _ hlast).symm
      · exact Or.inr ⟨(Option.some.inj hfound).symm, hlast⟩

end NameSpelling

/-! ## The archive -/

namespace ArchiveReader

theorem mem_listedNames {table found : List UInt8} {records : List MemberRecord}
    (hfound : found ∈ listedNames table records) :
    ∃ record ∈ records, ∃ current,
      resolveMemberName record.rawName current record.data = some found := by
  induction records generalizing table with
  | nil => simp [listedNames] at hfound
  | cons record records ih =>
    rw [listedNames, List.mem_append, Option.mem_toList] at hfound
    rcases hfound with hfirst | hrest
    · exact ⟨record, List.mem_cons_self, table, hfirst⟩
    · obtain ⟨other, hother, hsome⟩ := ih hrest
      exact ⟨other, List.mem_cons_of_mem _ hother, hsome⟩

theorem mem_listedNames_of_forall {table name : List UInt8}
    {records : List MemberRecord} {record : MemberRecord}
    (hrecord : record ∈ records)
    (hname : ∀ current,
      resolveMemberName record.rawName current record.data = some name) :
    name ∈ listedNames table records := by
  induction records generalizing table with
  | nil => simp at hrecord
  | cons first records ih =>
    rw [listedNames, List.mem_append, Option.mem_toList]
    rcases List.mem_cons.mp hrecord with rfl | hrest
    · exact Or.inl (hname table)
    · exact Or.inr (ih hrest)

/-- Where no member passes for the `//` table, every name is resolved against
the same one. -/
theorem mem_listedNames_iff {table found : List UInt8}
    {records : List MemberRecord}
    (hkeep : ∀ record ∈ records, record.rawName ≠ gnuLongNameTableName) :
    found ∈ listedNames table records ↔ ∃ record ∈ records,
      resolveMemberName record.rawName table record.data = some found := by
  induction records with
  | nil => simp [listedNames]
  | cons record records ih =>
    rw [listedNames, List.mem_append, Option.mem_toList,
      if_neg (hkeep record List.mem_cons_self),
      ih fun other hother => hkeep other (List.mem_cons_of_mem _ hother)]
    simp

/-- Only the members that are counted can be named. -/
theorem length_listedNames_le (table : List UInt8) (records : List MemberRecord) :
    (listedNames table records).length ≤
      records.countP fun record => isListed record.rawName := by
  induction records generalizing table with
  | nil => simp [listedNames]
  | cons record records ih =>
    have hrest := ih
      (if record.rawName = gnuLongNameTableName then record.data else table)
    rw [listedNames, List.length_append, List.countP_cons]
    cases hlisted : isListed record.rawName with
    | false =>
      rw [resolveMemberName_of_not_isListed hlisted, Option.toList_none,
        List.length_nil, if_neg Bool.false_ne_true]
      omega
    | true =>
      have hone : (resolveMemberName record.rawName table
          record.data).toList.length ≤ 1 := by
        cases resolveMemberName record.rawName table record.data <;> simp
      rw [if_pos rfl]
      omega

end ArchiveReader

namespace Archive

variable {archive : Archive}

/-- The caps of the reader, and names the spelling can hold. -/
structure InBounds (archive : Archive) : Prop where
  size : (buildArchive archive).length ≤ maxBinaryBytes
  count : archive.members.length ≤ maxArchiveMembers
  names : ∀ member ∈ archive.members, archive.spelling.Holds member.name

/-- The `//` table of the archive. -/
def table (archive : Archive) : List UInt8 :=
  archive.spelling.longNameTable archive.members

def memberRecords (archive : Archive) : List MemberRecord :=
  archive.spelling.records 0 archive.members

theorem spelled_memberRecords (archive : Archive) :
    List.Forall₂ (fun member record =>
      NameSpelling.Spelled archive.table member archive.spelling record)
      archive.members archive.memberRecords := by
  have hspelled : List.Forall₂ (fun member record =>
      NameSpelling.Spelled archive.table member archive.spelling record)
      archive.members (archive.spelling.records ([] : List UInt8).length
        archive.members) :=
    NameSpelling.forall₂_spelled archive.spelling
      fun _ => (List.nil_append _).symm
  exact hspelled

theorem length_data_le {record : MemberRecord} (hrecord : record ∈ archive.records) :
    record.data.length ≤ (buildArchive archive).length := by
  obtain ⟨before, after, hrecords⟩ := List.append_of_mem hrecord
  rw [buildArchive, hrecords, List.flatMap_append, List.flatMap_cons, putMember]
  simp only [List.length_append]
  omega

theorem field_symbolIndexName (name : SymbolIndexName) :
    name.field.length ≤ memberNameLength ∧ ArchiveReader.isListed
        (trimmedView (putPadded name.field memberNameLength)) = false ∧
      trimmedView (putPadded name.field memberNameLength) ≠
        gnuLongNameTableName := by
  cases name <;> decide +kernel

theorem field_gnuLongNameTableName :
    gnuLongNameTableName.length ≤ memberNameLength ∧ ArchiveReader.isListed
        (trimmedView (putPadded gnuLongNameTableName memberNameLength)) =
          false ∧
      trimmedView (putPadded gnuLongNameTableName memberNameLength) =
        gnuLongNameTableName := by
  decide +kernel

theorem rawName_bookkeeping {record : MemberRecord}
    (hrecord : record ∈ archive.bookkeeping) :
    record.field.length ≤ memberNameLength ∧
      ArchiveReader.isListed record.rawName = false := by
  simp only [bookkeeping, List.mem_append, List.mem_map, Option.mem_toList] at hrecord
  rcases hrecord with ⟨index, -, rfl⟩ | hrecord
  · have hindex := field_symbolIndexName index.name
    exact ⟨hindex.1, hindex.2.1⟩
  · split_ifs at hrecord
    · simp at hrecord
    · rw [List.mem_singleton] at hrecord
      rw [hrecord]
      exact ⟨field_gnuLongNameTableName.1, field_gnuLongNameTableName.2.1⟩

theorem length_table_le (hbounds : archive.InBounds) :
    archive.table.length ≤ maxBinaryBytes := by
  by_cases hempty : archive.table = []
  · rw [hempty]
    exact Nat.zero_le _
  · refine le_trans ?_ hbounds.size
    have hrecord : MemberRecord.mk gnuLongNameTableName archive.table
        archive.tableMetadata ∈ archive.records := by
      refine List.mem_append_left _ (List.mem_append_right _ ?_)
      rw [table] at hempty
      simp [hempty, table]
    exact length_data_le hrecord

theorem fits_records (hbounds : archive.InBounds) :
    ∀ record ∈ archive.records, record.Fits := by
  intro record hrecord
  have hdata : record.data.length < 10 ^ memberSizeLength := by
    refine lt_of_le_of_lt ((length_data_le hrecord).trans hbounds.size) ?_
    decide
  refine ⟨?_, hdata⟩
  rcases List.mem_append.mp hrecord with hbookkeeping | hmember
  · exact (rawName_bookkeeping hbookkeeping).1
  · obtain ⟨member, hmember, hspelled⟩ :=
      exists_of_forall₂_right archive.spelled_memberRecords hmember
    have hholds := hbounds.names member hmember
    generalize archive.spelling = spelling at hspelled hholds
    cases hspelled with
    | inTable hlong hat =>
      exact (NameSpelling.offset_of_isAt (length_table_le hbounds) hat).2
    | slashed hshort => exact NameSpelling.length_lt_of_isLong_gnu hshort
    | extended hlong => exact NameSpelling.length_extended_le hholds.short
    | bare hshort => exact (NameSpelling.fitsBare_of_not_isLong hshort).1

theorem countP_isListed_le (hbounds : archive.InBounds) :
    archive.records.countP (fun record =>
      ArchiveReader.isListed record.rawName) ≤ maxArchiveMembers := by
  have hnone : archive.bookkeeping.countP (fun record =>
      ArchiveReader.isListed record.rawName) = 0 := by
    rw [List.countP_eq_zero]
    intro record hrecord
    rw [(rawName_bookkeeping hrecord).2]
    exact Bool.false_ne_true
  have hlength := archive.spelled_memberRecords.length_eq
  rw [records, List.countP_append, hnone, Nat.zero_add]
  exact (List.countP_le_length).trans (hlength ▸ hbounds.count)

/-- What the walk over the bookkeeping leaves to the members. -/
theorem listedNames_records (archive : Archive) :
    ArchiveReader.listedNames [] archive.records =
      ArchiveReader.listedNames archive.table archive.memberRecords := by
  have htable : ArchiveReader.listedNames []
      ((if archive.table = [] then []
        else [⟨gnuLongNameTableName, archive.table, archive.tableMetadata⟩]) ++
          archive.memberRecords) =
        ArchiveReader.listedNames archive.table archive.memberRecords := by
    split_ifs with hempty
    · rw [hempty, List.nil_append]
    · obtain ⟨-, hlisted, hname⟩ := field_gnuLongNameTableName
      have hnone := ArchiveReader.resolveMemberName_of_not_isListed hlisted []
        archive.table
      rw [hname] at hnone
      rw [List.singleton_append, ArchiveReader.listedNames]
      simp only [MemberRecord.rawName, hnone, hname, if_true, Option.toList_none,
        List.nil_append]
  rw [records, bookkeeping]
  cases hindex : archive.index with
  | none => exact htable
  | some index =>
    obtain ⟨-, hlisted, hother⟩ := field_symbolIndexName index.name
    have hname : (MemberRecord.mk index.name.field index.contents
        index.metadata).rawName ≠ gnuLongNameTableName := hother
    have hnone : resolveMemberName (MemberRecord.mk index.name.field
        index.contents index.metadata).rawName [] index.contents = none :=
      ArchiveReader.resolveMemberName_of_not_isListed hlisted []
        index.contents
    rw [Option.toList_some, List.map_singleton, List.append_assoc,
      List.singleton_append, ArchiveReader.listedNames, if_neg hname, hnone,
      Option.toList_none, List.nil_append]
    exact htable

/-- The walk over a built archive visits its records and ends behind them. -/
theorem readMembers_buildArchive (hbounds : archive.InBounds) :
    ArchiveReader.readMembers (buildArchive archive)
        (buildArchive archive).length {} =
      { ({} : ArchiveReader).recordMembers archive.records with
        offset := (buildArchive archive).length } := by
  have hfits := fits_records hbounds
  have hcount := countP_isListed_le hbounds
  have hrounds : archive.records.length ≤ (buildArchive archive).length := by
    have hmany : ∀ records : List MemberRecord, (∀ record ∈ records, record.Fits) →
        records.length ≤ (records.flatMap putMember).length := by
      intro records
      induction records with
      | nil => exact fun _ => le_refl 0
      | cons record records ih =>
        intro hfits
        have hrest := ih fun other hother =>
          hfits other (List.mem_cons_of_mem _ hother)
        rw [List.flatMap_cons, List.length_append, List.length_cons,
          length_putMember (hfits record List.mem_cons_self), memberHeaderSize]
        omega
    rw [buildArchive, List.length_append]
    exact (hmany _ hfits).trans (Nat.le_add_left _ _)
  exact ArchiveReader.readMembers_of_records hfits
    (rfl : buildArchive archive = archiveMagic ++ archive.records.flatMap putMember)
    (rfl : ({} : ArchiveReader).offset = archiveMagic.length)
    (by rw [Nat.zero_add]; exact hcount) hrounds

theorem value_readArchive_buildArchive (hbounds : archive.InBounds)
    (path : String) :
    (readArchive path (some (buildArchive archive))).value =
      (ArchiveReader.read (buildArchive archive)).out := by
  have hmagic : (buildArchive archive).take archiveMagic.length = archiveMagic :=
    List.take_left
  simp only [readArchive, if_neg (not_lt.mpr hbounds.size),
    if_neg (not_not.mpr hmagic)]

/-- The names of a built archive: those its records are resolved to. -/
theorem readArchive_buildArchive (hbounds : archive.InBounds) (path : String) :
    (readArchive path (some (buildArchive archive))).value.memberNames =
      normalized
        (ArchiveReader.listedNames archive.table archive.memberRecords) := by
  have hcount := countP_isListed_le hbounds
  have hnames := ArchiveReader.recordMembers_memberNames archive.records {}
  rw [List.nil_append, listedNames_records] at hnames
  have hcap : (normalized
      (ArchiveReader.listedNames archive.table archive.memberRecords)).length ≤
        maxArchiveMembers := by
    have hlength := ArchiveReader.length_listedNames_le [] archive.records
    rw [listedNames_records] at hlength
    exact (length_normalized_le _).trans (hlength.trans hcount)
  rw [value_readArchive_buildArchive hbounds]
  simp only [ArchiveReader.read, readMembers_buildArchive hbounds, hnames,
    normalizeAndCap, if_pos hcap]

def objectNames (archive : Archive) : List (List UInt8) :=
  (archive.members.map ArchiveMember.name).filter fun name => ¬ IsIndexName name

theorem mem_objectNames_iff {name : List UInt8} :
    name ∈ archive.objectNames ↔
      (∃ member ∈ archive.members, member.name = name) ∧ ¬ IsIndexName name := by
  rw [objectNames, List.mem_filter, List.mem_map, decide_eq_true_iff]

/-- The names come back where each of them is kept. -/
theorem mem_listedNames_of_keeps (hbounds : archive.InBounds)
    (hkeeps : ∀ member ∈ archive.members, archive.spelling.Keeps member.name)
    (name : List UInt8) :
    name ∈ ArchiveReader.listedNames archive.table archive.memberRecords ↔
      name ∈ archive.objectNames := by
  have htable := length_table_le hbounds
  have hrecord : ∀ {member record}, member ∈ archive.members →
      NameSpelling.Spelled archive.table member archive.spelling record →
        record.rawName ≠ gnuLongNameTableName ∧
          resolveMemberName record.rawName archive.table record.data =
            if IsIndexName member.name then none else some member.name := by
    intro member record hmember hspelled
    exact NameSpelling.resolve_of_keeps hspelled htable
      (hbounds.names member hmember) (hkeeps member hmember)
  have hall := archive.spelled_memberRecords
  rw [ArchiveReader.mem_listedNames_iff, mem_objectNames_iff]
  · constructor
    · rintro ⟨record, hmem, hfound⟩
      obtain ⟨member, hmember, hspelled⟩ := exists_of_forall₂_right hall hmem
      rw [(hrecord hmember hspelled).2] at hfound
      split_ifs at hfound with hindex
      obtain rfl := Option.some.inj hfound
      exact ⟨⟨member, hmember, rfl⟩, hindex⟩
    · rintro ⟨⟨member, hmember, rfl⟩, hindex⟩
      obtain ⟨record, hmem, hspelled⟩ := exists_of_forall₂_left hall hmember
      refine ⟨record, hmem, ?_⟩
      rw [(hrecord hmember hspelled).2, if_neg hindex]
  · intro record hmem
    obtain ⟨member, hmember, hspelled⟩ := exists_of_forall₂_right hall hmem
    exact (hrecord hmember hspelled).1

theorem exists_found {name : List UInt8}
    (hname : name ∈ ArchiveReader.listedNames archive.table
      archive.memberRecords) :
    ∃ member ∈ archive.members, ∃ record,
      NameSpelling.Spelled archive.table member archive.spelling record ∧
        ∃ current, resolveMemberName record.rawName current record.data =
          some name := by
  obtain ⟨record, hmem, current, hfound⟩ := ArchiveReader.mem_listedNames hname
  obtain ⟨member, hmember, hspelled⟩ :=
    exists_of_forall₂_right archive.spelled_memberRecords hmem
  exact ⟨member, hmember, record, hspelled, current, hfound⟩

theorem isIndexName_takeWhile {name : List UInt8} (hindex : IsIndexName name) :
    IsIndexName (name.takeWhile fun byte => byte ≠ 0x2F ∧ byte ≠ 0x0A) := by
  obtain ⟨rest, rfl⟩ := hindex
  rw [IsIndexName, List.takeWhile_append_of_pos]
  · exact List.prefix_append _ _
  · simp [bsdSymbolIndexName]

def ListsObjects (archive : Archive) : Prop :=
  ∀ name, name ∈ ArchiveReader.listedNames archive.table archive.memberRecords ↔
      name ∈ archive.objectNames

section Gnu

variable {force : Bool}

theorem slashes_of_listsObjects (hspelling : archive.spelling = .gnu force)
    (hbounds : archive.InBounds) (hlists : archive.ListsObjects)
    {member : ArchiveMember} (hmember : member ∈ archive.members)
    (hindex : ¬ IsIndexName member.name) :
    (0x2F ∉ member.name ∧ 0x0A ∉ member.name) ∨
      ((NameSpelling.gnu force).isLong member.name = false ∧
        NameSpelling.KeepsSlashed member.name) := by
  have hname := mem_objectNames_iff.mpr ⟨⟨member, hmember, rfl⟩, hindex⟩
  obtain ⟨other, -, record, hspelled, current, hfound⟩ :=
    exists_found ((hlists member.name).mpr hname)
  rw [hspelling] at hspelled
  rcases NameSpelling.found_of_spelled_gnu hspelled (length_table_le hbounds)
    hfound with ⟨-, hends⟩ | ⟨hshort, hkeeps, -⟩
  · exact Or.inl hends
  · exact Or.inr ⟨hshort, hkeeps⟩

/-- No member passes for the `//` table, whose name could not be listed. -/
theorem rawName_ne_of_listsObjects (hspelling : archive.spelling = .gnu force)
    (hbounds : archive.InBounds) (hlists : archive.ListsObjects)
    {record : MemberRecord} (hrecord : record ∈ archive.memberRecords) :
    record.rawName ≠ gnuLongNameTableName := by
  intro heq
  obtain ⟨member, hmember, hspelled⟩ :=
    exists_of_forall₂_right archive.spelled_memberRecords hrecord
  rw [hspelling] at hspelled
  cases hspelled with
  | inTable hlong hat =>
    rw [NameSpelling.rawName_inTable (length_table_le hbounds) hat] at heq
    exact NameSpelling.tabled_ne_gnuLongNameTableName _ heq
  | slashed hshort =>
    rw [rawName_slashed (NameSpelling.length_lt_of_isLong_gnu hshort)] at heq
    have htext : headerText member.name = [0x2F] :=
      List.append_cancel_right heq
    have hslash : (0x2F : UInt8) ∈ member.name := by
      refine (List.dropWhile_suffix isAsciiWhitespace).subset ?_
      rw [← headerText, htext]
      exact List.mem_singleton_self _
    have hindex : ¬ IsIndexName member.name := by
      intro hindex
      have hhead := NameSpelling.head?_of_isIndexName hindex
      have hblank : ∀ byte ∈ member.name.head?,
          isAsciiWhitespace byte = false := by
        intro byte hbyte
        rw [hhead] at hbyte
        obtain rfl := Option.some.inj hbyte
        decide
      rw [headerText_eq_self hblank] at htext
      rw [htext] at hhead
      exact absurd hhead (by decide)
    rcases slashes_of_listsObjects hspelling hbounds hlists hmember hindex with
      ⟨hnone, -⟩ | ⟨-, hkeeps⟩
    · exact hnone hslash
    · rw [headerText_eq_self fun byte hbyte => (hkeeps.1 byte hbyte).1] at htext
      exact (hkeeps.1 0x2F (by rw [htext]; rfl)).2 rfl

section Listed

variable (hspelling : archive.spelling = .gnu force)
  (hbounds : archive.InBounds) (hlists : archive.ListsObjects)

include hspelling hbounds

theorem resolve_tabled_gnu {member : ArchiveMember}
    (hmember : member ∈ archive.members) {offset : Nat}
    (hat : IsAt archive.table offset (NameSpelling.tableEntry member.name))
    (data : List UInt8) :
    resolveMemberName (0x2F :: decimal offset) archive.table data =
      nonEmptyName (member.name.takeWhile
        fun byte => byte ≠ 0x2F ∧ byte ≠ 0x0A) := by
  have hholds := hbounds.names member hmember
  rw [hspelling] at hholds
  exact resolveMemberName_of_isAt
    (NameSpelling.offset_of_isAt (length_table_le hbounds) hat).1
    hholds.short hat

include hlists

theorem mem_objectNames_iff_gnu {name : List UInt8} :
    name ∈ archive.objectNames ↔ ∃ record ∈ archive.memberRecords,
      resolveMemberName record.rawName archive.table record.data =
        some name := by
  rw [← hlists name, ArchiveReader.mem_listedNames_iff]
  intro record hrecord
  exact rawName_ne_of_listsObjects hspelling hbounds hlists hrecord

/-- The index is in no table: it would be listed under what stands before its
first slash. -/
theorem isLong_eq_false_of_isIndexName {member : ArchiveMember}
    (hmember : member ∈ archive.members) (hindex : IsIndexName member.name) :
    (NameSpelling.gnu force).isLong member.name = false := by
  have htable := length_table_le hbounds
  have hall := archive.spelled_memberRecords
  rw [hspelling] at hall
  obtain ⟨record, hrecord, hspelled⟩ := exists_of_forall₂_left hall hmember
  have hstill := isIndexName_takeWhile hindex
  cases hspelled with
  | slashed hshort => exact hshort
  | inTable _ hat =>
    have hfound := resolve_tabled_gnu hspelling hbounds hmember hat
      member.data
    rw [nonEmptyName, if_neg (by
      intro hempty
      rw [hempty] at hstill
      exact absurd hstill (by decide))] at hfound
    have hobject := (mem_objectNames_iff_gnu hspelling hbounds hlists).mpr
      ⟨_, hrecord, by
        rw [NameSpelling.rawName_inTable htable hat]
        exact hfound⟩
    exact absurd hstill (mem_objectNames_iff.mp hobject).2

/-- A long name that is listed is listed as a whole. -/
theorem isLong_of_resolve_tabled {name : List UInt8} {member : ArchiveMember}
    (hmember : member ∈ archive.members)
    (hlong : (NameSpelling.gnu force).isLong member.name = true)
    (hindex : ¬ IsIndexName name)
    (hfound : nonEmptyName (member.name.takeWhile
      fun byte => byte ≠ 0x2F ∧ byte ≠ 0x0A) = some name) :
    (NameSpelling.gnu force).isLong name = true := by
  rw [nonEmptyName_eq_some_iff] at hfound
  obtain ⟨rfl, -⟩ := hfound
  by_cases hindex' : IsIndexName member.name
  · exact absurd (isIndexName_takeWhile hindex') hindex
  · rcases slashes_of_listsObjects hspelling hbounds hlists hmember hindex'
      with ⟨hslash, hline⟩ | ⟨hshort, -⟩
    · rw [takeWhile_eq_self_of_plain hslash hline]
      exact hlong
    · rw [hshort] at hlong
      exact absurd hlong (by decide)

/-- A GNU archive whose names come back keeps each of them. -/
theorem keeps_of_listsObjects_gnu {member : ArchiveMember}
    (hmember : member ∈ archive.members) :
    (NameSpelling.gnu force).Keeps member.name := by
  have htable := length_table_le hbounds
  have hall := archive.spelled_memberRecords
  rw [hspelling] at hall
  by_cases hindex : IsIndexName member.name
  · have hshort := isLong_eq_false_of_isIndexName hspelling hbounds hlists
      hmember hindex
    simp only [NameSpelling.Keeps, hshort]
    exact Or.inl hindex
  · have hends := slashes_of_listsObjects hspelling hbounds hlists hmember hindex
    cases hlong : (NameSpelling.gnu force).isLong member.name with
    | true =>
      simp only [NameSpelling.Keeps, hlong]
      rcases hends with hends | ⟨hshort, -⟩
      · exact ⟨hends.1, hends.2, hindex⟩
      · exact absurd hlong (by rw [hshort]; decide)
    | false =>
      simp only [NameSpelling.Keeps, hlong]
      right
      obtain ⟨record, hrecord, hfound⟩ :=
        (mem_objectNames_iff_gnu hspelling hbounds hlists).mp
          (mem_objectNames_iff.mpr ⟨⟨member, hmember, rfl⟩, hindex⟩)
      obtain ⟨other, hother, hspelled⟩ := exists_of_forall₂_right hall hrecord
      have hcases := NameSpelling.found_of_spelled_gnu hspelled htable hfound
      cases hspelled with
      | slashed hshort =>
        rcases hcases with ⟨hlong', -⟩ | ⟨-, hkeeps, -⟩
        · exact absurd hlong' (by rw [hshort]; decide)
        · exact hkeeps
      | inTable hlong' hat =>
        rw [NameSpelling.rawName_inTable htable hat,
          resolve_tabled_gnu hspelling hbounds hother hat] at hfound
        have hstill := isLong_of_resolve_tabled hspelling hbounds hlists
          hother hlong' hindex hfound
        rw [hlong] at hstill
        exact absurd hstill (by decide)

end Listed

end Gnu

section Bsd

variable {shortNames : Bool} {padding : Nat → Nat}

/-- What is listed of a BSD archive under a bare name. -/
theorem bare_of_listsObjects
    (hspelling : archive.spelling = .bsd shortNames padding)
    (hbounds : archive.InBounds) (hlists : archive.ListsObjects)
    {member : ArchiveMember} (hmember : member ∈ archive.members)
    (hshort : (NameSpelling.bsd shortNames padding).isLong member.name = false)
    (hindex : ¬ IsIndexName member.name) :
    0x2F ∉ member.name ∨ ∃ other ∈ archive.members,
      (NameSpelling.bsd shortNames padding).isLong other.name = false ∧
      ¬ IsIndexName other.name ∧ other.name.head? ≠ some 0x2F ∧
      (other.name = member.name ++ [0x2F] ∨
        member.name = other.name ∧ other.name.getLast? ≠ some 0x2F) := by
  have hname := mem_objectNames_iff.mpr ⟨⟨member, hmember, rfl⟩, hindex⟩
  obtain ⟨other, hother, record, hspelled, current, hfound⟩ :=
    exists_found ((hlists member.name).mpr hname)
  have hholds := hbounds.names other hother
  rw [hspelling] at hspelled hholds
  rcases NameSpelling.found_of_spelled_bsd hspelled hholds hfound with
    ⟨hlong, heq⟩ | ⟨hbare, hindex', hslash | ⟨hhead, hcases⟩⟩
  · rw [← heq, hshort] at hlong
    exact absurd hlong (by decide)
  · exact Or.inl hslash
  · exact Or.inr ⟨other, hother, hbare, hindex', hhead, hcases⟩

/-- A bare name that ends in a slash is listed for one that ends in a slash
more, and that name again. -/
theorem exists_slashes_of_listsObjects
    (hspelling : archive.spelling = .bsd shortNames padding)
    (hbounds : archive.InBounds) (hlists : archive.ListsObjects)
    {member : ArchiveMember} (hmember : member ∈ archive.members)
    (hshort : (NameSpelling.bsd shortNames padding).isLong member.name = false)
    (hindex : ¬ IsIndexName member.name)
    (hlast : member.name.getLast? = some 0x2F) (count : Nat) :
    ∃ other ∈ archive.members,
      (NameSpelling.bsd shortNames padding).isLong other.name = false ∧
      ¬ IsIndexName other.name ∧
      other.name = member.name ++ List.replicate count 0x2F := by
  induction count with
  | zero => exact ⟨member, hmember, hshort, hindex, (List.append_nil _).symm⟩
  | succ count ih =>
    obtain ⟨other, hother, hbare, hobject, hname⟩ := ih
    have hend : other.name.getLast? = some 0x2F := by
      rw [hname, List.getLast?_append, List.getLast?_replicate]
      split_ifs
      · exact hlast
      · rfl
    rcases bare_of_listsObjects hspelling hbounds hlists hother hbare
      hobject with hnone | ⟨next, hnext, hbare', hobject', -,
        heq | ⟨heq, hlast'⟩⟩
    · exact absurd (List.mem_of_getLast? hend) hnone
    · refine ⟨next, hnext, hbare', hobject', ?_⟩
      rw [heq, hname, List.append_assoc, ← List.replicate_succ']
    · exact absurd (heq ▸ hend) hlast'

/-- A BSD archive whose names come back keeps each of them. -/
theorem keeps_of_listsObjects_bsd
    (hspelling : archive.spelling = .bsd shortNames padding)
    (hbounds : archive.InBounds) (hlists : archive.ListsObjects)
    {member : ArchiveMember} (hmember : member ∈ archive.members) :
    (NameSpelling.bsd shortNames padding).Keeps member.name := by
  have hall := archive.spelled_memberRecords
  have hholds := hbounds.names member hmember
  rw [hspelling] at hall hholds
  cases hlong : (NameSpelling.bsd shortNames padding).isLong member.name with
  | true =>
    simp only [NameSpelling.Keeps, hlong]
    obtain ⟨record, hrecord, hspelled⟩ := exists_of_forall₂_left hall hmember
    cases hspelled with
    | extended _ =>
      have hlisted : member.name ∈ ArchiveReader.listedNames archive.table
          archive.memberRecords := by
        refine ArchiveReader.mem_listedNames_of_forall hrecord ?_
        intro current
        rw [NameSpelling.rawName_extended hholds.short]
        exact resolveMemberName_extended hholds.ne_nil hholds.noNul
          hholds.short current member.data
      exact (mem_objectNames_iff.mp ((hlists _).mp hlisted)).2
    | bare hshort => exact absurd hlong (by rw [hshort]; decide)
  | false =>
    simp only [NameSpelling.Keeps, hlong]
    by_cases hindex : IsIndexName member.name
    · exact Or.inl hindex
    right
    constructor
    · intro hhead
      have hslash : (0x2F : UInt8) ∈ member.name := List.mem_of_head? hhead
      rcases bare_of_listsObjects hspelling hbounds hlists hmember hlong
        hindex with hnone | ⟨other, -, -, -, hhead', heq | ⟨heq, -⟩⟩
      · exact hnone hslash
      · rw [heq, List.head?_append_of_ne_nil _ hholds.ne_nil] at hhead'
        exact hhead' hhead
      · exact hhead' (heq ▸ hhead)
    · intro hlast
      -- one of the names would be wider than its field
      obtain ⟨other, -, hbare, -, hname⟩ := exists_slashes_of_listsObjects
        hspelling hbounds hlists hmember hlong hindex hlast
        (memberNameLength + 1)
      have hwidth := (NameSpelling.fitsBare_of_not_isLong hbare).1
      rw [hname, List.length_append, List.length_replicate] at hwidth
      omega

end Bsd

/-- The fields `build_archive` fills in. -/
def plainMetadata : MemberMetadata :=
  ⟨putPadded [0x30] 12 ++ putPadded [0x30] 6 ++ putPadded [0x30] 6 ++
    putPadded [0x36, 0x34, 0x34] 8, by decide⟩

/-- A GNU archive with one object of one byte under the name. -/
def withMember (name : List UInt8) : Archive :=
  { spelling := .gnu false
    members := [⟨name, [0x78], plainMetadata⟩]
    index := none
    tableMetadata := plainMetadata }

/-- `aes_core_implementation.o`. -/
def plainName : List UInt8 :=
  [0x61, 0x65, 0x73, 0x5F, 0x63, 0x6F, 0x72, 0x65, 0x5F, 0x69, 0x6D, 0x70, 0x6C,
    0x65, 0x6D, 0x65, 0x6E, 0x74, 0x61, 0x74, 0x69, 0x6F, 0x6E, 0x2E, 0x6F]

/-- `crypto/aes_core.o`. -/
def slashName : List UInt8 :=
  [0x63, 0x72, 0x79, 0x70, 0x74, 0x6F, 0x2F, 0x61, 0x65, 0x73, 0x5F, 0x63, 0x6F,
    0x72, 0x65, 0x2E, 0x6F]

end Archive

end Bomwerk.Binscan
