import Bomwerk.Support.Bytes
import Bomwerk.Support.SortUnique

/-!
# A bounds-checked cursor

`binscan/byte_cursor.hpp` and `binscan/bounds.hpp`: every read of an untrusted
image either fits it or answers nothing, and every list is sorted, freed of
duplicates and capped in one place.
-/

namespace Bomwerk.Binscan

open Bomwerk.Support

inductive ByteOrder
  | little
  | big
  deriving DecidableEq, Repr

inductive IntegerWidth
  | oneByte
  | twoBytes
  | fourBytes
  | eightBytes
  deriving DecidableEq, Repr

def IntegerWidth.byteCount : IntegerWidth → Nat
  | oneByte => 1
  | twoBytes => 2
  | fourBytes => 4
  | eightBytes => 8

structure ByteCursor where
  bytes : List UInt8
  byteOrder : ByteOrder
  deriving DecidableEq

namespace ByteCursor

def size (cursor : ByteCursor) : Nat := cursor.bytes.length

def hasRange (cursor : ByteCursor) (offset length : Nat) : Bool :=
  if cursor.size < length then false
  else decide (offset ≤ cursor.size - length)

def uintAt (cursor : ByteCursor) (offset : Nat) (width : IntegerWidth) :
    Option Nat :=
  if cursor.hasRange offset width.byteCount then
    let field := (cursor.bytes.drop offset).take width.byteCount
    match cursor.byteOrder with
    | .little => some (fromLittleEndian field)
    | .big => some (fromLittleEndian field.reverse)
  else none

def cStringAt (cursor : ByteCursor) (offset maxLength : Nat) :
    Option (List UInt8) :=
  if cursor.size < offset then none
  else
    let searchable := (cursor.bytes.drop offset).take maxLength
    let text := searchable.takeWhile (· ≠ 0)
    if text.length < searchable.length then some text else none

def subrange (cursor : ByteCursor) (offset length : Nat) :
    Option ByteCursor :=
  if cursor.hasRange offset length then
    some ⟨(cursor.bytes.drop offset).take length, cursor.byteOrder⟩
  else none

def withByteOrder (cursor : ByteCursor) (byteOrder : ByteOrder) : ByteCursor :=
  ⟨cursor.bytes, byteOrder⟩

theorem hasRange_eq_true_iff (cursor : ByteCursor) (offset length : Nat) :
    cursor.hasRange offset length = true ↔ offset + length ≤ cursor.size := by
  rw [hasRange]
  split_ifs with hlong
  · simp only [false_iff]
    omega
  · rw [decide_eq_true_iff]
    omega

theorem uintAt_lt {cursor : ByteCursor} {offset value : Nat}
    {width : IntegerWidth} (hvalue : cursor.uintAt offset width = some value) :
    value < 256 ^ width.byteCount := by
  rw [uintAt] at hvalue
  split_ifs at hvalue with hrange
  rw [hasRange_eq_true_iff, size] at hrange
  have hlength : ((cursor.bytes.drop offset).take width.byteCount).length =
      width.byteCount := by
    rw [List.length_take, List.length_drop]
    omega
  have hlittle := fromLittleEndian_lt
    ((cursor.bytes.drop offset).take width.byteCount)
  have hbig := fromLittleEndian_lt
    ((cursor.bytes.drop offset).take width.byteCount).reverse
  rw [List.length_reverse, hlength] at hbig
  rw [hlength] at hlittle
  cases horder : cursor.byteOrder with
  | little =>
    simp only [horder, Option.some.injEq] at hvalue
    exact hvalue ▸ hlittle
  | big =>
    simp only [horder, Option.some.injEq] at hvalue
    exact hvalue ▸ hbig

/-- One byte is read as it is in either order. -/
theorem uintAt_oneByte {cursor : ByteCursor} {offset : Nat} {byte : UInt8}
    (hbyte : cursor.bytes[offset]? = some byte) :
    cursor.uintAt offset .oneByte = some byte.toNat := by
  obtain ⟨hlt, hget⟩ := List.getElem?_eq_some_iff.mp hbyte
  have hrange : cursor.hasRange offset IntegerWidth.oneByte.byteCount =
      true := by
    rw [hasRange_eq_true_iff]
    exact hlt
  have hfield : (cursor.bytes.drop offset).take
      IntegerWidth.oneByte.byteCount = [byte] := by
    rw [List.drop_eq_getElem_cons hlt, hget]
    rfl
  rw [uintAt, if_pos hrange]
  simp only [hfield, List.reverse_singleton]
  cases cursor.byteOrder <;> simp [fromLittleEndian]

theorem subrange_eq_some_iff {cursor region : ByteCursor}
    {offset length : Nat} :
    cursor.subrange offset length = some region ↔
      offset + length ≤ cursor.size ∧
        region = ⟨(cursor.bytes.drop offset).take length,
          cursor.byteOrder⟩ := by
  rw [subrange]
  split_ifs with hrange
  · rw [hasRange_eq_true_iff] at hrange
    simp [hrange, eq_comm]
  · rw [hasRange_eq_true_iff] at hrange
    simp [hrange]

end ByteCursor

/-! ## Bounds -/

def maxBinaryBytes : Nat := 128 * 1024 * 1024

def maxProgramHeaders : Nat := 1024

def maxSectionHeaders : Nat := 4096

def maxDynamicEntries : Nat := 4096

def maxSymbolTableEntries : Nat := 200000

def maxStringLength : Nat := 4096

def maxNeededEntries : Nat := 512

def maxArchiveMembers : Nat := 4096

def maxSymbolSample : Nat := 256

def normalized (values : List (List UInt8)) : List (List UInt8) :=
  sortUnique (fun left right => byteKey left ≤ byteKey right) byteKey values

instance : Std.Total fun left right : List UInt8 =>
    byteKey left ≤ byteKey right where
  total left right := le_total (byteKey left) (byteKey right)

instance : IsTrans (List UInt8) fun left right =>
    byteKey left ≤ byteKey right where
  trans _ _ _ := le_trans

theorem normalized_eq_sortUnique (equality : DecidableEq (List Nat))
    (values : List (List UInt8)) :
    normalized values =
      sortUnique (fun left right => byteKey left ≤ byteKey right) byteKey
        values := by
  rw [normalized]
  congr!

/-- The list holds the values in ascending order, each once. -/
structure IsSortedSet (sorted values : List (List UInt8)) : Prop where
  ascending : sorted.Pairwise fun left right => byteKey left < byteKey right
  mem_iff : ∀ value, value ∈ sorted ↔ value ∈ values

theorem isSortedSet_normalized (values : List (List UInt8)) :
    IsSortedSet (normalized values) values := by
  rw [normalized_eq_sortUnique LinearOrder.toDecidableEq]
  refine ⟨pairwise_lt_sortUnique (fun _ _ hle => hle) values, ?_⟩
  intro value
  rw [← List.mem_map_of_injective byteKey_injective,
    map_key_mem_sortUnique_iff, List.mem_map_of_injective byteKey_injective]

theorem length_normalized_le (values : List (List UInt8)) :
    (normalized values).length ≤ values.length := by
  rw [normalized, sortUnique]
  refine (uniqueBy_sublist _).length_le.trans ?_
  rw [List.length_insertionSort]

/-- `normalize_and_cap`: the values it leaves, and whether the cap was hit. -/
def normalizeAndCap (values : List (List UInt8)) (maximum : Nat) :
    List (List UInt8) × Bool :=
  let values := normalized values
  if values.length ≤ maximum then (values, false)
  else (values.take maximum, true)

variable {values : List (List UInt8)} {maximum : Nat} {value : List UInt8}

theorem mem_of_mem_normalizeAndCap
    (hvalue : value ∈ (normalizeAndCap values maximum).1) : value ∈ values := by
  rw [← (isSortedSet_normalized values).mem_iff]
  simp only [normalizeAndCap] at hvalue
  split_ifs at hvalue
  · exact hvalue
  · exact List.mem_of_mem_take hvalue

/-- A value the cap leaves out stands behind a full list of smaller ones, and
the cap is flagged. -/
theorem mem_normalizeAndCap_or (hvalue : value ∈ values) :
    value ∈ (normalizeAndCap values maximum).1 ∨
      (normalizeAndCap values maximum).1.length = maximum ∧
        (∀ kept ∈ (normalizeAndCap values maximum).1,
          byteKey kept < byteKey value) ∧
        (normalizeAndCap values maximum).2 = true := by
  obtain ⟨hsorted, hmem⟩ := isSortedSet_normalized values
  have hvalue := (hmem value).mpr hvalue
  simp only [normalizeAndCap]
  split_ifs with hfits
  · exact Or.inl hvalue
  · rw [← List.take_append_drop maximum (normalized values)] at hsorted hvalue
    obtain ⟨-, -, hlt⟩ := List.pairwise_append.mp hsorted
    rcases List.mem_append.mp hvalue with hkept | hdropped
    · exact Or.inl hkept
    · refine Or.inr ⟨?_, ?_, rfl⟩
      · rw [List.length_take]
        omega
      · exact fun kept hkept => hlt kept hkept value hdropped

end Bomwerk.Binscan
