import Mathlib.Data.Nat.Digits.Defs
import Mathlib.Order.Lex
import Mathlib.Data.List.Lex
import Mathlib.Tactic.Ring

/-!
# Byte strings

Unsigned integers of a fixed number of bytes, the order of byte strings, and
blocks found again inside the byte string they were concatenated into.
-/

namespace Bomwerk.Support

/-- The `width` bytes of `value`, least significant first; what does not fit is
dropped. -/
def littleEndian (width value : Nat) : List UInt8 :=
  (List.range width).map fun index => UInt8.ofNat (value / 256 ^ index)

/-- The number whose bytes these are, least significant first. -/
def fromLittleEndian (bytes : List UInt8) : Nat :=
  Nat.ofDigits 256 (bytes.map UInt8.toNat)

@[simp] theorem length_littleEndian (width value : Nat) :
    (littleEndian width value).length = width := by
  simp [littleEndian]

theorem littleEndian_succ (width value : Nat) :
    littleEndian (width + 1) value =
      UInt8.ofNat value :: littleEndian width (value / 256) := by
  simp only [littleEndian, List.range_succ_eq_map, List.map_cons,
    List.map_map, pow_zero, Nat.div_one, List.cons.injEq, true_and]
  refine List.map_congr_left fun index _ => ?_
  rw [Function.comp_apply, Nat.succ_eq_add_one, pow_succ', Nat.div_div_eq_div_mul]

theorem fromLittleEndian_littleEndian (width value : Nat) :
    fromLittleEndian (littleEndian width value) = value % 256 ^ width := by
  induction width generalizing value with
  | zero => simp [littleEndian, fromLittleEndian, Nat.mod_one]
  | succ width ih =>
    have hrest := ih (value / 256)
    rw [fromLittleEndian] at hrest
    rw [littleEndian_succ, fromLittleEndian, List.map_cons,
      Nat.ofDigits_cons, hrest, UInt8.toNat_ofNat',
      pow_succ' 256 width, Nat.mod_mul]

theorem fromLittleEndian_lt (bytes : List UInt8) :
    fromLittleEndian bytes < 256 ^ bytes.length := by
  have hlt := Nat.ofDigits_lt_base_pow_length (b := 256)
    (l := bytes.map UInt8.toNat) (by decide) (by
      intro value hvalue
      obtain ⟨byte, -, rfl⟩ := List.mem_map.mp hvalue
      exact byte.toNat_lt)
  rwa [List.length_map] at hlt

def byteKey (bytes : List UInt8) : List Nat := bytes.map UInt8.toNat

theorem byteKey_injective : Function.Injective byteKey :=
  List.map_injective_iff.mpr fun _ _ => UInt8.toNat_inj.mp

/-- The block stands at the offset. -/
def IsAt (bytes : List UInt8) (offset : Nat) (block : List UInt8) : Prop :=
  ∃ before after, bytes = before ++ (block ++ after) ∧ before.length = offset

namespace IsAt

variable {bytes block inner : List UInt8} {offset position : Nat}

theorem trans (hblock : IsAt bytes offset block)
    (hinner : IsAt block position inner) :
    IsAt bytes (offset + position) inner := by
  obtain ⟨before, after, rfl, rfl⟩ := hblock
  obtain ⟨before', after', rfl, rfl⟩ := hinner
  refine ⟨before ++ before', after' ++ after, ?_, List.length_append⟩
  simp only [List.append_assoc]

theorem append_right (hblock : IsAt bytes offset block)
    (more : List UInt8) : IsAt (bytes ++ more) offset block := by
  obtain ⟨before, after, rfl, rfl⟩ := hblock
  refine ⟨before, after ++ more, ?_, rfl⟩
  simp only [List.append_assoc]

theorem last (bytes block : List UInt8) :
    IsAt (bytes ++ block) bytes.length block :=
  ⟨bytes, [], by rw [List.append_nil], rfl⟩

theorem length_le (hblock : IsAt bytes offset block) :
    offset + block.length ≤ bytes.length := by
  obtain ⟨before, after, rfl, rfl⟩ := hblock
  simp only [List.length_append]
  omega

theorem take_drop (hblock : IsAt bytes offset block) :
    (bytes.drop offset).take block.length = block := by
  obtain ⟨before, after, rfl, rfl⟩ := hblock
  rw [List.drop_left, List.take_left]

end IsAt

theorem length_flatMap_record {α : Type*} {record : α → List UInt8} {size : Nat}
    (hsize : ∀ value, (record value).length = size) (values : List α) :
    (values.flatMap record).length = size * values.length := by
  rw [List.length_flatMap, List.map_congr_left fun v _ => hsize v]
  simp [Nat.mul_comm]

theorem isAt_flatMap {α : Type*} {record : α → List UInt8} {size : Nat}
    (hsize : ∀ value, (record value).length = size) (values : List α)
    {index : Nat} {value : α} (hvalue : values[index]? = some value) :
    IsAt (values.flatMap record) (index * size) (record value) := by
  obtain ⟨hindex, rfl⟩ := List.getElem?_eq_some_iff.mp hvalue
  refine ⟨(values.take index).flatMap record,
    (values.drop (index + 1)).flatMap record, ?_, ?_⟩
  · rw [← List.flatMap_cons, ← List.flatMap_append,
      ← List.drop_eq_getElem_cons hindex, List.take_append_drop]
  · rw [length_flatMap_record hsize, List.length_take,
      Nat.min_eq_left hindex.le, Nat.mul_comm]

end Bomwerk.Support
