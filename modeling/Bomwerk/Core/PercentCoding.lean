import Bomwerk.Core.Text

/-!
# Percent coding

The percent encoding of byte texts and the decoding that undoes it.
-/

namespace Bomwerk.Core

/-- A text whose characters stand for one byte each. -/
def IsByteText (text : List Char) : Prop :=
  ∀ c ∈ text, c.toNat < 256

theorem isByteText_nil : IsByteText [] := by
  simp [IsByteText]

theorem IsByteText.mono {left right : List Char} (hright : IsByteText right)
    (hsubset : left ⊆ right) : IsByteText left :=
  fun c hc => hright c (hsubset hc)

theorem IsByteText.append {left right : List Char} (hleft : IsByteText left)
    (hright : IsByteText right) : IsByteText (left ++ right) := by
  intro c hc
  rcases List.mem_append.mp hc with h | h
  · exact hleft c h
  · exact hright c h

theorem toNat_charOfByte (byte : UInt8) :
    (Char.ofNat byte.toNat).toNat = byte.toNat := by
  have h : ∀ n < 256, (Char.ofNat n).toNat = n := by decide +kernel
  exact h _ byte.toNat_lt

theorem isByteText_byteText (bytes : List UInt8) :
    IsByteText (byteText bytes) := by
  intro c hc
  obtain ⟨byte, -, rfl⟩ := List.mem_map.mp hc
  rw [toNat_charOfByte]
  exact byte.toNat_lt

theorem isByteText_utf8Text (text : String) : IsByteText (utf8Text text) :=
  isByteText_byteText _

def textBytes (text : List Char) : List UInt8 :=
  text.map fun c => UInt8.ofNat c.toNat

theorem byteText_textBytes {text : List Char} (htext : IsByteText text) :
    byteText (textBytes text) = text := by
  rw [byteText, textBytes, List.map_map]
  conv_rhs => rw [← List.map_id text]
  apply List.map_congr_left
  intro c hc
  have hbyte : c.toNat % 256 = c.toNat := Nat.mod_eq_of_lt (htext c hc)
  simp [hbyte]

def IsEncodedCharacter (c : Char) : Prop :=
  isUnreserved c = true ∨ c = '%'

instance (c : Char) : Decidable (IsEncodedCharacter c) :=
  inferInstanceAs (Decidable (_ ∨ _))

theorem isEncodedCharacter_of_mem_percentEncodeByte {byte : UInt8} {c : Char}
    (hc : c ∈ percentEncodeByte byte) : IsEncodedCharacter c := by
  have hdigits : ∀ n < 16, isUnreserved (hexDigitUpper n) = true := by decide
  simp only [percentEncodeByte] at hc
  have hbyte : byte.toNat < 256 := byte.toNat_lt
  split_ifs at hc with hunreserved
  · obtain rfl := List.mem_singleton.mp hc
    exact .inl hunreserved
  · simp only [List.mem_cons, List.not_mem_nil, or_false] at hc
    rcases hc with rfl | rfl | rfl
    · exact .inr rfl
    · exact .inl (hdigits _ (by omega))
    · exact .inl (hdigits _ (by omega))

theorem isEncodedCharacter_of_mem_percentEncodeText {text : List Char}
    {c : Char} (hc : c ∈ percentEncodeText text) : IsEncodedCharacter c := by
  obtain ⟨_, _, h⟩ := List.mem_flatMap.mp hc
  exact isEncodedCharacter_of_mem_percentEncodeByte h

theorem notMem_percentEncodeText {c : Char} (hc : ¬ IsEncodedCharacter c)
    (text : List Char) : c ∉ percentEncodeText text :=
  fun hmem => hc (isEncodedCharacter_of_mem_percentEncodeText hmem)

@[simp] theorem percentEncodeText_eq_nil_iff {text : List Char} :
    percentEncodeText text = [] ↔ text = [] := by
  cases text with
  | nil => simp [percentEncodeText]
  | cons c text =>
    have hbyte : ∀ byte, percentEncodeByte byte ≠ [] := by
      intro byte
      simp only [percentEncodeByte]
      split_ifs <;> simp
    simp [percentEncodeText, hbyte]

theorem percentDecode_cons_of_ne {byte : UInt8} (hbyte : byte ≠ 0x25)
    (rest : List UInt8) :
    percentDecode (byte :: rest) = byte :: percentDecode rest := by
  rw [percentDecode.eq_def]
  split
  · simp_all
  · simp_all
  · simp_all

theorem hexDigitValue_hexDigitUpper :
    ∀ n < 256, hexDigitValue (UInt8.ofNat (hexDigitUpper (n / 16)).toNat) =
          some (UInt8.ofNat (n / 16)) ∧
        hexDigitValue (UInt8.ofNat (hexDigitUpper (n % 16)).toNat) =
          some (UInt8.ofNat (n % 16)) ∧
        (UInt8.ofNat (n / 16) <<< 4 ||| UInt8.ofNat (n % 16)) =
          UInt8.ofNat n := by
  decide +kernel

theorem percentDecode_percentEncodeByte (byte : UInt8) (rest : List UInt8) :
    percentDecode (textBytes (percentEncodeByte byte) ++ rest) =
      byte :: percentDecode rest := by
  have hbyte : byte.toNat < 256 := byte.toNat_lt
  simp only [percentEncodeByte]
  split_ifs with hunreserved
  · have hsame : UInt8.ofNat (Char.ofNat byte.toNat).toNat = byte := by
      rw [toNat_charOfByte, UInt8.ofNat_toNat]
    have hne : byte ≠ 0x25 := by
      rintro rfl
      exact absurd hunreserved (by decide)
    simp only [textBytes, List.map_cons, List.map_nil, hsame,
      List.singleton_append]
    exact percentDecode_cons_of_ne hne rest
  · obtain ⟨hhigh, hlow, hjoin⟩ := hexDigitValue_hexDigitUpper _ hbyte
    rw [UInt8.ofNat_toNat] at hjoin
    have hpercent : UInt8.ofNat '%'.toNat = 0x25 := by decide
    simp only [textBytes, List.map_cons, List.map_nil, List.cons_append,
      List.nil_append, hpercent, percentDecode, hhigh, hlow, hjoin]

theorem percentDecodeText_append {text : List Char} (htext : IsByteText text)
    (rest : List Char) :
    percentDecodeText (percentEncodeText text ++ rest) =
      text ++ percentDecodeText rest := by
  induction text with
  | nil => rfl
  | cons c text ih =>
    have hc : c.toNat < 256 := htext c List.mem_cons_self
    have hrest : IsByteText text :=
      htext.mono (List.subset_cons_self _ _)
    have hchar : Char.ofNat (UInt8.ofNat c.toNat).toNat = c := by
      have hmod : c.toNat % 256 = c.toNat := Nat.mod_eq_of_lt hc
      simp [hmod]
    have hdecode := percentDecode_percentEncodeByte (UInt8.ofNat c.toNat)
      (textBytes (percentEncodeText text ++ rest))
    rw [percentEncodeText, List.flatMap_cons, List.append_assoc,
      percentDecodeText, List.map_append]
    change byteText (percentDecode (textBytes (percentEncodeByte
      (UInt8.ofNat c.toNat)) ++ textBytes (percentEncodeText text ++ rest))) = _
    rw [hdecode, byteText, List.map_cons, hchar, List.cons_append]
    exact congrArg (c :: ·) (ih hrest)

theorem percentDecodeText_percentEncodeText {text : List Char}
    (htext : IsByteText text) :
    percentDecodeText (percentEncodeText text) = text := by
  have h := percentDecodeText_append htext []
  rwa [List.append_nil, show percentDecodeText [] = [] from rfl,
    List.append_nil] at h

theorem percentDecodeText_cons {c : Char} (hc : c.toNat < 256)
    (hne : c ≠ '%') (rest : List Char) :
    percentDecodeText (c :: rest) = c :: percentDecodeText rest := by
  have hmod : c.toNat % 256 = c.toNat := Nat.mod_eq_of_lt hc
  have hbyte : UInt8.ofNat c.toNat ≠ 0x25 := by
    intro h
    have hnat : c.toNat = 0x25 := by
      have := congrArg UInt8.toNat h
      simpa [hmod] using this
    exact hne (Char.toNat_inj.mp hnat)
  have hchar : Char.ofNat (UInt8.ofNat c.toNat).toNat = c := by
    simp [hmod]
  rw [percentDecodeText, List.map_cons, percentDecode_cons_of_ne hbyte,
    byteText, List.map_cons, hchar]
  rfl

end Bomwerk.Core
