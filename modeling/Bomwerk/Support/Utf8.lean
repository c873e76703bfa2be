import Mathlib.Data.List.Basic
import Mathlib.Data.Nat.Basic

/-!
# UTF-8

Text as the bytes that encode it, the byte patterns of the sequences a
character is encoded as, and the repair of an arbitrary byte string: what is
encoded text stays, and every other byte stands for one replacement character.
-/

namespace Bomwerk.Support

open String (utf8EncodeChar)

def utf8Encode (chars : List Char) : List UInt8 :=
  chars.flatMap utf8EncodeChar

@[simp] theorem utf8Encode_nil : utf8Encode [] = [] := rfl

@[simp] theorem utf8Encode_cons (c : Char) (chars : List Char) :
    utf8Encode (c :: chars) = utf8EncodeChar c ++ utf8Encode chars := by
  simp [utf8Encode]

@[simp] theorem utf8Encode_append (left right : List Char) :
    utf8Encode (left ++ right) = utf8Encode left ++ utf8Encode right := by
  simp [utf8Encode]

theorem utf8Encode_toByteArray (chars : List Char) :
    (utf8Encode chars).toByteArray = chars.utf8Encode := rfl

/-! ## The sequence of one character -/

/-- A byte that continues a sequence. -/
def Continues (byte : UInt8) : Prop := 0x80 ≤ byte.toNat ∧ byte.toNat < 0xC0

theorem utf8EncodeChar_cases (c : Char) :
    (c.toNat < 0x80 ∧ utf8EncodeChar c = [UInt8.ofNat c.toNat]) ∨
      (0x80 ≤ c.toNat ∧ c.toNat < 0x800 ∧
        utf8EncodeChar c = [UInt8.ofNat (0xC0 + c.toNat / 64),
          UInt8.ofNat (0x80 + c.toNat % 64)]) ∨
      (0x800 ≤ c.toNat ∧ c.toNat < 0x10000 ∧
        utf8EncodeChar c = [UInt8.ofNat (0xE0 + c.toNat / 4096),
          UInt8.ofNat (0x80 + c.toNat / 64 % 64),
          UInt8.ofNat (0x80 + c.toNat % 64)]) ∨
      (0x10000 ≤ c.toNat ∧ c.toNat < 0x110000 ∧
        utf8EncodeChar c = [UInt8.ofNat (0xF0 + c.toNat / 262144),
          UInt8.ofNat (0x80 + c.toNat / 4096 % 64),
          UInt8.ofNat (0x80 + c.toNat / 64 % 64),
          UInt8.ofNat (0x80 + c.toNat % 64)]) := by
  have hvalid : c.toNat < 0x110000 := by
    have h := c.valid
    simp only [UInt32.isValidChar, Nat.isValidChar] at h
    change c.val.toNat < _
    omega
  have hval : c.val.toNat = c.toNat := rfl
  simp only [utf8EncodeChar, hval]
  by_cases hone : c.toNat ≤ 0x7f
  · left
    rw [if_pos hone]
    exact ⟨by omega, rfl⟩
  rw [if_neg hone]
  by_cases htwo : c.toNat ≤ 0x7ff
  · right; left
    rw [if_pos htwo, Nat.mod_eq_of_lt (by omega : c.toNat / 64 < 0x20),
      Nat.add_comm _ 0xc0, Nat.add_comm _ 0x80]
    exact ⟨by omega, by omega, rfl⟩
  rw [if_neg htwo]
  by_cases hthree : c.toNat ≤ 0xffff
  · right; right; left
    rw [if_pos hthree, Nat.mod_eq_of_lt (by omega : c.toNat / 4096 < 0x10),
      Nat.add_comm _ 0xe0, Nat.add_comm _ 0x80, Nat.add_comm _ 0x80]
    exact ⟨by omega, by omega, rfl⟩
  · right; right; right
    rw [if_neg hthree, Nat.mod_eq_of_lt (by omega : c.toNat / 262144 < 0x08),
      Nat.add_comm _ 0xf0, Nat.add_comm _ 0x80, Nat.add_comm _ 0x80,
      Nat.add_comm _ 0x80]
    exact ⟨by omega, hvalid, rfl⟩

theorem utf8EncodeChar_of_lt {c : Char} (h : c.toNat < 0x80) :
    utf8EncodeChar c = [UInt8.ofNat c.toNat] := by
  rcases utf8EncodeChar_cases c with ⟨-, hc⟩ | hc | hc | hc
  · exact hc
  all_goals omega

theorem le_toNat_of_length {c : Char} (h : 1 < (utf8EncodeChar c).length) :
    0x80 ≤ c.toNat := by
  by_contra hlt
  rw [utf8EncodeChar_of_lt (by omega)] at h
  exact absurd h (by simp)

theorem utf8EncodeChar_ne_nil (c : Char) : utf8EncodeChar c ≠ [] := by
  intro h
  have hsize := c.utf8Size_pos
  rw [← String.length_utf8EncodeChar, h] at hsize
  exact absurd hsize (by simp)

theorem le_toNat_of_mem_utf8EncodeChar {c : Char} (h : 0x80 ≤ c.toNat)
    {byte : UInt8} (hbyte : byte ∈ utf8EncodeChar c) : 0x80 ≤ byte.toNat := by
  rcases utf8EncodeChar_cases c with hc | ⟨-, hlt, hc⟩ | ⟨-, hlt, hc⟩ |
    ⟨-, hlt, hc⟩
  · omega
  all_goals
    rw [hc] at hbyte
    simp only [List.mem_cons, List.not_mem_nil, or_false] at hbyte
    rcases hbyte with rfl | rfl | rfl | rfl <;>
      (simp only [UInt8.toNat_ofNat']; omega)

theorem toUInt8_not_mem_utf8EncodeChar {c d : Char} (hd : d.toNat < 0x80)
    (hne : c ≠ d) : d.toUInt8 ∉ utf8EncodeChar c := by
  have hbyte : d.toUInt8.toNat = d.toNat := by
    change d.toNat % 256 = d.toNat
    omega
  intro hmem
  by_cases hc : c.toNat < 0x80
  · rw [utf8EncodeChar_of_lt hc, List.mem_singleton] at hmem
    have hnat := congrArg UInt8.toNat hmem
    rw [hbyte, UInt8.toNat_ofNat'] at hnat
    exact hne (Char.toNat_inj.mp (by omega))
  · have hle := le_toNat_of_mem_utf8EncodeChar (by omega) hmem
    omega

theorem toUInt8_not_mem_utf8Encode {chars : List Char} {d : Char}
    (hd : d.toNat < 0x80) (hchars : d ∉ chars) :
    d.toUInt8 ∉ utf8Encode chars := by
  intro hmem
  obtain ⟨c, hc, hmem⟩ := List.mem_flatMap.mp hmem
  exact toUInt8_not_mem_utf8EncodeChar hd (fun h => hchars (h ▸ hc)) hmem

theorem utf8EncodeChar_eq_cons (c : Char) :
    ∃ lead more, utf8EncodeChar c = lead :: more ∧ ¬ Continues lead ∧
      ∀ byte ∈ more, Continues byte := by
  rcases utf8EncodeChar_cases c with ⟨hlt, hc⟩ | ⟨-, hlt, hc⟩ | ⟨-, hlt, hc⟩ |
    ⟨-, hlt, hc⟩
  all_goals
    refine ⟨_, _, hc, ?_, ?_⟩
    · simp only [Continues, UInt8.toNat_ofNat']
      omega
    · intro byte hbyte
      simp only [List.mem_cons, List.not_mem_nil, or_false] at hbyte
      try rcases hbyte with rfl | rfl | rfl <;>
        (simp only [Continues, UInt8.toNat_ofNat']; omega)

theorem utf8EncodeChar_append_inj {c d : Char} {left right : List UInt8}
    (h : utf8EncodeChar c ++ left = utf8EncodeChar d ++ right) :
    c = d ∧ left = right := by
  have hdecode := congrArg (fun bytes => bytes.toByteArray.utf8DecodeChar? 0) h
  simp only [List.toByteArray_append,
    ByteArray.utf8DecodeChar?_utf8EncodeChar_append, Option.some.injEq]
    at hdecode
  subst hdecode
  exact ⟨rfl, List.append_cancel_left h⟩

theorem exists_char_toNat {n : Nat} (h : n.isValidChar) :
    ∃ c : Char, c.toNat = n :=
  ⟨Char.ofNat n, by rw [Char.ofNat, dif_pos h]; rfl⟩

theorem exists_utf8EncodeChar_eq_two {a b : UInt8} (ha : 0xC2 ≤ a.toNat)
    (ha' : a.toNat ≤ 0xDF) (hb : Continues b) :
    ∃ c, utf8EncodeChar c = [a, b] := by
  obtain ⟨hb, hb'⟩ := hb
  obtain ⟨c, hc⟩ := exists_char_toNat
    (n := (a.toNat - 0xC0) * 64 + (b.toNat - 0x80))
    (by simp only [Nat.isValidChar]; omega)
  refine ⟨c, ?_⟩
  rcases utf8EncodeChar_cases c with h | ⟨-, -, h⟩ | h | h
  · omega
  · rw [h, show 0xC0 + c.toNat / 64 = a.toNat by omega,
      show 0x80 + c.toNat % 64 = b.toNat by omega]
    simp
  all_goals omega

theorem exists_utf8EncodeChar_eq_three {a b d : UInt8} (ha : 0xE0 ≤ a.toNat)
    (ha' : a.toNat ≤ 0xEF) (hb : Continues b) (hd : Continues d)
    (hlow : a.toNat = 0xE0 → 0xA0 ≤ b.toNat)
    (hsurrogate : a.toNat = 0xED → b.toNat < 0xA0) :
    ∃ c, utf8EncodeChar c = [a, b, d] := by
  obtain ⟨hb, hb'⟩ := hb
  obtain ⟨hd, hd'⟩ := hd
  obtain ⟨c, hc⟩ := exists_char_toNat
    (n := (a.toNat - 0xE0) * 4096 + (b.toNat - 0x80) * 64 + (d.toNat - 0x80))
    (by simp only [Nat.isValidChar]; omega)
  refine ⟨c, ?_⟩
  rcases utf8EncodeChar_cases c with h | h | ⟨-, -, h⟩ | h
  · omega
  · omega
  · rw [h, show 0xE0 + c.toNat / 4096 = a.toNat by omega,
      show 0x80 + c.toNat / 64 % 64 = b.toNat by omega,
      show 0x80 + c.toNat % 64 = d.toNat by omega]
    simp
  · omega

theorem exists_utf8EncodeChar_eq_four {a b d e : UInt8} (ha : 0xF0 ≤ a.toNat)
    (ha' : a.toNat ≤ 0xF4) (hb : Continues b) (hd : Continues d)
    (he : Continues e) (hlow : a.toNat = 0xF0 → 0x90 ≤ b.toNat)
    (hhigh : a.toNat = 0xF4 → b.toNat < 0x90) :
    ∃ c, utf8EncodeChar c = [a, b, d, e] := by
  obtain ⟨hb, hb'⟩ := hb
  obtain ⟨hd, hd'⟩ := hd
  obtain ⟨he, he'⟩ := he
  obtain ⟨c, hc⟩ := exists_char_toNat
    (n := (a.toNat - 0xF0) * 262144 + (b.toNat - 0x80) * 4096 +
      (d.toNat - 0x80) * 64 + (e.toNat - 0x80))
    (by simp only [Nat.isValidChar]; omega)
  refine ⟨c, ?_⟩
  rcases utf8EncodeChar_cases c with h | h | h | ⟨-, -, h⟩
  · omega
  · omega
  · omega
  · rw [h, show 0xF0 + c.toNat / 262144 = a.toNat by omega,
      show 0x80 + c.toNat / 4096 % 64 = b.toNat by omega,
      show 0x80 + c.toNat / 64 % 64 = d.toNat by omega,
      show 0x80 + c.toNat % 64 = e.toNat by omega]
    simp

/-! ## Repair -/

def replacementCharacter : Char := '\uFFFD'

/-- The bytes do not begin with the sequence of a character. -/
def StartsNoSequence (bytes : List UInt8) : Prop :=
  ∀ c rest, bytes ≠ utf8EncodeChar c ++ rest

/-- A byte string read as text: a well-formed sequence is its character, and a
byte that starts none is one replacement character. -/
inductive Repaired : List UInt8 → List Char → Prop
  | nil : Repaired [] []
  | sequence (c : Char) {bytes : List UInt8} {chars : List Char} :
      Repaired bytes chars → Repaired (utf8EncodeChar c ++ bytes) (c :: chars)
  | stray {byte : UInt8} {bytes : List UInt8} {chars : List Char} :
      StartsNoSequence (byte :: bytes) → Repaired bytes chars →
        Repaired (byte :: bytes) (replacementCharacter :: chars)

namespace Repaired

/-- A byte string has one reading. -/
theorem unique {bytes : List UInt8} {left right : List Char}
    (hleft : Repaired bytes left) (hright : Repaired bytes right) :
    left = right := by
  induction hleft generalizing right with
  | nil =>
    generalize hbytes : ([] : List UInt8) = bytes at hright
    cases hright with
    | nil => rfl
    | sequence c hrest =>
      exact absurd (List.append_eq_nil_iff.mp hbytes.symm).1
        (utf8EncodeChar_ne_nil c)
    | stray hstray hrest => exact absurd hbytes (by simp)
  | sequence c hrest ih =>
    generalize hbytes : utf8EncodeChar c ++ _ = bytes at hright
    cases hright with
    | nil =>
      exact absurd (List.append_eq_nil_iff.mp hbytes).1
        (utf8EncodeChar_ne_nil c)
    | sequence d hrest' =>
      obtain ⟨rfl, rfl⟩ := utf8EncodeChar_append_inj hbytes
      rw [ih hrest']
    | stray hstray hrest' => exact absurd hbytes.symm (hstray c _)
  | stray hstray hrest ih =>
    generalize hbytes : List.cons _ _ = bytes at hright
    cases hright with
    | nil => exact absurd hbytes (by simp)
    | sequence d hrest' => exact absurd hbytes (hstray d _)
    | stray hstray' hrest' =>
      obtain ⟨rfl, rfl⟩ := List.cons.inj hbytes
      rw [ih hrest']

theorem exists_repaired (bytes : List UInt8) :
    ∃ chars, Repaired bytes chars := by
  induction hlength : bytes.length using Nat.strong_induction_on
    generalizing bytes with
  | _ n ih =>
    by_cases hstray : StartsNoSequence bytes
    · cases bytes with
      | nil => exact ⟨[], nil⟩
      | cons byte bytes =>
        obtain ⟨chars, hchars⟩ :=
          ih bytes.length (by simp at hlength; omega) bytes rfl
        exact ⟨_, stray hstray hchars⟩
    · simp only [StartsNoSequence, not_forall, Decidable.not_not] at hstray
      obtain ⟨c, rest, rfl⟩ := hstray
      have hpos := List.length_pos_of_ne_nil (utf8EncodeChar_ne_nil c)
      obtain ⟨chars, hchars⟩ := ih rest.length
        (by rw [← hlength, List.length_append]; omega) rest rfl
      exact ⟨_, sequence c hchars⟩

/-- What precedes a sequence is read without it: no sequence that starts
before it reaches into it. -/
theorem append_sequence {before after : List UInt8} {left right : List Char}
    (hbefore : Repaired before left) (c : Char)
    (hafter : Repaired after right) :
    Repaired (before ++ (utf8EncodeChar c ++ after)) (left ++ c :: right) := by
  induction hbefore with
  | nil => exact sequence c hafter
  | sequence d _ ih =>
    rw [List.append_assoc]
    exact sequence d ih
  | @stray byte bytes chars hstray _ ih =>
    refine stray ?_ ih
    intro d rest hd
    change (byte :: bytes) ++ (utf8EncodeChar c ++ after) = _ at hd
    rcases List.append_eq_append_iff.mp hd with
      ⟨more, hmore, htail⟩ | ⟨more, hmore, -⟩
    · cases more with
      | nil =>
        rw [List.append_nil] at hmore
        exact hstray d [] (by rw [hmore, List.append_nil])
      | cons next more =>
        -- `next` would continue the sequence of `d` and begin that of `c`
        obtain ⟨lead, others, hlead, hnot, -⟩ := utf8EncodeChar_eq_cons c
        obtain ⟨first, rest', hfirst, -, hcontinues⟩ :=
          utf8EncodeChar_eq_cons d
        have hnext : next = lead := by
          rw [hlead] at htail
          exact (List.cons.inj htail).1.symm
        have hmem : next ∈ rest' := by
          rw [hfirst] at hmore
          rw [(List.cons.inj hmore).2]
          simp
        exact hnot (hnext ▸ hcontinues next hmem)
    · exact hstray d more hmore

theorem keeps_sequence {bytes before after : List UInt8} {chars : List Char}
    {c : Char} (hrepaired : Repaired bytes chars)
    (hbytes : bytes = before ++ (utf8EncodeChar c ++ after)) :
    ∃ left right, chars = left ++ c :: right ∧ Repaired before left ∧
      Repaired after right := by
  obtain ⟨left, hleft⟩ := exists_repaired before
  obtain ⟨right, hright⟩ := exists_repaired after
  refine ⟨left, right, ?_, hleft, hright⟩
  subst hbytes
  exact hrepaired.unique (append_sequence hleft c hright)

theorem utf8Encode (chars : List Char) :
    Repaired (Support.utf8Encode chars) chars := by
  induction chars with
  | nil => exact nil
  | cons c chars ih =>
    rw [utf8Encode_cons]
    exact sequence c ih

end Repaired

end Bomwerk.Support
