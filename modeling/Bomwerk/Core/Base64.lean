import Mathlib.Data.List.Basic
import Mathlib.Data.Nat.Bitwise

/-!
# Base64

`core/base64.cpp`: the padded encoder in the standard alphabet, and the strict
decoder of the unpadded URL-safe form.
-/

namespace Bomwerk.Core.Base64

def alphabet : List Char :=
  "ABCDEFGHIJKLMNOPQRSTUVWXYZabcdefghijklmnopqrstuvwxyz0123456789+/".toList

def urlAlphabet : List Char :=
  "ABCDEFGHIJKLMNOPQRSTUVWXYZabcdefghijklmnopqrstuvwxyz0123456789-_".toList

/-- `kAlphabet[bits & 0x3F]`. -/
def symbol (bits : Nat) : Char :=
  alphabet.getD (bits &&& 0x3F) '='

def groupBits (first second third : UInt8) : Nat :=
  first.toNat <<< 16 ||| second.toNat <<< 8 ||| third.toNat

def base64Encode : List UInt8 → List Char
  | first :: second :: third :: rest =>
    let group := groupBits first second third
    symbol (group >>> 18) :: symbol (group >>> 12) :: symbol (group >>> 6) ::
      symbol group :: base64Encode rest
  | [first, second] =>
    let group := groupBits first second 0
    [symbol (group >>> 18), symbol (group >>> 12), symbol (group >>> 6), '=']
  | [first] =>
    let group := groupBits first 0 0
    [symbol (group >>> 18), symbol (group >>> 12), '=', '=']
  | [] => []

/-- `base64url_symbol_value`; nothing in the place of -1. -/
def base64urlSymbolValue (symbol : Char) : Option Nat :=
  urlAlphabet.idxOf? symbol

/-- The groups of `base64url_decode`, and what remains behind them. -/
def decodeGroups : List Char → Option (List UInt8)
  | first :: second :: third :: fourth :: rest =>
    match base64urlSymbolValue first, base64urlSymbolValue second,
        base64urlSymbolValue third, base64urlSymbolValue fourth with
    | some first, some second, some third, some fourth =>
      (decodeGroups rest).map fun decoded =>
        UInt8.ofNat (first <<< 2 ||| second >>> 4) ::
          UInt8.ofNat (second <<< 4 ||| third >>> 2) ::
          UInt8.ofNat (third <<< 6 ||| fourth) :: decoded
    | _, _, _, _ => none
  | [first, second, third] =>
    match base64urlSymbolValue first, base64urlSymbolValue second,
        base64urlSymbolValue third with
    | some first, some second, some third =>
      if third &&& 0x03 ≠ 0 then none
      else some [UInt8.ofNat (first <<< 2 ||| second >>> 4),
        UInt8.ofNat (second <<< 4 ||| third >>> 2)]
    | _, _, _ => none
  | [first, second] =>
    match base64urlSymbolValue first, base64urlSymbolValue second with
    | some first, some second =>
      if second &&& 0x0F ≠ 0 then none
      else some [UInt8.ofNat (first <<< 2 ||| second >>> 4)]
    | _, _ => none
  | _ => some []

def base64urlDecode (text : List Char) : Option (List UInt8) :=
  if text.length % 4 = 1 then none else decodeGroups text

example : base64urlDecode "TWE".toList = some [0x4d, 0x61] ∧
    base64urlDecode "TWF".toList = none := by decide +kernel

def urlSafeSymbol (c : Char) : Char :=
  if c = '+' then '-' else if c = '/' then '_' else c

/-- The URL-safe form of an encoding, without its padding. -/
def urlSafe (encoded : List Char) : List Char :=
  (encoded.filter (· ≠ '=')).map urlSafeSymbol

def urlSymbol (value : Nat) : Char :=
  urlAlphabet.getD value '='

theorem symbol_facts : ∀ value < 64,
    symbol value ≠ '=' ∧ urlSafeSymbol (symbol value) = urlSymbol value ∧
      base64urlSymbolValue (urlSymbol value) = some value := by
  decide +kernel

theorem symbol_mod (bits : Nat) : symbol bits = symbol (bits % 64) := by
  have hmask : ∀ n : Nat, n &&& 0x3F = n % 64 :=
    fun n => Nat.and_two_pow_sub_one_eq_mod n 6
  rw [symbol, symbol, hmask, hmask, Nat.mod_mod]

theorem urlSafe_symbol_cons (bits : Nat) (encoded : List Char) :
    urlSafe (symbol bits :: encoded) =
      urlSymbol (bits % 64) :: urlSafe encoded := by
  obtain ⟨hpad, hsafe, -⟩ := symbol_facts (bits % 64) (Nat.mod_lt _ (by decide))
  rw [symbol_mod, urlSafe, List.filter_cons_of_pos (by simpa using hpad),
    List.map_cons, hsafe]
  rfl

theorem base64urlSymbolValue_eq_some_iff {c : Char} {value : Nat} :
    base64urlSymbolValue c = some value ↔ value < 64 ∧ c = urlSymbol value := by
  constructor
  · intro h
    obtain ⟨hlt, hget, -⟩ := List.findIdx?_eq_some_iff_getElem.mp h
    refine ⟨hlt, ?_⟩
    rw [urlSymbol, List.getD_eq_getElem _ _ hlt]
    exact (beq_iff_eq.mp hget).symm
  · rintro ⟨hlt, rfl⟩
    exact (symbol_facts value hlt).2.2

theorem groupBits_eq (first second third : UInt8) :
    groupBits first second third =
      first.toNat * 65536 + second.toNat * 256 + third.toNat := by
  have hsecond := second.toNat_lt
  have hthird := third.toNat_lt
  have hmiddle : second.toNat <<< 8 < 2 ^ 16 := by
    rw [Nat.shiftLeft_eq]
    omega
  have hfront : first.toNat <<< 16 ||| second.toNat <<< 8 =
      (first.toNat * 256 + second.toNat) <<< 8 := by
    rw [← Nat.shiftLeft_add_eq_or_of_lt hmiddle, Nat.shiftLeft_eq,
      Nat.shiftLeft_eq, Nat.shiftLeft_eq]
    omega
  rw [groupBits, hfront, ← Nat.shiftLeft_add_eq_or_of_lt hthird,
    Nat.shiftLeft_eq]
  omega

theorem groupBits_values (first second third : UInt8) :
    (groupBits first second third >>> 18) % 64 = first.toNat / 4 ∧
      (groupBits first second third >>> 12) % 64 =
        first.toNat % 4 * 16 + second.toNat / 16 ∧
      (groupBits first second third >>> 6) % 64 =
        second.toNat % 16 * 4 + third.toNat / 64 ∧
      groupBits first second third % 64 = third.toNat % 64 := by
  have hfirst := first.toNat_lt
  have hsecond := second.toNat_lt
  have hthird := third.toNat_lt
  rw [groupBits_eq, Nat.shiftRight_eq_div_pow, Nat.shiftRight_eq_div_pow,
    Nat.shiftRight_eq_div_pow]
  omega

/-- The three bytes that four values are put together to. -/
theorem joined_values {first second third fourth : Nat} (hsecond : second < 64)
    (hthird : third < 64) (hfourth : fourth < 64) :
    (first <<< 2 ||| second >>> 4) = first * 4 + second / 16 ∧
      (second <<< 4 ||| third >>> 2) = second * 16 + third / 4 ∧
      (third <<< 6 ||| fourth) = third * 64 + fourth := by
  have hhigh : second >>> 4 < 2 ^ 2 := by
    rw [Nat.shiftRight_eq_div_pow]
    omega
  have hmiddle : third >>> 2 < 2 ^ 4 := by
    rw [Nat.shiftRight_eq_div_pow]
    omega
  rw [← Nat.shiftLeft_add_eq_or_of_lt hhigh,
    ← Nat.shiftLeft_add_eq_or_of_lt hmiddle,
    ← Nat.shiftLeft_add_eq_or_of_lt hfourth]
  simp only [Nat.shiftLeft_eq, Nat.shiftRight_eq_div_pow, Nat.reducePow,
    and_self]

theorem ofNat_eq_of_mod {n : Nat} {byte : UInt8}
    (h : n % 256 = byte.toNat) : UInt8.ofNat n = byte := by
  rw [← UInt8.toNat_inj, UInt8.toNat_ofNat']
  exact h

theorem urlSafe_pad (rest : List Char) : urlSafe ('=' :: rest) =
    urlSafe rest := by
  rw [urlSafe, List.filter_cons_of_neg (by simp)]
  rfl

theorem urlSafe_base64Encode_group (first second third : UInt8)
    (rest : List UInt8) :
    urlSafe (base64Encode (first :: second :: third :: rest)) =
      urlSymbol (first.toNat / 4) ::
        urlSymbol (first.toNat % 4 * 16 + second.toNat / 16) ::
        urlSymbol (second.toNat % 16 * 4 + third.toNat / 64) ::
        urlSymbol (third.toNat % 64) :: urlSafe (base64Encode rest) := by
  obtain ⟨h1, h2, h3, h4⟩ := groupBits_values first second third
  rw [base64Encode]
  simp only [urlSafe_symbol_cons, h1, h2, h3, h4]

theorem urlSafe_base64Encode_two (first second : UInt8) :
    urlSafe (base64Encode [first, second]) = [urlSymbol (first.toNat / 4),
        urlSymbol (first.toNat % 4 * 16 + second.toNat / 16),
        urlSymbol (second.toNat % 16 * 4)] := by
  obtain ⟨h1, h2, h3, -⟩ := groupBits_values first second 0
  have h0 : (0 : UInt8).toNat / 64 = 0 := rfl
  rw [h0, Nat.add_zero] at h3
  rw [base64Encode]
  simp only [urlSafe_symbol_cons, urlSafe_pad, h1, h2, h3]
  rfl

theorem urlSafe_base64Encode_one (first : UInt8) :
    urlSafe (base64Encode [first]) =
      [urlSymbol (first.toNat / 4), urlSymbol (first.toNat % 4 * 16)] := by
  obtain ⟨h1, h2, -, -⟩ := groupBits_values first 0 0
  have h0 : (0 : UInt8).toNat / 16 = 0 := rfl
  rw [h0, Nat.add_zero] at h2
  rw [base64Encode]
  simp only [urlSafe_symbol_cons, urlSafe_pad, h1, h2]
  rfl

theorem base64urlSymbolValue_urlSymbol {value : Nat} (hlt : value < 64) :
    base64urlSymbolValue (urlSymbol value) = some value :=
  base64urlSymbolValue_eq_some_iff.mpr ⟨hlt, rfl⟩

theorem decodeGroups_base64Encode (bytes : List UInt8) :
    decodeGroups (urlSafe (base64Encode bytes)) = some bytes := by
  induction bytes using base64Encode.induct with
  | case1 first second third rest ih =>
    have hfirst := first.toNat_lt
    have hsecond := second.toNat_lt
    have hthird := third.toNat_lt
    obtain ⟨h1, h2, h3⟩ := @joined_values (first.toNat / 4)
      (first.toNat % 4 * 16 + second.toNat / 16)
      (second.toNat % 16 * 4 + third.toNat / 64) (third.toNat % 64)
      (by omega) (by omega) (by omega)
    rw [urlSafe_base64Encode_group, decodeGroups,
      base64urlSymbolValue_urlSymbol (by omega),
      base64urlSymbolValue_urlSymbol (by omega),
      base64urlSymbolValue_urlSymbol (by omega),
      base64urlSymbolValue_urlSymbol (by omega), ih]
    simp only [Option.map_some, h1, h2, h3]
    rw [@ofNat_eq_of_mod _ first (by omega),
      @ofNat_eq_of_mod _ second (by omega),
      @ofNat_eq_of_mod _ third (by omega)]
  | case2 first second =>
    have hfirst := first.toNat_lt
    have hsecond := second.toNat_lt
    obtain ⟨h1, h2, -⟩ := @joined_values (first.toNat / 4)
      (first.toNat % 4 * 16 + second.toNat / 16)
      (second.toNat % 16 * 4) 0 (by omega) (by omega) (by omega)
    have hunused : second.toNat % 16 * 4 &&& 0x03 = 0 := by
      have hmask : second.toNat % 16 * 4 &&& 0x03 =
          second.toNat % 16 * 4 % 4 := Nat.and_two_pow_sub_one_eq_mod _ 2
      omega
    rw [urlSafe_base64Encode_two, decodeGroups,
      base64urlSymbolValue_urlSymbol (by omega),
      base64urlSymbolValue_urlSymbol (by omega),
      base64urlSymbolValue_urlSymbol (by omega)]
    simp only [hunused, ne_eq, not_true, if_false, h1, h2]
    rw [@ofNat_eq_of_mod _ first (by omega),
      @ofNat_eq_of_mod _ second (by omega)]
  | case3 first =>
    have hfirst := first.toNat_lt
    obtain ⟨h1, -, -⟩ := @joined_values (first.toNat / 4)
      (first.toNat % 4 * 16) 0 0 (by omega) (by omega) (by omega)
    have hunused : first.toNat % 4 * 16 &&& 0x0F = 0 := by
      have hmask : first.toNat % 4 * 16 &&& 0x0F =
          first.toNat % 4 * 16 % 16 := Nat.and_two_pow_sub_one_eq_mod _ 4
      omega
    rw [urlSafe_base64Encode_one, decodeGroups,
      base64urlSymbolValue_urlSymbol (by omega),
      base64urlSymbolValue_urlSymbol (by omega)]
    simp only [hunused, ne_eq, not_true, if_false, h1]
    rw [@ofNat_eq_of_mod _ first (by omega)]
  | case4 => rfl

/-! ## Only encodings are decoded -/

/-- A text in the URL-safe alphabet of a possible length, with no bit set behind
the last byte. -/
structure IsCanonical (text : List Char) : Prop where
  length : text.length % 4 ≠ 1
  symbols : ∀ c ∈ text, c ∈ urlAlphabet
  two : text.length % 4 = 2 → ∀ c ∈ text.getLast?, ∀ value,
    base64urlSymbolValue c = some value → value % 16 = 0
  three : text.length % 4 = 3 → ∀ c ∈ text.getLast?, ∀ value,
    base64urlSymbolValue c = some value → value % 4 = 0

theorem mem_urlAlphabet_iff {c : Char} :
    c ∈ urlAlphabet ↔ ∃ value, base64urlSymbolValue c = some value := by
  rw [← Option.isSome_iff_exists, base64urlSymbolValue, List.isSome_idxOf?]

theorem isCanonical_group {first second third fourth : Char}
    {rest : List Char} :
    IsCanonical (first :: second :: third :: fourth :: rest) ↔
      (first ∈ urlAlphabet ∧ second ∈ urlAlphabet ∧ third ∈ urlAlphabet ∧
        fourth ∈ urlAlphabet) ∧ IsCanonical rest := by
  have hmod : (first :: second :: third :: fourth :: rest).length % 4 =
      rest.length % 4 := by
    simp only [List.length_cons]
    omega
  have hlast : rest ≠ [] →
      (first :: second :: third :: fourth :: rest).getLast? =
        rest.getLast? := by
    intro hne
    obtain ⟨c, more, rfl⟩ := List.exists_cons_of_ne_nil hne
    rfl
  have hne : ∀ n, n ≠ 0 → rest.length % 4 = n → rest ≠ [] := by
    rintro n hn hlength rfl
    exact hn hlength.symm
  constructor
  · intro h
    have hsymbols := h.symbols
    simp only [List.forall_mem_cons] at hsymbols
    obtain ⟨h1, h2, h3, h4, hrest⟩ := hsymbols
    refine ⟨⟨h1, h2, h3, h4⟩, ?_, hrest, ?_, ?_⟩
    · rw [← hmod]
      exact h.length
    · intro htwo
      rw [← hlast (hne 2 (by decide) htwo)]
      exact h.two (hmod.trans htwo)
    · intro hthree
      rw [← hlast (hne 3 (by decide) hthree)]
      exact h.three (hmod.trans hthree)
  · rintro ⟨⟨h1, h2, h3, h4⟩, h⟩
    refine ⟨by rw [hmod]; exact h.length, ?_, ?_, ?_⟩
    · simp only [List.forall_mem_cons]
      exact ⟨h1, h2, h3, h4, h.symbols⟩
    · intro htwo
      rw [hmod] at htwo
      rw [hlast (hne 2 (by decide) htwo)]
      exact h.two htwo
    · intro hthree
      rw [hmod] at hthree
      rw [hlast (hne 3 (by decide) hthree)]
      exact h.three hthree

theorem isCanonical_three {first second third : Char} :
    IsCanonical [first, second, third] ↔
      first ∈ urlAlphabet ∧ second ∈ urlAlphabet ∧ third ∈ urlAlphabet ∧
        ∀ value, base64urlSymbolValue third = some value → value % 4 = 0 := by
  constructor
  · intro h
    exact ⟨h.symbols _ (by simp), h.symbols _ (by simp), h.symbols _ (by simp),
      h.three rfl third rfl⟩
  · rintro ⟨h1, h2, h3, hunused⟩
    refine ⟨by simp, by simp [h1, h2, h3], by simp, ?_⟩
    rintro - c ⟨⟩
    exact hunused

theorem isCanonical_two {first second : Char} :
    IsCanonical [first, second] ↔ first ∈ urlAlphabet ∧ second ∈ urlAlphabet ∧
        ∀ value, base64urlSymbolValue second = some value → value % 16 = 0 := by
  constructor
  · intro h
    exact ⟨h.symbols _ (by simp), h.symbols _ (by simp), h.two rfl second rfl⟩
  · rintro ⟨h1, h2, hunused⟩
    refine ⟨by simp, by simp [h1, h2], ?_, by simp⟩
    rintro - c ⟨⟩
    exact hunused

theorem and_three (n : Nat) : n &&& 0x03 = n % 4 :=
  Nat.and_two_pow_sub_one_eq_mod n 2

theorem and_fifteen (n : Nat) : n &&& 0x0F = n % 16 :=
  Nat.and_two_pow_sub_one_eq_mod n 4

/-- The decoder accepts the canonical texts. -/
theorem isSome_base64urlDecode_iff (text : List Char) :
    (base64urlDecode text).isSome ↔ IsCanonical text := by
  by_cases hlength : text.length % 4 = 1
  · rw [base64urlDecode, if_pos hlength]
    exact iff_of_false (by simp) fun h => h.length hlength
  rw [base64urlDecode, if_neg hlength]
  induction text using decodeGroups.induct with
  | case1 c1 c2 c3 c4 rest v1 v2 v3 v4 h4 h3 h2 h1 ih =>
    have hrest : ¬rest.length % 4 = 1 := by
      simp only [List.length_cons] at hlength
      omega
    rw [decodeGroups, h1, h2, h3, h4, isCanonical_group, ← ih hrest]
    simp [mem_urlAlphabet_iff, h1, h2, h3, h4]
  | case2 c1 c2 c3 c4 rest hnone =>
    rw [decodeGroups, isCanonical_group]
    simp only [mem_urlAlphabet_iff]
    refine iff_of_false (by simp) ?_
    rintro ⟨⟨⟨v1, h1⟩, ⟨v2, h2⟩, ⟨v3, h3⟩, ⟨v4, h4⟩⟩, -⟩
    exact hnone v1 v2 v3 v4 h1 h2 h3 h4
  | case3 c1 c2 c3 v1 v2 v3 h3 h2 h1 hunused =>
    rw [decodeGroups, h1, h2, h3, isCanonical_three]
    rw [and_three] at hunused
    simp [and_three, hunused, h3]
  | case4 c1 c2 c3 v1 v2 v3 h3 h2 h1 hunused =>
    rw [decodeGroups, h1, h2, h3, isCanonical_three]
    rw [and_three, not_not] at hunused
    simp [and_three, hunused, mem_urlAlphabet_iff, h1, h2, h3]
  | case5 c1 c2 c3 hnone =>
    rw [decodeGroups, isCanonical_three]
    simp only [mem_urlAlphabet_iff]
    refine iff_of_false (by simp) ?_
    rintro ⟨⟨v1, h1⟩, ⟨v2, h2⟩, ⟨v3, h3⟩, -⟩
    exact hnone v1 v2 v3 h1 h2 h3
  | case6 c1 c2 v1 v2 h2 h1 hunused =>
    rw [decodeGroups, h1, h2, isCanonical_two]
    rw [and_fifteen] at hunused
    simp [and_fifteen, hunused, h2]
  | case7 c1 c2 v1 v2 h2 h1 hunused =>
    rw [decodeGroups, h1, h2, isCanonical_two]
    rw [and_fifteen, not_not] at hunused
    simp [and_fifteen, hunused, mem_urlAlphabet_iff, h1, h2]
  | case8 c1 c2 hnone =>
    rw [decodeGroups, isCanonical_two]
    simp only [mem_urlAlphabet_iff]
    refine iff_of_false (by simp) ?_
    rintro ⟨⟨v1, h1⟩, ⟨v2, h2⟩, -⟩
    exact hnone v1 v2 h1 h2
  | case9 text hgroup hthree htwo =>
    match text with
    | [] => exact iff_of_true rfl ⟨by decide, by simp, by simp, by simp⟩
    | [c] => exact absurd rfl hlength
    | [c1, c2] => exact absurd rfl (htwo c1 c2)
    | [c1, c2, c3] => exact absurd rfl (hthree c1 c2 c3)
    | c1 :: c2 :: c3 :: c4 :: rest => exact absurd rfl (hgroup _ _ _ _ rest)

theorem urlSafe_base64Encode_of_decode {text : List Char}
    {bytes : List UInt8} (h : base64urlDecode text = some bytes) :
    urlSafe (base64Encode bytes) = text := by
  have hlength : ¬text.length % 4 = 1 := by
    intro hlength
    rw [base64urlDecode, if_pos hlength] at h
    cases h
  rw [base64urlDecode, if_neg hlength] at h
  induction text using decodeGroups.induct generalizing bytes with
  | case1 c1 c2 c3 c4 rest v1 v2 v3 v4 h4 h3 h2 h1 ih =>
    rw [decodeGroups, h1, h2, h3, h4] at h
    obtain ⟨decoded, hdecoded, rfl⟩ := Option.map_eq_some_iff.mp h
    rw [base64urlSymbolValue_eq_some_iff] at h1 h2 h3 h4
    obtain ⟨hlt1, rfl⟩ := h1
    obtain ⟨hlt2, rfl⟩ := h2
    obtain ⟨hlt3, rfl⟩ := h3
    obtain ⟨hlt4, rfl⟩ := h4
    have hrest : ¬rest.length % 4 = 1 := by
      simp only [List.length_cons] at hlength
      omega
    obtain ⟨hb1, hb2, hb3⟩ := @joined_values v1 v2 v3 v4 hlt2 hlt3 hlt4
    rw [urlSafe_base64Encode_group, ih hdecoded hrest, hb1, hb2, hb3]
    simp only [UInt8.toNat_ofNat']
    have e1 : (v1 * 4 + v2 / 16) % 2 ^ 8 / 4 = v1 := by omega
    have e2 : (v1 * 4 + v2 / 16) % 2 ^ 8 % 4 * 16 +
        (v2 * 16 + v3 / 4) % 2 ^ 8 / 16 = v2 := by omega
    have e3 : (v2 * 16 + v3 / 4) % 2 ^ 8 % 16 * 4 +
        (v3 * 64 + v4) % 2 ^ 8 / 64 = v3 := by omega
    have e4 : (v3 * 64 + v4) % 2 ^ 8 % 64 = v4 := by omega
    rw [e1, e2, e3, e4]
  | case2 c1 c2 c3 c4 rest hnone =>
    rw [decodeGroups] at h
    split at h
    · exact absurd (hnone _ _ _ _ ‹_› ‹_› ‹_› ‹_›) id
    · cases h
  | case3 c1 c2 c3 v1 v2 v3 h3 h2 h1 hunused =>
    rw [decodeGroups, h1, h2, h3] at h
    simp [hunused] at h
  | case4 c1 c2 c3 v1 v2 v3 h3 h2 h1 hunused =>
    rw [decodeGroups, h1, h2, h3] at h
    simp only [if_neg hunused, Option.some.injEq] at h
    rw [and_three, not_not] at hunused
    rw [base64urlSymbolValue_eq_some_iff] at h1 h2 h3
    obtain ⟨hlt1, rfl⟩ := h1
    obtain ⟨hlt2, rfl⟩ := h2
    obtain ⟨hlt3, rfl⟩ := h3
    obtain ⟨hb1, hb2, -⟩ := @joined_values v1 v2 v3 0 hlt2 hlt3 (by decide)
    rw [← h, urlSafe_base64Encode_two, hb1, hb2]
    simp only [UInt8.toNat_ofNat']
    have e1 : (v1 * 4 + v2 / 16) % 2 ^ 8 / 4 = v1 := by omega
    have e2 : (v1 * 4 + v2 / 16) % 2 ^ 8 % 4 * 16 +
        (v2 * 16 + v3 / 4) % 2 ^ 8 / 16 = v2 := by omega
    have e3 : (v2 * 16 + v3 / 4) % 2 ^ 8 % 16 * 4 = v3 := by omega
    rw [e1, e2, e3]
  | case5 c1 c2 c3 hnone =>
    rw [decodeGroups] at h
    split at h
    · exact absurd (hnone _ _ _ ‹_› ‹_› ‹_›) id
    · cases h
  | case6 c1 c2 v1 v2 h2 h1 hunused =>
    rw [decodeGroups, h1, h2] at h
    simp [hunused] at h
  | case7 c1 c2 v1 v2 h2 h1 hunused =>
    rw [decodeGroups, h1, h2] at h
    simp only [if_neg hunused, Option.some.injEq] at h
    rw [and_fifteen, not_not] at hunused
    rw [base64urlSymbolValue_eq_some_iff] at h1 h2
    obtain ⟨hlt1, rfl⟩ := h1
    obtain ⟨hlt2, rfl⟩ := h2
    obtain ⟨hb1, -, -⟩ := @joined_values v1 v2 0 0 hlt2 (by decide) (by decide)
    rw [← h, urlSafe_base64Encode_one, hb1]
    simp only [UInt8.toNat_ofNat']
    have e1 : (v1 * 4 + v2 / 16) % 2 ^ 8 / 4 = v1 := by omega
    have e2 : (v1 * 4 + v2 / 16) % 2 ^ 8 % 4 * 16 = v2 := by omega
    rw [e1, e2]
  | case8 c1 c2 hnone =>
    rw [decodeGroups] at h
    split at h
    · exact absurd (hnone _ _ ‹_› ‹_›) id
    · cases h
  | case9 text hgroup hthree htwo =>
    match text with
    | [] =>
      obtain rfl := Option.some.inj h
      rfl
    | [c] => exact absurd rfl hlength
    | [c1, c2] => exact absurd rfl (htwo c1 c2)
    | [c1, c2, c3] => exact absurd rfl (hthree c1 c2 c3)
    | c1 :: c2 :: c3 :: c4 :: rest => exact absurd rfl (hgroup _ _ _ _ rest)

/-- The decoder is the exact inverse of the URL-safe form. -/
structure IsExact : Prop where
  decodes : ∀ bytes, base64urlDecode (urlSafe (base64Encode bytes)) = some bytes
  accepts : ∀ text, (base64urlDecode text).isSome ↔ IsCanonical text
  encodes : ∀ text bytes, base64urlDecode text = some bytes →
    urlSafe (base64Encode bytes) = text

theorem length_urlSafe_base64Encode (bytes : List UInt8) :
    (urlSafe (base64Encode bytes)).length % 4 ≠ 1 := by
  induction bytes using base64Encode.induct with
  | case1 first second third rest ih =>
    rw [urlSafe_base64Encode_group]
    simp only [List.length_cons]
    omega
  | case2 first second => simp [urlSafe_base64Encode_two]
  | case3 first => simp [urlSafe_base64Encode_one]
  | case4 => decide

theorem isExact : IsExact where
  decodes bytes := by
    rw [base64urlDecode, if_neg (length_urlSafe_base64Encode bytes),
      decodeGroups_base64Encode]
  accepts := isSome_base64urlDecode_iff
  encodes _ _ := urlSafe_base64Encode_of_decode

end Bomwerk.Core.Base64
