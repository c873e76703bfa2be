import Bomwerk.Core.CanonicalJson
import Bomwerk.Support.Utf8

/-!
# The nesting check

The scan of `exceeds_json_nesting_depth` over the bytes of a text, before any
parser sees them, and what it finds on canonical JSON: the depth of the value.
-/

namespace Bomwerk.Core.JsonUtils

open Bomwerk.Support Bomwerk.Core.CanonicalJson
open String (utf8EncodeChar)

/-- The loop of `exceeds_json_nesting_depth`, from `current_depth`,
`inside_string` and `previous_was_escape` on. -/
def exceedsFrom (maximumDepth : Int) : Int → Bool → Bool → List UInt8 → Bool
  | _, _, _, [] => false
  | currentDepth, true, true, _ :: bytes =>
    exceedsFrom maximumDepth currentDepth true false bytes
  | currentDepth, true, false, character :: bytes =>
    if character = '\\'.toUInt8 then
      exceedsFrom maximumDepth currentDepth true true bytes
    else if character = '"'.toUInt8 then
      exceedsFrom maximumDepth currentDepth false false bytes
    else exceedsFrom maximumDepth currentDepth true false bytes
  | currentDepth, false, previousWasEscape, character :: bytes =>
    if character = '"'.toUInt8 then
      exceedsFrom maximumDepth currentDepth true previousWasEscape bytes
    else if character = '{'.toUInt8 ∨ character = '['.toUInt8 then
      if maximumDepth < currentDepth + 1 then true
      else
        exceedsFrom maximumDepth (currentDepth + 1) false previousWasEscape
          bytes
    else if character = '}'.toUInt8 ∨ character = ']'.toUInt8 then
      exceedsFrom maximumDepth (currentDepth - 1) false previousWasEscape
        bytes
    else exceedsFrom maximumDepth currentDepth false previousWasEscape bytes

/-- `exceeds_json_nesting_depth(bytes, maximum_depth)`. -/
def exceedsJsonNestingDepth (bytes : List UInt8) (maximumDepth : Int) : Bool :=
  exceedsFrom maximumDepth 0 false false bytes

section Scan

variable {maximumDepth depth : Int}

theorem exceedsFrom_inside_of_plain {bytes : List UInt8}
    (hquote : '"'.toUInt8 ∉ bytes) (hslash : '\\'.toUInt8 ∉ bytes)
    (rest : List UInt8) :
    exceedsFrom maximumDepth depth true false (bytes ++ rest) =
      exceedsFrom maximumDepth depth true false rest := by
  induction bytes with
  | nil => rfl
  | cons byte bytes ih =>
    simp only [List.mem_cons, not_or] at hquote hslash
    rw [List.cons_append, exceedsFrom, if_neg (Ne.symm hslash.1),
      if_neg (Ne.symm hquote.1), ih hquote.2 hslash.2]

theorem exceedsFrom_inside_char {c : Char} (hquote : c ≠ '"')
    (hslash : c ≠ '\\') (rest : List UInt8) :
    exceedsFrom maximumDepth depth true false (utf8EncodeChar c ++ rest) =
      exceedsFrom maximumDepth depth true false rest :=
  exceedsFrom_inside_of_plain
    (toUInt8_not_mem_utf8EncodeChar (by decide) hquote)
    (toUInt8_not_mem_utf8EncodeChar (by decide) hslash) rest

theorem exceedsFrom_inside_escape {c : Char} (hc : c.toNat < 0x80)
    (rest : List UInt8) :
    exceedsFrom maximumDepth depth true false
        (utf8EncodeChar '\\' ++ (utf8EncodeChar c ++ rest)) =
      exceedsFrom maximumDepth depth true false rest := by
  rw [utf8EncodeChar_of_lt hc]
  rfl

theorem lt_of_shortEscape {escape c : Char}
    (hescape : shortEscape escape = some c) : escape.toNat < 0x80 := by
  simp only [shortEscape] at hescape
  split at hescape
  all_goals first | decide | exact absurd hescape (by simp)

theorem ne_of_hexDigitValue {c d : Char} {value : Nat}
    (hc : CanonicalJson.hexDigitValue c = some value)
    (hd : CanonicalJson.hexDigitValue d = none) : c ≠ d := by
  rintro rfl
  rw [hc] at hd
  exact absurd hd (by simp)

theorem hexDigits_of_unicodeEscape {a b c d value : Char}
    (h : unicodeEscape a b c d = some value) :
    ∀ digit ∈ [a, b, c, d], (CanonicalJson.hexDigitValue digit).isSome := by
  simp only [unicodeEscape] at h
  split at h
  · simp_all
  · exact absurd h (by simp)

theorem exceedsFrom_inside_body {text chars : List Char}
    (hbody : StringBody text chars) (rest : List UInt8) :
    exceedsFrom maximumDepth depth true false (utf8Encode text ++ rest) =
      exceedsFrom maximumDepth depth true false rest := by
  induction hbody with
  | nil => rfl
  | plain _ hquote hslash _ ih =>
    rw [utf8Encode_cons, List.append_assoc,
      exceedsFrom_inside_char hquote hslash, ih]
  | short hescape _ ih =>
    simp only [utf8Encode_cons, List.append_assoc]
    rw [exceedsFrom_inside_escape (lt_of_shortEscape hescape), ih]
  | @unicode a b c d value text chars hvalue _ ih =>
    have hdigits := hexDigits_of_unicodeEscape hvalue
    have hplain : ∀ digit ∈ [a, b, c, d], digit ≠ '"' ∧ digit ≠ '\\' := by
      intro digit hdigit
      obtain ⟨n, hn⟩ := Option.isSome_iff_exists.mp (hdigits digit hdigit)
      exact ⟨ne_of_hexDigitValue hn (by decide),
        ne_of_hexDigitValue hn (by decide)⟩
    simp only [List.forall_mem_cons] at hplain
    obtain ⟨ha, hb, hc, hd, -⟩ := hplain
    simp only [utf8Encode_cons, List.append_assoc]
    rw [exceedsFrom_inside_escape (by decide),
      exceedsFrom_inside_char ha.1 ha.2, exceedsFrom_inside_char hb.1 hb.2,
      exceedsFrom_inside_char hc.1 hc.2, exceedsFrom_inside_char hd.1 hd.2,
      ih]

theorem exceedsFrom_quoted {text chars : List Char}
    (hbody : StringBody text chars) (rest : List UInt8) :
    exceedsFrom maximumDepth depth false false
        (utf8Encode ('"' :: (text ++ ['"'])) ++ rest) =
      exceedsFrom maximumDepth depth false false rest := by
  have hopen : exceedsFrom maximumDepth depth false false
      (utf8Encode ('"' :: (text ++ ['"'])) ++ rest) =
        exceedsFrom maximumDepth depth true false
          (utf8Encode text ++ (utf8EncodeChar '"' ++ rest)) := by
    simp only [utf8Encode_cons, utf8Encode_append, utf8Encode_nil,
      List.append_assoc, List.append_nil]
    rfl
  rw [hopen, exceedsFrom_inside_body hbody]
  rfl

/-- The characters the scan takes note of outside strings. -/
def structural : List Char := ['"', '{', '[', '}', ']']

theorem exceedsFrom_outside_of_plain {bytes : List UInt8}
    (hplain : ∀ c ∈ structural, c.toUInt8 ∉ bytes) (rest : List UInt8) :
    exceedsFrom maximumDepth depth false false (bytes ++ rest) =
      exceedsFrom maximumDepth depth false false rest := by
  induction bytes with
  | nil => rfl
  | cons byte bytes ih =>
    have htail : ∀ c ∈ structural, c.toUInt8 ∉ bytes := fun c hc h =>
      hplain c hc (List.mem_cons_of_mem _ h)
    have hbyte : ∀ c ∈ structural, byte ≠ c.toUInt8 := fun c hc h =>
      hplain c hc (h ▸ List.mem_cons_self)
    simp only [structural, List.forall_mem_cons] at hbyte
    obtain ⟨hquote, hbrace, hbracket, hbrace', hbracket', -⟩ := hbyte
    rw [List.cons_append, exceedsFrom, if_neg hquote,
      if_neg (not_or.mpr ⟨hbrace, hbracket⟩),
      if_neg (not_or.mpr ⟨hbrace', hbracket'⟩), ih htail]

theorem exceedsFrom_outside_text {text : List Char}
    (hplain : ∀ c ∈ structural, c ∉ text) (rest : List UInt8) :
    exceedsFrom maximumDepth depth false false (utf8Encode text ++ rest) =
      exceedsFrom maximumDepth depth false false rest := by
  refine exceedsFrom_outside_of_plain (fun c hc => ?_) rest
  have hascii : c.toNat < 0x80 := by
    simp only [structural, List.mem_cons, List.not_mem_nil, or_false] at hc
    rcases hc with rfl | rfl | rfl | rfl | rfl <;> decide
  exact toUInt8_not_mem_utf8Encode hascii (hplain c hc)

theorem structural_not_mem_integerText (value : Int) :
    ∀ c ∈ structural, c ∉ integerText value := by
  intro c hc hmem
  have hnumeric := numeric_of_mem_integerText hmem
  simp only [structural, List.mem_cons, List.not_mem_nil, or_false] at hc
  rcases hc with rfl | rfl | rfl | rfl | rfl <;> revert hnumeric <;> decide

theorem exceedsFrom_outside_char {c : Char} (hc : c ∉ structural)
    (rest : List UInt8) :
    exceedsFrom maximumDepth depth false false (utf8EncodeChar c ++ rest) =
      exceedsFrom maximumDepth depth false false rest := by
  have hplain : ∀ d ∈ structural, d ∉ [c] := by
    intro d hd hmem
    exact hc (List.mem_singleton.mp hmem ▸ hd)
  simpa using exceedsFrom_outside_text hplain rest

/-- An opening bracket, what is inside, and the closing one. -/
theorem exceedsFrom_bracketed {opening closing : Char}
    (hbrackets : (opening = '{' ∧ closing = '}') ∨
      (opening = '[' ∧ closing = ']'))
    {text : List Char} {inner : Nat}
    (hinner : ∀ (depth : Int) (rest : List UInt8), depth ≤ maximumDepth →
      exceedsFrom maximumDepth depth false false (utf8Encode text ++ rest) =
        (decide (maximumDepth < depth + inner) ||
          exceedsFrom maximumDepth depth false false rest))
    (rest : List UInt8) :
    exceedsFrom maximumDepth depth false false
        (utf8Encode (opening :: (text ++ [closing])) ++ rest) =
      (decide (maximumDepth < depth + (inner + 1 : Nat)) ||
        exceedsFrom maximumDepth depth false false rest) := by
  have hbytes : utf8Encode (opening :: (text ++ [closing])) ++ rest =
      opening.toUInt8 :: (utf8Encode text ++ (closing.toUInt8 :: rest)) := by
    rcases hbrackets with ⟨rfl, rfl⟩ | ⟨rfl, rfl⟩ <;>
      simp [utf8Encode_append, List.append_assoc] <;> rfl
  have hopen : exceedsFrom maximumDepth depth false false
      (utf8Encode (opening :: (text ++ [closing])) ++ rest) =
        if maximumDepth < depth + 1 then true
        else exceedsFrom maximumDepth (depth + 1) false false
          (utf8Encode text ++ (closing.toUInt8 :: rest)) := by
    rw [hbytes]
    rcases hbrackets with ⟨rfl, rfl⟩ | ⟨rfl, rfl⟩ <;> rfl
  have hclose : exceedsFrom maximumDepth (depth + 1) false false
      (closing.toUInt8 :: rest) =
        exceedsFrom maximumDepth (depth + 1 - 1) false false rest := by
    rcases hbrackets with ⟨rfl, rfl⟩ | ⟨rfl, rfl⟩ <;> rfl
  rw [hopen]
  by_cases hdeep : maximumDepth < depth + 1
  · have hdeeper : maximumDepth < depth + (inner + 1 : Nat) := by omega
    rw [if_pos hdeep, decide_eq_true hdeeper, Bool.true_or]
  · rw [if_neg hdeep, hinner _ _ (by omega), hclose, Int.add_sub_cancel]
    have hiff : maximumDepth < depth + 1 + inner ↔
        maximumDepth < depth + (inner + 1 : Nat) := by omega
    simp only [hiff]

end Scan

/-- The arrays and objects around the innermost value of a part. -/
def partDepth : Part → Nat
  | .value value => value.depth
  | .items items => Json.itemsDepth items
  | .members members => Json.membersDepth members

theorem partDepth_singletonItem (value : Json) :
    partDepth (.items [value]) = partDepth (.value value) := by
  simp [partDepth, Json.itemsDepth]

theorem partDepth_singletonMember (key : String) (value : Json) :
    partDepth (.members [(key, value)]) = partDepth (.value value) := by
  simp [partDepth, Json.membersDepth]

theorem exceeds_or_exceeds (maximumDepth depth : Int) (left right : Nat)
    (rest : Bool) :
    (decide (maximumDepth < depth + left) ||
        (decide (maximumDepth < depth + right) || rest)) =
      (decide (maximumDepth < depth + (max left right : Nat)) || rest) := by
  rw [← Bool.or_assoc, ← Bool.decide_or]
  have hiff : (maximumDepth < depth + left ∨ maximumDepth < depth + right) ↔
      maximumDepth < depth + (max left right : Nat) := by omega
  simp only [hiff]

theorem exceedsFrom_of_derives {maximumDepth : Int} {part : Part}
    {text : List Char} (hderives : Derives part text) (depth : Int)
    (rest : List UInt8) (hdepth : depth ≤ maximumDepth) :
    exceedsFrom maximumDepth depth false false (utf8Encode text ++ rest) =
      (decide (maximumDepth < depth + partDepth part) ||
        exceedsFrom maximumDepth depth false false rest) := by
  have hflat : ∀ (depth : Int) (rest : Bool), depth ≤ maximumDepth →
      rest = (decide (maximumDepth < depth + (0 : Nat)) || rest) := by
    intro depth rest hdepth
    rw [decide_eq_false (by omega), Bool.false_or]
  have hempty : ∀ (depth : Int) (rest : List UInt8), depth ≤ maximumDepth →
      exceedsFrom maximumDepth depth false false (utf8Encode [] ++ rest) =
        (decide (maximumDepth < depth + (0 : Nat)) ||
          exceedsFrom maximumDepth depth false false rest) :=
    fun depth rest hdepth => hflat depth _ hdepth
  induction hderives generalizing depth rest with
  | string hbody =>
    rw [exceedsFrom_quoted hbody]
    exact hflat depth _ hdepth
  | integer =>
    rw [exceedsFrom_outside_text (structural_not_mem_integerText _)]
    exact hflat depth _ hdepth
  | emptyArray => exact exceedsFrom_bracketed (.inr ⟨rfl, rfl⟩) hempty rest
  | array _ ih => exact exceedsFrom_bracketed (.inr ⟨rfl, rfl⟩) ih rest
  | emptyObject => exact exceedsFrom_bracketed (.inl ⟨rfl, rfl⟩) hempty rest
  | object _ _ ih => exact exceedsFrom_bracketed (.inl ⟨rfl, rfl⟩) ih rest
  | lastItem _ ih =>
    rw [ih depth rest hdepth, partDepth_singletonItem]
  | item _ _ ih ihItems =>
    rw [utf8Encode_append, utf8Encode_cons, List.append_assoc,
      List.append_assoc, ih depth _ hdepth,
      exceedsFrom_outside_char (by decide), ihItems depth _ hdepth]
    exact exceeds_or_exceeds _ _ _ _ _
  | @lastMember key text keyText value hkey _ ih =>
    have hbytes : utf8Encode ('"' :: (keyText ++ '"' :: ':' :: text)) ++
        rest = utf8Encode ('"' :: (keyText ++ ['"'])) ++
          (utf8EncodeChar ':' ++ (utf8Encode text ++ rest)) := by
      simp [utf8Encode_append, List.append_assoc]
    rw [hbytes, exceedsFrom_quoted hkey,
      exceedsFrom_outside_char (by decide), ih depth rest hdepth,
      partDepth_singletonMember]
  | @member key text more keyText value members hkey _ _ ih ihMembers =>
    have hbytes : utf8Encode
        ('"' :: (keyText ++ '"' :: ':' :: (text ++ ',' :: more))) ++ rest =
          utf8Encode ('"' :: (keyText ++ ['"'])) ++
            (utf8EncodeChar ':' ++ (utf8Encode text ++
              (utf8EncodeChar ',' ++ (utf8Encode more ++ rest)))) := by
      simp [utf8Encode_append, List.append_assoc]
    rw [hbytes, exceedsFrom_quoted hkey,
      exceedsFrom_outside_char (by decide), ih depth _ hdepth,
      exceedsFrom_outside_char (by decide), ihMembers depth _ hdepth]
    exact exceeds_or_exceeds _ _ _ _ _

theorem exceedsJsonNestingDepth_utf8Encode {value : Json} {text : List Char}
    (hderives : Derives (.value value) text) {maximumDepth : Int}
    (hmaximum : 0 ≤ maximumDepth) :
    exceedsJsonNestingDepth (utf8Encode text) maximumDepth =
      decide (maximumDepth < value.depth) := by
  have hscan := exceedsFrom_of_derives hderives 0 [] hmaximum
  rw [List.append_nil] at hscan
  rw [exceedsJsonNestingDepth, hscan]
  simp [exceedsFrom, partDepth]

end Bomwerk.Core.JsonUtils
