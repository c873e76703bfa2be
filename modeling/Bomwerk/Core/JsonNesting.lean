import Bomwerk.Core.JsonGrammar
import Bomwerk.Core.JsonUtils
import Mathlib.Algebra.BigOperators.Group.List.Basic

/-!
# The size of a JSON value

The number of values in a document, which the length of its text bounds: what
is relied on of `nlohmann::json::parse` by code that counts in 32 bits.
-/

namespace Bomwerk.Core

namespace Json

mutual

def valueCount : Json → Nat
  | array items => itemsCount items + 1
  | object members => membersCount members + 1
  | _ => 1

def itemsCount : List Json → Nat
  | [] => 0
  | item :: items => valueCount item + itemsCount items

def membersCount : List (String × Json) → Nat
  | [] => 0
  | (_, value) :: members => valueCount value + membersCount members

end

theorem valueCount_pos (document : Json) : 0 < document.valueCount := by
  cases document <;> simp [valueCount]

theorem length_le_itemsCount (items : List Json) :
    items.length ≤ itemsCount items := by
  induction items with
  | nil => simp
  | cons item items ih =>
    have hitem := valueCount_pos item
    rw [List.length_cons, itemsCount]
    omega

theorem valueCount_le_membersCount {members : List (String × Json)}
    {member : String × Json} (hmember : member ∈ members) :
    member.2.valueCount ≤ membersCount members := by
  induction members with
  | nil => simp at hmember
  | cons head members ih =>
    obtain ⟨key, value⟩ := head
    rw [membersCount]
    rcases List.mem_cons.mp hmember with rfl | hmember
    · exact Nat.le_add_right _ _
    · exact (ih hmember).trans (Nat.le_add_left _ _)

theorem valueCount_lt_of_find? {document value : Json} {key : String}
    (hfind : document.find? key = some value) :
    value.valueCount < document.valueCount := by
  cases document with
  | object members =>
    have hmem : (key, value) ∈ members := by
      obtain ⟨front, back, heq, -⟩ := List.lookup_eq_some_iff.mp hfind
      simp [heq]
    have h : value.valueCount ≤ membersCount members :=
      valueCount_le_membersCount hmem
    rw [valueCount]
    omega
  | _ => simp [find?] at hfind

end Json

/-- What a JSON parser does with every text: each value it finds takes up a
byte at least, and an object has one member for a key. -/
structure IsJsonParser (parse : List UInt8 → Option Json) : Prop where
  valueCount_le : ∀ {text document}, parse text = some document →
    document.valueCount ≤ text.length
  nodup_keys : ∀ {text document key members}, parse text = some document →
    document.find? key = some (.object members) →
    (members.map Prod.fst).Nodup

end Bomwerk.Core

/-!
## The nesting check on any JSON text

`exceeds_json_nesting_depth` against the grammar of JSON: over a whole text the
scan counts the arrays and objects that are open, and no bracket inside a string
is one of them.  The count is at most one above the limit, so below the largest
`int` it never leaves that type.
-/

namespace Bomwerk.Core.JsonUtils

open Bomwerk.Support Bomwerk.Core.JsonGrammar
open String (utf8EncodeChar)

section Scan

variable {maximumDepth depth : Int}

/-! ## Tokens -/

theorem structural_not_mem {p : Char → Bool} {text : List Char}
    (hp : structural.all (fun c => !p c) = true)
    (htext : ∀ c ∈ text, p c = true) : ∀ c ∈ structural, c ∉ text := by
  intro c hc hmem
  have hnot := List.all_eq_true.mp hp c hc
  rw [htext c hmem] at hnot
  exact absurd hnot (by decide)

theorem exceedsFrom_blank {text : List Char} (hblank : IsBlank text)
    (rest : List UInt8) :
    exceedsFrom maximumDepth depth false false (utf8Encode text ++ rest) =
      exceedsFrom maximumDepth depth false false rest :=
  exceedsFrom_outside_text (structural_not_mem (by decide) hblank) rest

def isNumeral (c : Char) : Bool :=
  c.isDigit ∨ c = '+' ∨ c = '-' ∨ c = '.' ∨ c = 'e' ∨ c = 'E'

theorem isNumeral_of_isDigits {text : List Char} (hdigits : IsDigits text) :
    ∀ c ∈ text, isNumeral c = true := by
  intro c hc
  simp [isNumeral, hdigits.2 c hc]

theorem isNumeral_of_isNumber {text : List Char} (hnumber : IsNumber text) :
    ∀ c ∈ text, isNumeral c = true := by
  obtain ⟨minus, int, fraction, exponent, hminus, hint, hfraction, hexponent,
    rfl⟩ := hnumber
  have hminus : ∀ c ∈ minus, isNumeral c = true := by
    rcases hminus with rfl | rfl
    · exact List.all_eq_true.mp (by decide)
    · exact List.all_eq_true.mp (by decide)
  have hint : ∀ c ∈ int, isNumeral c = true := by
    rcases hint with rfl | ⟨hdigits, -⟩
    · exact List.all_eq_true.mp (by decide)
    · exact isNumeral_of_isDigits hdigits
  have hfraction : ∀ c ∈ fraction, isNumeral c = true := by
    rcases hfraction with rfl | ⟨digits, hdigits, rfl⟩
    · exact List.forall_mem_nil _
    · exact List.forall_mem_cons.mpr ⟨rfl, isNumeral_of_isDigits hdigits⟩
  have hexponent : ∀ c ∈ exponent, isNumeral c = true := by
    rcases hexponent with rfl | ⟨e, sign, digits, he, hsign, hdigits, rfl⟩
    · exact List.forall_mem_nil _
    · have he : isNumeral e = true := by
        rcases he with rfl | rfl <;> rfl
      have hsign : ∀ c ∈ sign, isNumeral c = true := by
        rcases hsign with rfl | rfl | rfl
        · exact List.forall_mem_nil _
        · exact List.all_eq_true.mp (by decide)
        · exact List.all_eq_true.mp (by decide)
      refine List.forall_mem_cons.mpr ⟨he, ?_⟩
      exact List.forall_mem_append.mpr ⟨hsign, isNumeral_of_isDigits hdigits⟩
  simp only [List.forall_mem_append]
  exact ⟨hminus, hint, hfraction, hexponent⟩

theorem structural_not_mem_of_isLiteral {text : List Char}
    (hliteral : IsLiteral text) : ∀ c ∈ structural, c ∉ text := by
  intro c hc
  have hall : structural.all (fun c => c ∉ "null".toList ∧
      c ∉ "true".toList ∧ c ∉ "false".toList) = true := by
    decide
  obtain ⟨hnull, htrue, hfalse⟩ :=
    of_decide_eq_true (List.all_eq_true.mp hall c hc)
  rcases hliteral with rfl | rfl | rfl
  · exact hnull
  · exact htrue
  · exact hfalse

theorem exceedsFrom_stringBody {text : List Char} (hbody : StringBody text)
    (rest : List UInt8) :
    exceedsFrom maximumDepth depth true false (utf8Encode text ++ rest) =
      exceedsFrom maximumDepth depth true false rest := by
  induction hbody with
  | nil => rfl
  | unescaped _ hquote hslash _ ih =>
    rw [utf8Encode_cons, List.append_assoc,
      exceedsFrom_inside_char hquote hslash, ih]
  | @short c text hc _ ih =>
    have hascii : c.toNat < 0x80 := by
      simp only [List.mem_cons, List.not_mem_nil, or_false] at hc
      rcases hc with rfl | rfl | rfl | rfl | rfl | rfl | rfl | rfl <;> decide
    simp only [utf8Encode_cons, List.append_assoc]
    rw [exceedsFrom_inside_escape hascii, ih]
  | @unicode digits text _ hdigits _ ih =>
    have hplain : ∀ c, JsonGrammar.isHexDigit c = false → c ∉ digits := by
      intro c hc hmem
      rw [hdigits c hmem] at hc
      exact absurd hc (by decide)
    have hquote := toUInt8_not_mem_utf8Encode (d := '"') (by decide)
      (hplain '"' (by decide))
    have hslash := toUInt8_not_mem_utf8Encode (d := '\\') (by decide)
      (hplain '\\' (by decide))
    simp only [utf8Encode_cons, utf8Encode_append, List.append_assoc]
    rw [exceedsFrom_inside_escape (by decide),
      exceedsFrom_inside_of_plain hquote hslash, ih]

theorem exceedsFrom_string {text : List Char} (hbody : StringBody text)
    (rest : List UInt8) :
    exceedsFrom maximumDepth depth false false
        (utf8EncodeChar '"' ++ (utf8Encode text ++
          (utf8EncodeChar '"' ++ rest))) =
      exceedsFrom maximumDepth depth false false rest := by
  have hopen : exceedsFrom maximumDepth depth false false
      (utf8EncodeChar '"' ++ (utf8Encode text ++
        (utf8EncodeChar '"' ++ rest))) =
        exceedsFrom maximumDepth depth true false
          (utf8Encode text ++ (utf8EncodeChar '"' ++ rest)) := rfl
  rw [hopen, exceedsFrom_stringBody hbody]
  rfl

end Scan

/-! ## Texts -/

/-- The arrays and objects around the innermost value of a part. -/
def levelsOf : Part → Nat
  | .value tree => tree.depth
  | .element tree => tree.depth
  | .items trees => depthOf trees
  | .member tree => tree.depth
  | .members trees => depthOf trees

/-- The scan of a part: it exceeds the limit inside the part, or goes on behind
it from where it was. -/
theorem exceedsFrom_of_part {maximumDepth : Int} {part : Part}
    {text : List Char} (hderives : Derives part text) (depth : Int)
    (rest : List UInt8) (hdepth : depth ≤ maximumDepth) :
    exceedsFrom maximumDepth depth false false (utf8Encode text ++ rest) =
      (decide (maximumDepth < depth + levelsOf part) ||
        exceedsFrom maximumDepth depth false false rest) := by
  have hflat : ∀ (depth : Int) (rest : Bool), depth ≤ maximumDepth →
      rest = (decide (maximumDepth < depth + (0 : Nat)) || rest) := by
    intro depth rest hdepth
    rw [decide_eq_false (by omega), Bool.false_or]
  have hempty : ∀ {blank : List Char}, IsBlank blank →
      ∀ (depth : Int) (rest : List UInt8), depth ≤ maximumDepth →
        exceedsFrom maximumDepth depth false false (utf8Encode blank ++ rest) =
          (decide (maximumDepth < depth + (0 : Nat)) ||
            exceedsFrom maximumDepth depth false false rest) := by
    intro blank hblank depth rest hdepth
    rw [exceedsFrom_blank hblank]
    exact hflat depth _ hdepth
  have hlast : ∀ tree : Tree, depthOf [tree] = tree.depth := by
    simp [depthOf]
  induction hderives generalizing depth rest with
  | string hbody =>
    simp only [utf8Encode_cons, utf8Encode_append, utf8Encode_nil,
      List.append_assoc, List.append_nil]
    rw [exceedsFrom_string hbody]
    exact hflat depth _ hdepth
  | number hnumber =>
    rw [exceedsFrom_outside_text (structural_not_mem (by decide)
      (isNumeral_of_isNumber hnumber))]
    exact hflat depth _ hdepth
  | literal hliteral =>
    rw [exceedsFrom_outside_text
      (structural_not_mem_of_isLiteral hliteral)]
    exact hflat depth _ hdepth
  | emptyArray hblank =>
    exact exceedsFrom_bracketed (.inr ⟨rfl, rfl⟩) (hempty hblank) rest
  | array _ ih => exact exceedsFrom_bracketed (.inr ⟨rfl, rfl⟩) ih rest
  | emptyObject hblank =>
    exact exceedsFrom_bracketed (.inl ⟨rfl, rfl⟩) (hempty hblank) rest
  | object _ ih => exact exceedsFrom_bracketed (.inl ⟨rfl, rfl⟩) ih rest
  | element hbefore _ hafter ih =>
    simp only [utf8Encode_append, List.append_assoc]
    rw [exceedsFrom_blank hbefore, ih depth _ hdepth, exceedsFrom_blank hafter]
    rfl
  | lastItem _ ih =>
    rw [ih depth rest hdepth, levelsOf, levelsOf, hlast]
  | item _ _ ih ihMore =>
    rw [utf8Encode_append, utf8Encode_cons, List.append_assoc,
      List.append_assoc, ih depth _ hdepth,
      exceedsFrom_outside_char (by decide), ihMore depth _ hdepth]
    exact exceeds_or_exceeds _ _ _ _ _
  | member hbefore hname hbetween _ ih =>
    simp only [utf8Encode_append, utf8Encode_cons, List.append_assoc]
    rw [exceedsFrom_blank hbefore, exceedsFrom_string hname,
      exceedsFrom_blank hbetween, exceedsFrom_outside_char (by decide),
      ih depth rest hdepth]
    rfl
  | lastMember _ ih =>
    rw [ih depth rest hdepth, levelsOf, levelsOf, hlast]
  | memberAnd _ _ ih ihMore =>
    rw [utf8Encode_append, utf8Encode_cons, List.append_assoc,
      List.append_assoc, ih depth _ hdepth,
      exceedsFrom_outside_char (by decide), ihMore depth _ hdepth]
    exact exceeds_or_exceeds _ _ _ _ _

theorem exceedsJsonNestingDepth_of_isJsonText {tree : Tree} {text : List Char}
    (htext : IsJsonText tree text) {maximumDepth : Int}
    (hmaximum : 0 ≤ maximumDepth) :
    exceedsJsonNestingDepth (utf8Encode text) maximumDepth =
      decide (maximumDepth < tree.depth) := by
  have hscan := exceedsFrom_of_part htext 0 [] hmaximum
  rw [List.append_nil] at hscan
  rw [exceedsJsonNestingDepth, hscan]
  simp [exceedsFrom, levelsOf]

/-- The check answers whether some array or object is nested in as many others
as the limit allows levels. -/
theorem exceedsJsonNestingDepth_iff {tree : Tree} {text : List Char}
    (htext : IsJsonText tree text) {maximumDepth : Int}
    (hmaximum : 0 ≤ maximumDepth) :
    exceedsJsonNestingDepth (utf8Encode text) maximumDepth = true ↔
      ∃ parts levels, Occurs tree (.container parts) levels ∧
        maximumDepth ≤ levels := by
  obtain ⟨limit, rfl⟩ := Int.eq_ofNat_of_zero_le hmaximum
  rw [exceedsJsonNestingDepth_of_isJsonText htext hmaximum,
    decide_eq_true_eq]
  simp only [Int.ofNat_lt, Int.ofNat_le, lt_depth_iff]

theorem isBlank_nil : IsBlank [] := by
  simp [IsBlank]

/-- `["[\"["]`, an array of one string with brackets and a quote in it. -/
def bracketsInString : List Char :=
  ['[', '"', '[', '\\', '"', '[', '"', ']']

theorem isJsonText_bracketsInString :
    IsJsonText (.container [.scalar]) bracketsInString := by
  have hbody : StringBody ['[', '\\', '"', '['] := by
    refine .unescaped (by decide) (by decide) (by decide) ?_
    refine .short (by decide) ?_
    exact .unescaped (by decide) (by decide) (by decide) .nil
  have hstring : Derives (.element .scalar) ['"', '[', '\\', '"', '[', '"'] :=
    .element isBlank_nil (.string hbody) isBlank_nil
  exact .element isBlank_nil (.array (.lastItem hstring)) isBlank_nil

theorem exceedsJsonNestingDepth_iff_bracketsInString :
    exceedsJsonNestingDepth (utf8Encode bracketsInString) 1 = true ↔
      ∃ parts levels, Occurs (.container [.scalar]) (.container parts) levels ∧
        (1 : Int) ≤ levels :=
  exceedsJsonNestingDepth_iff isJsonText_bracketsInString (by decide)

/-- The check answers whether some value is nested in more arrays and objects
than the limit. -/
def CountsValues (tree : Tree) (text : List Char) (maximumDepth : Int) :
    Prop :=
  exceedsJsonNestingDepth (utf8Encode text) maximumDepth = true ↔
    ∃ value levels, Occurs tree value levels ∧ maximumDepth < levels

/-- An empty array is a level without a value in it, and no limit is below the
level of a text without brackets. -/
theorem not_countsValues :
    (IsJsonText (.container []) ['[', ']'] ∧
        ¬ CountsValues (.container []) ['[', ']'] 0) ∧
      IsJsonText .scalar ['1'] ∧ ¬ CountsValues .scalar ['1'] (-1) := by
  have harray : IsJsonText (.container []) ['[', ']'] :=
    .element isBlank_nil (.emptyArray isBlank_nil) isBlank_nil
  have hone : IsNumber ['1'] :=
    ⟨[], ['1'], [], [], .inl rfl, .inr ⟨by simp [IsDigits], by decide⟩,
      .inl rfl, .inl rfl, rfl⟩
  have hscalar : IsJsonText .scalar ['1'] :=
    .element isBlank_nil (.number hone) isBlank_nil
  refine ⟨⟨harray, fun h => ?_⟩, hscalar, fun h => ?_⟩
  · obtain ⟨value, levels, hoccurs, hlevels⟩ := h.mp (by decide)
    cases hoccurs with
    | here => exact absurd hlevels (by decide)
    | inside hpart => exact absurd hpart List.not_mem_nil
  · exact absurd (h.mpr ⟨.scalar, 0, .here _, by decide⟩) (by decide)

end Bomwerk.Core.JsonUtils
