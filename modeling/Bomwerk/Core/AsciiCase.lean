import Bomwerk.Core.Purl

/-!
# Letter case

`to_lower_ascii` against the accessors of a purl: none of the marks they look
for is a letter, so they commute with the change of case.
-/

namespace Bomwerk.Core

theorem toLowerAsciiChar_of_not_upper {c : Char} (hc : ¬ ('A' ≤ c ∧ c ≤ 'Z')) :
    toLowerAsciiChar c = c := by
  rw [toLowerAsciiChar, if_neg hc]

theorem exists_toNat_of_upper {c : Char} (hc : 'A' ≤ c ∧ c ≤ 'Z') :
    ∃ n < 128, Char.ofNat n = c := by
  obtain ⟨-, hhigh⟩ := hc
  simp only [Char.le_def, UInt32.le_iff_toNat_le] at hhigh
  have hZ : 'Z'.val.toNat = 90 := rfl
  have hnat : c.toNat = c.val.toNat := rfl
  exact ⟨c.toNat, by omega, Char.ofNat_toNat c⟩

/-- A property of the lower-case form that is checked on the ASCII
characters. -/
theorem forall_upper {P : Char → Prop} [DecidablePred P]
    (hall : ∀ n < 128, ('A' ≤ Char.ofNat n ∧ Char.ofNat n ≤ 'Z') →
      P (Char.ofNat n)) {c : Char} (hc : 'A' ≤ c ∧ c ≤ 'Z') : P c := by
  obtain ⟨n, hn, rfl⟩ := exists_toNat_of_upper hc
  exact hall n hn hc

theorem utf8Size_toLowerAsciiChar (c : Char) :
    (toLowerAsciiChar c).utf8Size = c.utf8Size := by
  by_cases hc : 'A' ≤ c ∧ c ≤ 'Z'
  · exact forall_upper (P := fun c =>
      (toLowerAsciiChar c).utf8Size = c.utf8Size) (by decide +kernel) hc
  · rw [toLowerAsciiChar_of_not_upper hc]

theorem toNat_toLowerAsciiChar_lt {c : Char} (hc : c.toNat < 256) :
    (toLowerAsciiChar c).toNat < 256 := by
  by_cases hupper : 'A' ≤ c ∧ c ≤ 'Z'
  · exact forall_upper (P := fun c => (toLowerAsciiChar c).toNat < 256)
      (by decide +kernel) hupper
  · rwa [toLowerAsciiChar_of_not_upper hupper]

theorem isDigit_toLowerAsciiChar_iff (c : Char) :
    ('0' ≤ toLowerAsciiChar c ∧ toLowerAsciiChar c ≤ '9') ↔
      ('0' ≤ c ∧ c ≤ '9') := by
  by_cases hupper : 'A' ≤ c ∧ c ≤ 'Z'
  · exact forall_upper (P := fun c =>
      ('0' ≤ toLowerAsciiChar c ∧ toLowerAsciiChar c ≤ '9') ↔
        ('0' ≤ c ∧ c ≤ '9')) (by decide +kernel) hupper
  · rw [toLowerAsciiChar_of_not_upper hupper]

/-- A mark that is no letter: no letter becomes it. -/
def IsCaseless (mark : Char) : Prop :=
  ¬ ('A' ≤ mark ∧ mark ≤ 'Z') ∧ ¬ ('a' ≤ mark ∧ mark ≤ 'z')

instance (mark : Char) : Decidable (IsCaseless mark) :=
  inferInstanceAs (Decidable (_ ∧ _))

theorem toLowerAsciiChar_eq_iff {mark : Char} (hmark : IsCaseless mark)
    (c : Char) : toLowerAsciiChar c = mark ↔ c = mark := by
  by_cases hc : 'A' ≤ c ∧ c ≤ 'Z'
  · have hlower : 'a' ≤ toLowerAsciiChar c ∧ toLowerAsciiChar c ≤ 'z' :=
      forall_upper (P := fun c =>
        'a' ≤ toLowerAsciiChar c ∧ toLowerAsciiChar c ≤ 'z')
        (by decide +kernel) hc
    constructor
    · rintro rfl
      exact absurd hlower hmark.2
    · rintro rfl
      exact absurd hc hmark.1
  · rw [toLowerAsciiChar_of_not_upper hc]

section Texts

variable {mark : Char} (hmark : IsCaseless mark) (text : List Char)

include hmark

theorem mem_map_toLowerAsciiChar_iff :
    mark ∈ text.map toLowerAsciiChar ↔ mark ∈ text := by
  simp [toLowerAsciiChar_eq_iff hmark]

theorem takeWhile_map_toLowerAsciiChar :
    (text.map toLowerAsciiChar).takeWhile (· ≠ mark) =
      (text.takeWhile (· ≠ mark)).map toLowerAsciiChar := by
  rw [List.takeWhile_map]
  congr 2
  funext c
  simp [toLowerAsciiChar_eq_iff hmark]

theorem dropWhile_map_toLowerAsciiChar :
    (text.map toLowerAsciiChar).dropWhile (· ≠ mark) =
      (text.dropWhile (· ≠ mark)).map toLowerAsciiChar := by
  rw [List.dropWhile_map]
  congr 2
  funext c
  simp [toLowerAsciiChar_eq_iff hmark]

theorem afterLast?_map_toLowerAsciiChar :
    afterLast? mark (text.map toLowerAsciiChar) =
      (afterLast? mark text).map (List.map toLowerAsciiChar) := by
  simp only [afterLast?, mem_map_toLowerAsciiChar_iff hmark]
  split_ifs
  · rw [← List.map_reverse, takeWhile_map_toLowerAsciiChar hmark,
      ← List.map_reverse]
    rfl
  · rfl

theorem beforeLast_map_toLowerAsciiChar :
    beforeLast mark (text.map toLowerAsciiChar) =
      (beforeLast mark text).map toLowerAsciiChar := by
  simp only [beforeLast, mem_map_toLowerAsciiChar_iff hmark]
  split_ifs
  · rw [← List.map_reverse, dropWhile_map_toLowerAsciiChar hmark,
      ← List.map_drop, ← List.map_reverse]
  · rfl

end Texts

theorem toList_toLowerAscii (text : String) :
    (toLowerAscii text).toList = text.toList.map toLowerAsciiChar :=
  String.toList_ofList

theorem toLowerAscii_eq_empty_iff {text : String} :
    toLowerAscii text = "" ↔ text = "" := by
  rw [← String.toList_inj, toList_toLowerAscii, ← String.toList_inj]
  exact List.map_eq_nil_iff

theorem utf8ByteSize_toLowerAscii (text : String) :
    (toLowerAscii text).utf8ByteSize = text.utf8ByteSize := by
  have hsize : ∀ chars : List Char,
      String.utf8Len (chars.map toLowerAsciiChar) = String.utf8Len chars := by
    intro chars
    induction chars with
    | nil => rfl
    | cons c chars ih =>
      rw [List.map_cons, String.utf8Len_cons, String.utf8Len_cons, ih,
        utf8Size_toLowerAsciiChar]
  rw [← String.utf8Len_toList, toList_toLowerAscii, hsize,
    String.utf8Len_toList]

/-- One identity but for the case of the letters behind the scheme;
qualifiers and subpath are left out of account. -/
structure SameUpToCase (left right : String) : Prop where
  scheme : (purlIdentityPart left).toList.take 4 =
    (purlIdentityPart right).toList.take 4
  lowercase : toLowerAscii (purlIdentityPart left) =
    toLowerAscii (purlIdentityPart right)

theorem startsWith_pkg_iff (text : String) :
    startsWith text "pkg:" = true ↔ text.toList.take 4 = "pkg:".toList := by
  rw [startsWith, List.isPrefixOf_iff_prefix, List.prefix_iff_eq_take]
  exact eq_comm

theorem toLowerAscii_purlVersionOf (text : String) :
    toLowerAscii (purlVersionOf text) = purlVersionOf (toLowerAscii text) := by
  rw [← String.toList_inj, toList_toLowerAscii, purlVersionOf, purlVersionOf,
    String.toList_ofList, String.toList_ofList, toList_toLowerAscii,
    afterLast?_map_toLowerAsciiChar (by decide)]
  cases afterLast? '@' text.toList <;> rfl

/-- The name that `purl_name_of` finds behind the scheme and the type. -/
def nameBehindType (behindScheme : List Char) : List Char :=
  let name := beforeLast '@' (behindScheme.dropWhile (· ≠ '/')).tail
  (afterLast? '/' name).getD name

theorem purlNameOf_eq {text : String} (hscheme : startsWith text "pkg:" = true) :
    purlNameOf text = String.ofList (nameBehindType (text.toList.drop 4)) := by
  rw [purlNameOf, if_pos hscheme, nameBehindType]
  cases (text.toList.drop 4).dropWhile (· ≠ '/') <;> rfl

theorem nameBehindType_map_toLowerAsciiChar (behindScheme : List Char) :
    nameBehindType (behindScheme.map toLowerAsciiChar) =
      (nameBehindType behindScheme).map toLowerAsciiChar := by
  simp only [nameBehindType, dropWhile_map_toLowerAsciiChar
    (show IsCaseless '/' by decide), ← List.map_tail,
    beforeLast_map_toLowerAsciiChar (show IsCaseless '@' by decide),
    afterLast?_map_toLowerAsciiChar (show IsCaseless '/' by decide)]
  cases afterLast? '/' _ <;> rfl

theorem toLowerAscii_purlNameOf_congr {left right : String}
    (hleft : startsWith left "pkg:" = true)
    (hright : startsWith right "pkg:" = true)
    (hlower : toLowerAscii left = toLowerAscii right) :
    toLowerAscii (purlNameOf left) = toLowerAscii (purlNameOf right) := by
  rw [← String.toList_inj, toList_toLowerAscii, toList_toLowerAscii] at hlower
  have hdrop : (left.toList.drop 4).map toLowerAsciiChar =
      (right.toList.drop 4).map toLowerAsciiChar := by
    rw [List.map_drop, List.map_drop, hlower]
  rw [← String.toList_inj, toList_toLowerAscii, toList_toLowerAscii,
    purlNameOf_eq hleft, purlNameOf_eq hright, String.toList_ofList,
    String.toList_ofList, ← nameBehindType_map_toLowerAsciiChar, hdrop,
    nameBehindType_map_toLowerAsciiChar]

end Bomwerk.Core
