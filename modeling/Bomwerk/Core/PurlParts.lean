import Bomwerk.Core.PercentCoding
import Bomwerk.Core.Purl

/-!
# Purls as texts

A purl whose type is canonical, with any text behind it, against the parser and
the accessors: what each of them finds depends only on which marks that text
holds.
-/

namespace Bomwerk.Core

theorem ne_of_mem_reverse {mark : Char} {behind : List Char}
    (hbehind : mark ∉ behind) :
    ∀ c ∈ behind.reverse, decide (c ≠ mark) = true := by
  intro c hc
  simp only [decide_eq_true_eq]
  rintro rfl
  exact hbehind (List.mem_reverse.mp hc)

theorem afterLast?_append {mark : Char} (before : List Char)
    {behind : List Char} (hbehind : mark ∉ behind) :
    afterLast? mark (before ++ mark :: behind) = some behind := by
  rw [afterLast?, if_pos (by simp), List.reverse_append, List.reverse_cons,
    List.append_assoc,
    List.takeWhile_append_of_pos (ne_of_mem_reverse hbehind)]
  simp

theorem beforeLast_append {mark : Char} (before : List Char)
    {behind : List Char} (hbehind : mark ∉ behind) :
    beforeLast mark (before ++ mark :: behind) = before := by
  rw [beforeLast, if_pos (by simp), List.reverse_append, List.reverse_cons,
    List.append_assoc,
    List.dropWhile_append_of_pos (ne_of_mem_reverse hbehind)]
  simp

theorem afterLast?_subset {mark : Char} {text behind : List Char}
    (hbehind : afterLast? mark text = some behind) : behind ⊆ text := by
  unfold afterLast? at hbehind
  split_ifs at hbehind
  obtain rfl := Option.some.inj hbehind
  intro c hc
  exact List.mem_reverse.mp ((List.takeWhile_sublist _).subset
    (List.mem_reverse.mp hc))

theorem beforeLast_subset (mark : Char) (text : List Char) :
    beforeLast mark text ⊆ text := by
  unfold beforeLast
  split_ifs
  · intro c hc
    exact List.mem_reverse.mp ((List.dropWhile_sublist _).subset
      (List.drop_subset _ _ (List.mem_reverse.mp hc)))
  · exact List.Subset.refl _

theorem not_any_isAsciiWhitespace (marks : List Char) {text : List Char}
    (hmarks : marks.any isAsciiWhitespace = false)
    (htext : ∀ c ∈ text, IsEncodedCharacter c ∨ c ∈ marks) :
    text.any isAsciiWhitespace = false := by
  have hblank : ∀ c : Char, isAsciiWhitespace c = true →
      ¬ IsEncodedCharacter c := by
    intro c hc
    simp only [isAsciiWhitespace, decide_eq_true_eq] at hc
    rcases hc with rfl | rfl | rfl | rfl | rfl | rfl <;> decide
  rw [List.any_eq_false] at hmarks ⊢
  intro c hc hwhite
  rcases htext c hc with hencoded | hmark
  · exact hblank c hwhite hencoded
  · exact hmarks c hmark hwhite

/-! ## The text behind a type -/

def purlText (type rest : List Char) : List Char :=
  "pkg:".toList ++ type ++ '/' :: rest

/-- A type in its canonical spelling. -/
structure IsPurlType (type : List Char) : Prop where
  ne_nil : type ≠ []
  lowercase : ∀ c ∈ type, 'a' ≤ c ∧ c ≤ 'z'

theorem isPurlType_of_all {type : List Char} (hne : type ≠ [])
    (hall : type.all (fun c => 'a' ≤ c ∧ c ≤ 'z') = true) : IsPurlType type :=
  ⟨hne, fun c hc => of_decide_eq_true (List.all_eq_true.mp hall c hc)⟩

/-- `@` and the version, encoded. -/
def versionMark : Option (List Char) → List Char
  | some version => '@' :: percentEncodeText version
  | none => []

theorem IsPurlType.isEncodedCharacter {type : List Char}
    (htype : IsPurlType type) {c : Char} (hc : c ∈ type) :
    IsEncodedCharacter c := by
  obtain ⟨hlow, hhigh⟩ := htype.lowercase c hc
  left
  simp [isUnreserved, hlow, hhigh]

theorem IsPurlType.slash_notMem {type : List Char} (htype : IsPurlType type) :
    '/' ∉ type := by
  intro hslash
  exact absurd (htype.isEncodedCharacter hslash) (by decide)

theorem of_mem_versionMark {version? : Option (List Char)} {c : Char}
    (hc : c ∈ versionMark version?) : IsEncodedCharacter c ∨ c = '@' := by
  cases version? with
  | none => cases hc
  | some version =>
    rw [versionMark, List.mem_cons] at hc
    exact hc.symm.imp_left isEncodedCharacter_of_mem_percentEncodeText

theorem beforeLast_append_versionMark {path : List Char} (hpath : '@' ∉ path)
    (version? : Option (List Char)) :
    beforeLast '@' (path ++ versionMark version?) = path := by
  cases version? with
  | none => rw [versionMark, List.append_nil, beforeLast, if_neg hpath]
  | some version =>
    exact beforeLast_append _ (notMem_percentEncodeText (by decide) _)

section Text

variable {type : List Char} (htype : IsPurlType type)

include htype

theorem toLowerAscii_purlType :
    toLowerAscii (String.ofList type) = String.ofList type := by
  rw [toLowerAscii, String.toList_ofList]
  congr 1
  conv_rhs => rw [← List.map_id type]
  apply List.map_congr_left
  intro c hc
  obtain ⟨hlow, -⟩ := htype.lowercase c hc
  have hupper : ¬ c ≤ 'Z' := by
    intro h
    exact absurd (le_trans hlow h) (by decide)
  simp [toLowerAsciiChar, hupper]

theorem purlPieces_purlText (rest : List Char) :
    purlPieces (purlText type rest) =
      some { scheme := ['p', 'k', 'g'], type := type, rest := '/' :: rest } := by
  have htext : purlText type rest =
      'p' :: 'k' :: 'g' :: ':' :: (type ++ '/' :: rest) := rfl
  have hslash : ∀ c ∈ type, (!decide (c = '/')) = true := by
    intro c hc
    simp only [Bool.not_eq_true', decide_eq_false_iff_not]
    rintro rfl
    exact htype.slash_notMem hc
  have htake : (type ++ '/' :: rest).takeWhile
      (fun c => !decide (c = '/')) = type := by
    rw [List.takeWhile_append_of_pos hslash]
    simp
  have hdrop : (type ++ '/' :: rest).dropWhile
      (fun c => !decide (c = '/')) = '/' :: rest := by
    rw [List.dropWhile_append_of_pos hslash]
    simp
  rw [htext]
  simp [purlPieces, htake, hdrop]

theorem not_any_isAsciiWhitespace_purlText {rest : List Char}
    (hrest : rest.any isAsciiWhitespace = false) :
    (purlText type rest).any isAsciiWhitespace = false := by
  have htypeBlank : type.any isAsciiWhitespace = false :=
    not_any_isAsciiWhitespace [] rfl
      fun _ hc => .inl (htype.isEncodedCharacter hc)
  have hscheme : "pkg:".toList.any isAsciiWhitespace = false := by decide
  have hslash : isAsciiWhitespace '/' = false := by decide
  rw [purlText, List.any_append, List.any_append, List.any_cons, hscheme,
    htypeBlank, hslash, hrest]
  rfl

/-- The purl is canonical, if only there is something behind its type. -/
theorem parsePurl_purlText {rest : List Char}
    (hrest : rest.any isAsciiWhitespace = false) :
    parsePurl (String.ofList (purlText type rest)) =
      if rest = [] then
        malformedPurl ("purl is missing package name: " ++
          quoted (String.ofList (purlText type rest)))
      else { value := String.ofList (purlText type rest) } := by
  have hne : String.ofList (purlText type rest) ≠ "" := by
    rw [ne_eq, ← String.toList_inj, String.toList_ofList]
    simp [purlText]
  have hscheme : equalsAsciiIgnoreCase (String.ofList ['p', 'k', 'g'])
      "pkg" = true := by decide
  have hvalue : "pkg:" ++ String.ofList type ++
      String.ofList ('/' :: rest) = String.ofList (purlText type rest) := by
    rw [← String.toList_inj]
    simp [purlText]
  rw [parsePurl, if_neg hne, String.toList_ofList,
    not_any_isAsciiWhitespace_purlText htype hrest,
    purlPieces_purlText htype]
  simp only [Bool.false_eq_true, if_false, hscheme, Bool.not_true,
    htype.ne_nil, reduceCtorEq, or_self, List.length_cons,
    Nat.add_eq_right, List.length_eq_zero_iff, toLowerAscii_purlType htype,
    hvalue]

/-! ## The accessors -/

theorem dropWhile_drop_purlText (rest : List Char) :
    ((String.ofList (purlText type rest)).toList.drop 4).dropWhile
      (· ≠ '/') = '/' :: rest := by
  have hdrop : (String.ofList (purlText type rest)).toList.drop 4 =
      type ++ '/' :: rest := by
    rw [String.toList_ofList]
    rfl
  have hslash : ∀ c ∈ type, decide (c ≠ '/') = true := by
    intro c hc
    simp only [decide_eq_true_eq]
    rintro rfl
    exact htype.slash_notMem hc
  rw [hdrop, List.dropWhile_append_of_pos hslash]
  simp

/-- The qualifiers are cut off. -/
theorem purlIdentityPart_purlText {rest extras : List Char}
    (hrest : ∀ c ∈ rest, c ≠ '?' ∧ c ≠ '#')
    (hextras : extras = [] ∨ extras.head? = some '?') :
    purlIdentityPart (String.ofList (purlText type (rest ++ extras))) =
      String.ofList (purlText type rest) := by
  have hall : ∀ c ∈ purlText type rest, decide (c ≠ '?' ∧ c ≠ '#') = true := by
    intro c hc
    rw [decide_eq_true_eq]
    rw [purlText, List.mem_append, List.mem_append, List.mem_cons] at hc
    rcases hc with (hscheme | hletter) | rfl | hc
    · have hletters : "pkg:".toList.all (fun c => c ≠ '?' ∧ c ≠ '#') = true := by
        decide
      exact of_decide_eq_true (List.all_eq_true.mp hletters c hscheme)
    · constructor
      · rintro rfl
        exact absurd (htype.isEncodedCharacter hletter) (by decide)
      · rintro rfl
        exact absurd (htype.isEncodedCharacter hletter) (by decide)
    · decide
    · exact hrest c hc
  have htext : purlText type (rest ++ extras) =
      purlText type rest ++ extras := by
    simp [purlText]
  rw [purlIdentityPart, String.toList_ofList, htext,
    List.takeWhile_append_of_pos hall]
  congr 1
  rcases hextras with rfl | hhead
  · simp
  · obtain ⟨more, rfl⟩ := List.head?_eq_some_iff.mp hhead
    simp

theorem purlVersionOf_purlText {path : List Char} (hpath : '@' ∉ path)
    (version? : Option (List Char)) :
    (purlVersionOf (String.ofList (purlText type
      (path ++ versionMark version?)))).toList =
      percentEncodeText (version?.getD []) := by
  have hfront : '@' ∉ purlText type path := by
    intro hmem
    rw [purlText, List.mem_append, List.mem_append, List.mem_cons] at hmem
    rcases hmem with (h | h) | h | h
    · exact absurd h (by decide)
    · exact absurd (htype.isEncodedCharacter h) (by decide)
    · exact absurd h (by decide)
    · exact hpath h
  have htext : purlText type (path ++ versionMark version?) =
      purlText type path ++ versionMark version? := by
    simp [purlText]
  rw [purlVersionOf, String.toList_ofList, String.toList_ofList, htext]
  cases version? with
  | none =>
    rw [versionMark, List.append_nil, afterLast?, if_neg hfront]
    rfl
  | some version =>
    rw [versionMark,
      afterLast?_append _ (notMem_percentEncodeText (by decide) _)]
    rfl

theorem purlNameOf_purlText {path : List Char} (hpath : '@' ∉ path)
    (version? : Option (List Char)) :
    (purlNameOf (String.ofList (purlText type
      (path ++ versionMark version?)))).toList =
      (afterLast? '/' path).getD path := by
  have hstart : startsWith (String.ofList (purlText type
      (path ++ versionMark version?))) "pkg:" = true := by
    rw [startsWith, String.toList_ofList, List.isPrefixOf_iff_prefix,
      String.toList_ofList]
    exact ⟨type ++ '/' :: (path ++ versionMark version?), rfl⟩
  rw [purlNameOf, if_pos hstart]
  simp only [dropWhile_drop_purlText htype]
  rw [beforeLast_append_versionMark hpath, String.toList_ofList]

end Text

end Bomwerk.Core

/-!
## Purls from parts

Purls that a producer puts together from a type, a namespace, a name and a
version, each percent-encoded, against the parser and the accessors that take
them apart again.
-/

namespace Bomwerk.Core

theorem isByteText_of_mem_none :
    ∀ text ∈ (none : Option (List Char)), IsByteText text := by
  simp

theorem isByteText_of_mem_some {text : List Char} (h : IsByteText text) :
    ∀ other ∈ some text, IsByteText other := by
  intro other hother
  obtain rfl := Option.mem_some_iff.mp hother
  exact h

/-- The parts of a purl without qualifiers; the texts are not encoded. -/
structure PurlParts where
  type : List Char
  scope? : Option (List Char) := none
  name : List Char
  version? : Option (List Char) := none
  type_ne_nil : type ≠ []
  lowercase_type : ∀ c ∈ type, 'a' ≤ c ∧ c ≤ 'z'
  isByteText_scope : ∀ scope ∈ scope?, IsByteText scope
  isByteText_name : IsByteText name
  isByteText_version : ∀ version ∈ version?, IsByteText version

/-- The namespace and the name of a purl, still percent-encoded. -/
def purlPathOf (purl : String) : List Char :=
  beforeLast '@' ((purl.toList.drop 4).dropWhile (· ≠ '/')).tail

namespace PurlParts

/-- The namespace and the name, encoded. -/
def path (parts : PurlParts) : List Char :=
  (match parts.scope? with
    | some scope => percentEncodeText scope ++ ['/']
    | none => []) ++ percentEncodeText parts.name

/-- The version, encoded and behind its mark. -/
def suffix (parts : PurlParts) : List Char :=
  match parts.version? with
  | some version => '@' :: percentEncodeText version
  | none => []

def text (parts : PurlParts) : List Char :=
  "pkg:".toList ++ parts.type ++ '/' :: (parts.path ++ parts.suffix)

def fullName (parts : PurlParts) : List Char :=
  (match parts.scope? with
    | some scope => scope ++ ['/']
    | none => []) ++ parts.name

variable (parts : PurlParts)

theorem isPurlType : IsPurlType parts.type :=
  ⟨parts.type_ne_nil, parts.lowercase_type⟩

theorem text_eq_purlText : parts.text =
    purlText parts.type (parts.path ++ versionMark parts.version?) := by
  rw [text, purlText, suffix]
  cases parts.version? <;> rfl

theorem of_mem_path {c : Char} (hc : c ∈ parts.path) :
    IsEncodedCharacter c ∨ c = '/' := by
  rw [path, List.mem_append] at hc
  rcases hc with hscope | hname
  · cases hparts : parts.scope? with
    | none => simp [hparts] at hscope
    | some scope =>
      rw [hparts, List.mem_append, List.mem_singleton] at hscope
      exact hscope.imp_left isEncodedCharacter_of_mem_percentEncodeText
  · exact .inl (isEncodedCharacter_of_mem_percentEncodeText hname)

theorem suffix_eq_versionMark :
    parts.suffix = versionMark parts.version? := by
  rw [suffix]
  cases parts.version? <;> rfl

theorem of_mem_text {c : Char} (hc : c ∈ parts.text) :
    IsEncodedCharacter c ∨ c = ':' ∨ c = '/' ∨ c = '@' := by
  rw [text, List.mem_append, List.mem_append, List.mem_cons,
    List.mem_append] at hc
  rcases hc with (hscheme | htype) | hmark | hpath | hsuffix
  · have hletters : "pkg:".toList.all (fun c =>
        IsEncodedCharacter c ∨ c = ':' ∨ c = '/' ∨ c = '@') = true := by
      decide
    exact of_decide_eq_true (List.all_eq_true.mp hletters c hscheme)
  · exact .inl (parts.isPurlType.isEncodedCharacter htype)
  · exact .inr (.inr (.inl hmark))
  · rcases parts.of_mem_path hpath with h | h
    · exact .inl h
    · exact .inr (.inr (.inl h))
  · rw [suffix_eq_versionMark] at hsuffix
    rcases of_mem_versionMark hsuffix with h | h
    · exact .inl h
    · exact .inr (.inr (.inr h))

theorem notMem_text {c : Char}
    (hc : ¬ (IsEncodedCharacter c ∨ c = ':' ∨ c = '/' ∨ c = '@')) :
    c ∉ parts.text :=
  fun hmem => hc (parts.of_mem_text hmem)

theorem text_ne_nil : parts.text ≠ [] := by
  simp [text]

theorem notMem_at_path : '@' ∉ parts.path := by
  intro hmem
  exact absurd (parts.of_mem_path hmem) (by decide)

theorem not_any_isAsciiWhitespace :
    (parts.path ++ versionMark parts.version?).any isAsciiWhitespace =
      false := by
  refine Core.not_any_isAsciiWhitespace ['/', '@'] (by decide) ?_
  intro c hc
  rcases List.mem_append.mp hc with hpath | hversion
  · exact (parts.of_mem_path hpath).imp_right (by simp +contextual)
  · exact (of_mem_versionMark hversion).imp_right (by simp +contextual)

theorem parsePurl_text : parsePurl (String.ofList parts.text) =
    if parts.path ++ parts.suffix = [] then
      malformedPurl ("purl is missing package name: " ++
        quoted (String.ofList parts.text))
    else { value := String.ofList parts.text } := by
  rw [text_eq_purlText, suffix_eq_versionMark,
    parsePurl_purlText parts.isPurlType parts.not_any_isAsciiWhitespace]

theorem complete_parsePurl_text_iff :
    (parsePurl (String.ofList parts.text)).complete = true ↔
      parts.path ++ parts.suffix ≠ [] := by
  rw [parts.parsePurl_text]
  split_ifs with h <;> simp [h, malformedPurl]

theorem parsePurl_text_value
    (hcomplete : (parsePurl (String.ofList parts.text)).complete = true) :
    (parsePurl (String.ofList parts.text)).value =
      String.ofList parts.text := by
  rw [parts.parsePurl_text,
    if_neg (parts.complete_parsePurl_text_iff.mp hcomplete)]

theorem purlIdentityPart_text :
    purlIdentityPart (String.ofList parts.text) = String.ofList parts.text := by
  rw [purlIdentityPart, String.toList_ofList]
  congr 1
  rw [List.takeWhile_eq_self_iff]
  intro c hc
  have hquestion : c ≠ '?' := by
    rintro rfl
    exact parts.notMem_text (by decide) hc
  have hhash : c ≠ '#' := by
    rintro rfl
    exact parts.notMem_text (by decide) hc
  simp [hquestion, hhash]

theorem purlPathOf_text :
    purlPathOf (String.ofList parts.text) = parts.path := by
  rw [purlPathOf, text_eq_purlText, dropWhile_drop_purlText parts.isPurlType,
    List.tail_cons, beforeLast_append_versionMark parts.notMem_at_path]

theorem purlVersionOf_text :
    (purlVersionOf (String.ofList parts.text)).toList =
      percentEncodeText (parts.version?.getD []) := by
  rw [text_eq_purlText,
    purlVersionOf_purlText parts.isPurlType parts.notMem_at_path]

theorem purlNameOf_text :
    (purlNameOf (String.ofList parts.text)).toList =
      percentEncodeText parts.name := by
  have hslash : '/' ∉ percentEncodeText parts.name :=
    notMem_percentEncodeText (by decide) _
  rw [text_eq_purlText,
    purlNameOf_purlText parts.isPurlType parts.notMem_at_path, path]
  cases parts.scope? with
  | none => simp [afterLast?, hslash]
  | some scope =>
    rw [List.append_assoc, List.singleton_append, afterLast?_append _ hslash]
    rfl

theorem purlNameOf_text_eq_empty_iff :
    purlNameOf (String.ofList parts.text) = "" ↔ parts.name = [] := by
  rw [← String.toList_inj, parts.purlNameOf_text]
  exact percentEncodeText_eq_nil_iff

theorem percentDecodeText_path :
    percentDecodeText parts.path = parts.fullName := by
  have hname := percentDecodeText_percentEncodeText parts.isByteText_name
  rw [path, fullName]
  cases hscope : parts.scope? with
  | none => exact hname
  | some scope =>
    simp only [List.append_assoc, List.singleton_append]
    rw [percentDecodeText_append (parts.isByteText_scope scope hscope),
      percentDecodeText_cons (by decide) (by decide), hname]

theorem percentDecodeText_purlVersionOf :
    percentDecodeText (purlVersionOf (String.ofList parts.text)).toList =
      parts.version?.getD [] := by
  rw [parts.purlVersionOf_text]
  apply percentDecodeText_percentEncodeText
  cases hversion : parts.version? with
  | none => exact isByteText_nil
  | some version => exact parts.isByteText_version version hversion

theorem fullName_eq_nil_iff : parts.fullName = [] ↔
    parts.scope? = none ∧ parts.name = [] := by
  rw [fullName]
  cases parts.scope? <;> simp

end PurlParts
end Bomwerk.Core
