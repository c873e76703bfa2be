import Bomwerk.Core.PurlQualifiers
import Bomwerk.Cpp.CmakeDeps

/-!
# The purl of an archive

Everything in it is percent-encoded but the checksum, which is pasted: its
algorithm is whatever stands in front of the `=` of `URL_HASH`.
-/

namespace Bomwerk.Cpp.CmakeDeps

open Bomwerk.Core Bomwerk.Support

/-- `URL_HASH` is `ALGORITHM=hex`. -/
structure IsUrlHash (urlHash algorithm hex : List Char) : Prop where
  text : urlHash = algorithm ++ '=' :: hex
  equals_notMem : '=' ∉ algorithm
  algorithm_ne_nil : algorithm ≠ []
  hex_digits : isHexDigits (String.ofList hex) = true

/-- The value of the checksum qualifier. -/
def checksumText (algorithm hex : List Char) : List Char :=
  algorithm.map toLowerAsciiChar ++ ':' :: hex.map toLowerAsciiChar

/-- The purl of an archive parses, and its qualifiers are the checksum, if there
is one, and the download URL. -/
structure HasArchiveQualifiers (purl url urlHash : List Char) : Prop where
  parses : (parsePurl (String.ofList purl)).complete = true
  with_checksum : ∀ algorithm hex, IsUrlHash urlHash algorithm hex →
    purlQualifiers purl =
      [("checksum".toList, checksumText algorithm hex),
        ("download_url".toList, url)]
  without_checksum : (¬∃ algorithm hex, IsUrlHash urlHash algorithm hex) →
    purlQualifiers purl = [("download_url".toList, url)]

/-- A checksum with no mark of a purl, no blank and no escape in it. -/
structure IsPastable (checksum : List Char) : Prop where
  ampersand_notMem : '&' ∉ checksum
  hash_notMem : '#' ∉ checksum
  no_blank : checksum.any isAsciiWhitespace = false
  decoded : percentDecodeText checksum = checksum

/-- The algorithm of a checksum, if there is one, is a name that can be
pasted. -/
def HasPastableChecksum (urlHash : List Char) : Prop :=
  ∀ algorithm hex, urlHash = algorithm ++ '=' :: hex → '=' ∉ algorithm →
    isHexDigits (String.ofList hex) = true →
      algorithm ≠ [] ∧ IsPastable (checksumText algorithm hex)

theorem isHexDigit_toLowerAsciiChar (c : Char) :
    isHexDigit (toLowerAsciiChar c) = isHexDigit c := by
  by_cases hupper : 'A' ≤ c ∧ c ≤ 'Z'
  · exact forall_upper (P := fun c =>
      isHexDigit (toLowerAsciiChar c) = isHexDigit c) (by decide +kernel) hupper
  · rw [toLowerAsciiChar_of_not_upper hupper]

theorem isHexDigits_map_toLowerAsciiChar (hex : List Char) :
    isHexDigits (String.ofList (hex.map toLowerAsciiChar)) =
      isHexDigits (String.ofList hex) := by
  have hsame : isHexDigit ∘ toLowerAsciiChar = isHexDigit :=
    funext isHexDigit_toLowerAsciiChar
  rw [isHexDigits, isHexDigits, String.toList_ofList, String.toList_ofList,
    List.isEmpty_map, List.all_map, hsame]

/-- The pasted checksum; there is none behind a digest that is no such. -/
def pastedChecksum (urlHash : List Char) : List Char :=
  ((checksumOf urlHash).map Prod.fst).getD []

theorem pastedChecksum_eq {urlHash algorithm hex : List Char}
    (htext : urlHash = algorithm ++ '=' :: hex) (hequals : '=' ∉ algorithm)
    (hhex : isHexDigits (String.ofList hex) = true) :
    pastedChecksum urlHash = checksumText algorithm hex := by
  obtain ⟨htake, hdrop⟩ := takeWhile_append_mark hequals hex
  cases hex with
  | nil => cases hhex
  | cons first rest =>
    rw [pastedChecksum, checksumOf, urlHashParts, htext, hdrop]
    simp only [htake, isHexDigits_map_toLowerAsciiChar, hhex, if_true]
    rfl

theorem pastedChecksum_eq_nil {urlHash : List Char}
    (h : ∀ algorithm hex, urlHash = algorithm ++ '=' :: hex →
      '=' ∉ algorithm → isHexDigits (String.ofList hex) ≠ true) :
    pastedChecksum urlHash = [] := by
  rw [pastedChecksum, checksumOf, urlHashParts]
  cases hdrop : urlHash.dropWhile (· ≠ '=') with
  | nil => rfl
  | cons mark hex =>
    cases hex with
    | nil => rfl
    | cons first rest =>
      have hmark : mark = '=' := by
        have hhead := List.head?_dropWhile_not (· ≠ '=') urlHash
        rw [hdrop] at hhead
        simpa using hhead
      have htext : urlHash =
          urlHash.takeWhile (· ≠ '=') ++ '=' :: first :: rest := by
        conv_lhs => rw [← List.takeWhile_append_dropWhile
          (p := (· ≠ '=')) (l := urlHash), hdrop, hmark]
      have hequals : '=' ∉ urlHash.takeWhile (· ≠ '=') := by
        intro hmem
        simpa using List.mem_takeWhile_imp hmem
      have hhex := h _ _ htext hequals
      simp only [isHexDigits_map_toLowerAsciiChar, if_neg hhex]
      rfl

/-! ## The purl -/

/-- The purl in front of its qualifiers. -/
def archiveFront (name version : List Char) : List Char :=
  percentEncodeText (if name = [] then unknownComponentName else name) ++
    versionSuffix version

def archiveQualifiers (url checksum : List Char) : List (List Char) :=
  (if checksum = [] then [] else ["checksum".toList ++ '=' :: checksum]) ++
    ["download_url".toList ++ '=' :: percentEncodeText url]

theorem buildArchivePurl_eq (name version url checksum : List Char) :
    buildArchivePurl name version url checksum =
      purlText "generic".toList (archiveFront name version ++
        '?' :: ['&'].intercalate (archiveQualifiers url checksum)) := by
  have hscheme : "pkg:generic/".toList =
      "pkg:".toList ++ "generic".toList ++ ['/'] := by
    decide
  have hchecksum : "checksum=".toList = "checksum".toList ++ ['='] := by decide
  have hdownload : "download_url=".toList = "download_url".toList ++ ['='] := by
    decide
  unfold buildArchivePurl purlText archiveFront archiveQualifiers
  generalize "download_url=".toList = downloadKey at hdownload ⊢
  generalize "checksum=".toList = checksumKey at hchecksum ⊢
  generalize "pkg:generic/".toList = scheme at hscheme ⊢
  by_cases hnil : checksum = []
  · simp only [hscheme, hdownload, if_pos hnil, List.nil_append,
      List.intercalate_singleton, List.append_assoc, List.cons_append]
  · simp only [hscheme, hdownload, hchecksum, if_neg hnil, List.nil_append,
      List.intercalate_cons_cons, List.intercalate_singleton,
      List.append_assoc, List.cons_append]

theorem of_mem_archiveFront {name version : List Char} {c : Char}
    (hc : c ∈ archiveFront name version) : IsEncodedCharacter c ∨ c = '@' := by
  rw [archiveFront, List.mem_append] at hc
  rcases hc with hname | hversion
  · exact Or.inl (isEncodedCharacter_of_mem_percentEncodeText hname)
  · rw [versionSuffix] at hversion
    split_ifs at hversion
    · cases hversion
    · rcases List.mem_cons.mp hversion with rfl | hencoded
      · exact Or.inr rfl
      · exact Or.inl (isEncodedCharacter_of_mem_percentEncodeText hencoded)

theorem isBeforeExtras_archiveFront (name version : List Char) :
    IsBeforeExtras
      ("pkg:".toList ++ "generic".toList ++ '/' :: archiveFront name version) := by
  have hfront : ∀ c ∈ archiveFront name version, c ≠ '?' ∧ c ≠ '#' := by
    intro c hc
    rcases of_mem_archiveFront hc with hencoded | rfl
    · constructor
      · rintro rfl
        exact absurd hencoded (by decide)
      · rintro rfl
        exact absurd hencoded (by decide)
    · decide
  constructor
  · intro hmem
    simp only [List.mem_append, List.mem_cons] at hmem
    rcases hmem with (h | h) | h | h
    · exact absurd h (by decide)
    · exact absurd h (by decide)
    · exact absurd h (by decide)
    · exact (hfront _ h).1 rfl
  · intro hmem
    simp only [List.mem_append, List.mem_cons] at hmem
    rcases hmem with (h | h) | h | h
    · exact absurd h (by decide)
    · exact absurd h (by decide)
    · exact absurd h (by decide)
    · exact (hfront _ h).2 rfl

theorem any_percentEncodeText (text : List Char) :
    (percentEncodeText text).any isAsciiWhitespace = false :=
  not_any_isAsciiWhitespace [] rfl fun _ hc =>
    Or.inl (isEncodedCharacter_of_mem_percentEncodeText hc)

/-- Only the checksum can bring a blank into the purl. -/
theorem any_isAsciiWhitespace_archive (name version url checksum : List Char) :
    (archiveFront name version ++
      '?' :: ['&'].intercalate (archiveQualifiers url checksum)).any
        isAsciiWhitespace = checksum.any isAsciiWhitespace := by
  have hfront : (archiveFront name version).any isAsciiWhitespace = false :=
    not_any_isAsciiWhitespace ['@'] rfl fun _ hc =>
      (of_mem_archiveFront hc).imp_right (by simp)
  have hmarks : isAsciiWhitespace '?' = false ∧ isAsciiWhitespace '&' = false ∧
      isAsciiWhitespace '=' = false := by
    decide
  have hkeys : "checksum".toList.any isAsciiWhitespace = false ∧
      "download_url".toList.any isAsciiWhitespace = false := by
    decide
  obtain ⟨hquestion, hampersand, hequals⟩ := hmarks
  rw [archiveQualifiers]
  by_cases hnil : checksum = []
  · rw [if_pos hnil, hnil]
    simp only [List.nil_append, List.intercalate_singleton,
      List.any_append, List.any_cons, hfront, hquestion, hequals, hkeys.2,
      any_percentEncodeText, Bool.or_self, List.any_nil]
  · simp only [if_neg hnil, List.singleton_append, List.intercalate_cons_cons,
      List.intercalate_singleton, List.any_append, List.any_cons, List.any_nil,
      hfront, hquestion, hampersand, hequals, hkeys.1, hkeys.2,
      any_percentEncodeText, Bool.false_or, Bool.or_false]

theorem parsePurl_complete_of_whitespace {raw : String}
    (h : raw.toList.any isAsciiWhitespace = true) :
    (parsePurl raw).complete = false := by
  have hne : raw ≠ "" := by
    rintro rfl
    cases h
  rw [parsePurl, if_neg hne, if_pos h]
  rfl

theorem parsePurl_archive_iff (name version url checksum : List Char) :
    (parsePurl (String.ofList
        (buildArchivePurl name version url checksum))).complete = true ↔
      checksum.any isAsciiWhitespace = false := by
  have htype : IsPurlType "generic".toList :=
    isPurlType_of_all (by decide) (by decide)
  rw [buildArchivePurl_eq, ← any_isAsciiWhitespace_archive name version url]
  cases hblank : (archiveFront name version ++
      '?' :: ['&'].intercalate (archiveQualifiers url checksum)).any
        isAsciiWhitespace with
  | false =>
    rw [parsePurl_purlText htype hblank, if_neg (by simp)]
    exact iff_of_true rfl rfl
  | true =>
    have hall : (String.ofList (purlText "generic".toList
        (archiveFront name version ++ '?' ::
          ['&'].intercalate (archiveQualifiers url checksum)))).toList.any
            isAsciiWhitespace = true := by
      rw [String.toList_ofList, purlText, List.any_append, List.any_cons,
        hblank, Bool.or_true, Bool.or_true]
    rw [parsePurl_complete_of_whitespace hall]
    exact iff_of_false (by decide) (by decide)

/-! ## The qualifiers -/

theorem purlQualifiers_archive (name version url checksum : List Char) :
    purlQualifiers (buildArchivePurl name version url checksum) =
      purlQualifiers (("pkg:".toList ++ "generic".toList ++
        '/' :: archiveFront name version) ++
          '?' :: ['&'].intercalate (archiveQualifiers url checksum)) := by
  rw [buildArchivePurl_eq, purlText, List.append_assoc, List.append_assoc,
    List.append_assoc, List.cons_append]

theorem qualifierOf_checksum (checksum : List Char) :
    qualifierOf ("checksum".toList ++ '=' :: checksum) =
      ("checksum".toList, percentDecodeText checksum) :=
  qualifierOf_append (by decide) checksum

theorem qualifierOf_download {url : List Char} (hurl : IsByteText url) :
    qualifierOf ("download_url".toList ++ '=' :: percentEncodeText url) =
      ("download_url".toList, url) := by
  rw [qualifierOf_append (by decide), percentDecodeText_percentEncodeText hurl]

theorem notMem_download {mark : Char} (hmark : ¬IsEncodedCharacter mark)
    (hne : mark ≠ '=') (hkey : mark ∉ "download_url".toList)
    (url : List Char) :
    mark ∉ "download_url".toList ++ '=' :: percentEncodeText url := by
  intro hmem
  rcases List.mem_append.mp hmem with h | h
  · exact hkey h
  · rcases List.mem_cons.mp h with h | h
    · exact hne h
    · exact notMem_percentEncodeText hmark url h

theorem purlQualifiers_without (name version : List Char) {url : List Char}
    (hurl : IsByteText url) :
    purlQualifiers (buildArchivePurl name version url []) =
      [("download_url".toList, url)] := by
  rw [purlQualifiers_archive, purlQualifiers_intercalate
    (isBeforeExtras_archiveFront name version)]
  · exact congrArg (fun pair => [pair]) (qualifierOf_download hurl)
  · simp [archiveQualifiers]
  · intro part hpart
    obtain rfl := List.mem_singleton.mp hpart
    exact notMem_download (by decide) (by decide) (by decide) url
  · intro part hpart
    obtain rfl := List.mem_singleton.mp hpart
    exact notMem_download (by decide) (by decide) (by decide) url

theorem purlQualifiers_pastable (name version : List Char) {url : List Char}
    (hurl : IsByteText url) {checksum : List Char} (hne : checksum ≠ [])
    (h : IsPastable checksum) :
    purlQualifiers (buildArchivePurl name version url checksum) =
      [("checksum".toList, checksum), ("download_url".toList, url)] := by
  have hparts : archiveQualifiers url checksum =
      ["checksum".toList ++ '=' :: checksum,
        "download_url".toList ++ '=' :: percentEncodeText url] := by
    rw [archiveQualifiers, if_neg hne, List.singleton_append]
  have hkey : ∀ mark : Char, mark ∉ "checksum".toList → mark ≠ '=' →
      mark ∉ checksum → mark ∉ "checksum".toList ++ '=' :: checksum := by
    intro mark hkey hequals hchecksum hmem
    rcases List.mem_append.mp hmem with hmem | hmem
    · exact hkey hmem
    · rcases List.mem_cons.mp hmem with hmem | hmem
      · exact hequals hmem
      · exact hchecksum hmem
  rw [purlQualifiers_archive, hparts, purlQualifiers_intercalate
    (isBeforeExtras_archiveFront name version) (by simp)]
  · rw [List.map_cons, List.map_singleton, qualifierOf_checksum, h.decoded,
      qualifierOf_download hurl]
  · intro part hpart
    rcases List.mem_pair.mp hpart with rfl | rfl
    · exact hkey '&' (by decide) (by decide) h.ampersand_notMem
    · exact notMem_download (by decide) (by decide) (by decide) url
  · intro part hpart
    rcases List.mem_pair.mp hpart with rfl | rfl
    · exact hkey '#' (by decide) (by decide) h.hash_notMem
    · exact notMem_download (by decide) (by decide) (by decide) url

/-- Behind a pasted checksum the first qualifier ends at the first mark. -/
theorem head?_purlQualifiers_archive (name version url : List Char)
    {checksum : List Char} (hne : checksum ≠ []) :
    (purlQualifiers (buildArchivePurl name version url checksum)).head? =
      some ("checksum".toList, percentDecodeText
        (checksum.takeWhile fun c => c ≠ '&' ∧ c ≠ '#')) := by
  have hquery : ['&'].intercalate (archiveQualifiers url checksum) =
      "checksum".toList ++ '=' :: (checksum ++
        '&' :: ("download_url".toList ++ '=' :: percentEncodeText url)) := by
    rw [archiveQualifiers, if_neg hne, List.singleton_append,
      List.intercalate_cons_cons, List.intercalate_singleton]
    simp only [List.append_assoc, List.cons_append, List.nil_append]
  have hkey : ∀ c ∈ "checksum".toList,
      decide (c ≠ '&' ∧ c ≠ '#') = true := by
    have hmarks : '&' ∉ "checksum".toList ∧ '#' ∉ "checksum".toList := by
      decide
    intro c hc
    have hampersand : c ≠ '&' := fun heq => hmarks.1 (heq ▸ hc)
    have hhash : c ≠ '#' := fun heq => hmarks.2 (heq ▸ hc)
    simp [hampersand, hhash]
  have htake : ∀ rest : List Char, (checksum ++ '&' :: rest).takeWhile
          (fun c => decide (c ≠ '&' ∧ c ≠ '#')) =
        checksum.takeWhile (fun c => decide (c ≠ '&' ∧ c ≠ '#')) := by
    intro rest
    rw [List.takeWhile_append]
    split_ifs with hlength
    · have hself := (List.takeWhile_prefix
        (fun c => decide (c ≠ '&' ∧ c ≠ '#'))).eq_of_length hlength
      rw [hself]
      simp
    · rfl
  rw [purlQualifiers_archive, head?_purlQualifiers
    (isBeforeExtras_archiveFront name version), hquery,
    List.takeWhile_append_of_pos hkey, List.takeWhile_cons_of_pos (by decide),
    htake, qualifierOf_checksum]

theorem takeWhile_of_percentDecodeText {checksum : List Char}
    {p : Char → Bool} (h : percentDecodeText (checksum.takeWhile p) = checksum) :
    checksum.takeWhile p = checksum := by
  apply (List.takeWhile_prefix p).eq_of_length
  apply le_antisymm (List.takeWhile_prefix p).length_le
  calc checksum.length
      = (percentDecodeText (checksum.takeWhile p)).length := by rw [h]
    _ ≤ (checksum.takeWhile p).length := length_percentDecodeText_le _

theorem isPastable_of_archive {name version url checksum : List Char}
    {rest : List (List Char × List Char)} (hne : checksum ≠ [])
    (hparses : (parsePurl (String.ofList
      (buildArchivePurl name version url checksum))).complete = true)
    (h : purlQualifiers (buildArchivePurl name version url checksum) =
      ("checksum".toList, checksum) :: rest) :
    IsPastable checksum := by
  have hhead := head?_purlQualifiers_archive name version url hne
  rw [h, List.head?_cons] at hhead
  have hdecoded := (Prod.mk.inj (Option.some.inj hhead)).2.symm
  have hwhole := takeWhile_of_percentDecodeText hdecoded
  have hmarks := List.takeWhile_eq_self_iff.mp hwhole
  rw [hwhole] at hdecoded
  refine ⟨?_, ?_, (parsePurl_archive_iff name version url checksum).mp hparses,
    hdecoded⟩
  · intro hmem
    exact absurd (hmarks _ hmem) (by decide)
  · intro hmem
    exact absurd (hmarks _ hmem) (by decide)

/-! ## The condition -/

theorem urlHash_unique {algorithm hex algorithm' hex' : List Char}
    (h : '=' ∉ algorithm) (h' : '=' ∉ algorithm')
    (htext : algorithm ++ '=' :: hex = algorithm' ++ '=' :: hex') :
    algorithm = algorithm' ∧ hex = hex' :=
  append_terminator_inj h h' htext

theorem checksumText_ne_nil (algorithm hex : List Char) :
    checksumText algorithm hex ≠ [] := by
  simp [checksumText]

theorem hasArchiveQualifiers_without (name version : List Char)
    {url urlHash : List Char} (hurl : IsByteText url)
    (h : ∀ algorithm hex, urlHash = algorithm ++ '=' :: hex →
      '=' ∉ algorithm → isHexDigits (String.ofList hex) ≠ true) :
    HasArchiveQualifiers
      (buildArchivePurl name version url (pastedChecksum urlHash)) url
      urlHash := by
  rw [pastedChecksum_eq_nil h]
  refine ⟨(parsePurl_archive_iff name version url []).mpr rfl, ?_, ?_⟩
  · intro algorithm hex hsplit
    exact absurd hsplit.hex_digits
      (h algorithm hex hsplit.text hsplit.equals_notMem)
  · intro _
    exact purlQualifiers_without name version hurl

theorem hasArchiveQualifiers_of_isPastable (name version : List Char)
    {url algorithm hex : List Char} (hurl : IsByteText url)
    (hequals : '=' ∉ algorithm) (hhex : isHexDigits (String.ofList hex) = true)
    (hne : algorithm ≠ []) (h : IsPastable (checksumText algorithm hex)) :
    HasArchiveQualifiers
      (buildArchivePurl name version url (checksumText algorithm hex)) url
      (algorithm ++ '=' :: hex) := by
  refine ⟨(parsePurl_archive_iff _ _ _ _).mpr h.no_blank, ?_, ?_⟩
  · intro algorithm' hex' hsplit
    obtain ⟨rfl, rfl⟩ :=
      urlHash_unique hequals hsplit.equals_notMem hsplit.text
    exact purlQualifiers_pastable name version hurl
      (checksumText_ne_nil algorithm hex) h
  · intro hnone
    exact absurd ⟨algorithm, hex, rfl, hequals, hne, hhex⟩ hnone

theorem isPastable_of_hasArchiveQualifiers {name version : List Char}
    {url algorithm hex : List Char}
    (hequals : '=' ∉ algorithm) (hhex : isHexDigits (String.ofList hex) = true)
    (h : HasArchiveQualifiers
      (buildArchivePurl name version url (checksumText algorithm hex)) url
      (algorithm ++ '=' :: hex)) :
    algorithm ≠ [] ∧ IsPastable (checksumText algorithm hex) := by
  have hne : algorithm ≠ [] := by
    rintro rfl
    -- there is no algorithm to name, and a `checksum=:` is pasted nevertheless
    have hnone : ¬∃ algorithm' hex',
        IsUrlHash ([] ++ '=' :: hex) algorithm' hex' := by
      rintro ⟨algorithm', hex', hsplit⟩
      exact hsplit.algorithm_ne_nil
        (urlHash_unique hequals hsplit.equals_notMem hsplit.text).1.symm
    have hhead := head?_purlQualifiers_archive name version url
      (checksumText_ne_nil [] hex)
    rw [h.without_checksum hnone, List.head?_cons] at hhead
    have hkeys := (Prod.mk.inj (Option.some.inj hhead)).1
    exact absurd hkeys (by decide)
  exact ⟨hne, isPastable_of_archive (checksumText_ne_nil algorithm hex)
    h.parses (h.with_checksum algorithm hex ⟨rfl, hequals, hne, hhex⟩)⟩

theorem hasArchiveQualifiers_iff (name version : List Char)
    {url : List Char} (hurl : IsByteText url) (urlHash : List Char) :
    HasArchiveQualifiers
        (buildArchivePurl name version url (pastedChecksum urlHash)) url
        urlHash ↔
      HasPastableChecksum urlHash := by
  by_cases hnone : ∀ algorithm hex, urlHash = algorithm ++ '=' :: hex →
      '=' ∉ algorithm → isHexDigits (String.ofList hex) ≠ true
  · refine iff_of_true (hasArchiveQualifiers_without name version hurl hnone) ?_
    intro algorithm hex htext hequals hhex
    exact absurd hhex (hnone algorithm hex htext hequals)
  · push Not at hnone
    obtain ⟨algorithm, hex, rfl, hequals, hhex⟩ := hnone
    rw [pastedChecksum_eq rfl hequals hhex]
    constructor
    · intro h algorithm' hex' htext hequals' _
      obtain ⟨rfl, rfl⟩ := urlHash_unique hequals hequals' htext
      exact isPastable_of_hasArchiveQualifiers hequals hhex h
    · intro h
      obtain ⟨hne, hpastable⟩ := h algorithm hex rfl hequals hhex
      exact hasArchiveQualifiers_of_isPastable name version hurl hequals hhex
        hne hpastable

/-- The qualifiers of an archive are those that are meant exactly behind an
algorithm that is a name. -/
theorem settleArchive_qualifiers_iff (extracted : Extracted)
    (sourceLabel name : List Char) (url : List UInt8) :
    HasArchiveQualifiers
        (settleArchive { extracted with archiveUrl := byteText url }
          sourceLabel name).purl (byteText url) extracted.urlHash ↔
      HasPastableChecksum extracted.urlHash :=
  hasArchiveQualifiers_iff _ _ (isByteText_byteText url) _

/-- `URL_HASH x&y=ab`: the purl gains a qualifier `y:ab`. -/
theorem settleArchive_not_qualifiers :
    ¬∀ (extracted : Extracted) (sourceLabel name : List Char)
      (url : List UInt8), HasArchiveQualifiers
        (settleArchive { extracted with archiveUrl := byteText url }
          sourceLabel name).purl (byteText url) extracted.urlHash := by
  intro h
  have hat := h { urlHash := "x&y=ab".toList } [] [] []
  have hpastable := (hasArchiveQualifiers_iff _ _ (isByteText_byteText [])
    "x&y=ab".toList).mp hat
  obtain ⟨-, hchecksum⟩ := hpastable "x&y".toList "ab".toList (by decide)
    (by decide) (by decide)
  exact hchecksum.ampersand_notMem (by decide)

end Bomwerk.Cpp.CmakeDeps
