import Bomwerk.Core.PurlQualifiers

/-!
# Conan references

`parsers/cpp/conan_ref.cpp`: a reference
`name/version@user/channel#revision%timestamp`, its parts, and its purl.
-/

namespace Bomwerk.Cpp.Conan

open Bomwerk.Core Bomwerk.Support

structure ConanReference where
  name : List Char := []
  version : List Char := []
  user : List Char := []
  channel : List Char := []
  revision : List Char := []
  deriving DecidableEq, Repr

/-- `split_once`: the text before the first separator, and the rest. -/
def splitOnce (text : List Char) (separator : Char) : List Char × List Char :=
  (text.takeWhile (· ≠ separator), (text.dropWhile (· ≠ separator)).tail)

def parseConanReference (referenceText : List Char) : ConanReference :=
  let (beforeHash, afterHash) := splitOnce (trimmed referenceText) '#'
  -- The timestamp is cut off behind the `#` only.
  let revisionText := afterHash.takeWhile (· ≠ '%')
  let (nameVersion, userChannel) := splitOnce beforeHash '@'
  let (user, channel) := splitOnce userChannel '/'
  let (name, version) := splitOnce nameVersion '/'
  { name := trimmed name
    version := trimmed version
    user := if userChannel = [] then [] else trimmed user
    channel := if userChannel = [] then [] else trimmed channel
    revision := trimmed revisionText }

def unknownComponentName : List Char := "unknown".toList

/-- One qualifier and the `&` behind it. -/
def qualifierText (key : String) (value : List Char) : List Char :=
  if value = [] then []
  else key.toList ++ '=' :: (percentEncodeText value ++ ['&'])

/-- The text that `build_conan_purl` collects in `qualifiers`. -/
def qualifiers (reference : ConanReference) (includeRecipeRevision : Bool) :
    List Char :=
  qualifierText "channel" reference.channel ++
    (if includeRecipeRevision then qualifierText "rrev" reference.revision
      else []) ++
    qualifierText "user" reference.user

def buildConanPurl (reference : ConanReference)
    (includeRecipeRevision : Bool) : List Char :=
  "pkg:conan/".toList ++
    percentEncodeText
      (if reference.name = [] then unknownComponentName else reference.name) ++
    (if reference.version = [] then []
      else '@' :: percentEncodeText reference.version) ++
    (if qualifiers reference includeRecipeRevision = [] then []
      else '?' :: (qualifiers reference includeRecipeRevision).dropLast)

/-- No outer blank, and none of the separators. -/
structure IsPart (separators part : List Char) : Prop where
  trimmed_eq : trimmed part = part
  isByteText : IsByteText part
  notMem : ∀ separator ∈ separators, separator ∉ part

/-- A reference as it is written: a part that is left out is left out together
with its separator. -/
structure WrittenReference where
  name : List Char
  version? : Option (List Char) := none
  user? : Option (List Char) := none
  channel? : Option (List Char) := none
  revision? : Option (List Char) := none
  timestamp? : Option (List Char) := none
  name_ne_nil : name ≠ []
  isPart_name : IsPart ['/', '@', '#'] name
  isPart_version : ∀ version ∈ version?, IsPart ['@', '#'] version
  isPart_user : ∀ user ∈ user?, IsPart ['/', '#'] user
  isPart_channel : ∀ channel ∈ channel?, IsPart ['#'] channel
  isPart_revision : ∀ revision ∈ revision?, IsPart ['%'] revision
  isPart_timestamp : ∀ timestamp ∈ timestamp?, IsPart [] timestamp
  channel_none : user? = none → channel? = none
  timestamp_none : revision? = none → timestamp? = none

def marked (separator : Char) : Option (List Char) → List Char
  | some part => separator :: part
  | none => []

namespace WrittenReference

variable (written : WrittenReference)

def nameVersion : List Char :=
  written.name ++ marked '/' written.version?

def beforeHash : List Char :=
  written.nameVersion ++
    (marked '@' written.user? ++ marked '/' written.channel?)

def text : List Char :=
  written.beforeHash ++
    (marked '#' written.revision? ++ marked '%' written.timestamp?)

/-- The parts; one that is left out is empty. -/
def reference : ConanReference where
  name := written.name
  version := written.version?.getD []
  user := written.user?.getD []
  channel := written.channel?.getD []
  revision := written.revision?.getD []

end WrittenReference

/-- A separator that the front does not hold splits the text. -/
theorem splitOnce_marked {separator : Char} {front : List Char}
    (hfront : separator ∉ front) (part? : Option (List Char))
    {rest : List Char} (hrest : part? = none → rest = []) :
    splitOnce (front ++ (marked separator part? ++ rest)) separator =
      (front, part?.getD [] ++ rest) := by
  cases part? with
  | none =>
    have hall : ∀ c ∈ front, decide (c ≠ separator) = true := by
      intro c hc
      have hne : c ≠ separator := fun heq => hfront (heq ▸ hc)
      simpa using hne
    rw [hrest rfl, marked, List.append_nil, List.append_nil, splitOnce,
      List.takeWhile_eq_self_iff.mpr hall,
      List.dropWhile_eq_nil_iff.mpr hall]
    rfl
  | some part =>
    obtain ⟨htake, hdrop⟩ :=
      takeWhile_append_mark hfront (part ++ rest)
    rw [marked, List.cons_append, splitOnce, htake, hdrop]
    rfl

theorem notMem_marked {c separator : Char} (hne : c ≠ separator)
    {part? : Option (List Char)} (hpart : ∀ part ∈ part?, c ∉ part) :
    c ∉ marked separator part? := by
  cases part? with
  | none => exact List.not_mem_nil
  | some part =>
    rw [marked, List.mem_cons, not_or]
    exact ⟨hne, hpart part rfl⟩

theorem isSolid_of_trimmed {text : List Char} (hne : text ≠ [])
    (htrimmed : trimmed text = text) : IsSolid text := by
  constructor
  · refine ⟨text.head hne, List.head?_eq_some_head hne, ?_⟩
    apply @of_solidHead text
    rw [← head?_trimmed, htrimmed]
    exact List.head?_eq_some_head hne
  · refine ⟨text.getLast hne, List.getLast?_eq_some_getLast hne, ?_⟩
    apply @getLast?_trimmed text
    rw [htrimmed]
    exact List.getLast?_eq_some_getLast hne

/-- A part behind a separator ends without a blank, also an empty one. -/
theorem isSolid_append_marked {separator : Char}
    (hseparator : isAsciiBlank separator = false) {front : List Char}
    (hfront : IsSolid front) {part? : Option (List Char)}
    (hpart : ∀ part ∈ part?, trimmed part = part) :
    IsSolid (front ++ marked separator part?) := by
  cases part? with
  | none =>
    rw [marked, List.append_nil]
    exact hfront
  | some part =>
    have hmarked : IsSolid (separator :: part) := by
      by_cases hne : part = []
      · rw [hne]
        exact ⟨⟨_, rfl, hseparator⟩, ⟨_, rfl, hseparator⟩⟩
      · exact @IsSolid.append [separator] part
          (isSolid_of_trimmed hne (hpart part rfl)) ⟨_, rfl, hseparator⟩
    exact hmarked.append hfront.head

theorem trimmed_surrounded {before behind text : List Char}
    (hbefore : AllBlank before) (hbehind : AllBlank behind)
    (htext : IsSolid text) : trimmed (before ++ (text ++ behind)) = text := by
  rw [trimmed_blanks_append hbefore, trimmed_append htext,
    List.rdropWhile_eq_nil_iff.mpr hbehind, List.append_nil]

theorem getD_of_forall {P : List Char → Prop} (hnil : P [])
    {part? : Option (List Char)} (hpart : ∀ part ∈ part?, P part) :
    P (part?.getD []) := by
  cases part? with
  | none => exact hnil
  | some part => exact hpart part rfl

theorem trimmed_getD {part? : Option (List Char)}
    (hpart : ∀ part ∈ part?, trimmed part = part) :
    trimmed (part?.getD []) = part?.getD [] :=
  @getD_of_forall (fun part => trimmed part = part) rfl _ hpart

theorem notMem_getD {c : Char} {part? : Option (List Char)}
    (hpart : ∀ part ∈ part?, c ∉ part) : c ∉ part?.getD [] :=
  @getD_of_forall (fun part => c ∉ part) List.not_mem_nil _ hpart

/-! ## Parts of a written reference -/

namespace WrittenReference

variable (written : WrittenReference)

theorem isSolid_text : IsSolid written.text := by
  have hname := isSolid_of_trimmed written.name_ne_nil
    written.isPart_name.trimmed_eq
  have hversion := isSolid_append_marked
    (by decide : isAsciiBlank '/' = false) hname
    fun part hpart => (written.isPart_version part hpart).trimmed_eq
  have huser := isSolid_append_marked
    (by decide : isAsciiBlank '@' = false) hversion
    fun part hpart => (written.isPart_user part hpart).trimmed_eq
  have hchannel := isSolid_append_marked
    (by decide : isAsciiBlank '/' = false) huser
    fun part hpart => (written.isPart_channel part hpart).trimmed_eq
  have hrevision := isSolid_append_marked
    (by decide : isAsciiBlank '#' = false) hchannel
    fun part hpart => (written.isPart_revision part hpart).trimmed_eq
  have htimestamp := isSolid_append_marked
    (by decide : isAsciiBlank '%' = false) hrevision
    fun part hpart => (written.isPart_timestamp part hpart).trimmed_eq
  simpa only [text, beforeHash, nameVersion, List.append_assoc]
    using htimestamp

theorem at_notMem_nameVersion : '@' ∉ written.nameVersion := by
  rw [nameVersion, List.mem_append, not_or]
  exact ⟨written.isPart_name.notMem _ (by decide),
    notMem_marked (by decide) fun part hpart =>
      (written.isPart_version part hpart).notMem _ (by decide)⟩

theorem hash_notMem_beforeHash : '#' ∉ written.beforeHash := by
  rw [beforeHash, nameVersion, List.mem_append, List.mem_append,
    List.mem_append]
  rintro ((hname | hversion) | huser | hchannel)
  · exact written.isPart_name.notMem _ (by decide) hname
  · exact notMem_marked (by decide) (fun part hpart =>
      (written.isPart_version part hpart).notMem _ (by decide)) hversion
  · exact notMem_marked (by decide) (fun part hpart =>
      (written.isPart_user part hpart).notMem _ (by decide)) huser
  · exact notMem_marked (by decide) (fun part hpart =>
      (written.isPart_channel part hpart).notMem _ (by decide)) hchannel

theorem splitOnce_text : splitOnce written.text '#' = (written.beforeHash,
      written.revision?.getD [] ++ marked '%' written.timestamp?) :=
  splitOnce_marked written.hash_notMem_beforeHash _
    fun hnone => by rw [written.timestamp_none hnone]; rfl

theorem splitOnce_beforeHash : splitOnce written.beforeHash '@' =
    (written.nameVersion,
      written.user?.getD [] ++ marked '/' written.channel?) :=
  splitOnce_marked written.at_notMem_nameVersion _
    fun hnone => by rw [written.channel_none hnone]; rfl

theorem splitOnce_nameVersion : splitOnce written.nameVersion '/' =
    (written.name, written.version?.getD []) := by
  have h := @splitOnce_marked _ _
    (written.isPart_name.notMem '/' (by decide)) written.version? [] fun _ => rfl
  rwa [List.append_nil, List.append_nil] at h

theorem splitOnce_userChannel :
    splitOnce (written.user?.getD [] ++ marked '/' written.channel?) '/' =
      (written.user?.getD [], written.channel?.getD []) := by
  have hslash : '/' ∉ written.user?.getD [] := notMem_getD fun user huser =>
    (written.isPart_user user huser).notMem _ (by decide)
  have h := @splitOnce_marked _ _ hslash written.channel? [] fun _ => rfl
  rwa [List.append_nil, List.append_nil] at h

theorem takeWhile_revision :
    (written.revision?.getD [] ++ marked '%' written.timestamp?).takeWhile
      (· ≠ '%') = written.revision?.getD [] := by
  have hpercent : '%' ∉ written.revision?.getD [] :=
    notMem_getD fun revision hrevision =>
      (written.isPart_revision revision hrevision).notMem _ (by decide)
  have h := @splitOnce_marked _ _ hpercent written.timestamp? [] fun _ => rfl
  rw [List.append_nil] at h
  exact congrArg Prod.fst h

/-- The parts are read back, whatever blanks stand around them. -/
theorem parseConanReference_text {before behind : List Char}
    (hbefore : AllBlank before) (hbehind : AllBlank behind) :
    parseConanReference (before ++ (written.text ++ behind)) =
      written.reference := by
  have hname := written.isPart_name.trimmed_eq
  have hversion := trimmed_getD fun part hpart =>
    (written.isPart_version part hpart).trimmed_eq
  have huser := trimmed_getD fun part hpart =>
    (written.isPart_user part hpart).trimmed_eq
  have hchannel := trimmed_getD fun part hpart =>
    (written.isPart_channel part hpart).trimmed_eq
  have hrevision := trimmed_getD fun part hpart =>
    (written.isPart_revision part hpart).trimmed_eq
  rw [parseConanReference,
    trimmed_surrounded hbefore hbehind written.isSolid_text,
    splitOnce_text]
  simp only [splitOnce_beforeHash, splitOnce_nameVersion,
    splitOnce_userChannel, takeWhile_revision, hname, hversion, huser,
    hchannel, hrevision]
  rw [reference]
  by_cases hempty :
      written.user?.getD [] ++ marked '/' written.channel? = []
  · obtain ⟨hnoUser, hnoChannel⟩ := List.append_eq_nil_iff.mp hempty
    have hgone : written.channel?.getD [] = [] := by
      cases hsome : written.channel? with
      | none => rfl
      | some channel =>
        rw [hsome] at hnoChannel
        cases hnoChannel
    rw [if_pos hempty, if_pos hempty, hnoUser, hgone]
  · rw [if_neg hempty, if_neg hempty]

end WrittenReference
end Bomwerk.Cpp.Conan

/-!
## Purls of conan references

The purl of a reference tells its parts, and so no two references share one.
-/

namespace Bomwerk.Cpp.Conan

open Bomwerk.Core Bomwerk.Support

/-! ## Qualifiers -/

def keyedParts (reference : ConanReference) :
    List (List Char × List Char) :=
  [("channel".toList, reference.channel), ("rrev".toList, reference.revision),
    ("user".toList, reference.user)]

def presentParts (reference : ConanReference) :
    List (List Char × List Char) :=
  (keyedParts reference).filter fun qualifier => qualifier.2 ≠ []

def writtenQualifier (qualifier : List Char × List Char) : List Char :=
  qualifier.1 ++ '=' :: percentEncodeText qualifier.2

theorem qualifierText_eq (key : String) (value : List Char) :
    qualifierText key value = ([(key.toList, value)].filter fun qualifier =>
        qualifier.2 ≠ []).flatMap
          fun qualifier => writtenQualifier qualifier ++ ['&'] := by
  rw [qualifierText, List.filter_singleton]
  by_cases hnil : value = []
  · simp [hnil]
  · simp [hnil, writtenQualifier]

theorem qualifiers_eq (reference : ConanReference) :
    qualifiers reference true = (presentParts reference).flatMap
        fun qualifier => writtenQualifier qualifier ++ ['&'] := by
  have hsplit : keyedParts reference =
      [("channel".toList, reference.channel)] ++
        [("rrev".toList, reference.revision)] ++
        [("user".toList, reference.user)] := rfl
  rw [qualifiers, if_pos rfl, presentParts, hsplit, List.filter_append,
    List.filter_append, List.flatMap_append, List.flatMap_append,
    qualifierText_eq, qualifierText_eq, qualifierText_eq]

theorem dropLast_flatMap_separator {separator : Char}
    {parts : List (List Char × List Char)} (hne : parts ≠ []) :
    (parts.flatMap
        fun qualifier => writtenQualifier qualifier ++ [separator]).dropLast =
      [separator].intercalate (parts.map writtenQualifier) := by
  induction parts with
  | nil => exact absurd rfl hne
  | cons first rest ih =>
    cases rest with
    | nil => simp [List.intercalate_singleton]
    | cons second rest =>
      have htail : (second :: rest).flatMap (fun qualifier =>
          writtenQualifier qualifier ++ [separator]) ≠ [] := by
        simp
      rw [List.flatMap_cons, List.dropLast_append_of_ne_nil htail,
        ih (List.cons_ne_nil _ _)]
      simp only [List.map_cons, List.intercalate_cons_cons, List.append_assoc]

/-- `?` and the qualifiers. -/
def extras (reference : ConanReference) : List Char :=
  if presentParts reference = [] then []
  else '?' :: ['&'].intercalate ((presentParts reference).map writtenQualifier)

theorem extras_eq (reference : ConanReference) :
    (if qualifiers reference true = [] then []
      else '?' :: (qualifiers reference true).dropLast) = extras reference := by
  rw [qualifiers_eq, extras]
  by_cases hnil : presentParts reference = []
  · rw [hnil]
    rfl
  · have hne : (presentParts reference).flatMap (fun qualifier =>
        writtenQualifier qualifier ++ ['&']) ≠ [] := by
      obtain ⟨first, rest, hcons⟩ := List.exists_cons_of_ne_nil hnil
      rw [hcons]
      simp
    rw [if_neg hne, if_neg hnil, dropLast_flatMap_separator hnil]

theorem mem_presentParts_key {reference : ConanReference}
    {qualifier : List Char × List Char}
    (hmem : qualifier ∈ presentParts reference) :
    ∀ c ∈ qualifier.1, IsEncodedCharacter c := by
  have hkeys : ∀ key ∈ ["channel".toList, "rrev".toList, "user".toList],
      key.all (fun c => IsEncodedCharacter c) = true := by
    decide
  have hkey : qualifier.1 ∈
      ["channel".toList, "rrev".toList, "user".toList] := by
    have hkeyed := List.mem_of_mem_filter hmem
    exact List.mem_map_of_mem (f := Prod.fst) hkeyed
  intro c hc
  exact of_decide_eq_true (List.all_eq_true.mp (hkeys _ hkey) c hc)

theorem of_mem_writtenQualifier {reference : ConanReference}
    {qualifier : List Char × List Char}
    (hmem : qualifier ∈ presentParts reference) {c : Char}
    (hc : c ∈ writtenQualifier qualifier) : IsEncodedCharacter c ∨ c = '=' := by
  rw [writtenQualifier, List.mem_append, List.mem_cons] at hc
  rcases hc with hkey | heq | hvalue
  · exact .inl (mem_presentParts_key hmem c hkey)
  · exact .inr heq
  · exact .inl (isEncodedCharacter_of_mem_percentEncodeText hvalue)

theorem of_mem_extras {reference : ConanReference} {c : Char}
    (hc : c ∈ extras reference) :
    IsEncodedCharacter c ∨ c ∈ ['?', '&', '='] := by
  rw [extras] at hc
  split_ifs at hc
  · cases hc
  · rcases List.mem_cons.mp hc with rfl | hquery
    · exact .inr (by decide)
    by_cases hampersand : c = '&'
    · exact .inr (by simp [hampersand])
    obtain ⟨part, hpart, hmem⟩ := exists_mem_of_mem_intercalate hquery
      (by simpa using hampersand)
    obtain ⟨qualifier, hqualifier, rfl⟩ := List.mem_map.mp hpart
    exact (of_mem_writtenQualifier hqualifier hmem).imp_right (by simp +contextual)

/-! ## The purl -/

/-- Texts of bytes, and a name. -/
structure IsByteReference (reference : ConanReference) : Prop where
  name_ne_nil : reference.name ≠ []
  name : IsByteText reference.name
  version : IsByteText reference.version
  user : IsByteText reference.user
  channel : IsByteText reference.channel
  revision : IsByteText reference.revision

theorem isByteText_getD {part? : Option (List Char)}
    (hpart : ∀ part ∈ part?, IsByteText part) :
    IsByteText (part?.getD []) :=
  getD_of_forall isByteText_nil hpart

theorem WrittenReference.isByteReference (written : WrittenReference) :
    IsByteReference written.reference where
  name_ne_nil := written.name_ne_nil
  name := written.isPart_name.isByteText
  version := isByteText_getD fun part hpart =>
    (written.isPart_version part hpart).isByteText
  user := isByteText_getD fun part hpart =>
    (written.isPart_user part hpart).isByteText
  channel := isByteText_getD fun part hpart =>
    (written.isPart_channel part hpart).isByteText
  revision := isByteText_getD fun part hpart =>
    (written.isPart_revision part hpart).isByteText

def conanType : List Char := "conan".toList

theorem isPurlType_conanType : IsPurlType conanType :=
  isPurlType_of_all (by decide) (by decide)

section Purl

variable {reference : ConanReference} (h : IsByteReference reference)

include h

def purlParts : PurlParts where
  type := conanType
  name := reference.name
  version? := if reference.version = [] then none else some reference.version
  type_ne_nil := isPurlType_conanType.ne_nil
  lowercase_type := isPurlType_conanType.lowercase
  isByteText_scope := isByteText_of_mem_none
  isByteText_name := h.name
  isByteText_version := by
    intro version hversion
    split_ifs at hversion
    · cases hversion
    · obtain rfl := Option.some.inj hversion
      exact h.version

theorem versionMark_purlParts :
    versionMark (purlParts h).version? =
      if reference.version = [] then []
      else '@' :: percentEncodeText reference.version := by
  rw [purlParts]
  dsimp only
  split_ifs <;> rfl

theorem buildConanPurl_eq : buildConanPurl reference true =
    (purlParts h).text ++ extras reference := by
  have hscheme : "pkg:conan/".toList =
      "pkg:".toList ++ (conanType ++ ['/']) := by
    decide
  have hpath : (purlParts h).path = percentEncodeText reference.name := rfl
  have htype : (purlParts h).type = conanType := rfl
  unfold buildConanPurl PurlParts.text
  rw [extras_eq, if_neg h.name_ne_nil, (purlParts h).suffix_eq_versionMark,
    versionMark_purlParts, hpath, htype]
  generalize "pkg:conan/".toList = scheme at hscheme ⊢
  generalize "pkg:".toList = front at hscheme ⊢
  simp only [hscheme, List.append_assoc, List.cons_append, List.nil_append]

theorem parsePurl_buildConanPurl :
    parsePurl (String.ofList (buildConanPurl reference true)) =
      { value := String.ofList (buildConanPurl reference true) } := by
  have htext : buildConanPurl reference true = purlText conanType
      ((purlParts h).path ++ versionMark (purlParts h).version? ++
        extras reference) := by
    have htype : (purlParts h).type = conanType := rfl
    rw [buildConanPurl_eq h, (purlParts h).text_eq_purlText, htype, purlText,
      purlText, List.append_assoc, List.cons_append]
  have hblank : ((purlParts h).path ++ versionMark (purlParts h).version? ++
      extras reference).any isAsciiWhitespace = false := by
    refine not_any_isAsciiWhitespace ['/', '@', '?', '&', '='] (by decide) ?_
    intro c hc
    rw [List.mem_append, List.mem_append] at hc
    rcases hc with (hpath | hversion) | hextras
    · exact ((purlParts h).of_mem_path hpath).imp_right (by simp +contextual)
    · exact (of_mem_versionMark hversion).imp_right (by simp +contextual)
    · refine (of_mem_extras hextras).imp_right fun hmem => ?_
      exact List.mem_cons_of_mem _ (List.mem_cons_of_mem _ hmem)
  have hne : (purlParts h).path ++ versionMark (purlParts h).version? ++
      extras reference ≠ [] := by
    have hpath : (purlParts h).path ≠ [] := by
      change percentEncodeText reference.name ≠ []
      rw [ne_eq, percentEncodeText_eq_nil_iff]
      exact h.name_ne_nil
    simp [hpath]
  rw [htext, parsePurl_purlText isPurlType_conanType hblank, if_neg hne]

theorem purlIdentityPart_buildConanPurl :
    purlIdentityPart (String.ofList (buildConanPurl reference true)) =
      String.ofList (purlParts h).text := by
  have hrest : ∀ c ∈ (purlParts h).path ++ versionMark (purlParts h).version?,
      c ≠ '?' ∧ c ≠ '#' := by
    intro c hc
    have hmark : IsEncodedCharacter c ∨ c = '/' ∨ c = '@' := by
      rcases List.mem_append.mp hc with hpath | hversion
      · exact ((purlParts h).of_mem_path hpath).imp_right .inl
      · exact (of_mem_versionMark hversion).imp_right .inr
    constructor
    · rintro rfl
      exact absurd hmark (by decide)
    · rintro rfl
      exact absurd hmark (by decide)
  have hextras : extras reference = [] ∨
      (extras reference).head? = some '?' := by
    rw [extras]
    split_ifs
    · exact .inl rfl
    · exact .inr rfl
  have hcut := purlIdentityPart_purlText (purlParts h).isPurlType hrest hextras
  rw [← (purlParts h).text_eq_purlText] at hcut
  rw [buildConanPurl_eq h, ← hcut, (purlParts h).text_eq_purlText]
  simp only [purlText, List.append_assoc, List.cons_append]

theorem percentDecodeText_name :
    percentDecodeText (purlNameOf (purlIdentityPart
      (String.ofList (buildConanPurl reference true)))).toList =
        reference.name := by
  rw [purlIdentityPart_buildConanPurl h, (purlParts h).purlNameOf_text]
  exact percentDecodeText_percentEncodeText h.name

theorem percentDecodeText_version :
    percentDecodeText (purlVersionOf (purlIdentityPart
      (String.ofList (buildConanPurl reference true)))).toList =
        reference.version := by
  rw [purlIdentityPart_buildConanPurl h,
    (purlParts h).percentDecodeText_purlVersionOf, purlParts]
  dsimp only
  split_ifs with hversion
  · exact hversion.symm
  · rfl

theorem isByteText_of_mem_presentParts {qualifier : List Char × List Char}
    (hmem : qualifier ∈ presentParts reference) :
    IsByteText qualifier.2 := by
  have hkeyed := List.mem_of_mem_filter hmem
  simp only [keyedParts, List.mem_cons, List.not_mem_nil, or_false] at hkeyed
  rcases hkeyed with rfl | rfl | rfl
  · exact h.channel
  · exact h.revision
  · exact h.user

theorem qualifierOf_writtenQualifier {qualifier : List Char × List Char}
    (hmem : qualifier ∈ presentParts reference) :
    qualifierOf (writtenQualifier qualifier) = qualifier := by
  have hequals : '=' ∉ qualifier.1 := by
    intro hc
    exact absurd (mem_presentParts_key hmem _ hc) (by decide)
  rw [writtenQualifier, qualifierOf_append hequals,
    percentDecodeText_percentEncodeText
      (isByteText_of_mem_presentParts h hmem)]

theorem purlQualifiers_buildConanPurl :
    purlQualifiers (buildConanPurl reference true) =
      presentParts reference := by
  have hfront : IsBeforeExtras (purlParts h).text :=
    ⟨(purlParts h).notMem_text (by decide),
      (purlParts h).notMem_text (by decide)⟩
  rw [buildConanPurl_eq h, extras]
  split_ifs with hnil
  · rw [hnil, List.append_nil, purlQualifiers_of_isBeforeExtras hfront]
  rw [purlQualifiers_intercalate hfront (by simpa using hnil), List.map_map]
  · conv_rhs => rw [← List.map_id (presentParts reference)]
    exact List.map_congr_left fun qualifier hmem =>
      qualifierOf_writtenQualifier h hmem
  · intro part hpart hmark
    obtain ⟨qualifier, hmem, rfl⟩ := List.mem_map.mp hpart
    exact absurd (of_mem_writtenQualifier hmem hmark) (by decide)
  · intro part hpart hmark
    obtain ⟨qualifier, hmem, rfl⟩ := List.mem_map.mp hpart
    exact absurd (of_mem_writtenQualifier hmem hmark) (by decide)

end Purl

def qualifierValue (qualifiers : List (List Char × List Char))
    (key : List Char) : List Char :=
  (qualifiers.lookup key).getD []

theorem qualifierValue_presentParts (reference : ConanReference) :
    qualifierValue (presentParts reference) "channel".toList =
        reference.channel ∧
      qualifierValue (presentParts reference) "rrev".toList =
        reference.revision ∧
      qualifierValue (presentParts reference) "user".toList =
        reference.user := by
  have hkeys : ("rrev".toList == "channel".toList) = false ∧
      ("user".toList == "channel".toList) = false ∧
      ("user".toList == "rrev".toList) = false ∧
      ("channel".toList == "rrev".toList) = false ∧
      ("channel".toList == "user".toList) = false ∧
      ("rrev".toList == "user".toList) = false := by
    decide
  obtain ⟨h1, h2, h3, h4, h5, h6⟩ := hkeys
  unfold qualifierValue presentParts keyedParts
  generalize "channel".toList = channelKey at h1 h2 h4 h5 ⊢
  generalize "rrev".toList = revisionKey at h1 h3 h4 h6 ⊢
  generalize "user".toList = userKey at h2 h3 h5 h6 ⊢
  by_cases hchannel : reference.channel = [] <;>
    by_cases hrevision : reference.revision = [] <;>
    by_cases huser : reference.user = [] <;>
    simp [hchannel, hrevision, huser, List.lookup_cons, h1, h2, h3, h4, h5, h6]

/-- What the reader of a purl makes of the parts. -/
def decodedReference (purl : List Char) : ConanReference where
  name := percentDecodeText
    (purlNameOf (purlIdentityPart (String.ofList purl))).toList
  version := percentDecodeText
    (purlVersionOf (purlIdentityPart (String.ofList purl))).toList
  user := qualifierValue (purlQualifiers purl) "user".toList
  channel := qualifierValue (purlQualifiers purl) "channel".toList
  revision := qualifierValue (purlQualifiers purl) "rrev".toList

theorem decodedReference_buildConanPurl {reference : ConanReference}
    (h : IsByteReference reference) :
    decodedReference (buildConanPurl reference true) = reference := by
  obtain ⟨hchannel, hrevision, huser⟩ := qualifierValue_presentParts reference
  rw [decodedReference, purlQualifiers_buildConanPurl h,
    percentDecodeText_name h, percentDecodeText_version h, hchannel, hrevision,
    huser]

/-- The text and the purl of a reference tell its parts. -/
structure RoundTrips (written : WrittenReference) : Prop where
  parsed : ∀ before behind, AllBlank before → AllBlank behind →
    parseConanReference (before ++ (written.text ++ behind)) = written.reference
  canonical :
    parsePurl (String.ofList (buildConanPurl written.reference true)) =
      { value := String.ofList (buildConanPurl written.reference true) }
  decoded : decodedReference (buildConanPurl written.reference true) =
    written.reference
  injective : ∀ other : WrittenReference, buildConanPurl other.reference true =
      buildConanPurl written.reference true →
        other.reference = written.reference

theorem roundTrips (written : WrittenReference) : RoundTrips written where
  parsed _ _ hbefore hbehind :=
    written.parseConanReference_text hbefore hbehind
  canonical := parsePurl_buildConanPurl written.isByteReference
  decoded := decodedReference_buildConanPurl written.isByteReference
  injective := by
    intro other heq
    rw [← decodedReference_buildConanPurl other.isByteReference, heq,
      decodedReference_buildConanPurl written.isByteReference]

end Bomwerk.Cpp.Conan
