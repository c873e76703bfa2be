import Bomwerk.Core.AsciiCase
import Bomwerk.Core.RepositoryUrl
import Bomwerk.Core.TextPieces

/-!
# Purls of git remotes

The purl of a component pinned at a commit is put together from percent-encoded
parts, whatever the URL, the commit and the declared name hold.  It is therefore
canonical, and its parts are read back from it.
-/

namespace Bomwerk.Core

open Bomwerk.Support

theorem isByteText_of_all {text : List Char}
    (hall : text.all (fun c => c.toNat < 256) = true) : IsByteText text :=
  fun c hc => of_decide_eq_true (List.all_eq_true.mp hall c hc)

theorem IsByteText.map_toLowerAsciiChar {text : List Char}
    (htext : IsByteText text) : IsByteText (text.map toLowerAsciiChar) := by
  intro c hc
  obtain ⟨raw, hraw, rfl⟩ := List.mem_map.mp hc
  exact toNat_toLowerAsciiChar_lt (htext raw hraw)

theorem IsByteText.normalizedObjectId {text : List Char}
    (htext : IsByteText text) : IsByteText (normalizedObjectId text) := by
  rw [Core.normalizedObjectId]
  split_ifs
  · exact htext.map_toLowerAsciiChar
  · exact htext

/-- An object id holds nothing but hexadecimal digits. -/
theorem notMem_normalizedObjectId {mark : Char} (hmark : IsCaseless mark)
    (hhex : isHexDigit mark = false) {text : List Char}
    (hid : isHexObjectId (String.ofList text) = true) :
    mark ∉ normalizedObjectId text := by
  rw [normalizedObjectId, if_pos hid, mem_map_toLowerAsciiChar_iff hmark]
  intro hmem
  simp only [isHexObjectId, isHexDigits, Bool.and_eq_true,
    String.toList_ofList] at hid
  simpa [hhex] using List.all_eq_true.mp hid.2.2 _ hmem

theorem behindScheme?_subset {text rest : List Char}
    (hrest : behindScheme? text = some rest) : rest ⊆ text := by
  fun_induction behindScheme? text with
  | case1 => cases hrest
  | case2 =>
    obtain rfl := Option.some.inj hrest
    intro c hc
    simp [hc]
  | case3 c text _ ih => exact List.subset_cons_of_subset _ (ih hrest)

theorem IsByteText.hostAndPath {working hostAndPath : List Char}
    (hworking : IsByteText working)
    (hsome : hostAndPath? working = some hostAndPath) :
    IsByteText hostAndPath := by
  rw [hostAndPath?] at hsome
  cases hscheme : behindScheme? working with
  | some rest =>
    rw [hscheme] at hsome
    obtain rfl := Option.some.inj hsome
    exact hworking.mono (behindScheme?_subset hscheme)
  | none =>
    rw [hscheme] at hsome
    dsimp only at hsome
    split_ifs at hsome
    obtain rfl := Option.some.inj hsome
    refine (hworking.takeWhile _).append ?_
    rw [IsByteText, List.forall_mem_cons]
    exact ⟨by decide, (hworking.dropWhile _).tail⟩

theorem barePath_subset (pathSegment : List Char) :
    barePath pathSegment ⊆ pathSegment := by
  have hdrop := (List.rdropWhile_prefix (· = '/') pathSegment).subset
  rw [barePath]
  split_ifs
  · exact List.Subset.trans (List.take_subset _ _) hdrop
  · exact hdrop

theorem isByteText_repo {url : List Char} (hurl : IsByteText url) :
    IsByteText (parseGitRemote url).repo := by
  rw [parseGitRemote]
  dsimp only
  split_ifs
  · exact isByteText_nil
  · cases hsome : hostAndPath? (trimmed url) with
    | none => exact isByteText_nil
    | some hostAndPath =>
      have hpath : IsByteText
          (barePath (hostAndPath.dropWhile (· ≠ '/')).tail) :=
        ((hurl.trimmed.hostAndPath hsome).dropWhile _).tail.mono
          (barePath_subset _)
      dsimp only
      split
      · exact hpath
      · next hrepo => exact hpath.mono (afterLast?_subset hrepo)

/-! ## The purl as a text behind a type -/

/-- The type of the forge, when the remote is one of a known forge with an
owner and a name. -/
def forgeOf? (url : List Char) : Option (List Char) :=
  if (parseGitRemote url).owner ≠ [] ∧ (parseGitRemote url).repo ≠ [] then
    forgeTypeForHost (parseGitRemote url).host
  else none

def gitPurlName (url fallbackName : List Char) : List Char :=
  match forgeOf? url with
  | some _ => (parseGitRemote url).repo.map toLowerAsciiChar
  | none => genericName (parseGitRemote url) fallbackName

def gitVersion? (commit : List Char) : Option (List Char) :=
  if normalizedObjectId commit = [] then none
  else some (normalizedObjectId commit)

/-- The qualifier that pins the URL of a remote of no known forge. -/
def vcsUrl (url : List Char) : List Char :=
  match forgeOf? url with
  | some _ => []
  | none =>
    '?' :: ("vcs_url=".toList ++ percentEncodeText
      ("git+".toList ++ trimmed url))

/-- A path that tells the name of a remote. -/
structure IsGitPurlPath (url fallbackName path : List Char) : Prop where
  ne_nil : path ≠ []
  encoded : ∀ c ∈ path, IsEncodedCharacter c ∨ c = '/'
  name : (afterLast? '/' path).getD path =
    percentEncodeText (gitPurlName url fallbackName)

theorem versionSuffix_normalizedObjectId (commit : List Char) :
    versionSuffix (normalizedObjectId commit) =
      versionMark (gitVersion? commit) := by
  rw [versionSuffix, gitVersion?]
  split_ifs <;> rfl

theorem getD_gitVersion? (commit : List Char) :
    (gitVersion? commit).getD [] = normalizedObjectId commit := by
  rw [gitVersion?]
  split_ifs with hempty
  · exact hempty.symm
  · rfl

theorem isPurlType_of_forgeTypeForHost {host forgeType : List Char}
    (hforge : forgeTypeForHost host = some forgeType) :
    IsPurlType forgeType := by
  obtain ⟨front, back, hhosts, -⟩ := List.lookup_eq_some_iff.mp hforge
  have hmem : (host, forgeType) ∈ forgeHosts := by
    rw [hhosts]
    simp
  have hall : forgeHosts.all (fun forge => !forge.2.isEmpty &&
      forge.2.all fun c => 'a' ≤ c ∧ c ≤ 'z') = true := by
    decide
  obtain ⟨hne, hlower⟩ :=
    Bool.and_eq_true_iff.mp (List.all_eq_true.mp hall _ hmem)
  exact isPurlType_of_all (by simpa using hne) hlower

theorem gitPurlName_text (repository : RepositoryUrl)
    (fallbackName : List Char) :
    gitPurlName repository.text fallbackName =
      if (forgeOf? repository.text).isSome then
        repository.repo.map toLowerAsciiChar
      else repository.repo := by
  rw [gitPurlName, repository.parseGitRemote_text]
  cases forgeOf? repository.text with
  | some forgeType => rfl
  | none => simp [genericName, repository.repo_ne_nil]

theorem genericName_ne_nil (remote : GitRemote) (fallbackName : List Char) :
    genericName remote fallbackName ≠ [] := by
  rw [genericName]
  generalize (if remote.repo = [] then fallbackName else remote.repo) = name
  split_ifs with hempty
  · decide
  · exact hempty

theorem of_mem_percentEncodePurlNamespace {namespacePath : List Char} {c : Char}
    (hc : c ∈ percentEncodePurlNamespace namespacePath) :
    IsEncodedCharacter c ∨ c = '/' := by
  obtain ⟨first, rest, hsplit⟩ :=
    List.exists_cons_of_ne_nil (List.splitOn_ne_nil '/' namespacePath)
  rw [percentEncodePurlNamespace, hsplit, List.map_cons, ← append_ledSegments,
    List.mem_append, ledSegments, List.mem_flatMap] at hc
  rcases hc with hc | ⟨piece, hpiece, hc⟩
  · exact .inl (isEncodedCharacter_of_mem_percentEncodeText hc)
  · obtain ⟨segment, -, rfl⟩ := List.mem_map.mp hpiece
    rcases List.mem_cons.mp hc with rfl | hc
    · exact .inr rfl
    · exact .inl (isEncodedCharacter_of_mem_percentEncodeText hc)

theorem genericPurl_eq_purlText (url fallbackName : List Char)
    (remote : GitRemote) (version : List Char) :
    buildGitPurl.genericPurl url fallbackName remote version =
      purlText "generic".toList
        (percentEncodeText (genericName remote fallbackName) ++
          versionSuffix version ++ '?' :: ("vcs_url=".toList ++
            percentEncodeText ("git+".toList ++ trimmed url))) := by
  have hscheme : "pkg:generic/".toList =
      "pkg:".toList ++ "generic".toList ++ ['/'] := by decide
  have hmark : "?vcs_url=".toList = '?' :: "vcs_url=".toList := by decide
  unfold buildGitPurl.genericPurl purlText
  rw [hscheme, hmark]
  generalize "pkg:".toList = scheme
  generalize "generic".toList = type
  generalize "vcs_url=".toList = mark
  generalize "git+".toList ++ trimmed url = pinned
  simp only [List.append_assoc, List.cons_append, List.nil_append]

/-- Every purl of a remote is a type with a path, the version and the pinned
URL behind it. -/
theorem buildGitPurl_shape (url commit fallbackName : List Char) :
    ∃ type path, IsPurlType type ∧ IsGitPurlPath url fallbackName path ∧
      buildGitPurl url commit fallbackName = purlText type
          (path ++ versionMark (gitVersion? commit) ++ vcsUrl url) := by
  have hgeneric : forgeOf? url = none →
      ∃ type path, IsPurlType type ∧ IsGitPurlPath url fallbackName path ∧
        buildGitPurl.genericPurl url fallbackName (parseGitRemote url)
            (normalizedObjectId commit) =
          purlText type
            (path ++ versionMark (gitVersion? commit) ++ vcsUrl url) := by
    intro hnone
    have hslash : '/' ∉ percentEncodeText
        (genericName (parseGitRemote url) fallbackName) :=
      notMem_percentEncodeText (by decide) _
    refine ⟨"generic".toList, percentEncodeText
      (genericName (parseGitRemote url) fallbackName),
      isPurlType_of_all (by decide) (by decide), ⟨?_, ?_, ?_⟩, ?_⟩
    · simpa using genericName_ne_nil _ _
    · exact fun c hc => .inl (isEncodedCharacter_of_mem_percentEncodeText hc)
    · rw [afterLast?, if_neg hslash, gitPurlName, hnone]
      rfl
    · rw [genericPurl_eq_purlText, versionSuffix_normalizedObjectId, vcsUrl,
        hnone]
  rw [buildGitPurl]
  cases hforge : forgeTypeForHost (parseGitRemote url).host with
  | none => exact hgeneric (by rw [forgeOf?, hforge, ite_self])
  | some forgeType =>
    split_ifs with hremote
    · have hknown : forgeOf? url = some forgeType := by
        rw [forgeOf?, if_pos hremote, hforge]
      have hslash : '/' ∉ percentEncodeText
          ((parseGitRemote url).repo.map toLowerAsciiChar) :=
        notMem_percentEncodeText (by decide) _
      refine ⟨forgeType, percentEncodePurlNamespace
        ((parseGitRemote url).owner.map toLowerAsciiChar) ++
          '/' :: percentEncodeText
            ((parseGitRemote url).repo.map toLowerAsciiChar),
        isPurlType_of_forgeTypeForHost hforge, ⟨by simp, ?_, ?_⟩, ?_⟩
      · intro c hc
        rw [List.mem_append, List.mem_cons] at hc
        rcases hc with hc | rfl | hc
        · exact of_mem_percentEncodePurlNamespace hc
        · exact .inr rfl
        · exact .inl (isEncodedCharacter_of_mem_percentEncodeText hc)
      · rw [afterLast?_append _ hslash, gitPurlName, hknown]
        rfl
      · rw [versionSuffix_normalizedObjectId, vcsUrl, hknown, purlText]
        simp only [List.append_assoc, List.cons_append, List.append_nil]
    · exact hgeneric (by rw [forgeOf?, if_neg hremote])

theorem of_mem_vcsUrl {url : List Char} {c : Char} (hc : c ∈ vcsUrl url) :
    IsEncodedCharacter c ∨ c = '?' ∨ c = '=' := by
  rw [vcsUrl] at hc
  cases hforge : forgeOf? url with
  | some forgeType =>
    rw [hforge] at hc
    cases hc
  | none =>
    rw [hforge] at hc
    rw [List.mem_cons, List.mem_append] at hc
    rcases hc with rfl | hc | hc
    · exact .inr (.inl rfl)
    · have hletters : "vcs_url=".toList.all (fun c =>
          IsEncodedCharacter c ∨ c = '?' ∨ c = '=') = true := by
        decide
      exact of_decide_eq_true (List.all_eq_true.mp hletters c hc)
    · exact .inl (isEncodedCharacter_of_mem_percentEncodeText hc)

theorem vcsUrl_eq_nil_or (url : List Char) :
    vcsUrl url = [] ∨ (vcsUrl url).head? = some '?' := by
  rw [vcsUrl]
  cases forgeOf? url with
  | some forgeType => exact .inl rfl
  | none => exact .inr rfl

section Shape

variable {url fallbackName path : List Char}
  (hpath : IsGitPurlPath url fallbackName path)

include hpath

theorem IsGitPurlPath.at_notMem : '@' ∉ path := by
  intro hmem
  exact absurd (hpath.encoded _ hmem) (by decide)

theorem IsGitPurlPath.ne_of_mem (version? : Option (List Char)) :
    ∀ c ∈ path ++ versionMark version?, c ≠ '?' ∧ c ≠ '#' := by
  intro c hc
  have hmarks : IsEncodedCharacter c ∨ c = '/' ∨ c = '@' := by
    rcases List.mem_append.mp hc with hc | hc
    · exact (hpath.encoded c hc).imp_right .inl
    · exact (of_mem_versionMark hc).imp_right .inr
  constructor
  · rintro rfl
    exact absurd hmarks (by decide)
  · rintro rfl
    exact absurd hmarks (by decide)

theorem IsGitPurlPath.not_any_isAsciiWhitespace
    (version? : Option (List Char)) :
    (path ++ versionMark version? ++ vcsUrl url).any isAsciiWhitespace =
      false := by
  refine Core.not_any_isAsciiWhitespace ['/', '@', '?', '='] (by decide) ?_
  intro c hc
  rw [List.mem_append, List.mem_append] at hc
  rcases hc with (hc | hc) | hc
  · exact (hpath.encoded c hc).imp_right (by simp +contextual)
  · exact (of_mem_versionMark hc).imp_right (by simp +contextual)
  · refine (of_mem_vcsUrl hc).imp_right ?_
    rintro (rfl | rfl) <;> simp

end Shape

theorem parsePurl_buildGitPurl (url commit fallbackName : List Char) :
    parsePurl (String.ofList (buildGitPurl url commit fallbackName)) =
      { value := String.ofList (buildGitPurl url commit fallbackName) } := by
  obtain ⟨type, path, htype, hpath, htext⟩ :=
    buildGitPurl_shape url commit fallbackName
  rw [htext, parsePurl_purlText htype (hpath.not_any_isAsciiWhitespace _),
    if_neg (by simp [hpath.ne_nil])]

/-! ## Recoverable -/

theorem percentDecodeText_purlVersionOf_buildGitPurl
    (url fallbackName : List Char) {commit : List Char}
    (hcommit : IsByteText commit) :
    percentDecodeText (purlVersionOf (purlIdentityPart
      (String.ofList (buildGitPurl url commit fallbackName)))).toList =
        normalizedObjectId commit := by
  obtain ⟨type, path, htype, hpath, htext⟩ :=
    buildGitPurl_shape url commit fallbackName
  rw [htext, purlIdentityPart_purlText htype (hpath.ne_of_mem _)
    (vcsUrl_eq_nil_or url), purlVersionOf_purlText htype hpath.at_notMem,
    getD_gitVersion?]
  exact percentDecodeText_percentEncodeText hcommit.normalizedObjectId

theorem isByteText_gitPurlName {url fallbackName : List Char}
    (hurl : IsByteText url) (hname : IsByteText fallbackName) :
    IsByteText (gitPurlName url fallbackName) := by
  have hrepo := isByteText_repo hurl
  rw [gitPurlName]
  cases forgeOf? url with
  | some forgeType => exact hrepo.map_toLowerAsciiChar
  | none =>
    dsimp only
    rw [genericName]
    split_ifs with hrepoEmpty hnameEmpty
    · exact isByteText_of_all (by decide)
    · exact hname
    · exact hrepo

theorem percentDecodeText_purlNameOf_buildGitPurl
    {url commit fallbackName : List Char} (hurl : IsByteText url)
    (hname : IsByteText fallbackName) :
    percentDecodeText (purlNameOf (purlIdentityPart
      (String.ofList (buildGitPurl url commit fallbackName)))).toList =
        gitPurlName url fallbackName := by
  obtain ⟨type, path, htype, hpath, htext⟩ :=
    buildGitPurl_shape url commit fallbackName
  rw [htext, purlIdentityPart_purlText htype (hpath.ne_of_mem _)
    (vcsUrl_eq_nil_or url), purlNameOf_purlText htype hpath.at_notMem,
    hpath.name]
  exact percentDecodeText_percentEncodeText
    (isByteText_gitPurlName hurl hname)

/-- The pinned URL stands behind the purl without its qualifiers. -/
theorem vcsUrl_eq_of_buildGitPurl_eq
    {url commit fallbackName url' commit' fallbackName' : List Char}
    (hpurl : buildGitPurl url commit fallbackName =
      buildGitPurl url' commit' fallbackName') : vcsUrl url = vcsUrl url' := by
  obtain ⟨type, path, htype, hpath, htext⟩ :=
    buildGitPurl_shape url commit fallbackName
  obtain ⟨type', path', htype', hpath', htext'⟩ :=
    buildGitPurl_shape url' commit' fallbackName'
  have hidentity := congrArg (fun text => purlIdentityPart (String.ofList text))
    hpurl
  rw [htext, htext', purlIdentityPart_purlText htype (hpath.ne_of_mem _)
    (vcsUrl_eq_nil_or url), purlIdentityPart_purlText htype'
    (hpath'.ne_of_mem _) (vcsUrl_eq_nil_or url'), String.ofList_inj]
    at hidentity
  have hsplit : ∀ type rest extras, purlText type (rest ++ extras) =
      purlText type rest ++ extras := by
    simp [purlText]
  rw [htext, htext', hsplit _ _ (vcsUrl url), hsplit _ _ (vcsUrl url'),
    hidentity] at hpurl
  exact List.append_cancel_left hpurl

theorem trimmed_eq_of_vcsUrl_eq {url url' : List Char}
    (hurl : IsByteText url) (hurl' : IsByteText url')
    (hforge : forgeOf? url = none) (hforge' : forgeOf? url' = none)
    (hpinned : vcsUrl url = vcsUrl url') : trimmed url = trimmed url' := by
  have hgit : IsByteText "git+".toList := isByteText_of_all (by decide)
  simp only [vcsUrl, hforge, hforge', List.cons.injEq, true_and,
    List.append_cancel_left_eq] at hpinned
  have hdecoded := congrArg percentDecodeText hpinned
  rw [percentDecodeText_percentEncodeText (hgit.append hurl.trimmed),
    percentDecodeText_percentEncodeText (hgit.append hurl'.trimmed)]
    at hdecoded
  exact List.append_cancel_left hdecoded

/-- The purl of a remote is canonical, it tells the version and the name, and
for a remote of no known forge it tells the URL too. -/
theorem buildGitPurl_canonical_and_recoverable
    {url commit fallbackName : List Char} (hurl : IsByteText url)
    (hcommit : IsByteText commit) (hname : IsByteText fallbackName) :
    parsePurl (String.ofList (buildGitPurl url commit fallbackName)) =
        { value := String.ofList (buildGitPurl url commit fallbackName) } ∧
      percentDecodeText (purlVersionOf (purlIdentityPart
        (String.ofList (buildGitPurl url commit fallbackName)))).toList =
          normalizedObjectId commit ∧
      percentDecodeText (purlNameOf (purlIdentityPart
        (String.ofList (buildGitPurl url commit fallbackName)))).toList =
          gitPurlName url fallbackName ∧
      (∀ repository : RepositoryUrl, repository.text = url →
        gitPurlName url fallbackName =
          if (forgeOf? url).isSome then repository.repo.map toLowerAsciiChar
          else repository.repo) ∧
      ∀ url' commit' fallbackName', IsByteText url' → IsByteText commit' →
        forgeOf? url = none → forgeOf? url' = none →
        (trimmed url, normalizedObjectId commit) ≠
          (trimmed url', normalizedObjectId commit') →
        buildGitPurl url commit fallbackName ≠
          buildGitPurl url' commit' fallbackName' := by
  have hversion := percentDecodeText_purlVersionOf_buildGitPurl url fallbackName
    hcommit
  refine ⟨parsePurl_buildGitPurl url commit fallbackName, hversion,
    percentDecodeText_purlNameOf_buildGitPurl hurl hname, ?_, ?_⟩
  · rintro repository rfl
    exact gitPurlName_text repository fallbackName
  · intro url' commit' fallbackName' hurl' hcommit' hforge hforge' hne hpurl
    apply hne
    have hversion' := percentDecodeText_purlVersionOf_buildGitPurl url'
      fallbackName' hcommit'
    rw [hpurl, hversion'] at hversion
    rw [trimmed_eq_of_vcsUrl_eq hurl hurl' hforge hforge'
      (vcsUrl_eq_of_buildGitPurl_eq hpurl), hversion]

def capitalCommit : List Char :=
  List.replicate 40 'A'

def scpRemote : List Char :=
  "git@example.org:Team/Lib.git".toList

def httpsRemote : List Char :=
  "https://example.org/Team/Lib.git".toList

theorem isByteText_capitalCommit : IsByteText capitalCommit := by
  intro c hc
  rw [List.eq_of_mem_replicate hc]
  decide

/-- An object id in capitals is told in lower case, and so is the same purl as
its spelling in lower case. -/
theorem buildGitPurl_capitalCommit :
    percentDecodeText (purlVersionOf (purlIdentityPart
        (String.ofList (buildGitPurl httpsRemote capitalCommit [])))).toList ≠
          capitalCommit ∧
      capitalCommit ≠ capitalCommit.map toLowerAsciiChar ∧
      buildGitPurl httpsRemote capitalCommit [] =
        buildGitPurl httpsRemote (capitalCommit.map toLowerAsciiChar) [] := by
  have hlower : normalizedObjectId capitalCommit =
      capitalCommit.map toLowerAsciiChar := by decide +kernel
  have hagain : normalizedObjectId (capitalCommit.map toLowerAsciiChar) =
      capitalCommit.map toLowerAsciiChar := by decide +kernel
  have hne : capitalCommit ≠ capitalCommit.map toLowerAsciiChar := by
    decide +kernel
  refine ⟨?_, hne, ?_⟩
  · rw [percentDecodeText_purlVersionOf_buildGitPurl _ _ isByteText_capitalCommit,
      hlower]
    exact hne.symm
  · rw [buildGitPurl, buildGitPurl, hlower, hagain]

theorem buildGitPurl_canonical_and_recoverable_scpRemote :
    parsePurl (String.ofList (buildGitPurl scpRemote capitalCommit [])) =
        { value := String.ofList (buildGitPurl scpRemote capitalCommit []) } ∧
      buildGitPurl scpRemote capitalCommit [] ≠
        buildGitPurl httpsRemote capitalCommit [] := by
  have hscp : IsByteText scpRemote := isByteText_of_all (by decide)
  have hhttps : IsByteText httpsRemote := isByteText_of_all (by decide)
  obtain ⟨hparse, -, -, -, hdiffer⟩ := buildGitPurl_canonical_and_recoverable
    hscp isByteText_capitalCommit isByteText_nil
  exact ⟨hparse, hdiffer httpsRemote capitalCommit [] hhttps
    isByteText_capitalCommit (by decide +kernel) (by decide +kernel)
    (by decide +kernel)⟩

end Bomwerk.Core
