import Bomwerk.Core.GitPurl
import Bomwerk.Core.PurlQualifiers

/-!
# Git configuration files

`core/git_config.cpp`: the INI text of `.gitmodules`.  The text may hold any
bytes, so each of its characters stands for one byte.
-/

namespace Bomwerk.Core

/-- One `key = value` line; the key is in lower case. -/
structure GitConfigEntry where
  key : String
  value : String
  deriving DecidableEq, Repr

/-- A `[name "subsection"]` block. -/
structure GitConfigSection where
  name : String
  subsection : String
  entries : List GitConfigEntry := []
  deriving DecidableEq, Repr

def GitConfigSection.find? (block : GitConfigSection) (key : String) :
    Option String :=
  (block.entries.find? (·.key = toLowerAscii key)).map GitConfigEntry.value

structure GitConfig where
  sections : List GitConfigSection := []
  deriving DecidableEq, Repr

def maxConfigBytes : Nat := 1 <<< 20

def maxLineBytes : Nat := 8 * 1024

def maxSections : Nat := 5000

def unquoted (value : List Char) : List Char :=
  if 2 ≤ value.length ∧ value.head? = some '"' ∧ value.getLast? = some '"' then
    value.tail.dropLast
  else value

/-- `parse_section_header`: the name and the subsection, or nothing when the
bracket is not closed. -/
def parseSectionHeader (line : List Char) : Option (String × String) :=
  if ']' ∉ line then none
  else
    let inside := (line.takeWhile (· ≠ ']')).tail
    let behindQuote := (inside.dropWhile (· ≠ '"')).tail
    some
      (toLowerAscii (String.ofList (trimmed (inside.takeWhile (· ≠ '"')))),
        String.ofList (behindQuote.rdropWhile (· ≠ '"')).dropLast)

/-- The entry of a `key = value` line; a bare key is true. -/
def parseEntry (line : List Char) : GitConfigEntry :=
  if '=' ∉ line then
    { key := toLowerAscii (String.ofList line), value := "true" }
  else
    { key := toLowerAscii
        (String.ofList (trimmed (line.takeWhile (· ≠ '='))))
      value := String.ofList
        (unquoted (trimmed (line.dropWhile (· ≠ '=')).tail)) }

/-! ## The parser -/

/-- What `parse_git_config` carries from line to line.  `inSection` tells
whether the last section is the one that entries go to. -/
structure GitConfigParse where
  result : Result GitConfig
  inSection : Bool := false
  capped : Bool := false

section Parse

variable (label : String)

def GitConfigParse.header (state : GitConfigParse) (line : List Char) :
    GitConfigParse :=
  if maxSections ≤ state.result.value.sections.length then
    { state with
      result := state.result.warnIf (!state.capped) .gitConfigStructureInvalid
        (label ++ ": more than " ++ toString maxSections ++
          " sections; ignoring the rest")
      inSection := false
      capped := true }
  else
    match parseSectionHeader line with
    | none =>
      { state with
        result := state.result.warn .gitConfigStructureInvalid
          (label ++ ": skipping an unterminated section header")
        inSection := false }
    | some (name, subsection) =>
      { state with
        result := { state.result with
          value := ⟨state.result.value.sections ++
            [{ name := name, subsection := subsection }]⟩ }
        inSection := true }

def addEntry (sections : List GitConfigSection) (entry : GitConfigEntry) :
    List GitConfigSection :=
  sections.modifyLast fun block =>
    { block with entries := block.entries ++ [entry] }

/-- A line that is neither blank, a comment nor a header. -/
def GitConfigParse.entry (state : GitConfigParse) (line : List Char) :
    GitConfigParse :=
  if !state.inSection then
    { state with
      result := state.result.warn .malformedEntrySkipped
        (label ++ ": skipping an entry outside any section") }
  else if (parseEntry line).key = "" then state
  else
    { state with
      result := { state.result with
        value := ⟨addEntry state.result.value.sections (parseEntry line)⟩ } }

/-- One turn of the loop of `parse_git_config`. -/
def GitConfigParse.step (state : GitConfigParse) (rawLine : List Char) :
    GitConfigParse :=
  if maxLineBytes < rawLine.length then
    { state with
      result := state.result.warn .malformedEntrySkipped
        (label ++ ": skipping an overlong line (" ++
          toString rawLine.length ++ " bytes)") }
  else
    let line := trimmed rawLine
    if line = [] ∨ line.head? = some '#' ∨ line.head? = some ';' then state
    else if line.head? = some '[' then state.header label line
    else state.entry label line

def withoutByteOrderMark (text : List Char) : List Char :=
  if ['\xEF', '\xBB', '\xBF'].isPrefixOf text then text.drop 3 else text

/-- `parse_git_config`.  An empty piece behind the last line end is skipped
like any blank line. -/
def parseGitConfig (text : List Char) : Result GitConfig :=
  let bytes := withoutByteOrderMark text
  let start : Result GitConfig :=
    Result.warnIf { value := {} } (maxConfigBytes < bytes.length)
      .fileSizeLimitExceeded
      (label ++ ": exceeds " ++ toString maxConfigBytes ++
        " bytes; parsing the first part only")
  (((bytes.take maxConfigBytes).splitOn '\n').foldl
    (GitConfigParse.step label) { result := start }).result

end Parse

inductive ConfigFile
  | absent
  | unreadable
  | text (bytes : List Char)

def readGitConfig (path : FsPath) : ConfigFile → Result GitConfig
  | .absent => { value := {} }
  | .unreadable =>
    Result.warn { value := {} } .unreadableFile
      ("cannot read " ++ path.genericString)
  | .text bytes =>
    parseGitConfig path.filename (bytes.take (maxConfigBytes + 1))

end Bomwerk.Core

/-!
## Credentials in a repository URL

What stands in front of the `@` of a URL is dropped with the host it belongs to.
Only the generic fallback, which pins the URL as it is, repeats it.
-/

namespace Bomwerk.Core

open Bomwerk.Support

/-- A URL but for its credentials: the host with its port, if it has one, and
the path. -/
structure CredentialUrl where
  scheme : List Char
  host : List Char
  path : List Char
  scheme_solid : IsSolid scheme
  scheme_valid : ':' ∉ scheme
  host_valid : '/' ∉ host ∧ '@' ∉ host

/-- What stands in front of the `@` of the host; there is no other one in it. -/
structure Userinfo where
  text : List Char
  text_valid : '/' ∉ text ∧ '@' ∉ text

namespace CredentialUrl

variable (url : CredentialUrl)

def text (userinfo : Userinfo) : List Char :=
  url.scheme ++ ':' :: '/' :: '/' ::
    (userinfo.text ++ '@' :: (url.host ++ '/' :: url.path))

/-- The remote, whatever the credentials are. -/
def remote : GitRemote :=
  let host := (url.host.takeWhile (· ≠ ':')).map toLowerAsciiChar
  let path := barePath (url.path.rdropWhile isAsciiBlank)
  match afterLast? '/' path with
  | none => { host := host, repo := path }
  | some repo => { host := host, owner := beforeLast '/' path, repo := repo }

theorem trimmed_text (userinfo : Userinfo) :
    trimmed (url.text userinfo) = url.scheme ++ ':' :: '/' :: '/' ::
        ((userinfo.text ++ '@' :: url.host) ++
          '/' :: url.path.rdropWhile isAsciiBlank) := by
  obtain ⟨first, hfirst, hsolid⟩ := url.scheme_solid.head
  have hfront : IsSolid (url.scheme ++ ':' :: '/' :: '/' ::
      (userinfo.text ++ '@' :: (url.host ++ ['/']))) := by
    refine ⟨⟨first, ?_, hsolid⟩, ⟨'/', ?_, rfl⟩⟩
    · rw [List.head?_append, hfirst, Option.some_or]
      exact Option.mem_some_self first
    · have hlast : url.scheme ++ ':' :: '/' :: '/' ::
          (userinfo.text ++ '@' :: (url.host ++ ['/'])) =
            (url.scheme ++ ':' :: '/' :: '/' ::
              (userinfo.text ++ '@' :: url.host)) ++ ['/'] := by
        simp
      rw [hlast, List.getLast?_concat]
      exact Option.mem_some_self '/'
  have htrimmed := trimmed_append hfront url.path
  rw [text]
  simpa only [List.append_assoc, List.cons_append, List.nil_append]
    using htrimmed

/-- The host is what stands behind the `@`. -/
theorem parseGitRemote_text (userinfo : Userinfo) :
    parseGitRemote (url.text userinfo) = url.remote := by
  have hslash : '/' ∉ userinfo.text ++ '@' :: url.host := by
    rw [List.mem_append, List.mem_cons, not_or, not_or]
    exact ⟨userinfo.text_valid.1, by decide, url.host_valid.1⟩
  obtain ⟨htake, hdrop⟩ := takeWhile_append_mark hslash
    (url.path.rdropWhile isAsciiBlank)
  have hhost : bareHost (userinfo.text ++ '@' :: url.host) =
      url.host.takeWhile (· ≠ ':') := by
    rw [bareHost, if_pos (by simp),
      (takeWhile_append_mark userinfo.text_valid.2 url.host).2, List.tail_cons]
  rw [parseGitRemote, url.trimmed_text, if_neg (by simp), hostAndPath?,
    RepositoryUrl.behindScheme?_append url.scheme_valid]
  dsimp only
  rw [htake, hdrop, hhost, List.tail_cons, remote]
  all_goals rfl

end CredentialUrl

/-- The purl of a remote, up to the URL that the generic fallback pins. -/
def gitPurlFront (remote : GitRemote) (version fallbackName : List Char) :
    List Char :=
  match if remote.owner ≠ [] ∧ remote.repo ≠ [] then
      forgeTypeForHost remote.host else none with
  | some forgeType =>
    "pkg:".toList ++ forgeType ++
      '/' :: percentEncodePurlNamespace
        (remote.owner.map toLowerAsciiChar) ++
      '/' :: percentEncodeText (remote.repo.map toLowerAsciiChar) ++
      versionSuffix version
  | none =>
    "pkg:generic/".toList ++
      percentEncodeText (genericName remote fallbackName) ++
      versionSuffix version

theorem buildGitPurl_eq_gitPurlFront (url commit fallbackName : List Char) :
    buildGitPurl url commit fallbackName =
      gitPurlFront (parseGitRemote url) (normalizedObjectId commit)
        fallbackName ++ vcsUrl url := by
  have hmark : "?vcs_url=".toList = '?' :: "vcs_url=".toList := by decide
  unfold buildGitPurl buildGitPurl.genericPurl gitPurlFront vcsUrl forgeOf?
  dsimp only
  generalize parseGitRemote url = remote
  generalize "?vcs_url=".toList = mark at hmark ⊢
  generalize "vcs_url=".toList = key at hmark ⊢
  subst hmark
  cases forgeTypeForHost remote.host with
  | none => simp only [ite_self, List.append_assoc, List.cons_append]
  | some forgeType =>
    dsimp only
    split_ifs
    · simp only [List.append_nil]
    · simp only [List.append_assoc, List.cons_append]

theorem isBeforeExtras_gitPurlFront (url commit fallbackName : List Char) :
    IsBeforeExtras (gitPurlFront (parseGitRemote url)
      (normalizedObjectId commit) fallbackName) := by
  obtain ⟨type, path, htype, hpath, hpurl⟩ :=
    buildGitPurl_shape url commit fallbackName
  have hfront : gitPurlFront (parseGitRemote url) (normalizedObjectId commit)
      fallbackName = "pkg:".toList ++ (type ++
        '/' :: (path ++ versionMark (gitVersion? commit))) := by
    rw [buildGitPurl_eq_gitPurlFront, purlText] at hpurl
    have happend : gitPurlFront (parseGitRemote url)
        (normalizedObjectId commit) fallbackName ++ vcsUrl url =
          ("pkg:".toList ++ (type ++
            '/' :: (path ++ versionMark (gitVersion? commit)))) ++
              vcsUrl url := by
      rw [hpurl]
      simp only [List.append_assoc, List.cons_append]
    exact List.append_cancel_right happend
  have hmarks : ∀ c ∈ type ++ '/' :: (path ++ versionMark
      (gitVersion? commit)), c ≠ '?' ∧ c ≠ '#' := by
    intro c hc
    rw [List.mem_append, List.mem_cons] at hc
    rcases hc with hc | rfl | hc
    · have hencoded := htype.isEncodedCharacter hc
      constructor
      · rintro rfl
        exact absurd hencoded (by decide)
      · rintro rfl
        exact absurd hencoded (by decide)
    · decide
    · exact hpath.ne_of_mem _ c hc
  have hscheme : '?' ∉ "pkg:".toList ∧ '#' ∉ "pkg:".toList := by decide
  rw [hfront]
  constructor
  · intro hmem
    rcases List.mem_append.mp hmem with hmem | hmem
    · exact hscheme.1 hmem
    · exact (hmarks _ hmem).1 rfl
  · intro hmem
    rcases List.mem_append.mp hmem with hmem | hmem
    · exact hscheme.2 hmem
    · exact (hmarks _ hmem).2 rfl

/-- The purl and the remote of a URL are the same whatever its credentials are,
but for the qualifier that pins the URL, which only the generic fallback has. -/
theorem CredentialUrl.credentials_only_pinned (url : CredentialUrl)
    (commit fallbackName : List Char) :
    ∃ remote forge? front, IsBeforeExtras front ∧ ∀ userinfo : Userinfo,
      parseGitRemote (url.text userinfo) = remote ∧
        forgeOf? (url.text userinfo) = forge? ∧
          buildGitPurl (url.text userinfo) commit fallbackName =
            front ++ vcsUrl (url.text userinfo) := by
  have hempty := url.parseGitRemote_text ⟨[], by simp⟩
  refine ⟨url.remote, forgeOf? (url.text ⟨[], by simp⟩),
    gitPurlFront url.remote (normalizedObjectId commit) fallbackName, ?_, ?_⟩
  · rw [← hempty]
    exact isBeforeExtras_gitPurlFront _ commit fallbackName
  · intro userinfo
    have hremote := url.parseGitRemote_text userinfo
    refine ⟨hremote, ?_, ?_⟩
    · rw [forgeOf?, hremote, forgeOf?, hempty]
    · rw [buildGitPurl_eq_gitPurlFront, hremote]

/-- The generic fallback publishes the password of `https://a:b@e.org/x/y`. -/
theorem CredentialUrl.credentials_reach_vcsUrl :
    ¬∀ (url : CredentialUrl) (userinfo userinfo' : Userinfo)
      (commit fallbackName : List Char),
        buildGitPurl (url.text userinfo) commit fallbackName =
          buildGitPurl (url.text userinfo') commit fallbackName := by
  intro h
  have hsame := h
    { scheme := "https".toList
      host := "e.org".toList
      path := "x/y".toList
      scheme_solid := ⟨⟨'h', rfl, rfl⟩, ⟨'s', rfl, rfl⟩⟩
      scheme_valid := by decide
      host_valid := by decide }
    ⟨"a:b".toList, by decide⟩ ⟨[], by decide⟩ [] []
  exact absurd hsame (by decide +kernel)

end Bomwerk.Core
