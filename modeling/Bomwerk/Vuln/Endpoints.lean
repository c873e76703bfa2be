import Bomwerk.Core.Component
import Bomwerk.Support.Segments
import Bomwerk.Support.Url
import Bomwerk.Support.Utf8
import Bomwerk.Vuln.Cpe

/-!
# Endpoints

`vuln/endpoints.cpp`: the check every request URL passes before a socket opens,
and the URLs that the clients build: `vuln/osv.cpp`, `vuln/nvd.cpp` and
`vuln/license_enrichment.cpp`.
-/

namespace Bomwerk.Vuln

open Bomwerk.Core Bomwerk.Support

/-- `FeedEndpoint`, without the texts that `--endpoints` prints. -/
structure FeedEndpoint where
  url : String
  allowsSubpaths : Bool
  deriving DecidableEq, Repr

def osvQueryBatchUrl : String := "https://api.osv.dev/v1/querybatch"

def osvQueryUrl : String := "https://api.osv.dev/v1/query"

def nvdCveApiUrl : String := "https://services.nvd.nist.gov/rest/json/cves/2.0"

def cratesIoCrateVersionApiUrl : String := "https://crates.io/api/v1/crates/"

def pyPiProjectVersionApiUrl : String := "https://pypi.org/pypi/"

def rubyGemsVersionApiUrl : String := "https://rubygems.org/api/v2/rubygems/"

def feedEndpoints : List FeedEndpoint :=
  [⟨osvQueryBatchUrl, false⟩, ⟨osvQueryUrl, false⟩, ⟨nvdCveApiUrl, false⟩,
    ⟨cratesIoCrateVersionApiUrl, true⟩, ⟨pyPiProjectVersionApiUrl, true⟩,
    ⟨rubyGemsVersionApiUrl, true⟩]

def isRegistryCharacter (c : Char) : Bool :=
  ('a' ≤ c ∧ c ≤ 'z') ∨ ('0' ≤ c ∧ c ≤ '9') ∨
    c = '.' ∨ c = '_' ∨ c = '+' ∨ c = '-'

/-- `is_safe_coordinate`, and the test of one segment of
`is_safe_registry_subpath`. -/
def isSafeCoordinate (coordinate : List Char) : Bool :=
  coordinate ≠ [] && coordinate ≠ ['.'] && coordinate ≠ ['.', '.'] &&
    coordinate.all isRegistryCharacter

/-- `is_safe_registry_subpath`; a separator at the end leaves an empty segment
behind it. -/
def isSafeRegistrySubpath (subpath : List Char) : Bool :=
  (subpath.splitOn '/').all isSafeCoordinate

/-- The closure `matches` of `is_allowlisted_feed_url`. -/
def FeedEndpoint.matchesUrl (endpoint : FeedEndpoint) (url : String) : Bool :=
  if url = endpoint.url then true
  else if endpoint.allowsSubpaths then
    startsWith url endpoint.url &&
      isSafeRegistrySubpath (url.toList.drop endpoint.url.length)
  else
    startsWith url endpoint.url &&
      (url.toList.drop endpoint.url.length).head? = some '?'

/-- `is_allowlisted_feed_url`, with the endpoints registered besides. -/
def isAllowlistedFeedUrl (registered : List FeedEndpoint) (url : String) :
    Bool :=
  feedEndpoints.any (·.matchesUrl url) || registered.any (·.matchesUrl url)

def nvdResultsPerPage : Nat := 2000

/-- `request_url_for` of the NVD client; both encoders keep the unreserved
characters only. -/
def nvdRequestUrl (cpeMatchString : String) : String :=
  nvdCveApiUrl ++ "?virtualMatchString=" ++ percentEncode cpeMatchString ++
    "&resultsPerPage=" ++ toString nvdResultsPerPage

inductive RegistryKind
  | cratesIo
  | pyPi
  | rubyGems
  deriving DecidableEq, Repr

def registryFor (purlType : String) : Option RegistryKind :=
  if purlType = "cargo" then some .cratesIo
  else if purlType = "pypi" then some .pyPi
  else if purlType = "gem" then some .rubyGems
  else none

/-- `request_url_for` of the license client. -/
def licenseRequestUrl (registry : RegistryKind) (name version : List Char) :
    String :=
  match registry with
  | .cratesIo =>
    cratesIoCrateVersionApiUrl ++ String.ofList name ++ "/" ++
      String.ofList version
  | .pyPi =>
    pyPiProjectVersionApiUrl ++ String.ofList name ++ "/" ++
      String.ofList version ++ "/json"
  | .rubyGems =>
    rubyGemsVersionApiUrl ++ String.ofList name ++ "/versions/" ++
      String.ofList version ++ ".json"

def decodedPart (text : String) : List Char :=
  byteText (percentDecode (utf8Encode text.toList))

/-- The URL that the loop of `enrich_component_licenses` queues for a component,
if it queues one. -/
def licenseLookupUrl (component : Component) : Option String := do
  guard (component.license = "")
  let identityPurl := purlIdentityPart component.purl
  let registry ← registryFor (purlTypeOf identityPurl)
  let decodedName := decodedPart (purlNameOf identityPurl)
  let name :=
    if registry = .cratesIo then decodedName.map toLowerAsciiChar
    else decodedName
  let version := decodedPart (purlVersionOf identityPurl)
  guard (isSafeCoordinate name && isSafeCoordinate version)
  return licenseRequestUrl registry name version

inductive ClientUrl (component : Component) : String → Prop
  | osvBatch : ClientUrl component osvQueryBatchUrl
  | osv : ClientUrl component osvQueryUrl
  | nvd {matchString : String}
      (hmatch : cpeMatchStringFor component.purl = some matchString) :
      ClientUrl component (nvdRequestUrl matchString)
  | license {url : String} (hlookup : licenseLookupUrl component = some url) :
      ClientUrl component url

/-! ## Confinement -/

/-- The URL of the endpoint has a scheme, an authority and no query, and a root
that subpaths are appended to ends in a separator. -/
def FeedEndpoint.IsRooted (endpoint : FeedEndpoint) : Prop :=
  ∃ base : UrlBase, base.text = endpoint.url.toList ∧
    (endpoint.allowsSubpaths = true → base.path.getLast? = some '/')

/-- A path segment that no server reads as a step or as two segments. -/
def IsPlainSegment (segment : List Char) : Prop :=
  segment ≠ [] ∧ segment ≠ ['.'] ∧ segment ≠ ['.', '.'] ∧
    '%' ∉ segment ∧ '/' ∉ segment ∧ '\\' ∉ segment

/-- The URL goes to the endpoint's authority, and there to the endpoint itself,
with or without a query, or below it. -/
def ConfinedTo (endpoint : FeedEndpoint) (url : String) : Prop :=
  ∃ target root : UrlParts, parseUrl url.toList = some target ∧
    parseUrl endpoint.url.toList = some root ∧
    target.scheme = root.scheme ∧ target.authority = root.authority ∧
    ((target.path = root.path ∧ (url = endpoint.url ∨
          ∃ query, url.toList = endpoint.url.toList ++ '?' :: query)) ∨
      (endpoint.allowsSubpaths = true ∧ target.query = none ∧
        ∃ segments ≠ [], target.path = root.path ++ ['/'].intercalate segments ∧
          ∀ segment ∈ segments, IsPlainSegment segment))

theorem isRegistryCharacter_plain {c : Char}
    (hc : isRegistryCharacter c = true) :
    c ≠ '%' ∧ c ≠ '/' ∧ c ≠ '\\' ∧ endsPath c = false := by
  refine ⟨?_, ?_, ?_, ?_⟩
  · rintro rfl
    exact absurd hc (by decide)
  · rintro rfl
    exact absurd hc (by decide)
  · rintro rfl
    exact absurd hc (by decide)
  · by_contra h
    rw [Bool.not_eq_false] at h
    simp only [endsPath, Bool.or_eq_true, decide_eq_true_eq] at h
    rcases h with rfl | rfl
    · exact absurd hc (by decide)
    · exact absurd hc (by decide)

theorem isSafeCoordinate_iff {coordinate : List Char} :
    isSafeCoordinate coordinate = true ↔
      coordinate ≠ [] ∧ coordinate ≠ ['.'] ∧ coordinate ≠ ['.', '.'] ∧
        ∀ c ∈ coordinate, isRegistryCharacter c = true := by
  simp [isSafeCoordinate, and_assoc]

theorem isPlainSegment_of_isSafeCoordinate {segment : List Char}
    (hsafe : isSafeCoordinate segment = true) : IsPlainSegment segment := by
  obtain ⟨hne, hdot, hup, hall⟩ := isSafeCoordinate_iff.mp hsafe
  refine ⟨hne, hdot, hup, ?_, ?_, ?_⟩
  · exact fun hmem => (isRegistryCharacter_plain (hall _ hmem)).1 rfl
  · exact fun hmem => (isRegistryCharacter_plain (hall _ hmem)).2.1 rfl
  · exact fun hmem => (isRegistryCharacter_plain (hall _ hmem)).2.2.1 rfl

theorem endsPath_of_isSafeRegistrySubpath {subpath : List Char}
    (hsafe : isSafeRegistrySubpath subpath = true) :
    ∀ c ∈ subpath, endsPath c = false := by
  intro c hc
  have hjoin : ['/'].intercalate (subpath.splitOn '/') = subpath :=
    List.intercalate_splitOn '/'
  rw [← hjoin] at hc
  by_cases hslash : c = '/'
  · subst hslash
    decide
  obtain ⟨segment, hmem, hin⟩ := exists_mem_of_mem_intercalate hc hslash
  have hsegment := List.all_eq_true.mp hsafe segment hmem
  exact (isRegistryCharacter_plain
    ((isSafeCoordinate_iff.mp hsegment).2.2.2 c hin)).2.2.2

theorem toList_eq_of_startsWith {text literal : String}
    (hstarts : startsWith text literal = true) :
    text.toList = literal.toList ++ text.toList.drop literal.length := by
  rw [startsWith, List.isPrefixOf_iff_prefix] at hstarts
  obtain ⟨rest, hrest⟩ := hstarts
  rw [← hrest, ← String.length_toList, List.drop_left]

theorem confinedTo_of_matchesUrl {endpoint : FeedEndpoint} {url : String}
    (hrooted : endpoint.IsRooted) (hmatch : endpoint.matchesUrl url = true) :
    ConfinedTo endpoint url := by
  obtain ⟨base, hbase, hroot⟩ := hrooted
  have hparse := base.parseUrl_text
  rw [hbase] at hparse
  unfold FeedEndpoint.matchesUrl at hmatch
  split_ifs at hmatch with hsame hsubpaths
  · subst hsame
    exact ⟨_, _, hparse, hparse, rfl, rfl, Or.inl ⟨rfl, Or.inl rfl⟩⟩
  · simp only [Bool.and_eq_true] at hmatch
    have hurl := toList_eq_of_startsWith hmatch.1
    have hplain := endsPath_of_isSafeRegistrySubpath hmatch.2
    have hne : base.path ≠ [] := by
      intro hnil
      have hlast := hroot hsubpaths
      simp [hnil] at hlast
    have hlonger := (base.extend _ hne hplain).parseUrl_text
    rw [UrlBase.text_extend, hbase, ← hurl] at hlonger
    refine ⟨_, _, hlonger, hparse, rfl, rfl, Or.inr ⟨hsubpaths, rfl, ?_⟩⟩
    refine ⟨(url.toList.drop endpoint.url.length).splitOn '/',
      List.splitOn_ne_nil _ _, ?_, ?_⟩
    · rw [List.intercalate_splitOn]
      rfl
    · intro segment hsegment
      exact isPlainSegment_of_isSafeCoordinate
        (List.all_eq_true.mp hmatch.2 segment hsegment)
  · simp only [Bool.and_eq_true, decide_eq_true_eq] at hmatch
    have hurl := toList_eq_of_startsWith hmatch.1
    obtain ⟨query, hquery⟩ := List.head?_eq_some_iff.mp hmatch.2
    rw [hquery] at hurl
    have hlonger := base.parseUrl_text_append ('?' :: query)
      (by simp [endsPath])
    rw [hbase, ← hurl] at hlonger
    exact ⟨_, _, hlonger, hparse, rfl, rfl, Or.inl ⟨rfl, Or.inr ⟨query, hurl⟩⟩⟩

/-! ## What the clients request -/

theorem isSafeRegistrySubpath_intercalate {segments : List (List Char)}
    (hne : segments ≠ [])
    (hsafe : ∀ segment ∈ segments, isSafeCoordinate segment = true) :
    isSafeRegistrySubpath (['/'].intercalate segments) = true := by
  rw [isSafeRegistrySubpath, List.splitOn_intercalate _ ?_ hne,
    List.all_eq_true]
  · exact hsafe
  · intro segment hsegment
    exact (isPlainSegment_of_isSafeCoordinate
      (hsafe segment hsegment)).2.2.2.2.1

theorem startsWith_append (front back : String) :
    startsWith (front ++ back) front = true := by
  simp [startsWith]

theorem matchesUrl_subpath {endpoint : FeedEndpoint}
    (hsubpaths : endpoint.allowsSubpaths = true) {segments : List (List Char)}
    (hne : segments ≠ [])
    (hsafe : ∀ segment ∈ segments, isSafeCoordinate segment = true) :
    endpoint.matchesUrl
      (endpoint.url ++ String.ofList (['/'].intercalate segments)) = true := by
  unfold FeedEndpoint.matchesUrl
  split_ifs
  · rfl
  · rw [startsWith_append, String.toList_append, ← String.length_toList,
      List.drop_left, String.toList_ofList,
      isSafeRegistrySubpath_intercalate hne hsafe]
    rfl

theorem matchesUrl_query {endpoint : FeedEndpoint}
    (hsubpaths : endpoint.allowsSubpaths = false) (query : String) :
    endpoint.matchesUrl (endpoint.url ++ ("?" ++ query)) = true := by
  unfold FeedEndpoint.matchesUrl
  rw [if_neg (by simp [hsubpaths] : ¬ endpoint.allowsSubpaths = true)]
  split_ifs
  · rfl
  · rw [startsWith_append, String.toList_append, ← String.length_toList,
      List.drop_left]
    simp

theorem isAllowlistedFeedUrl_of_mem {registered : List FeedEndpoint}
    {endpoint : FeedEndpoint} {url : String} (hmem : endpoint ∈ feedEndpoints)
    (hmatch : endpoint.matchesUrl url = true) :
    isAllowlistedFeedUrl registered url = true := by
  rw [isAllowlistedFeedUrl, Bool.or_eq_true]
  exact Or.inl (List.any_eq_true.mpr ⟨endpoint, hmem, hmatch⟩)

theorem isSafeCoordinate_append_json {version : List Char}
    (hsafe : isSafeCoordinate version = true) :
    isSafeCoordinate (version ++ ".json".toList) = true := by
  obtain ⟨hne, -, -, hall⟩ := isSafeCoordinate_iff.mp hsafe
  refine isSafeCoordinate_iff.mpr ⟨?_, ?_, ?_, ?_⟩
  · simp
  · intro h
    have hlength := congrArg List.length h
    simp at hlength
  · intro h
    have hlength := congrArg List.length h
    simp at hlength
  · intro c hc
    rcases List.mem_append.mp hc with hc | hc
    · exact hall c hc
    · have hjson : (".json".toList.all isRegistryCharacter) = true := by decide
      exact List.all_eq_true.mp hjson c hc

def RegistryKind.endpoint : RegistryKind → FeedEndpoint
  | .cratesIo => ⟨cratesIoCrateVersionApiUrl, true⟩
  | .pyPi => ⟨pyPiProjectVersionApiUrl, true⟩
  | .rubyGems => ⟨rubyGemsVersionApiUrl, true⟩

/-- The segments a license request appends to its registry's root. -/
def RegistryKind.segments (registry : RegistryKind) (name version : List Char) :
    List (List Char) :=
  match registry with
  | .cratesIo => [name, version]
  | .pyPi => [name, version, "json".toList]
  | .rubyGems => [name, "versions".toList, version ++ ".json".toList]

theorem licenseRequestUrl_eq (registry : RegistryKind)
    (name version : List Char) :
    licenseRequestUrl registry name version = registry.endpoint.url ++
        String.ofList (['/'].intercalate (registry.segments name version)) := by
  apply String.toList_inj.mp
  cases registry <;>
    simp [licenseRequestUrl, RegistryKind.endpoint, RegistryKind.segments,
      List.intercalate_cons_cons, List.intercalate_singleton]

theorem isAllowlistedFeedUrl_license {registered : List FeedEndpoint}
    (registry : RegistryKind) {name version : List Char}
    (hname : isSafeCoordinate name = true)
    (hversion : isSafeCoordinate version = true) :
    isAllowlistedFeedUrl registered
      (licenseRequestUrl registry name version) = true := by
  have hjson := isSafeCoordinate_append_json hversion
  have hwords : isSafeCoordinate "json".toList = true ∧
      isSafeCoordinate "versions".toList = true := by decide
  have hsegments : ∀ segment ∈ registry.segments name version,
      isSafeCoordinate segment = true := by
    intro segment hsegment
    cases registry <;>
      simp only [RegistryKind.segments, List.mem_cons, List.not_mem_nil,
        or_false] at hsegment
    · rcases hsegment with rfl | rfl <;> assumption
    · rcases hsegment with rfl | rfl | rfl
      · exact hname
      · exact hversion
      · exact hwords.1
    · rcases hsegment with rfl | rfl | rfl
      · exact hname
      · exact hwords.2
      · exact hjson
  have hne : registry.segments name version ≠ [] := by
    cases registry <;> exact List.cons_ne_nil _ _
  have hsubpaths : registry.endpoint.allowsSubpaths = true := by
    cases registry <;> rfl
  have hmem : registry.endpoint ∈ feedEndpoints := by
    cases registry <;> decide
  rw [licenseRequestUrl_eq]
  exact isAllowlistedFeedUrl_of_mem hmem
    (matchesUrl_subpath hsubpaths hne hsegments)

theorem exists_of_licenseLookupUrl {component : Component} {url : String}
    (hlookup : licenseLookupUrl component = some url) :
    ∃ registry name version, isSafeCoordinate name = true ∧
      isSafeCoordinate version = true ∧
      url = licenseRequestUrl registry name version := by
  simp only [licenseLookupUrl, Option.bind_eq_bind, Option.bind_eq_some_iff]
    at hlookup
  obtain ⟨-, -, registry, -, _, hsafe, hurl⟩ := hlookup
  generalize (if registry = .cratesIo then _ else _ : List Char) = name
    at hsafe hurl
  unfold guard at hsafe
  split_ifs at hsafe with hchecked
  obtain ⟨hname, hversion⟩ := Bool.and_eq_true_iff.mp hchecked
  exact ⟨registry, name, _, hname, hversion, (Option.some.inj hurl).symm⟩

theorem isAllowlistedFeedUrl_of_clientUrl {registered : List FeedEndpoint}
    {component : Component} {url : String}
    (hurl : ClientUrl component url) :
    isAllowlistedFeedUrl registered url = true := by
  cases hurl with
  | osvBatch =>
    have hmem : (⟨osvQueryBatchUrl, false⟩ : FeedEndpoint) ∈ feedEndpoints := by
      decide
    exact isAllowlistedFeedUrl_of_mem hmem (by simp [FeedEndpoint.matchesUrl])
  | osv =>
    have hmem : (⟨osvQueryUrl, false⟩ : FeedEndpoint) ∈ feedEndpoints := by
      decide
    exact isAllowlistedFeedUrl_of_mem hmem (by simp [FeedEndpoint.matchesUrl])
  | @nvd matchString hmatch =>
    have hmem : (⟨nvdCveApiUrl, false⟩ : FeedEndpoint) ∈ feedEndpoints := by
      decide
    have hquery : nvdRequestUrl matchString =
        nvdCveApiUrl ++ ("?" ++ ("virtualMatchString=" ++
          percentEncode matchString ++ "&resultsPerPage=" ++
            toString nvdResultsPerPage)) := by
      apply String.toList_inj.mp
      simp [nvdRequestUrl]
    rw [hquery]
    exact isAllowlistedFeedUrl_of_mem hmem (matchesUrl_query rfl _)
  | @license url hlookup =>
    obtain ⟨registry, name, version, hname, hversion, rfl⟩ :=
      exists_of_licenseLookupUrl hlookup
    exact isAllowlistedFeedUrl_license registry hname hversion

theorem isRooted_https {authority path : String} {allowsSubpaths : Bool}
    (hauthority : authority.toList.all (!endsAuthority ·) = true)
    (hpath : path.toList.all (!endsPath ·) = true)
    (hhead : path.toList.head? = some '/')
    (hlast : allowsSubpaths = true → path.toList.getLast? = some '/') :
    FeedEndpoint.IsRooted
      ⟨"https://" ++ authority ++ path, allowsSubpaths⟩ := by
  refine ⟨⟨"https".toList, authority.toList, path.toList, by decide, ?_, ?_,
    Or.inr hhead⟩, ?_, hlast⟩
  · intro c hc
    simpa using List.all_eq_true.mp hauthority c hc
  · intro c hc
    simpa using List.all_eq_true.mp hpath c hc
  · simp [UrlBase.text]

/-- The rows of the table are rooted. -/
theorem isRooted_of_mem_feedEndpoints {endpoint : FeedEndpoint}
    (hmem : endpoint ∈ feedEndpoints) : endpoint.IsRooted := by
  simp only [feedEndpoints, List.mem_cons, List.not_mem_nil, or_false] at hmem
  rcases hmem with rfl | rfl | rfl | rfl | rfl | rfl
  · exact @isRooted_https "api.osv.dev" "/v1/querybatch" false (by decide) (by decide)
      (by decide) (by decide)
  · exact @isRooted_https "api.osv.dev" "/v1/query" false (by decide) (by decide)
      (by decide) (by decide)
  · exact @isRooted_https "services.nvd.nist.gov" "/rest/json/cves/2.0" false
      (by decide) (by decide) (by decide) (by decide)
  · exact @isRooted_https "crates.io" "/api/v1/crates/" true (by decide) (by decide)
      (by decide) (by decide)
  · exact @isRooted_https "pypi.org" "/pypi/" true (by decide) (by decide)
      (by decide) (by decide)
  · exact @isRooted_https "rubygems.org" "/api/v2/rubygems/" true (by decide) (by decide)
      (by decide) (by decide)

/-- An accepted URL is confined to an endpoint, and every URL that a client
requests is accepted. -/
theorem allowlist_confines (registered : List FeedEndpoint)
    (hrooted : ∀ endpoint ∈ registered, endpoint.IsRooted) :
    (∀ url, isAllowlistedFeedUrl registered url = true →
      ∃ endpoint ∈ feedEndpoints ++ registered, ConfinedTo endpoint url) ∧
    (∀ component url, ClientUrl component url →
      isAllowlistedFeedUrl registered url = true) := by
  constructor
  · intro url hallowed
    rw [isAllowlistedFeedUrl, ← List.any_append, List.any_eq_true] at hallowed
    obtain ⟨endpoint, hmem, hmatch⟩ := hallowed
    refine ⟨endpoint, hmem, confinedTo_of_matchesUrl ?_ hmatch⟩
    rcases List.mem_append.mp hmem with hmem | hmem
    · exact isRooted_of_mem_feedEndpoints hmem
    · exact hrooted endpoint hmem
  · intro component url hurl
    exact isAllowlistedFeedUrl_of_clientUrl hurl

theorem allowlist_confines_mirror :
    (∀ url, isAllowlistedFeedUrl [⟨"https://mirror.test/feeds/", true⟩] url =
        true →
      ∃ endpoint ∈ feedEndpoints ++ [⟨"https://mirror.test/feeds/", true⟩],
        ConfinedTo endpoint url) ∧
    (∀ component url, ClientUrl component url →
      isAllowlistedFeedUrl [⟨"https://mirror.test/feeds/", true⟩] url =
        true) := by
  refine allowlist_confines _ fun endpoint hmem => ?_
  rw [List.mem_singleton.mp hmem]
  exact @isRooted_https "mirror.test" "/feeds/" true (by decide) (by decide)
    (by decide) (by decide)

end Bomwerk.Vuln
