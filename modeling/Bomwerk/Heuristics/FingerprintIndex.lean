import Bomwerk.Core.JsonUtils
import Bomwerk.Core.Sha256
import Bomwerk.Lockfiles.Npm

/-!
# Loading a fingerprint index

`load_index` of `heuristics/fingerprint.cpp`: the libraries and releases, which
are named by their position, and the table of file digests, whose entries point
into a pool of releases.
-/

namespace Bomwerk.Heuristics.Fingerprint

open Bomwerk.Core Bomwerk.Support
open Bomwerk.Lockfiles (readFileBounded)
open Bomwerk.Lockfiles.Npm (withoutUtf8Bom)

def indexSchemaVersion : Nat := 1

structure LoadLimits where
  maxIndexBytes : Nat := 64 * 1024 * 1024
  maxLibraries : Nat := 4096
  maxReleases : Nat := 262144
  maxDigests : Nat := 4000000
  maxReleasesPerDigest : Nat := 4096
  maxJsonNestingDepth : Int := 8

structure IndexLibrary where
  name : String := ""
  purlType : String := ""
  purlNamespace : String := ""
  license : String := ""
  upstream : String := ""
  deriving DecidableEq, Inhabited

structure IndexRelease where
  library : Nat := 0
  version : String := ""
  ref : String := ""
  commit : String := ""
  order : Nat := 0
  fileCount : Nat := 0
  deriving DecidableEq, Inhabited

structure IndexFileEntry where
  digest : List UInt8
  firstReleaseRef : Nat
  releaseRefCount : Nat
  deriving DecidableEq

structure Index where
  corpusRevision : String := ""
  libraries : List IndexLibrary := []
  releases : List IndexRelease := []
  files : List IndexFileEntry := []
  releaseRefs : List Nat := []
  prefilter : List UInt64 := []
  deriving DecidableEq

/-- A digest as `std::array` compares it. -/
def digestKey (digest : List UInt8) : List Nat := digest.map UInt8.toNat

/-- `static_cast<std::uint32_t>`. -/
def toUint32 (value : Nat) : Nat := value % 2 ^ 32

def stringField (object : Json) (key : String) : String :=
  (object.findString? key).getD ""

/-- `is_number_unsigned` and `get<std::uint64_t>`. -/
def asUnsigned? : Json → Option Nat
  | .integer value =>
    if 0 ≤ value ∧ value < 2 ^ 64 then some value.toNat else none
  | _ => none

def unsignedField (object : Json) (key : String) : Option Nat :=
  (object.find? key).bind asUnsigned?

/-- The loop of `fast_hash_from_hex`. -/
def fastHashFrom (value : UInt64) : List UInt8 → Option UInt64
  | [] => some value
  | character :: rest =>
    if 15 < lowercaseHexValue character then none
    else
      fastHashFrom (value <<< 4 ||| UInt64.ofNat (lowercaseHexValue character))
        rest

/-- `fast_hash_from_hex`; 16 is `kFastHashHexLength`. -/
def fastHashFromHex (lowercaseHex : List UInt8) : Option UInt64 :=
  if lowercaseHex.length ≠ 16 then none else fastHashFrom 0 lowercaseHex

def readLibrary (entry : Json) : IndexLibrary where
  name := stringField entry "name"
  purlType := stringField entry "purl_type"
  purlNamespace := stringField entry "purl_namespace"
  license := stringField entry "license"
  upstream := stringField entry "upstream"

/-- The loop of `load_libraries`. -/
def readLibraries (libraries : List IndexLibrary) :
    List Json → Except String (List IndexLibrary)
  | [] => .ok libraries
  | entry :: entries =>
    if (readLibrary entry).name = "" ∨ (readLibrary entry).purlType = "" then
      .error ("fingerprint: corpus index library entry " ++
        toString libraries.length ++
        " has no name or purl type, index ignored")
    else readLibraries (libraries ++ [readLibrary entry]) entries

/-- `load_libraries`; the text is that of the warning it raises. -/
def loadLibraries (document : Json) (limits : LoadLimits) :
    Except String (List IndexLibrary) :=
  match document.findArray? "libraries" with
  | none =>
    .error "fingerprint: corpus index has no libraries array, ignored"
  | some libraries =>
    if limits.maxLibraries < libraries.length then
      .error ("fingerprint: corpus index declares " ++
        toString libraries.length ++ " libraries, over the limit of " ++
        toString limits.maxLibraries ++ ", ignored")
    else readLibraries [] libraries

/-- An entry of `releases`, for an index with so many libraries. -/
def readRelease (libraries : Nat) (entry : Json) : Option IndexRelease :=
  (unsignedField entry "library").bind fun libraryIndex =>
  (unsignedField entry "file_count").bind fun fileCount =>
  if libraries ≤ libraryIndex ∨ fileCount = 0 ∨
      stringField entry "version" = "" then none
  else
    some
      { library := toUint32 libraryIndex
        version := stringField entry "version"
        ref := stringField entry "ref"
        commit := stringField entry "commit"
        order := toUint32 ((unsignedField entry "order").getD 0)
        fileCount := toUint32 (min fileCount (2 ^ 32 - 1)) }

/-- The loop of `load_releases`. -/
def readReleases (libraries : Nat) (releases : List IndexRelease) :
    List Json → Except String (List IndexRelease)
  | [] => .ok releases
  | entry :: entries =>
    match readRelease libraries entry with
    | none =>
      .error ("fingerprint: corpus index release entry " ++
        toString releases.length ++
        " is incomplete or names an unknown library, index ignored")
    | some release => readReleases libraries (releases ++ [release]) entries

def loadReleases (document : Json) (limits : LoadLimits) (libraries : Nat) :
    Except String (List IndexRelease) :=
  match document.findArray? "releases" with
  | none => .error "fingerprint: corpus index has no releases array, ignored"
  | some releases =>
    if limits.maxReleases < releases.length then
      .error ("fingerprint: corpus index declares " ++
        toString releases.length ++ " releases, over the limit of " ++
        toString limits.maxReleases ++ ", ignored")
    else readReleases libraries [] releases

/-- An entry of a release list, for an index with so many releases. -/
def readReference (releases : Nat) (reference : Json) : Option Nat :=
  (asUnsigned? reference).bind fun releaseIndex =>
    if releases ≤ releaseIndex then none else some (toUint32 releaseIndex)

/-- An entry of `files` that the loop of `load_files` does not skip: its digest
and the releases it lists. -/
def readFileEntry (limits : LoadLimits) (releases : Nat)
    (member : String × Json) : Option (List UInt8 × List Nat) :=
  (sha256FromHex (utf8Encode member.1.toList)).bind fun digest =>
    match member.2 with
    | .array releaseList =>
      if releaseList = [] ∨
          limits.maxReleasesPerDigest < releaseList.length then none
      else
        (releaseList.mapM (readReference releases)).map fun refs =>
          (digest, refs)
    | _ => none

/-- What the loop of `load_files` fills. -/
structure FileTable where
  files : List IndexFileEntry := []
  releaseRefs : List Nat := []
  skippedEntries : Nat := 0
  digestBudgetReached : Bool := false

/-- The releases of an entry as they stand in the pool: sorted, and each one
once. -/
def pooled (listed : List Nat) : List Nat := sortUnique (· ≤ ·) id listed

/-- The end of a turn of the loop, for an entry that is not skipped. -/
def FileTable.add (table : FileTable) (digest : List UInt8) (refs : List Nat) :
    FileTable :=
  { table with
    files := table.files ++
      [{ digest := digest
         firstReleaseRef := toUint32 table.releaseRefs.length
         releaseRefCount := toUint32 (pooled refs).length }]
    releaseRefs := table.releaseRefs ++ pooled refs }

/-- The loop of `load_files`. -/
def readFiles (limits : LoadLimits) (releases : Nat) (table : FileTable) :
    List (String × Json) → FileTable
  | [] => table
  | member :: members =>
    if limits.maxDigests ≤ table.files.length then
      { table with digestBudgetReached := true }
    else
      match readFileEntry limits releases member with
      | none =>
        readFiles limits releases
          { table with skippedEntries := table.skippedEntries + 1 } members
      | some (digest, refs) =>
        readFiles limits releases (table.add digest refs) members

/-- The members of `files`; none when it is missing or no object. -/
def fileMembers (document : Json) : List (String × Json) :=
  match document.find? "files" with
  | some (.object members) => members
  | _ => []

def loadFiles (document : Json) (limits : LoadLimits) (releases : Nat) :
    FileTable :=
  let table := readFiles limits releases {} (fileMembers document)
  { table with
    files := table.files.insertionSort fun left right =>
      digestKey left.digest ≤ digestKey right.digest }

/-- An entry of `prefilter` that `load_prefilter` does not skip. -/
def readFastHash : Json → Option UInt64
  | .string text => fastHashFromHex (utf8Encode text.toList)
  | _ => none

def prefilterEntries (document : Json) : List Json :=
  (document.findArray? "prefilter").getD []

/-- `load_prefilter`: the values and the number of skipped entries. -/
def loadPrefilter (document : Json) : List UInt64 × Nat :=
  (sortUnique (fun left right => left.toNat ≤ right.toNat) id
      ((prefilterEntries document).filterMap readFastHash),
    (prefilterEntries document).countP fun entry =>
      (readFastHash entry).isNone)

/-- A warning with the label `kEcosystem`. -/
def warning (code : WarningCode) (message : String) : Warning where
  code := code
  message := message
  ecosystem := "fingerprint"

def mebibytes (bytes : Nat) : String :=
  toString (bytes / (1024 * 1024)) ++ " MiB"

section Load

-- `nlohmann::json::parse`; nothing for a discarded value.
variable (parse : List UInt8 → Option Json)

/-- The part of `load_index` before the document is read: the document, or the
warning that it is ignored with. -/
def readDocument (limits : LoadLimits) (content : Option (List UInt8)) :
    Except Warning Json :=
  let fileRead := readFileBounded content limits.maxIndexBytes
  let unreadable (message : String) : Except Warning Json :=
    .error (warning .fingerprintIndexUnreadable ("fingerprint: " ++ message))
  if !fileRead.readable then
    unreadable "corpus index could not be opened, scanning without a corpus"
  else if fileRead.truncated then
    unreadable ("corpus index exceeds the " ++ mebibytes limits.maxIndexBytes ++
      " cap, ignored")
  else if JsonUtils.exceedsJsonNestingDepth (withoutUtf8Bom fileRead.bytes)
      limits.maxJsonNestingDepth then
    unreadable "corpus index nesting exceeds the depth limit, ignored"
  else
    match parse (withoutUtf8Bom fileRead.bytes) with
    | none => unreadable "corpus index is not valid JSON, ignored"
    | some document =>
      if !document.isObject then
        unreadable "corpus index is not valid JSON, ignored"
      else if unsignedField document "schema_version" ≠
          some indexSchemaVersion then
        .error (warning .fingerprintIndexSchemaUnsupported
          ("fingerprint: corpus index schema version is not " ++
            toString indexSchemaVersion ++ ", ignored"))
      else .ok document

/-- The part of `load_index` that reads a document of a known schema. -/
def loadDocument (limits : LoadLimits) (document : Json) :
    Except Warning (Result Index) :=
  match loadLibraries document limits with
  | .error message => .error (warning .fingerprintIndexUnreadable message)
  | .ok libraries =>
    match loadReleases document limits libraries.length with
    | .error message => .error (warning .fingerprintIndexUnreadable message)
    | .ok releases =>
      let table := loadFiles document limits releases.length
      let (prefilter, skippedHashes) := loadPrefilter document
      let skippedEntries := table.skippedEntries + skippedHashes
      .ok
        { value :=
            { corpusRevision := stringField document "corpus_revision"
              libraries := libraries
              releases := releases
              files := table.files
              releaseRefs := table.releaseRefs
              prefilter := prefilter }
          warnings :=
            (if 0 < skippedEntries then
              [warning .fingerprintIndexEntrySkipped
                ("fingerprint: " ++ toString skippedEntries ++
                  " corpus index entr" ++
                  (if skippedEntries = 1 then "y was" else "ies were") ++
                  " malformed and skipped")]
            else []) ++
            if table.digestBudgetReached then
              [warning .fingerprintIndexEntrySkipped
                ("fingerprint: corpus index holds more than " ++
                  toString limits.maxDigests ++
                  " file digests, the rest were not loaded")]
            else [] }

def loadIndex (limits : LoadLimits) (content : Option (List UInt8)) :
    Result Index :=
  match (readDocument parse limits content).bind (loadDocument limits) with
  | .error refusal => { value := {}, warnings := [refusal] }
  | .ok result => result

end Load

def mayContainFastHash (index : Index) (fastHash : UInt64) : Bool :=
  if index.prefilter = [] then true else index.prefilter.contains fastHash

def releasesForDigest (index : Index) (digest : List UInt8) : List Nat :=
  match lowerBound (fun entry : IndexFileEntry => digestKey entry.digest)
      index.files (digestKey digest) with
  | none => []
  | some found =>
    if found.digest ≠ digest then []
    else
      (index.releaseRefs.drop found.firstReleaseRef).take
        found.releaseRefCount

end Bomwerk.Heuristics.Fingerprint
