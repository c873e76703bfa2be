import Bomwerk.Heuristics.VendorRoot
import Bomwerk.Lockfiles.Producer
import Bomwerk.Support.CDirectives

/-!
# Versions in headers

`heuristics/vendored_cpp.cpp`: the tables of version macros, the readers of
their three forms, and the walk over the `#define` lines of a header.
-/

namespace Bomwerk.Heuristics.VersionHeader

open Bomwerk.Core Bomwerk.Lockfiles
open Bomwerk.Support.CDirectives (isDigit isIdentifier)

def bytes (text : String) : List UInt8 := text.toList.map Char.toUInt8

structure VersionHeaderSignature where
  canonicalName : String
  headerFilename : String
  versionMacro : String

inductive MacroValueForm
  | quotedString
  | bareDotted
  deriving DecidableEq

def versionHeaderSignatures : List VersionHeaderSignature :=
  [⟨"zlib", "zlib.h", "ZLIB_VERSION"⟩,
    ⟨"libpng", "png.h", "PNG_LIBPNG_VER_STRING"⟩,
    ⟨"sqlite3", "sqlite3.h", "SQLITE_VERSION"⟩,
    ⟨"curl", "curlver.h", "LIBCURL_VERSION"⟩,
    ⟨"libxml2", "xmlversion.h", "LIBXML_DOTTED_VERSION"⟩,
    ⟨"openssl", "opensslv.h", "OPENSSL_VERSION_TEXT"⟩,
    ⟨"mbedtls", "version.h", "MBEDTLS_VERSION_STRING"⟩,
    ⟨"zstd", "zstd.h", "ZSTD_VERSION_STRING"⟩,
    ⟨"lz4", "lz4.h", "LZ4_VERSION_STRING"⟩,
    ⟨"libevent", "event.h", "LIBEVENT_VERSION"⟩,
    ⟨"civetweb", "civetweb.h", "CIVETWEB_VERSION"⟩,
    ⟨"mongoose", "mongoose.h", "MG_VERSION"⟩,
    ⟨"doctest", "doctest.h", "DOCTEST_VERSION_STR"⟩,
    ⟨"lua", "lua.h", "LUA_RELEASE"⟩,
    ⟨"libssh2", "libssh2.h", "LIBSSH2_VERSION"⟩,
    ⟨"c-ares", "ares_version.h", "ARES_VERSION_STR"⟩,
    ⟨"icu", "uvernum.h", "U_ICU_VERSION"⟩,
    ⟨"harfbuzz", "hb-version.h", "HB_VERSION_STRING"⟩,
    ⟨"xz-liblzma", "version.h", "LZMA_VERSION_STRING"⟩,
    ⟨"libpsl", "psl.h", "PSL_VERSION"⟩,
    ⟨"freertos", "task.h", "tskKERNEL_VERSION_NUMBER"⟩]

def bareDottedVersionSignatures : List VersionHeaderSignature :=
  [⟨"uthash", "uthash.h", "UTHASH_VERSION"⟩]

structure SplitVersionSignature where
  canonicalName : String
  headerFilename : String
  majorMacro : String
  minorMacro : String
  patchMacro : String

def SplitVersionSignature.partMacros (signature : SplitVersionSignature) :
    List String :=
  [signature.majorMacro, signature.minorMacro, signature.patchMacro]

def splitVersionSignatures : List SplitVersionSignature :=
  [⟨"cjson", "cJSON.h", "CJSON_VERSION_MAJOR", "CJSON_VERSION_MINOR",
    "CJSON_VERSION_PATCH"⟩]

def maxBareVersionChars : Nat := 64

def maxVersionPartDigits : Nat := 9

def isSpaceOrTab (character : UInt8) : Bool :=
  character = ' '.toUInt8 || character = '\t'.toUInt8

/-- `bare_value_ends_cleanly`, from the end of the token to the end of the
line. -/
def bareValueEndsCleanly : List UInt8 → Bool
  | [] => true
  | terminator :: rest =>
    if isSpaceOrTab terminator || terminator = '\r'.toUInt8 then true
    else if terminator = '/'.toUInt8 then
      rest.head?.any fun next => next = '/'.toUInt8 || next = '*'.toUInt8
    else false

/-- The loop of `read_bare_dotted_value`; nothing for a dot at the front or
behind a dot. -/
def dottedToken (dotAllowed : Bool) : List UInt8 → Option (List UInt8)
  | [] => some []
  | character :: rest =>
    if isDigit character then
      (dottedToken true rest).map (character :: ·)
    else if character = '.'.toUInt8 then
      if dotAllowed then (dottedToken false rest).map (character :: ·)
      else none
    else some []

/-- `read_bare_dotted_value`, from the value to the end of its line. -/
def readBareDottedValue (line : List UInt8) : Option (List UInt8) :=
  match dottedToken false line with
  | none => none
  | some token =>
    if token = [] ∨ '.'.toUInt8 ∉ token ∨ token.getLast? = some '.'.toUInt8 ∨
        maxBareVersionChars < token.length then none
    else if bareValueEndsCleanly (line.drop token.length) then some token
    else none

def readBareIntegerValue (line : List UInt8) : Option (List UInt8) :=
  let token := line.takeWhile isDigit
  if token = [] ∨ maxVersionPartDigits < token.length then none
  else if 1 < token.length ∧ token.head? = some '0'.toUInt8 then none
  else if bareValueEndsCleanly (line.drop token.length) then some token
  else none

def readQuotedValue : List UInt8 → Option (List UInt8)
  | [] => none
  | character :: rest =>
    let value := rest.takeWhile (· ≠ '"'.toUInt8)
    if character = '"'.toUInt8 ∧ value.length < rest.length then some value
    else none

def readMacroValue (form : MacroValueForm) (line : List UInt8) :
    Option (List UInt8) :=
  match form with
  | .quotedString => readQuotedValue line
  | .bareDotted => readBareDottedValue line

/-- What `for_each_define` hands on: the text in front of the `#`, where the
value starts, the line from there on, and what is behind the line. -/
structure Visit where
  before : List UInt8
  valueStart : Nat
  line : List UInt8
  behind : List UInt8
  deriving DecidableEq

def needle (macroName : List UInt8) : List UInt8 :=
  bytes "#define " ++ macroName

/-- One occurrence of the needle, with the characters in front of it in reverse
order. -/
def visitAt (macroName front content : List UInt8) : Option Visit :=
  if (needle macroName).isPrefixOf content then
    -- only blanks may stand in front of it on its line
    if (front.dropWhile isSpaceOrTab).head?.all (· = '\n'.toUInt8) then
      let rest := content.drop (needle macroName).length
      if rest.head?.any isIdentifier then none
      else
        let line := rest.takeWhile (· ≠ '\n'.toUInt8)
        let blanks := line.takeWhile isSpaceOrTab
        some
          { before := front.reverse
            valueStart :=
              front.length + (needle macroName).length + blanks.length
            line := line.drop blanks.length
            behind := rest.drop line.length }
    else none
  else none

def forEachDefineFrom (macroName : List UInt8) :
    List UInt8 → List UInt8 → List Visit
  | _, [] => []
  | front, character :: rest =>
    (visitAt macroName front (character :: rest)).toList ++
      forEachDefineFrom macroName (character :: front) rest

/-- `for_each_define`: the visits in order. -/
def forEachDefine (content macroName : List UInt8) : List Visit :=
  forEachDefineFrom macroName [] content

def extractMacroValue (content macroName : List UInt8)
    (form : MacroValueForm) : Option (List UInt8) :=
  (forEachDefine content macroName).findSome? fun visit =>
    readMacroValue form visit.line

def extractSoleInteger (content macroName : List UInt8) :
    Option (List UInt8) :=
  match forEachDefine content macroName with
  | [visit] => readBareIntegerValue visit.line
  | _ => none

structure VersionMatch where
  canonicalName : String
  version : List UInt8
  relativePath : FsPath
  quotedLines : List UInt8

def readSplitVersion (content : List UInt8)
    (signature : SplitVersionSignature) (relativeFile : FsPath) :
    Option VersionMatch :=
  (signature.partMacros.mapM fun partMacro =>
    extractSoleInteger content (bytes partMacro)).map fun parts =>
      { canonicalName := signature.canonicalName
        version := ['.'.toUInt8].intercalate parts
        relativePath := relativeFile
        quotedLines := (bytes "; ").intercalate
          (List.zipWith (fun partMacro part =>
            needle (bytes partMacro) ++ (' '.toUInt8 :: part))
            signature.partMacros parts) }

/-- The match of a row of a table with one macro. -/
def readSingleVersion (content : List UInt8)
    (signature : VersionHeaderSignature) (form : MacroValueForm)
    (relativeFile : FsPath) : Option VersionMatch :=
  (extractMacroValue content (bytes signature.versionMacro) form).map
    fun version =>
      let shownValue :=
        if form = .quotedString then
          '"'.toUInt8 :: (version ++ ['"'.toUInt8])
        else version
      { canonicalName := signature.canonicalName
        version := version
        relativePath := relativeFile
        quotedLines := needle (bytes signature.versionMacro) ++
          (' '.toUInt8 :: shownValue) }

def identityKey (text : String) : List Char :=
  (text.toList.filter isAsciiAlphanumeric).map toLowerAsciiChar

def folderNamesLibrary (folderKey : List Char) (canonicalName : String) :
    Bool :=
  decide (canonicalName.toList <:+: folderKey)

/-- `read_header`: the last line of a cut text is dropped. -/
def headerText (fileRead : BoundedFileRead) : Option (List UInt8) :=
  if fileRead.readable then
    some (if fileRead.truncated then
        (fileRead.bytes.reverse.dropWhile (· ≠ '\n'.toUInt8)).reverse
      else fileRead.bytes)
  else none

def matchTable (text : Option (List UInt8)) (folderKey : List Char)
    (relativeFile : FsPath) (table : List VersionHeaderSignature)
    (form : MacroValueForm) (folderMustNameLibrary : Bool) :
    Option VersionMatch :=
  table.findSome? fun signature =>
    if relativeFile.filename ≠ signature.headerFilename then none
    else if folderMustNameLibrary &&
        !folderNamesLibrary folderKey signature.canonicalName then none
    else
      text.bind fun text => readSingleVersion text signature form relativeFile

/-- What the loop of `find_version_header_match` finds in one file. -/
def matchHeader (text : Option (List UInt8)) (folderKey : List Char)
    (relativeFile : FsPath) : Option VersionMatch :=
  (matchTable text folderKey relativeFile versionHeaderSignatures
    .quotedString false).or
  ((matchTable text folderKey relativeFile bareDottedVersionSignatures
    .bareDotted true).or
  (splitVersionSignatures.findSome? fun signature =>
    if relativeFile.filename ≠ signature.headerFilename ∨
        !folderNamesLibrary folderKey signature.canonicalName then none
    else
      text.bind fun text => readSplitVersion text signature relativeFile))

def findVersionHeaderMatch (contents : FsPath → Option (List UInt8))
    (maxHeaderBytes : Nat) (vendorRoot : FsPath) (files : List FsPath) :
    Option VersionMatch :=
  files.findSome? fun relativeFile =>
    matchHeader
      (headerText (readFileBounded (contents relativeFile) maxHeaderBytes))
      (identityKey vendorRoot.filename) relativeFile

end Bomwerk.Heuristics.VersionHeader
