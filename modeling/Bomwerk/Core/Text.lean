import Mathlib.Data.List.DropRight
import Mathlib.Data.List.TakeWhile
import Mathlib.Data.String.Basic

/-!
# Text helpers

The string helpers of `core/text.cpp` and `core/percent.cpp` that the modelled
commands use.  A `std::string` of the source is a Lean string: every string a
JSON document carries is valid UTF-8, and UTF-8 bytes compare as the characters
they encode.
-/

namespace Bomwerk.Core

/-- `to_lower_ascii`, on one character. -/
def toLowerAsciiChar (c : Char) : Char :=
  if 'A' ≤ c ∧ c ≤ 'Z' then Char.ofNat (c.toNat - 'A'.toNat + 'a'.toNat) else c

/-- `to_lower_ascii`, on a text. -/
def toLowerAscii (text : String) : String :=
  String.ofList (text.toList.map toLowerAsciiChar)

def equalsAsciiIgnoreCase (left right : String) : Bool :=
  toLowerAscii left = toLowerAscii right

/-- A character of `kAsciiWhitespace`. -/
def isAsciiBlank (c : Char) : Bool :=
  c = ' ' ∨ c = '\t' ∨ c = '\r' ∨ c = '\n'

def trimmed (text : List Char) : List Char :=
  (text.dropWhile isAsciiBlank).rdropWhile isAsciiBlank

def isHexDigit (c : Char) : Bool :=
  ('0' ≤ c ∧ c ≤ '9') ∨ ('a' ≤ c ∧ c ≤ 'f') ∨ ('A' ≤ c ∧ c ≤ 'F')

/-- `is_hex_digits`: not empty, hexadecimal digits only. -/
def isHexDigits (text : String) : Bool :=
  !text.toList.isEmpty && text.toList.all isHexDigit

/-- `is_hex_object_id`: a SHA-1 or SHA-256 object id. -/
def isHexObjectId (text : String) : Bool :=
  (text.length = 40 ∨ text.length = 64) && isHexDigits text

def startsWith (text literal : String) : Bool :=
  literal.toList.isPrefixOf text.toList

/-- What a C string of the text holds: everything before its first NUL. -/
def cString (text : String) : String :=
  String.ofList (text.toList.takeWhile (· ≠ '\x00'))

theorem cString_eq_self_iff {text : String} :
    cString text = text ↔ '\x00' ∉ text.toList := by
  rw [cString, ← String.toList_inj, String.toList_ofList,
    List.takeWhile_eq_self_iff]
  simp only [ne_eq, decide_not, Bool.not_eq_eq_eq_not, Bool.not_true,
    decide_eq_false_iff_not]
  exact ⟨fun h hmem => h _ hmem rfl, fun h c hc heq => h (heq ▸ hc)⟩

theorem cString_cString (text : String) :
    cString (cString text) = cString text := by
  rw [cString, cString, String.toList_ofList, List.takeWhile_idem]

/-! ## Percent encoding -/

def hexDigitUpper (n : Nat) : Char :=
  if n < 10 then Char.ofNat ('0'.toNat + n) else Char.ofNat ('A'.toNat + n - 10)

def isUnreserved (c : Char) : Bool :=
  ('A' ≤ c ∧ c ≤ 'Z') ∨ ('a' ≤ c ∧ c ≤ 'z') ∨ ('0' ≤ c ∧ c ≤ '9') ∨
    c = '-' ∨ c = '.' ∨ c = '_' ∨ c = '~'

def percentEncodeByte (byte : UInt8) : List Char :=
  let c := Char.ofNat byte.toNat
  if isUnreserved c then [c]
  else ['%', hexDigitUpper (byte.toNat / 16), hexDigitUpper (byte.toNat % 16)]

/-- `percent_encode`, byte by byte of the UTF-8 text. -/
def percentEncode (text : String) : String :=
  String.ofList
    (text.toList.flatMap fun c =>
      (String.utf8EncodeChar c).flatMap percentEncodeByte)

example : percentEncode "a b/é" = "a%20b%2F%C3%A9" := by decide

/-- `hex_digit_value`; nothing for a byte that is no hexadecimal digit. -/
def hexDigitValue (byte : UInt8) : Option UInt8 :=
  if 0x30 ≤ byte ∧ byte ≤ 0x39 then some (byte - 0x30)
  else if 0x61 ≤ byte ∧ byte ≤ 0x66 then some (byte - 0x61 + 10)
  else if 0x41 ≤ byte ∧ byte ≤ 0x46 then some (byte - 0x41 + 10)
  else none

/-- `percent_decode`.  A malformed escape keeps its `%`. -/
def percentDecode : List UInt8 → List UInt8
  | 0x25 :: high :: low :: rest =>
    match hexDigitValue high, hexDigitValue low with
    | some highDigit, some lowDigit =>
      (highDigit <<< 4 ||| lowDigit) :: percentDecode rest
    | _, _ => 0x25 :: percentDecode (high :: low :: rest)
  | byte :: rest => byte :: percentDecode rest
  | [] => []

/-! ## Byte texts

A file may hold any bytes, so a text cut out of one is a list of characters
that stand for one byte each. -/

def byteText (bytes : List UInt8) : List Char :=
  bytes.map fun byte => Char.ofNat byte.toNat

/-- The bytes of a text that came out of a JSON document. -/
def utf8Text (text : String) : List Char :=
  byteText (text.toList.flatMap String.utf8EncodeChar)

/-- `percent_encode`, on a byte text. -/
def percentEncodeText (text : List Char) : List Char :=
  text.flatMap fun c => percentEncodeByte (UInt8.ofNat c.toNat)

/-- `percent_encode_purl_namespace`: the separators stay. -/
def percentEncodePurlNamespace (namespacePath : List Char) : List Char :=
  ['/'].intercalate ((namespacePath.splitOn '/').map percentEncodeText)

/-- `percent_decode`, on a byte text. -/
def percentDecodeText (text : List Char) : List Char :=
  byteText (percentDecode (text.map fun c => UInt8.ofNat c.toNat))

def leadingSpaceCount (line : List Char) : Nat :=
  (line.takeWhile (· = ' ')).length

/-- One byte of `escaped_for_diagnostic`. -/
def escapedCharacter (c : Char) : List Char :=
  if c = '\\' then ['\\', '\\']
  else if c = '"' then ['\\', '"']
  else if c = '\n' then ['\\', 'n']
  else if c = '\r' then ['\\', 'r']
  else if c = '\t' then ['\\', 't']
  else if c.toNat < 0x20 ∨ c.toNat = 0x7F then
    ['\\', 'u', '0', '0', (hexDigitUpper (c.toNat / 16)).toLower,
      (hexDigitUpper (c.toNat % 16)).toLower]
  else [c]

def escapedForDiagnostic (text : List Char) : List Char :=
  text.flatMap escapedCharacter

end Bomwerk.Core
