import Bomwerk.Core.CanonicalJson
import Bomwerk.Support.Utf8

/-!
# Trace lines

The line a shim appends for one tool invocation.  Names and arguments are byte
strings, as a POSIX system hands them over; an `append_…` function of the
source is the bytes it appends.
-/

namespace Bomwerk.Observe

open Bomwerk.Core Bomwerk.Core.CanonicalJson Bomwerk.Support
open String (utf8EncodeChar)

def ascii (literal : String) : List UInt8 := utf8Encode literal.toList

def isUtf8Continuation (byte : UInt8) : Bool := byte &&& 0xC0 == 0x80

/-- `valid_utf8_sequence_length` at the first byte of what is left of the
text. -/
def validUtf8SequenceLength (text : List UInt8) : Nat :=
  let available := text.length
  let byteAt := fun offset => text.getD offset 0
  let lead := (byteAt 0).toNat
  let second := (byteAt 1).toNat
  if 0xC2 ≤ lead ∧ lead ≤ 0xDF then
    if 2 ≤ available ∧ isUtf8Continuation (byteAt 1) then 2 else 0
  else if 0xE0 ≤ lead ∧ lead ≤ 0xEF then
    if available < 3 ∨ ¬ isUtf8Continuation (byteAt 1) ∨
        ¬ isUtf8Continuation (byteAt 2) then 0
    else if lead = 0xE0 ∧ second < 0xA0 then 0
    else if lead = 0xED ∧ 0xA0 ≤ second then 0
    else 3
  else if 0xF0 ≤ lead ∧ lead ≤ 0xF4 then
    if available < 4 ∨ ¬ isUtf8Continuation (byteAt 1) ∨
        ¬ isUtf8Continuation (byteAt 2) ∨
        ¬ isUtf8Continuation (byteAt 3) then 0
    else if lead = 0xF0 ∧ second < 0x90 then 0
    else if lead = 0xF4 ∧ 0x90 ≤ second then 0
    else 4
  else 0

def hexDigits : List UInt8 := ascii "0123456789abcdef"

def appendUnicodeEscape (value : UInt8) : List UInt8 :=
  ascii "\\u00" ++ [hexDigits.getD ((value >>> 4) &&& 0x0F).toNat 0,
    hexDigits.getD (value &&& 0x0F).toNat 0]

/-- The switch of `append_json_string` on a byte below `0x80`. -/
def appendAscii (byte : UInt8) : List UInt8 :=
  if byte = '"'.toUInt8 then ascii "\\\""
  else if byte = '\\'.toUInt8 then ascii "\\\\"
  else if byte = '\x08'.toUInt8 then ascii "\\b"
  else if byte = '\x0c'.toUInt8 then ascii "\\f"
  else if byte = '\n'.toUInt8 then ascii "\\n"
  else if byte = '\r'.toUInt8 then ascii "\\r"
  else if byte = '\t'.toUInt8 then ascii "\\t"
  else if byte < 0x20 then appendUnicodeEscape byte
  else [byte]

/-- The loop of `append_json_string`.  Each round takes at least one byte, so
as many rounds as there are bytes are enough. -/
def appendEscaped : Nat → List UInt8 → List UInt8
  | 0, _ => []
  | _, [] => []
  | rounds + 1, byte :: text =>
    if byte < 0x80 then appendAscii byte ++ appendEscaped rounds text
    else
      let sequenceLength := validUtf8SequenceLength (byte :: text)
      if sequenceLength = 0 then
        utf8EncodeChar replacementCharacter ++ appendEscaped rounds text
      else
        (byte :: text).take sequenceLength ++
          appendEscaped rounds ((byte :: text).drop sequenceLength)

def appendJsonString (text : List UInt8) : List UInt8 :=
  ascii "\"" ++ appendEscaped text.length text ++ ascii "\""

def appendArguments : List (List UInt8) → List UInt8
  | [] => []
  | [argument] => appendJsonString argument
  | argument :: arguments =>
    appendJsonString argument ++ ascii "," ++ appendArguments arguments

def buildTraceLine (toolName : List UInt8) (arguments : List (List UInt8))
    (workingDirectory : List UInt8) (processId : Int64) : List UInt8 :=
  ascii "\x7b\"argv\":[" ++ appendArguments arguments ++
    ascii "],\"cwd\":" ++ appendJsonString workingDirectory ++
    ascii ",\"pid\":" ++ ascii (toString processId.toInt) ++
    ascii ",\"tool\":" ++ appendJsonString toolName ++ ascii "\x7d\n"

theorem isUtf8Continuation_iff (byte : UInt8) :
    isUtf8Continuation byte = true ↔ Continues byte := by
  have hall : ∀ n : Fin 256, (UInt8.ofNat n &&& 0xC0 == 0x80) = true ↔
      0x80 ≤ n.val ∧ n.val < 0xC0 := by decide +kernel
  have h := hall ⟨byte.toNat, byte.toNat_lt⟩
  rwa [UInt8.ofNat_toNat] at h

theorem isUtf8Continuation_ofNat {n : Nat} (hn : n < 64) :
    isUtf8Continuation (UInt8.ofNat (0x80 + n)) = true := by
  rw [isUtf8Continuation_iff, Continues, UInt8.toNat_ofNat']
  omega

/-- A text that begins with a sequence is not refused. -/
theorem validUtf8SequenceLength_ne_zero {c : Char} (hc : 0x80 ≤ c.toNat)
    (rest : List UInt8) :
    validUtf8SequenceLength (utf8EncodeChar c ++ rest) ≠ 0 := by
  have hvalid := c.valid
  simp only [UInt32.isValidChar, Nat.isValidChar] at hvalid
  change c.toNat < _ ∨ _ < c.toNat ∧ _ at hvalid
  have hmod : ∀ n, n % 64 < 64 := fun n => Nat.mod_lt n (by decide)
  rcases utf8EncodeChar_cases c with h | ⟨-, hlt, h⟩ | ⟨hle, hlt, h⟩ |
    ⟨hle, hlt, h⟩
  · omega
  · have hlead : (UInt8.ofNat (0xC0 + c.toNat / 64)).toNat =
        0xC0 + c.toNat / 64 := by
      rw [UInt8.toNat_ofNat']
      omega
    simp only [h, validUtf8SequenceLength, List.cons_append,
      List.getD_cons_zero, List.getD_cons_succ, hlead,
      isUtf8Continuation_ofNat (hmod _), List.length_cons]
    rw [if_pos (by omega), if_pos ⟨by omega, trivial⟩]
    decide
  · have hlead : (UInt8.ofNat (0xE0 + c.toNat / 4096)).toNat =
        0xE0 + c.toNat / 4096 := by
      rw [UInt8.toNat_ofNat']
      omega
    have hsecond : (UInt8.ofNat (0x80 + c.toNat / 64 % 64)).toNat =
        0x80 + c.toNat / 64 % 64 := by
      rw [UInt8.toNat_ofNat']
      omega
    simp only [h, validUtf8SequenceLength, List.cons_append,
      List.getD_cons_zero, List.getD_cons_succ, hlead, hsecond,
      isUtf8Continuation_ofNat (hmod _), List.length_cons]
    rw [if_neg (by omega), if_pos (by omega), if_neg (by simp),
      if_neg (by omega), if_neg (by omega)]
    decide
  · have hlead : (UInt8.ofNat (0xF0 + c.toNat / 262144)).toNat =
        0xF0 + c.toNat / 262144 := by
      rw [UInt8.toNat_ofNat']
      omega
    have hsecond : (UInt8.ofNat (0x80 + c.toNat / 4096 % 64)).toNat =
        0x80 + c.toNat / 4096 % 64 := by
      rw [UInt8.toNat_ofNat']
      omega
    simp only [h, validUtf8SequenceLength, List.cons_append,
      List.getD_cons_zero, List.getD_cons_succ, hlead, hsecond,
      isUtf8Continuation_ofNat (hmod _), List.length_cons]
    rw [if_neg (by omega), if_neg (by omega), if_pos (by omega),
      if_neg (by simp), if_neg (by omega), if_neg (by omega)]
    decide

/-- What the validator accepts is the sequence of a character. -/
theorem exists_sequence_of_length {text : List UInt8}
    (hlength : validUtf8SequenceLength text ≠ 0) :
    ∃ c, 0x80 ≤ c.toNat ∧
      text.take (validUtf8SequenceLength text) = utf8EncodeChar c := by
  simp only [validUtf8SequenceLength] at hlength ⊢
  split_ifs at hlength ⊢ with htwo hseq hthree hseq hlow hsurrogate hfour
    hseq hlow hhigh
  all_goals first | exact absurd rfl hlength | skip
  · obtain ⟨hlen, hb⟩ := hseq
    obtain ⟨a, b, rest, rfl⟩ : ∃ a b rest, text = a :: b :: rest := by
      match text, hlen with
      | a :: b :: rest, _ => exact ⟨a, b, rest, rfl⟩
    simp only [List.getD_cons_zero, List.getD_cons_succ] at htwo hb ⊢
    obtain ⟨c, hc⟩ := exists_utf8EncodeChar_eq_two htwo.1 htwo.2
      ((isUtf8Continuation_iff b).mp hb)
    exact ⟨c, le_toNat_of_length (by rw [hc]; simp), hc.symm⟩
  · simp only [not_or, not_lt, Decidable.not_not] at hseq
    obtain ⟨hlen, hb, hd⟩ := hseq
    obtain ⟨a, b, d, rest, rfl⟩ : ∃ a b d rest, text = a :: b :: d :: rest := by
      match text, hlen with
      | a :: b :: d :: rest, _ => exact ⟨a, b, d, rest, rfl⟩
    simp only [List.getD_cons_zero, List.getD_cons_succ] at *
    obtain ⟨c, hc⟩ := exists_utf8EncodeChar_eq_three hthree.1 hthree.2
      ((isUtf8Continuation_iff b).mp hb) ((isUtf8Continuation_iff d).mp hd)
      (by omega) (by omega)
    exact ⟨c, le_toNat_of_length (by rw [hc]; simp), hc.symm⟩
  · simp only [not_or, not_lt, Decidable.not_not] at hseq
    obtain ⟨hlen, hb, hd, he⟩ := hseq
    obtain ⟨a, b, d, e, rest, rfl⟩ :
        ∃ a b d e rest, text = a :: b :: d :: e :: rest := by
      match text, hlen with
      | a :: b :: d :: e :: rest, _ => exact ⟨a, b, d, e, rest, rfl⟩
    simp only [List.getD_cons_zero, List.getD_cons_succ] at *
    obtain ⟨c, hc⟩ := exists_utf8EncodeChar_eq_four hfour.1 hfour.2
      ((isUtf8Continuation_iff b).mp hb) ((isUtf8Continuation_iff d).mp hd)
      ((isUtf8Continuation_iff e).mp he) (by omega) (by omega)
    exact ⟨c, le_toNat_of_length (by rw [hc]; simp), hc.symm⟩

/-! ## Escaping -/

theorem appendUnicodeEscape_spec {n : Nat} (hn : n < 32) :
    appendUnicodeEscape (UInt8.ofNat n) =
        utf8Encode ['\\', 'u', '0', '0', Nat.digitChar (n / 16),
          Nat.digitChar (n % 16)] ∧
      unicodeEscape '0' '0' (Nat.digitChar (n / 16)) (Nat.digitChar (n % 16)) =
        some (Char.ofNat n) := by
  have hall : ∀ n : Fin 32, appendUnicodeEscape (UInt8.ofNat n) =
        utf8Encode ['\\', 'u', '0', '0', Nat.digitChar (n / 16),
          Nat.digitChar (n % 16)] ∧
      unicodeEscape '0' '0' (Nat.digitChar (n / 16)) (Nat.digitChar (n % 16)) =
        some (Char.ofNat n) := by decide +kernel
  exact hall ⟨n, hn⟩

/-- An ASCII byte is written as text that stands for its character. -/
theorem appendAscii_spec {byte : UInt8} (hbyte : byte < 0x80) :
    ∃ c body, utf8EncodeChar c = [byte] ∧ appendAscii byte = utf8Encode body ∧
      StringBody body [c] := by
  simp only [appendAscii]
  split_ifs with hquote hslash hb hf hn hr ht hcontrol
  · exact ⟨'"', ['\\', '"'], hquote ▸ rfl, rfl, .short rfl .nil⟩
  · exact ⟨'\\', ['\\', '\\'], hslash ▸ rfl, rfl, .short rfl .nil⟩
  · exact ⟨'\x08', ['\\', 'b'], hb ▸ rfl, rfl, .short rfl .nil⟩
  · exact ⟨'\x0c', ['\\', 'f'], hf ▸ rfl, rfl, .short rfl .nil⟩
  · exact ⟨'\n', ['\\', 'n'], hn ▸ rfl, rfl, .short rfl .nil⟩
  · exact ⟨'\r', ['\\', 'r'], hr ▸ rfl, rfl, .short rfl .nil⟩
  · exact ⟨'\t', ['\\', 't'], ht ▸ rfl, rfl, .short rfl .nil⟩
  · have hlt : byte.toNat < 32 := UInt8.lt_iff_toNat_lt.mp hcontrol
    obtain ⟨htext, hvalue⟩ := appendUnicodeEscape_spec hlt
    rw [UInt8.ofNat_toNat] at htext
    obtain ⟨c, hc⟩ := exists_char_toNat (.inl (by omega) : byte.toNat.isValidChar)
    refine ⟨c, _, ?_, htext, .unicode (hvalue.trans ?_) .nil⟩
    · rw [utf8EncodeChar_of_lt (by omega), hc, UInt8.ofNat_toNat]
    · rw [← hc, Char.ofNat_toNat]
  · have hlt : byte.toNat < 0x80 := UInt8.lt_iff_toNat_lt.mp hbyte
    have hle : 32 ≤ byte.toNat :=
      Nat.not_lt.mp fun h => hcontrol (UInt8.lt_iff_toNat_lt.mpr h)
    obtain ⟨c, hc⟩ := exists_char_toNat (.inl (by omega) : byte.toNat.isValidChar)
    have hencoded : utf8EncodeChar c = [byte] := by
      rw [utf8EncodeChar_of_lt (by omega), hc, UInt8.ofNat_toNat]
    refine ⟨c, [c], hencoded, ?_, .plain (by omega) ?_ ?_ .nil⟩
    · rw [utf8Encode_cons, hencoded]
      rfl
    · rintro rfl
      exact hquote (List.cons.inj hencoded).1.symm
    · rintro rfl
      exact hslash (List.cons.inj hencoded).1.symm

theorem startsNoSequence_of_length {byte : UInt8} {text : List UInt8}
    (hbyte : ¬ byte < 0x80)
    (hlength : validUtf8SequenceLength (byte :: text) = 0) :
    StartsNoSequence (byte :: text) := by
  intro c rest htext
  rw [htext] at hlength
  refine validUtf8SequenceLength_ne_zero ?_ rest hlength
  by_contra hlt
  rw [utf8EncodeChar_of_lt (by omega)] at htext
  refine hbyte (UInt8.lt_iff_toNat_lt.mpr ?_)
  rw [(List.cons.inj htext).1, UInt8.toNat_ofNat']
  change c.toNat % 256 < 128
  omega

/-- The loop writes text that stands for the repaired bytes. -/
theorem appendEscaped_spec {rounds : Nat} {text : List UInt8}
    (hrounds : text.length ≤ rounds) :
    ∃ body chars, appendEscaped rounds text = utf8Encode body ∧
      StringBody body chars ∧ Repaired text chars := by
  induction rounds generalizing text with
  | zero =>
    obtain rfl := List.eq_nil_of_length_eq_zero (Nat.le_zero.mp hrounds)
    exact ⟨[], [], rfl, .nil, .nil⟩
  | succ rounds ih =>
    cases text with
    | nil => exact ⟨[], [], rfl, .nil, .nil⟩
    | cons byte text =>
      rw [List.length_cons, Nat.add_le_add_iff_right] at hrounds
      simp only [appendEscaped]
      split_ifs with hascii hzero
      · obtain ⟨body, chars, hwritten, hbody, hrepaired⟩ := ih hrounds
        obtain ⟨c, first, hencoded, hfirst, hone⟩ := appendAscii_spec hascii
        refine ⟨first ++ body, c :: chars, ?_, hone.append hbody, ?_⟩
        · rw [hfirst, hwritten, utf8Encode_append]
        · simpa [hencoded] using Repaired.sequence c hrepaired
      · obtain ⟨body, chars, hwritten, hbody, hrepaired⟩ := ih hrounds
        refine ⟨replacementCharacter :: body, replacementCharacter :: chars,
          ?_, .plain (by decide) (by decide) (by decide) hbody,
          .stray (startsNoSequence_of_length hascii hzero) hrepaired⟩
        rw [hwritten, utf8Encode_cons]
      · obtain ⟨c, hc, hsequence⟩ := exists_sequence_of_length hzero
        have hpositive := Nat.pos_of_ne_zero hzero
        have hshorter : ((byte :: text).drop
            (validUtf8SequenceLength (byte :: text))).length ≤ rounds := by
          rw [List.length_drop, List.length_cons]
          omega
        obtain ⟨body, chars, hwritten, hbody, hrepaired⟩ := ih hshorter
        refine ⟨c :: body, c :: chars, ?_, .plain (by omega) ?_ ?_ hbody, ?_⟩
        · rw [hsequence, hwritten, utf8Encode_cons]
        · rintro rfl
          exact absurd hc (by decide)
        · rintro rfl
          exact absurd hc (by decide)
        · have hkept := Repaired.sequence c hrepaired
          rwa [← hsequence, List.take_append_drop] at hkept

theorem appendJsonString_spec (text : List UInt8) :
    ∃ body chars, appendJsonString text =
        utf8Encode ('"' :: (body ++ ['"'])) ∧
      StringBody body chars ∧ Repaired text chars := by
  obtain ⟨body, chars, hwritten, hbody, hrepaired⟩ :=
    appendEscaped_spec (le_refl text.length)
  refine ⟨body, chars, ?_, hbody, hrepaired⟩
  have hquote : ascii "\"" = utf8EncodeChar '"' := rfl
  simp [appendJsonString, hwritten, hquote]

/-! ## The line -/

/-- The text a byte string of the line stands for: repaired, which keeps every
well-formed sequence wherever it stands. -/
structure ReadsAs (bytes : List UInt8) (text : String) : Prop where
  repaired : Repaired bytes text.toList
  keeps : ∀ before c after, bytes = before ++ (utf8EncodeChar c ++ after) →
    ∃ left right, text.toList = left ++ c :: right ∧ Repaired before left ∧
      Repaired after right

theorem ReadsAs.of_repaired {bytes : List UInt8} {chars : List Char}
    (hrepaired : Repaired bytes chars) :
    ReadsAs bytes (String.ofList chars) := by
  rw [← String.toList_ofList (l := chars)] at hrepaired
  exact ⟨hrepaired, fun _ _ _ hbytes => hrepaired.keeps_sequence hbytes⟩

def invocationObject (tool : String) (arguments : List String)
    (workingDirectory : String) (processId : Int64) : Json :=
  .object [("argv", .array (arguments.map .string)),
    ("cwd", .string workingDirectory), ("pid", .integer processId.toInt),
    ("tool", .string tool)]

theorem appendJsonString_derives (bytes : List UInt8) :
    ∃ text value, appendJsonString bytes = utf8Encode text ∧
      Derives (.value (.string value)) text ∧ ReadsAs bytes value := by
  obtain ⟨body, chars, hwritten, hbody, hrepaired⟩ := appendJsonString_spec bytes
  exact ⟨_, String.ofList chars, hwritten, .string hbody,
    .of_repaired hrepaired⟩

theorem appendArguments_derives {arguments : List (List UInt8)}
    (hne : arguments ≠ []) :
    ∃ text values, appendArguments arguments = utf8Encode text ∧
      Derives (.items (values.map Json.string)) text ∧
      List.Forall₂ ReadsAs arguments values := by
  induction arguments with
  | nil => exact absurd rfl hne
  | cons argument arguments ih =>
    obtain ⟨text, value, hwritten, hderives, hreads⟩ :=
      appendJsonString_derives argument
    cases arguments with
    | nil =>
      exact ⟨text, [value], hwritten, .lastItem hderives, .cons hreads .nil⟩
    | cons next arguments =>
      obtain ⟨more, values, hmore, hitems, hall⟩ := ih (by simp)
      refine ⟨text ++ ',' :: more, value :: values, ?_,
        .item hderives hitems, .cons hreads hall⟩
      have hcomma : ascii "," = utf8EncodeChar ',' := rfl
      rw [appendArguments, hwritten, hmore, hcomma, utf8Encode_append,
        utf8Encode_cons, List.append_assoc]
      simp

theorem argv_derives (arguments : List (List UInt8)) :
    ∃ text values, ascii "[" ++ appendArguments arguments ++ ascii "]" =
        utf8Encode text ∧
      Derives (.value (.array (values.map Json.string))) text ∧
      List.Forall₂ ReadsAs arguments values := by
  by_cases hne : arguments = []
  · subst hne
    exact ⟨['[', ']'], [], rfl, .emptyArray, .nil⟩
  · obtain ⟨text, values, hwritten, hitems, hall⟩ := appendArguments_derives hne
    refine ⟨_, values, ?_, .array hitems, hall⟩
    have hopen : ascii "[" = utf8EncodeChar '[' := rfl
    have hclose : ascii "]" = utf8EncodeChar ']' := rfl
    simp [hwritten, hopen, hclose]

theorem fitsInt64_toInt (value : Int64) : FitsInt64 value.toInt :=
  ⟨Int64.le_toInt value, Int64.toInt_lt value⟩

/-- The line without its newline, and the object it stands for. -/
theorem buildTraceLine_derives (toolName : List UInt8)
    (arguments : List (List UInt8)) (workingDirectory : List UInt8)
    (processId : Int64) :
    ∃ text tool values directory,
      buildTraceLine toolName arguments workingDirectory processId =
        utf8Encode text ++ ['\n'.toUInt8] ∧
      Derives (.value (invocationObject tool values directory processId)) text ∧
      ReadsAs toolName tool ∧ List.Forall₂ ReadsAs arguments values ∧
      ReadsAs workingDirectory directory := by
  obtain ⟨argv, values, hargv, hargvDerives, hall⟩ := argv_derives arguments
  obtain ⟨cwd, directory, hcwd, hcwdDerives, hdirectory⟩ :=
    appendJsonString_derives workingDirectory
  obtain ⟨name, tool, hname, hnameDerives, htool⟩ :=
    appendJsonString_derives toolName
  have hordered :
      List.Pairwise (· < ·) ["argv", "cwd", "pid", "tool"] := by
    decide +kernel
  have htext : Derives (.value (invocationObject tool values directory
      processId)) ('{' :: ('"' :: (['a', 'r', 'g', 'v'] ++ '"' :: ':' ::
        (argv ++ ',' :: '"' :: (['c', 'w', 'd'] ++ '"' :: ':' ::
          (cwd ++ ',' :: '"' :: (['p', 'i', 'd'] ++ '"' :: ':' ::
            (integerText processId.toInt ++ ',' :: '"' ::
              (['t', 'o', 'o', 'l'] ++ '"' :: ':' :: name))))))) ++ ['}'])) :=
    .object hordered <| .member (.of_plain rfl) hargvDerives <|
      .member (.of_plain rfl) hcwdDerives <|
      .member (.of_plain rfl) (.integer (fitsInt64_toInt processId)) <|
      .lastMember (.of_plain rfl) hnameDerives
  refine ⟨_, tool, values, directory, ?_, htext, htool, hall, hdirectory⟩
  have hopen : ascii "\x7b\"argv\":[" =
      utf8Encode ['{', '"', 'a', 'r', 'g', 'v', '"', ':'] ++ ascii "[" := rfl
  have hcwdKey : ascii "],\"cwd\":" =
      ascii "]" ++ utf8Encode [',', '"', 'c', 'w', 'd', '"', ':'] := rfl
  have hpidKey : ascii ",\"pid\":" =
      utf8Encode [',', '"', 'p', 'i', 'd', '"', ':'] := rfl
  have htoolKey : ascii ",\"tool\":" =
      utf8Encode [',', '"', 't', 'o', 'o', 'l', '"', ':'] := rfl
  have hend : ascii "\x7d\n" = utf8Encode ['}'] ++ ['\n'.toUInt8] := rfl
  have hpid : ascii (toString processId.toInt) =
      utf8Encode (integerText processId.toInt) := rfl
  have hline : buildTraceLine toolName arguments workingDirectory processId =
      utf8Encode ['{', '"', 'a', 'r', 'g', 'v', '"', ':'] ++
        (ascii "[" ++ appendArguments arguments ++ ascii "]") ++
        utf8Encode [',', '"', 'c', 'w', 'd', '"', ':'] ++ utf8Encode cwd ++
        utf8Encode [',', '"', 'p', 'i', 'd', '"', ':'] ++
        utf8Encode (integerText processId.toInt) ++
        utf8Encode [',', '"', 't', 'o', 'o', 'l', '"', ':'] ++
        utf8Encode name ++ utf8Encode ['}'] ++ ['\n'.toUInt8] := by
    simp only [buildTraceLine, hopen, hcwdKey, hpidKey, htoolKey, hend, hpid,
      hcwd, hname, List.append_assoc]
  rw [hline, hargv]
  simp only [utf8Encode_append, utf8Encode_cons, utf8Encode_nil,
    List.append_assoc, List.cons_append, List.nil_append, List.append_nil]

/-- `build_trace_line` writes one line of JSON, whatever the bytes: the object
of the invocation, with every string repaired. -/
theorem buildTraceLine_wellFormed (toolName : List UInt8)
    (arguments : List (List UInt8)) (workingDirectory : List UInt8)
    (processId : Int64) :
    ∃ text tool values directory,
      buildTraceLine toolName arguments workingDirectory processId =
        utf8Encode text ++ ['\n'.toUInt8] ∧
      '\n'.toUInt8 ∉ utf8Encode text ∧
      Derives (.value (invocationObject tool values directory processId)) text ∧
      ReadsAs toolName tool ∧ List.Forall₂ ReadsAs arguments values ∧
      ReadsAs workingDirectory directory := by
  obtain ⟨text, tool, values, directory, hline, htext, hreads⟩ :=
    buildTraceLine_derives toolName arguments workingDirectory processId
  exact ⟨text, tool, values, directory, hline,
    toUInt8_not_mem_utf8Encode (by decide) (newline_not_mem_of_derives htext),
    htext, hreads⟩

end Bomwerk.Observe
