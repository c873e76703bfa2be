import Bomwerk.Core.PurlParts
import Bomwerk.Core.TextPieces

/-!
# Purl qualifiers

What a reader of a purl finds behind its `?`: a key and a decoded value for each
part between two `&`, up to the `#` of a subpath.
-/

namespace Bomwerk.Core

open Bomwerk.Support

/-- A key, and its value behind the first `=`. -/
def qualifierOf (part : List Char) : List Char × List Char :=
  (part.takeWhile (· ≠ '='), percentDecodeText (part.dropWhile (· ≠ '=')).tail)

def purlQualifiers (purl : List Char) : List (List Char × List Char) :=
  match purl.dropWhile fun c => c ≠ '?' ∧ c ≠ '#' with
  | '?' :: query =>
    ((query.takeWhile (· ≠ '#')).splitOn '&').map qualifierOf
  | _ => []

/-- Neither the `?` of the qualifiers nor the `#` of a subpath. -/
def IsBeforeExtras (front : List Char) : Prop := '?' ∉ front ∧ '#' ∉ front

theorem purlQualifiers_append {front : List Char} (hfront : IsBeforeExtras front)
    (query : List Char) :
    purlQualifiers (front ++ '?' :: query) =
      ((query.takeWhile (· ≠ '#')).splitOn '&').map qualifierOf := by
  have hdrop : (front ++ '?' :: query).dropWhile
      (fun c => decide (c ≠ '?' ∧ c ≠ '#')) = '?' :: query := by
    rw [List.dropWhile_append_of_pos]
    · simp
    · intro c hc
      have hquestion : c ≠ '?' := fun heq => hfront.1 (heq ▸ hc)
      have hhash : c ≠ '#' := fun heq => hfront.2 (heq ▸ hc)
      simp [hquestion, hhash]
  rw [purlQualifiers, hdrop]
  rfl

theorem purlQualifiers_of_isBeforeExtras {purl : List Char}
    (h : IsBeforeExtras purl) : purlQualifiers purl = [] := by
  have hdrop : purl.dropWhile (fun c => decide (c ≠ '?' ∧ c ≠ '#')) = [] := by
    rw [List.dropWhile_eq_nil_iff]
    intro c hc
    have hquestion : c ≠ '?' := fun heq => h.1 (heq ▸ hc)
    have hhash : c ≠ '#' := fun heq => h.2 (heq ▸ hc)
    simp [hquestion, hhash]
  rw [purlQualifiers, hdrop]

/-- Parts without a separator are read back one by one. -/
theorem purlQualifiers_intercalate {front : List Char}
    (hfront : IsBeforeExtras front) {parts : List (List Char)}
    (hne : parts ≠ []) (hseparator : ∀ part ∈ parts, '&' ∉ part)
    (hhash : ∀ part ∈ parts, '#' ∉ part) :
    purlQualifiers (front ++ '?' :: ['&'].intercalate parts) =
      parts.map qualifierOf := by
  have hquery : '#' ∉ ['&'].intercalate parts := by
    intro hmem
    obtain ⟨part, hpart, hc⟩ :=
      exists_mem_of_mem_intercalate hmem (by decide)
    exact hhash part hpart hc
  have htake : (['&'].intercalate parts).takeWhile (· ≠ '#') =
      ['&'].intercalate parts := by
    rw [List.takeWhile_eq_self_iff]
    intro c hc
    have hne : c ≠ '#' := fun heq => hquery (heq ▸ hc)
    simpa using hne
  rw [purlQualifiers_append hfront, htake,
    List.splitOn_intercalate '&' hseparator hne]

theorem qualifierOf_append {key : List Char} (hkey : '=' ∉ key)
    (value : List Char) :
    qualifierOf (key ++ '=' :: value) = (key, percentDecodeText value) := by
  have hall : ∀ c ∈ key, decide (c ≠ '=') = true := by
    intro c hc
    have hne : c ≠ '=' := fun heq => hkey (heq ▸ hc)
    simpa using hne
  rw [qualifierOf, List.takeWhile_append_of_pos hall,
    List.dropWhile_append_of_pos hall]
  simp

/-! ## The first part -/

theorem head?_splitOn (separator : Char) (text : List Char) :
    (text.splitOn separator).head? = some (text.takeWhile (· ≠ separator)) := by
  induction text with
  | nil => simp
  | cons c text ih =>
    rw [List.splitOn_cons_eq_if_modifyHead]
    by_cases hc : c = separator
    · simp [hc]
    · obtain ⟨first, rest, hsplit⟩ :=
        List.exists_cons_of_ne_nil (List.splitOn_ne_nil separator text)
      rw [hsplit] at ih ⊢
      have hfirst : first = text.takeWhile (· ≠ separator) :=
        Option.some.inj ih
      simp [hc, hfirst]

theorem head?_purlQualifiers {front : List Char} (hfront : IsBeforeExtras front)
    (query : List Char) :
    (purlQualifiers (front ++ '?' :: query)).head? =
      some (qualifierOf (query.takeWhile fun c => c ≠ '&' ∧ c ≠ '#')) := by
  rw [purlQualifiers_append hfront, List.head?_map, head?_splitOn,
    List.takeWhile_takeWhile]
  simp

theorem length_percentDecode_le (bytes : List UInt8) :
    (percentDecode bytes).length ≤ bytes.length := by
  fun_induction percentDecode bytes with
  | case1 high low rest =>
    simp only [List.length_cons]
    omega
  | case2 high low rest _ ih =>
    simp only [List.length_cons] at ih ⊢
    omega
  | case3 byte rest _ ih =>
    simp only [List.length_cons]
    omega
  | case4 => exact le_rfl

theorem length_percentDecodeText_le (text : List Char) :
    (percentDecodeText text).length ≤ text.length := by
  have h := length_percentDecode_le (text.map fun c => UInt8.ofNat c.toNat)
  simpa [percentDecodeText, byteText] using h

end Bomwerk.Core
