import Bomwerk.Core.Text
import Bomwerk.Vuln.Osv.Match
import Mathlib.Tactic.SplitIfs

/-!
# Requests to a license registry

`retry_backoff_for` and `get_with_rate_limit_retry` of
`vuln/license_enrichment.cpp`.  A header holds any bytes, so it is a byte text.
The integer types on the way from the header to a wait are 64 bits wide; a
signed product that leaves its type is undefined, and the wait is then
nothing.
-/

namespace Bomwerk.Vuln.License

open Bomwerk.Core

/-- `kDefaultRateLimitBackoff`, in milliseconds. -/
def defaultRateLimitBackoff : Int := 2000

/-- `kMaxRateLimitBackoff`, in milliseconds. -/
def maxRateLimitBackoff : Int := 30000

/-- `std::from_chars` into a `std::uint64_t`: the value, and the text behind
the digits; nothing without digits or for a value out of range. -/
def fromCharsUInt64 (text : List Char) : Option (Nat × List Char) :=
  let digits := text.takeWhile Char.isDigit
  if digits = [] then none
  else
    let value := Nat.ofDigitChars 10 digits 0
    if 2 ^ 64 ≤ value then none else some (value, text.dropWhile Char.isDigit)

/-- `std::chrono::seconds(seconds_value)`: the conversion to the signed type is
modulo 2^64. -/
def toSeconds (secondsValue : Nat) : Int :=
  (secondsValue : Int).bmod (2 ^ 64)

/-- `std::chrono::duration_cast<std::chrono::milliseconds>`. -/
def toMilliseconds? (seconds : Int) : Option Int :=
  let product := seconds * 1000
  if -2 ^ 63 ≤ product ∧ product < 2 ^ 63 then some product else none

def retryBackoffFor (retryAfterHeader : List Char) : Option Int :=
  let trimmedHeader := trimmed retryAfterHeader
  if trimmedHeader = [] then some defaultRateLimitBackoff
  else
    match fromCharsUInt64 trimmedHeader with
    | some (secondsValue, []) =>
      (toMilliseconds? (toSeconds secondsValue)).map
        (min · maxRateLimitBackoff)
    | _ => some defaultRateLimitBackoff

def maxRegistryGetAttempts : Nat := 3

/-- `HttpResponse` with the header that only this pass reads. -/
structure RegistryResponse extends HttpResponse where
  retryAfter : List Char := []

/-- `http_get` for one lookup, by the number of the attempt. -/
abbrev RegistryGet := Nat → String → Result RegistryResponse

/-- What the attempts for one lookup return, and the waits between them. -/
structure RegistryRun where
  response : Result RegistryResponse
  waits : List (Option Int) := []

/-- The loop of `get_with_rate_limit_retry` from an attempt on. -/
def attemptsFrom (httpGet : RegistryGet) (url : String) (attempt : Nat) :
    Nat → RegistryRun
  | 0 => { response := httpGet attempt url }
  | retries + 1 =>
    let response := httpGet attempt url
    if response.value.statusCode ≠ 429 then { response := response }
    else
      let rest := attemptsFrom httpGet url (attempt + 1) retries
      { rest with
        waits := retryBackoffFor response.value.retryAfter :: rest.waits }

def getWithRateLimitRetry (httpGet : RegistryGet) (url : String) :
    RegistryRun :=
  attemptsFrom httpGet url 1 (maxRegistryGetAttempts - 1)

/-! ## Bounds -/

/-- The wait of a header is defined and between zero and the maximum, and the
parsed value is converted as it is. -/
structure IsBounded (header : List Char) : Prop where
  wait : ∃ wait, retryBackoffFor header = some wait ∧ 0 ≤ wait ∧
    wait ≤ maxRateLimitBackoff
  exact : ∀ value, fromCharsUInt64 (trimmed header) = some (value, []) →
    toSeconds value = value

/-- The largest number of seconds whose milliseconds fit into 64 bits. -/
def maxExactSeconds : Nat := (2 ^ 63 - 1) / 1000

/-- A text of digits only, and the number it writes. -/
def IsDecimal (text : List Char) (value : Nat) : Prop :=
  text ≠ [] ∧ text.all Char.isDigit = true ∧ Nat.ofDigitChars 10 text 0 = value

/-- The header is a number of 64 bits whose milliseconds do not fit. -/
def IsOverlong (header : List Char) : Prop :=
  ∃ value, IsDecimal (trimmed header) value ∧ maxExactSeconds < value ∧
    value < 2 ^ 64

theorem fromCharsUInt64_eq_some_nil_iff {text : List Char} {value : Nat} :
    fromCharsUInt64 text = some (value, []) ↔
      IsDecimal text value ∧ value < 2 ^ 64 := by
  simp only [fromCharsUInt64, IsDecimal]
  have hall : text.dropWhile Char.isDigit = [] ↔
      text.all Char.isDigit = true := by
    rw [List.dropWhile_eq_nil_iff, List.all_eq_true]
  constructor
  · intro h
    split_ifs at h with hdigits hrange
    simp only [Option.some.injEq, Prod.mk.injEq] at h
    obtain ⟨hvalue, hrest⟩ := h
    have htake : text.takeWhile Char.isDigit = text := by
      have hsplit := List.takeWhile_append_dropWhile (p := Char.isDigit)
        (l := text)
      rwa [hrest, List.append_nil] at hsplit
    rw [htake] at hdigits hvalue hrange
    exact ⟨⟨hdigits, hall.mp hrest, hvalue⟩, by omega⟩
  · rintro ⟨⟨hne, hdigits, hvalue⟩, hrange⟩
    have htake : text.takeWhile Char.isDigit = text :=
      List.takeWhile_eq_self_iff.mpr (List.all_eq_true.mp hdigits)
    rw [htake, if_neg hne, if_neg (by omega), hvalue, hall.mpr hdigits]

theorem toSeconds_of_lt {value : Nat} (hvalue : value < 2 ^ 63) :
    toSeconds value = value := by
  unfold toSeconds Int.bmod
  dsimp only
  split_ifs <;> omega

theorem toSeconds_of_le {value : Nat} (hlarge : 2 ^ 63 ≤ value)
    (hrange : value < 2 ^ 64) : toSeconds value = (value : Int) - 2 ^ 64 := by
  unfold toSeconds Int.bmod
  dsimp only
  split_ifs <;> omega

/-- The wait of a number is in bounds exactly when its milliseconds fit. -/
theorem waitOf_bounded_iff {value : Nat} (hrange : value < 2 ^ 64) :
    (∃ wait, (toMilliseconds? (toSeconds value)).map
        (min · maxRateLimitBackoff) = some wait ∧ 0 ≤ wait ∧
      wait ≤ maxRateLimitBackoff) ↔ value ≤ maxExactSeconds := by
  simp only [toMilliseconds?, maxExactSeconds, maxRateLimitBackoff]
  rcases Nat.lt_or_ge value (2 ^ 63) with hsmall | hlarge
  · rw [toSeconds_of_lt hsmall]
    split_ifs with hfits
    · have hcapped : ∀ wait : Int, 0 ≤ wait →
          0 ≤ min wait 30000 ∧ min wait 30000 ≤ 30000 := by
        intro wait hwait
        omega
      exact iff_of_true ⟨_, rfl, hcapped _ (by omega)⟩ (by omega)
    · refine iff_of_false (by simp) ?_
      omega
  · rw [toSeconds_of_le hlarge hrange]
    refine iff_of_false ?_ (by omega)
    rintro ⟨wait, hwait, hnonneg, -⟩
    split_ifs at hwait with hfits
    · have : min (((value : Int) - 2 ^ 64) * 1000) 30000 = wait := by
        simpa using hwait
      omega
    · simp at hwait

theorem isBounded_iff (header : List Char) :
    IsBounded header ↔ ¬ IsOverlong header := by
  by_cases hnumber : ∃ value, IsDecimal (trimmed header) value ∧ value < 2 ^ 64
  · obtain ⟨value, hdecimal, hrange⟩ := hnumber
    have hparsed := fromCharsUInt64_eq_some_nil_iff.mpr ⟨hdecimal, hrange⟩
    have hwait : retryBackoffFor header =
        (toMilliseconds? (toSeconds value)).map (min · maxRateLimitBackoff) := by
      simp only [retryBackoffFor, hparsed, if_neg hdecimal.1]
    have hoverlong : IsOverlong header ↔ ¬ value ≤ maxExactSeconds := by
      constructor
      · rintro ⟨other, hother, hlarge, -⟩
        obtain rfl : other = value := hother.2.2.symm.trans hdecimal.2.2
        exact not_le.mpr hlarge
      · exact fun hlarge => ⟨value, hdecimal, not_le.mp hlarge, hrange⟩
    rw [hoverlong, not_not, ← waitOf_bounded_iff hrange, ← hwait]
    constructor
    · exact fun h => h.wait
    · intro h
      refine ⟨h, fun other hother => ?_⟩
      rw [hwait, waitOf_bounded_iff hrange] at h
      obtain rfl : value = other := by
        simpa [hparsed] using hother
      have hle : value ≤ (2 ^ 63 - 1) / 1000 := h
      exact toSeconds_of_lt (by omega)
  · have hparsed : ∀ value,
        fromCharsUInt64 (trimmed header) ≠ some (value, []) :=
      fun value h => hnumber ⟨value, fromCharsUInt64_eq_some_nil_iff.mp h⟩
    have hwait : retryBackoffFor header = some defaultRateLimitBackoff := by
      simp only [retryBackoffFor]
      split_ifs with hempty
      · rfl
      · rfl
    refine iff_of_true ⟨⟨_, hwait, by decide, by decide⟩, ?_⟩ ?_
    · exact fun value h => absurd h (hparsed value)
    · rintro ⟨value, hdecimal, -, hrange⟩
      exact hnumber ⟨value, hdecimal, hrange⟩

/-- The answer to an attempt, and to every one before it, is rate-limited, and
another attempt is left. -/
def IsRetried (httpGet : RegistryGet) (url : String) (attempt : Nat) : Prop :=
  1 ≤ attempt ∧ attempt < maxRegistryGetAttempts ∧
    ∀ earlier, 1 ≤ earlier → earlier ≤ attempt →
      (httpGet earlier url).value.statusCode = 429

def retryAfterOf (httpGet : RegistryGet) (url : String) (attempt : Nat) :
    List Char :=
  (httpGet attempt url).value.retryAfter

theorem mem_waits_attemptsFrom_iff (httpGet : RegistryGet) (url : String)
    (wait : Option Int) (retries first : Nat) :
    wait ∈ (attemptsFrom httpGet url first retries).waits ↔
      ∃ attempt, first ≤ attempt ∧ attempt < first + retries ∧
        (∀ earlier, first ≤ earlier → earlier ≤ attempt →
          (httpGet earlier url).value.statusCode = 429) ∧
        wait = retryBackoffFor (retryAfterOf httpGet url attempt) := by
  induction retries generalizing first with
  | zero =>
    refine iff_of_false (by simp [attemptsFrom]) ?_
    rintro ⟨attempt, hfirst, hlast, -⟩
    omega
  | succ retries ih =>
    simp only [attemptsFrom]
    split_ifs with hstatus
    · refine iff_of_false (by simp) ?_
      rintro ⟨attempt, hfirst, -, hlimited, -⟩
      exact hstatus (hlimited first le_rfl hfirst)
    · rw [not_not] at hstatus
      rw [List.mem_cons, ih]
      constructor
      · rintro (rfl | ⟨attempt, hfirst, hlast, hlimited, rfl⟩)
        · refine ⟨first, le_rfl, by omega, ?_, rfl⟩
          intro earlier hle hge
          obtain rfl : earlier = first := by omega
          exact hstatus
        · refine ⟨attempt, by omega, by omega, ?_, rfl⟩
          intro earlier hle hge
          rcases Nat.eq_or_lt_of_le hle with rfl | hlt
          · exact hstatus
          · exact hlimited earlier hlt hge
      · rintro ⟨attempt, hfirst, hlast, hlimited, rfl⟩
        rcases Nat.eq_or_lt_of_le hfirst with rfl | hlt
        · exact Or.inl rfl
        · exact Or.inr ⟨attempt, hlt, by omega,
            fun earlier hle hge => hlimited earlier (by omega) hge, rfl⟩

/-- Every wait of a lookup is in bounds, whatever attempt it follows, and no
conversion changes a value on the way to it. -/
structure WaitsBounded (httpGet : RegistryGet) (url : String) : Prop where
  waits : ∀ wait ∈ (getWithRateLimitRetry httpGet url).waits,
    ∃ milliseconds, wait = some milliseconds ∧ 0 ≤ milliseconds ∧
      milliseconds ≤ maxRateLimitBackoff
  exact : ∀ attempt, IsRetried httpGet url attempt → ∀ value,
    fromCharsUInt64 (trimmed (retryAfterOf httpGet url attempt)) =
      some (value, []) → toSeconds value = value

theorem waitsBounded_iff (httpGet : RegistryGet) (url : String) :
    WaitsBounded httpGet url ↔
      ∀ attempt, IsRetried httpGet url attempt →
        ¬ IsOverlong (retryAfterOf httpGet url attempt) := by
  have hmem : ∀ wait, wait ∈ (getWithRateLimitRetry httpGet url).waits ↔
      ∃ attempt, IsRetried httpGet url attempt ∧
        wait = retryBackoffFor (retryAfterOf httpGet url attempt) := by
    intro wait
    rw [getWithRateLimitRetry, mem_waits_attemptsFrom_iff]
    simp only [IsRetried, maxRegistryGetAttempts, and_assoc, Nat.reduceAdd,
      Nat.reduceSub]
  constructor
  · intro h attempt hretried
    rw [← isBounded_iff]
    exact ⟨h.waits _ ((hmem _).mpr ⟨attempt, hretried, rfl⟩),
      h.exact attempt hretried⟩
  · intro h
    constructor
    · intro wait hwait
      obtain ⟨attempt, hretried, rfl⟩ := (hmem wait).mp hwait
      exact ((isBounded_iff _).mpr (h attempt hretried)).wait
    · intro attempt hretried
      exact ((isBounded_iff _).mpr (h attempt hretried)).exact

/-- The largest number of 64 bits makes the first wait negative. -/
theorem not_waitsBounded_largest :
    ¬ WaitsBounded (fun _ _ => { value := {
        statusCode := 429, retryAfter := "18446744073709551615".toList } })
      "https://crates.io/api/v1/crates/serde/1.0.0" := by
  intro h
  obtain ⟨wait, hwait, hnonneg, -⟩ := h.waits (some (-1000)) (by decide +kernel)
  obtain rfl := Option.some.inj hwait
  exact absurd hnonneg (by decide)

end Bomwerk.Vuln.License
