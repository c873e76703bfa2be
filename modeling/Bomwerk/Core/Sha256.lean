import Bomwerk.Support.BlockStream
import Bomwerk.Support.Utf8
import Mathlib.Analysis.SpecialFunctions.Pow.Real
import Mathlib.Data.List.GetD
import Mathlib.Data.Nat.Prime.Basic
import Mathlib.Tactic.IntervalCases

/-!
# The secure hash standard

SHA-256 as FIPS 180-4 defines it, for messages of whole bytes.  The constants
are fractional parts of roots of primes, and words are concatenations of bytes.
-/

namespace Bomwerk.Core.SecureHash

/-- `ROTR^n(x)`. -/
def rotr (n x : UInt32) : UInt32 := (x >>> n) ||| (x <<< (32 - n))

def ch (x y z : UInt32) : UInt32 := (x &&& y) ^^^ (~~~x &&& z)

def maj (x y z : UInt32) : UInt32 := (x &&& y) ^^^ (x &&& z) ^^^ (y &&& z)

def upperSigma0 (x : UInt32) : UInt32 := rotr 2 x ^^^ rotr 13 x ^^^ rotr 22 x

def upperSigma1 (x : UInt32) : UInt32 := rotr 6 x ^^^ rotr 11 x ^^^ rotr 25 x

def lowerSigma0 (x : UInt32) : UInt32 := rotr 7 x ^^^ rotr 18 x ^^^ (x >>> 3)

def lowerSigma1 (x : UInt32) : UInt32 := rotr 17 x ^^^ rotr 19 x ^^^ (x >>> 10)

def firstPrimes : List ℕ :=
  (List.range 312).filter Nat.Prime

/-- The first 32 bits of the fractional part of the `n`-th root of `p`. -/
noncomputable def rootFraction (n p : ℕ) : UInt32 :=
  UInt32.ofNat ⌊Int.fract ((p : ℝ) ^ (n : ℝ)⁻¹) * 2 ^ 32⌋₊

/-- `K_t`. -/
noncomputable def roundConstant (t : ℕ) : UInt32 :=
  rootFraction 3 (firstPrimes.getD t 0)

/-- `H^(0)`. -/
noncomputable def initialHash : Vector UInt32 8 :=
  Vector.ofFn fun i => rootFraction 2 (firstPrimes.getD i 0)

/-- The bytes of a 64-bit number, most significant first. -/
def lengthBytes (bits : BitVec 64) : List UInt8 :=
  (List.range 8).map fun i => ⟨bits.extractLsb' (8 * (7 - i)) 8⟩

def zeroBytes (length : ℕ) : ℕ := (55 + 64 - length % 64) % 64

/-- A one bit, zeros, and the length of the message in bits. -/
def pad (message : List UInt8) : List UInt8 :=
  message ++ 0x80 :: List.replicate (zeroBytes message.length) 0 ++
    lengthBytes (BitVec.ofNat 64 (8 * message.length))

/-- Word `t` of a block. -/
def blockWord (block : List UInt8) (t : ℕ) : UInt32 :=
  ⟨(block.getD (4 * t) 0).toBitVec ++ (block.getD (4 * t + 1) 0).toBitVec ++
    (block.getD (4 * t + 2) 0).toBitVec ++ (block.getD (4 * t + 3) 0).toBitVec⟩

/-- `W_t`. -/
def messageSchedule (block : List UInt8) (t : ℕ) : UInt32 :=
  if t < 16 then blockWord block t
  else
    lowerSigma1 (messageSchedule block (t - 2)) +
      messageSchedule block (t - 7) +
      lowerSigma0 (messageSchedule block (t - 15)) +
      messageSchedule block (t - 16)

@[ext] structure Working where
  a : UInt32
  b : UInt32
  c : UInt32
  d : UInt32
  e : UInt32
  f : UInt32
  g : UInt32
  h : UInt32

def round (k w : UInt32) (v : Working) : Working :=
  let t1 := v.h + upperSigma1 v.e + ch v.e v.f v.g + k + w
  let t2 := upperSigma0 v.a + maj v.a v.b v.c
  ⟨t1 + t2, v.a, v.b, v.c, v.d + t1, v.e, v.f, v.g⟩

def working (hash : Vector UInt32 8) : Working :=
  ⟨hash[0], hash[1], hash[2], hash[3], hash[4], hash[5], hash[6], hash[7]⟩

/-- The working variables added to the intermediate hash value. -/
def nextHash (hash : Vector UInt32 8) (v : Working) : Vector UInt32 8 :=
  #v[v.a + hash[0], v.b + hash[1], v.c + hash[2], v.d + hash[3],
    v.e + hash[4], v.f + hash[5], v.g + hash[6], v.h + hash[7]]

/-- The intermediate hash value after a block. -/
noncomputable def hashBlock (hash : Vector UInt32 8) (block : List UInt8) :
    Vector UInt32 8 :=
  nextHash hash ((List.range 64).foldl
    (fun v t => round (roundConstant t) (messageSchedule block t) v)
    (working hash))

def wordBytes (word : UInt32) : List UInt8 :=
  (List.range 4).map fun i => ⟨word.toBitVec.extractLsb' (8 * (3 - i)) 8⟩

/-- The message digest. -/
noncomputable def sha256 (message : List UInt8) : List UInt8 :=
  let padded := pad message
  let hash := (List.range (padded.length / 64)).foldl
    (fun hash i => hashBlock hash ((padded.drop (i * 64)).take 64)) initialHash
  hash.toList.flatMap wordBytes

/-- A root is located by a power of its integer neighbours. -/
theorem rootFraction_eq {n p whole : ℕ} {word : UInt32} (hn : n ≠ 0)
    (hbelow : (whole * 2 ^ 32 + word.toNat) ^ n ≤ p * (2 ^ 32) ^ n)
    (habove : p * (2 ^ 32) ^ n < (whole * 2 ^ 32 + word.toNat + 1) ^ n) :
    rootFraction n p = word := by
  have hword : word.toNat < 2 ^ 32 := word.toNat_lt
  set x : ℝ := (p : ℝ) ^ (n : ℝ)⁻¹ with hx
  have hx0 : 0 ≤ x := Real.rpow_nonneg p.cast_nonneg _
  have hpow : (x * 2 ^ 32) ^ n = p * (2 ^ 32) ^ n := by
    rw [mul_pow, hx, Real.rpow_inv_natCast_pow p.cast_nonneg hn]
  have hlow : (whole * 2 ^ 32 + word.toNat : ℝ) ≤ x * 2 ^ 32 := by
    rw [← pow_le_pow_iff_left₀ (by positivity) (by positivity) hn, hpow]
    exact_mod_cast hbelow
  have hhigh : x * 2 ^ 32 < (whole * 2 ^ 32 + word.toNat + 1 : ℝ) := by
    rw [← pow_lt_pow_iff_left₀ (by positivity) (by positivity) hn, hpow]
    exact_mod_cast habove
  have hword' : (word.toNat : ℝ) + 1 ≤ 2 ^ 32 := by exact_mod_cast hword
  have hword : (0 : ℝ) ≤ word.toNat := Nat.cast_nonneg word.toNat
  have hfloor : ⌊x⌋ = (whole : ℤ) := by
    rw [Int.floor_eq_iff]
    constructor
    · push_cast
      nlinarith [hword]
    · push_cast
      nlinarith
  have hfract : Int.fract x * 2 ^ 32 = x * 2 ^ 32 - whole * 2 ^ 32 := by
    rw [Int.fract, hfloor]
    push_cast
    ring
  have hnat : ⌊Int.fract x * 2 ^ 32⌋₊ = word.toNat := by
    rw [Nat.floor_eq_iff (by rw [hfract]; linarith [hword])]
    rw [hfract]
    constructor <;> linarith
  rw [rootFraction, hnat, UInt32.ofNat_toNat]

end Bomwerk.Core.SecureHash

/-!
# The streaming hash

`core/sha256.cpp`: a hash that is fed in slices and asked for its digest at any
time, against the hash of the whole message.
-/

namespace Bomwerk.Core

open Bomwerk.Support

def blockBytes : Nat := 64

def lengthSuffixBytes : Nat := 8

def paddingStartByte : UInt8 := 0x80

def roundConstants : List UInt32 :=
  [0x428a2f98, 0x71374491, 0xb5c0fbcf, 0xe9b5dba5, 0x3956c25b, 0x59f111f1,
    0x923f82a4, 0xab1c5ed5, 0xd807aa98, 0x12835b01, 0x243185be, 0x550c7dc3,
    0x72be5d74, 0x80deb1fe, 0x9bdc06a7, 0xc19bf174, 0xe49b69c1, 0xefbe4786,
    0x0fc19dc6, 0x240ca1cc, 0x2de92c6f, 0x4a7484aa, 0x5cb0a9dc, 0x76f988da,
    0x983e5152, 0xa831c66d, 0xb00327c8, 0xbf597fc7, 0xc6e00bf3, 0xd5a79147,
    0x06ca6351, 0x14292967, 0x27b70a85, 0x2e1b2138, 0x4d2c6dfc, 0x53380d13,
    0x650a7354, 0x766a0abb, 0x81c2c92e, 0x92722c85, 0xa2bfe8a1, 0xa81a664b,
    0xc24b8b70, 0xc76c51a3, 0xd192e819, 0xd6990624, 0xf40e3585, 0x106aa070,
    0x19a4c116, 0x1e376c08, 0x2748774c, 0x34b0bcb5, 0x391c0cb3, 0x4ed8aa4a,
    0x5b9cca4f, 0x682e6ff3, 0x748f82ee, 0x78a5636f, 0x84c87814, 0x8cc70208,
    0x90befffa, 0xa4506ceb, 0xbef9a3f7, 0xc67178f2]

def rotateRight (value bits : UInt32) : UInt32 :=
  (value >>> bits) ||| (value <<< (32 - bits))

/-- The first loop over the schedule: word `word_index` of the block. -/
def scheduleWord (block : List UInt8) (wordIndex : Nat) : UInt32 :=
  let byteOffset := wordIndex * 4
  ((block.getD byteOffset 0).toUInt32 <<< 24) |||
    ((block.getD (byteOffset + 1) 0).toUInt32 <<< 16) |||
    ((block.getD (byteOffset + 2) 0).toUInt32 <<< 8) |||
    (block.getD (byteOffset + 3) 0).toUInt32

/-- One turn of the second loop, which fills `schedule[word_index]`. -/
def extendSchedule (schedule : List UInt32) (wordIndex : Nat) : List UInt32 :=
  let previous15 := schedule.getD (wordIndex - 15) 0
  let previous2 := schedule.getD (wordIndex - 2) 0
  let sigma0 := rotateRight previous15 7 ^^^ rotateRight previous15 18 ^^^
    (previous15 >>> 3)
  let sigma1 := rotateRight previous2 17 ^^^ rotateRight previous2 19 ^^^
    (previous2 >>> 10)
  schedule ++ [schedule.getD (wordIndex - 16) 0 + sigma0 +
    schedule.getD (wordIndex - 7) 0 + sigma1]

def scheduleOf (block : List UInt8) : List UInt32 :=
  (List.range' 16 48).foldl extendSchedule
    ((List.range 16).map (scheduleWord block))

/-- One turn of the last loop, on the local variables. -/
def compressRound (schedule : List UInt32) (v : SecureHash.Working)
    (round : Nat) : SecureHash.Working :=
  let bigSigma1 := rotateRight v.e 6 ^^^ rotateRight v.e 11 ^^^
    rotateRight v.e 25
  let choose := (v.e &&& v.f) ^^^ (~~~v.e &&& v.g)
  let temporary1 := v.h + bigSigma1 + choose + roundConstants.getD round 0 +
    schedule.getD round 0
  let bigSigma0 := rotateRight v.a 2 ^^^ rotateRight v.a 13 ^^^
    rotateRight v.a 22
  let majority := (v.a &&& v.b) ^^^ (v.a &&& v.c) ^^^ (v.b &&& v.c)
  let temporary2 := bigSigma0 + majority
  { a := temporary1 + temporary2
    b := v.a
    c := v.b
    d := v.c
    e := v.d + temporary1
    f := v.e
    g := v.f
    h := v.g }

def compressBlock (state : Vector UInt32 8) (block : List UInt8) :
    Vector UInt32 8 :=
  let v := (List.range 64).foldl (compressRound (scheduleOf block))
    { a := state[0], b := state[1], c := state[2], d := state[3]
      e := state[4], f := state[5], g := state[6], h := state[7] }
  #v[state[0] + v.a, state[1] + v.b, state[2] + v.c, state[3] + v.d,
    state[4] + v.e, state[5] + v.f, state[6] + v.g, state[7] + v.h]

structure Sha256 where
  state : Vector UInt32 8 :=
    #v[0x6a09e667, 0xbb67ae85, 0x3c6ef372, 0xa54ff53a, 0x510e527f, 0x9b05688c,
      0x1f83d9ab, 0x5be0cd19]
  block : List UInt8 := List.replicate 64 0
  bufferedBytes : Nat := 0
  totalBytes : UInt64 := 0

namespace Sha256

/-- `std::copy_n(bytes.begin(), bytes.size(), array.begin() + offset)`. -/
def copyInto (array : List UInt8) (offset : Nat) (bytes : List UInt8) :
    List UInt8 :=
  array.take offset ++ bytes ++ array.drop (offset + bytes.length)

/-- The loop of `update` over whole blocks, from an offset on: the state and
the bytes that are left. -/
def compressBlocks (state : Vector UInt32 8) (bytes : List UInt8) :
    Vector UInt32 8 × List UInt8 :=
  if blockBytes ≤ bytes.length then
    compressBlocks (compressBlock state (bytes.take blockBytes))
      (bytes.drop blockBytes)
  else (state, bytes)
termination_by bytes.length
decreasing_by
  rw [List.length_drop, blockBytes] at *
  omega

/-- The first part of `update`: a partially filled block is topped up.  The
hash and the bytes that are not taken yet. -/
def topUp (hash : Sha256) (bytes : List UInt8) : Sha256 × List UInt8 :=
  if 0 < hash.bufferedBytes then
    let taken := min (blockBytes - hash.bufferedBytes) bytes.length
    let block := copyInto hash.block hash.bufferedBytes (bytes.take taken)
    let bufferedBytes := hash.bufferedBytes + taken
    if bufferedBytes = blockBytes then
      ({ hash with
          state := compressBlock hash.state block
          block := block
          bufferedBytes := 0 },
        bytes.drop taken)
    else
      ({ hash with block := block, bufferedBytes := bufferedBytes },
        bytes.drop taken)
  else (hash, bytes)

def update (hash : Sha256) (bytes : List UInt8) : Sha256 :=
  let hash :=
    { hash with totalBytes := hash.totalBytes + UInt64.ofNat bytes.length }
  let (hash, bytes) := hash.topUp bytes
  let (state, remaining) := compressBlocks hash.state bytes
  if 0 < remaining.length then
    { hash with
      state := state
      block := copyInto hash.block 0 remaining
      bufferedBytes := remaining.length }
  else { hash with state := state }

/-- The loop of `digest` that fills the tail with zeros; within a block's
length it ends. -/
def fillTail : (fuel : Nat) → List UInt8 → List UInt8
  | 0, tail => tail
  | fuel + 1, tail =>
    if tail.length % blockBytes ≠ blockBytes - lengthSuffixBytes then
      fillTail fuel (tail ++ [0])
    else tail

/-- The loop of `digest` over the shifts 56, 48, …, 0. -/
def lengthSuffix (messageBitLength : UInt64) : List UInt8 :=
  (List.range 8).map fun i =>
    (messageBitLength >>> UInt64.ofNat (56 - 8 * i)).toUInt8

/-- The loop of `digest` over the tail. -/
def compressTail (state : Vector UInt32 8) (tail : List UInt8) :
    Vector UInt32 8 :=
  (List.range ((tail.length + blockBytes - 1) / blockBytes)).foldl
    (fun state i =>
      compressBlock state ((tail.drop (i * blockBytes)).take blockBytes)) state

/-- The last loop of `digest`. -/
def digestBytes (state : Vector UInt32 8) : List UInt8 :=
  state.toList.flatMap fun word : UInt32 =>
    [(word >>> 24).toUInt8, (word >>> 16).toUInt8, (word >>> 8).toUInt8,
      word.toUInt8]

/-- What `digest` puts into its tail. -/
def tailOf (hash : Sha256) : List UInt8 :=
  fillTail blockBytes
      (hash.block.take hash.bufferedBytes ++ [paddingStartByte]) ++
    lengthSuffix (hash.totalBytes * 8)

def digest (hash : Sha256) : List UInt8 :=
  digestBytes (compressTail hash.state hash.tailOf)

end Sha256

def sha256 (bytes : List UInt8) : List UInt8 :=
  (Sha256.update {} bytes).digest

/-! ## Blocks against the standard -/

theorem roundConstants_eq {t : Nat} (ht : t < 64) :
    roundConstants.getD t 0 = SecureHash.roundConstant t := by
  have hroots : ∀ t < 64, ∃ whole < 7,
      let p := SecureHash.firstPrimes.getD t 0
      let word := roundConstants.getD t 0
      (whole * 2 ^ 32 + word.toNat) ^ 3 ≤ p * (2 ^ 32) ^ 3 ∧
        p * (2 ^ 32) ^ 3 < (whole * 2 ^ 32 + word.toNat + 1) ^ 3 := by
    decide +kernel
  obtain ⟨whole, -, hbelow, habove⟩ := hroots t ht
  exact (SecureHash.rootFraction_eq (by decide) hbelow habove).symm

theorem initialState_eq : ({} : Sha256).state = SecureHash.initialHash := by
  have hroots : ∀ i : Fin 8, ∃ whole < 5,
      let p := SecureHash.firstPrimes.getD i 0
      let word := ({} : Sha256).state[i]
      (whole * 2 ^ 32 + word.toNat) ^ 2 ≤ p * (2 ^ 32) ^ 2 ∧
        p * (2 ^ 32) ^ 2 < (whole * 2 ^ 32 + word.toNat + 1) ^ 2 := by
    decide +kernel
  apply Vector.ext
  intro i hi
  obtain ⟨whole, -, hbelow, habove⟩ := hroots ⟨i, hi⟩
  rw [SecureHash.initialHash, Vector.getElem_ofFn]
  exact (SecureHash.rootFraction_eq (by decide) hbelow habove).symm

theorem scheduleWord_eq (block : List UInt8) (wordIndex : Nat) :
    scheduleWord block wordIndex = SecureHash.blockWord block wordIndex := by
  have hjoin (a b c d : UInt8) :
      (a.toUInt32 <<< 24) ||| (b.toUInt32 <<< 16) ||| (c.toUInt32 <<< 8) |||
        d.toUInt32 =
      ⟨a.toBitVec ++ b.toBitVec ++ c.toBitVec ++ d.toBitVec⟩ := by
    apply UInt32.eq_of_toBitVec_eq
    apply BitVec.eq_of_getLsbD_eq
    intro i hi
    simp only [UInt32.toBitVec_or, UInt32.toBitVec_shiftLeft,
      UInt8.toBitVec_toUInt32, BitVec.getLsbD_or, BitVec.getLsbD_append]
    interval_cases i <;> simp
  rw [scheduleWord, SecureHash.blockWord, hjoin, Nat.mul_comm wordIndex 4]

/-- A turn of the second loop adds the next word of the recurrence. -/
theorem extendSchedule_eq (block : List UInt8) {wordIndex : Nat}
    (hindex : 16 ≤ wordIndex) :
    extendSchedule
        ((List.range wordIndex).map (SecureHash.messageSchedule block))
        wordIndex =
      (List.range (wordIndex + 1)).map (SecureHash.messageSchedule block) := by
  have hword (back : Nat) (hback : 0 < back) (hle : back ≤ 16) :
      ((List.range wordIndex).map (SecureHash.messageSchedule block)).getD
          (wordIndex - back) 0 =
        SecureHash.messageSchedule block (wordIndex - back) := by
    rw [List.getD_eq_getElem _ _ (by simp; omega), List.getElem_map,
      List.getElem_range]
  -- the code adds the four terms from the back
  have hsum (u v w x : UInt32) : u + v + w + x = x + w + v + u := by ac_rfl
  rw [List.range_succ, List.map_append, List.map_singleton, extendSchedule,
    SecureHash.messageSchedule, if_neg (by omega),
    hword 16 (by omega) (by omega), hword 15 (by omega) (by omega),
    hword 7 (by omega) (by omega), hword 2 (by omega) (by omega), hsum]
  rfl

theorem scheduleOf_eq (block : List UInt8) :
    scheduleOf block =
      (List.range 64).map (SecureHash.messageSchedule block) := by
  have hloop (count : Nat) :
      (List.range' 16 count).foldl extendSchedule
          ((List.range 16).map (scheduleWord block)) =
        (List.range (16 + count)).map (SecureHash.messageSchedule block) := by
    induction count with
    | zero =>
      apply List.map_congr_left
      intro t ht
      rw [SecureHash.messageSchedule, if_pos (List.mem_range.mp ht),
        scheduleWord_eq]
    | succ count ih =>
      rw [List.range'_1_concat, List.foldl_append, ih]
      exact extendSchedule_eq block (by omega)
  exact hloop 48

theorem compressRound_eq (block : List UInt8) {round : Nat} (hround : round < 64)
    (v : SecureHash.Working) :
    compressRound (scheduleOf block) v round =
      SecureHash.round (SecureHash.roundConstant round)
        (SecureHash.messageSchedule block round) v := by
  have hword : (scheduleOf block).getD round 0 =
      SecureHash.messageSchedule block round := by
    rw [scheduleOf_eq, List.getD_eq_getElem _ _ (by simpa using hround),
      List.getElem_map, List.getElem_range]
  simp only [compressRound, hword, roundConstants_eq hround]
  rfl


theorem rounds_eq (state : Vector UInt32 8) (block : List UInt8) :
    (List.range 64).foldl (compressRound (scheduleOf block))
        (SecureHash.working state) =
      (List.range 64).foldl
        (fun v t => SecureHash.round (SecureHash.roundConstant t)
          (SecureHash.messageSchedule block t) v)
        (SecureHash.working state) := by
  apply List.foldl_ext
  intro v t ht
  exact compressRound_eq block (List.mem_range.mp ht) v

theorem compressBlock_eq (state : Vector UInt32 8) (block : List UInt8) :
    compressBlock state block = SecureHash.hashBlock state block := by
  have hadd (v : SecureHash.Working) :
      #v[state[0] + v.a, state[1] + v.b, state[2] + v.c, state[3] + v.d,
        state[4] + v.e, state[5] + v.f, state[6] + v.g, state[7] + v.h] =
      SecureHash.nextHash state v := by
    simp only [SecureHash.nextHash, UInt32.add_comm]
  exact (hadd _).trans
    (congrArg (SecureHash.nextHash state) (rounds_eq state block))


/-! ## The buffer -/

namespace Sha256

theorem length_copyInto {array bytes : List UInt8} {offset : Nat}
    (hfits : offset + bytes.length ≤ array.length) :
    (copyInto array offset bytes).length = array.length := by
  rw [copyInto, List.length_append, List.length_append, List.length_take,
    List.length_drop]
  omega

theorem take_copyInto {array bytes : List UInt8} {offset : Nat}
    (hfits : offset + bytes.length ≤ array.length) :
    (copyInto array offset bytes).take (offset + bytes.length) =
      array.take offset ++ bytes := by
  have hlength : (array.take offset ++ bytes).length =
      offset + bytes.length := by
    rw [List.length_append, List.length_take]
    omega
  rw [copyInto, ← hlength, List.take_left]

theorem compressBlocks_eq (state : Vector UInt32 8) (bytes : List UInt8) :
    compressBlocks state bytes =
      absorb compressBlock blockBytes state bytes := by
  induction state, bytes using compressBlocks.induct with
  | case1 state bytes hfull ih =>
    rw [compressBlocks, if_pos hfull, ih, absorb_of_le (by decide) hfull]
  | case2 state bytes hshort =>
    rw [compressBlocks, if_neg hshort,
      absorb_of_length_lt (Nat.lt_of_not_le hshort)]

def buffered (hash : Sha256) : List UInt8 :=
  hash.block.take hash.bufferedBytes

/-- The buffer is an incomplete block. -/
structure WellFormed (hash : Sha256) : Prop where
  length_block : hash.block.length = blockBytes
  bufferedBytes_lt : hash.bufferedBytes < blockBytes

theorem WellFormed.length_buffered {hash : Sha256} (hwf : hash.WellFormed) :
    hash.buffered.length = hash.bufferedBytes := by
  apply List.length_take_of_le
  rw [hwf.length_block]
  exact Nat.le_of_lt hwf.bufferedBytes_lt

/-- The hash after these bytes: whole blocks are in its state and the rest is
in its buffer. -/
structure HasFed (hash : Sha256) (fed : List UInt8) : Prop
    extends hash.WellFormed where
  absorbed : (hash.state, hash.buffered) =
    absorb compressBlock blockBytes ({} : Sha256).state fed
  totalBytes_eq : hash.totalBytes = UInt64.ofNat fed.length

theorem hasFed_nil : HasFed {} [] where
  length_block := List.length_replicate
  bufferedBytes_lt := by decide
  absorbed := (absorb_of_length_lt (by decide) _).symm
  totalBytes_eq := rfl

/-- Topping up takes bytes over into the buffer, until it or they run out. -/
theorem topUp_spec {hash : Sha256} (hwf : hash.WellFormed)
    (bytes : List UInt8) :
    ∃ hash' rest, hash.topUp bytes = (hash', rest) ∧
      hash'.WellFormed ∧ hash'.totalBytes = hash.totalBytes ∧
      (hash'.buffered = [] ∨ rest = []) ∧
      absorb compressBlock blockBytes hash'.state (hash'.buffered ++ rest) =
        absorb compressBlock blockBytes hash.state (hash.buffered ++ bytes) := by
  by_cases hpartial : 0 < hash.bufferedBytes
  · rw [topUp, if_pos hpartial]
    extract_lets taken block bufferedBytes
    have hlength := hwf.length_block
    have hlt := hwf.bufferedBytes_lt
    have htaken : (bytes.take taken).length = taken := by
      apply List.length_take_of_le
      exact Nat.min_le_right _ _
    have hfits : hash.bufferedBytes + (bytes.take taken).length ≤
        hash.block.length := by
      rw [htaken, hlength]
      have hroom : taken ≤ blockBytes - hash.bufferedBytes :=
        Nat.min_le_left _ _
      omega
    have hblock : block.length = blockBytes := by
      rw [length_copyInto hfits, hlength]
    have hcopied : block.take bufferedBytes =
        hash.buffered ++ bytes.take taken := by
      rw [buffered, ← take_copyInto hfits, htaken]
    have hsplit : hash.buffered ++ bytes =
        block.take bufferedBytes ++ bytes.drop taken := by
      rw [hcopied, List.append_assoc, List.take_append_drop]
    by_cases hfull : bufferedBytes = blockBytes
    · rw [if_pos hfull]
      refine ⟨_, _, rfl, ⟨hblock, Nat.zero_lt_succ 63⟩, rfl, .inl rfl, ?_⟩
      rw [hsplit, hfull, ← hblock, List.take_length, hblock,
        absorb_block_append (by decide) hblock]
      rfl
    · rw [if_neg hfull]
      have hmin : taken = min (blockBytes - hash.bufferedBytes) bytes.length :=
        rfl
      have hall : taken = bytes.length := by omega
      have hroom : bufferedBytes < blockBytes := by
        omega
      refine ⟨_, _, rfl, ⟨hblock, hroom⟩, rfl, .inr ?_, ?_⟩
      · exact List.drop_eq_nil_of_le (Nat.le_of_eq hall.symm)
      · rw [hsplit]
        rfl
  · rw [topUp, if_neg hpartial]
    have hempty : hash.bufferedBytes = 0 := Nat.eq_zero_of_not_pos hpartial
    refine ⟨_, _, rfl, hwf, rfl, .inl ?_, rfl⟩
    rw [buffered, hempty, List.take_zero]

/-- `update` takes in the bytes behind those taken in before. -/
theorem HasFed.update {hash : Sha256} {fed : List UInt8}
    (hfed : hash.HasFed fed) (bytes : List UInt8) :
    (hash.update bytes).HasFed (fed ++ bytes) := by
  obtain ⟨hash', rest, htopUp, hwf, htotal, hdone, habsorb⟩ :=
    @topUp_spec { hash with
      totalBytes := hash.totalBytes + UInt64.ofNat bytes.length }
      ⟨hfed.length_block, hfed.bufferedBytes_lt⟩ bytes
  have htotal' : hash'.totalBytes = UInt64.ofNat (fed ++ bytes).length := by
    rw [htotal, hfed.totalBytes_eq, List.length_append, UInt64.ofNat_add]
  have hstream : absorb compressBlock blockBytes hash'.state
        (hash'.buffered ++ rest) =
      absorb compressBlock blockBytes ({} : Sha256).state (fed ++ bytes) := by
    rw [absorb_append (by decide) _ fed bytes, ← hfed.absorbed]
    exact habsorb
  rw [Sha256.update]
  simp only [htopUp, compressBlocks_eq]
  rcases hdone with hempty | rfl
  · rw [hempty, List.nil_append] at hstream
    rcases hrest : absorb compressBlock blockBytes hash'.state rest with
      ⟨state, remaining⟩
    have hshort : remaining.length < blockBytes := by
      have hmod := @length_absorb_snd _ _ compressBlock blockBytes (by decide)
        hash'.state rest
      rw [hrest] at hmod
      rw [hmod]
      exact Nat.mod_lt _ (by decide)
    by_cases hkeep : 0 < remaining.length
    · have hfits : 0 + remaining.length ≤ hash'.block.length := by
        rw [hwf.length_block]
        omega
      rw [if_pos hkeep]
      refine ⟨⟨?_, hshort⟩, ?_, htotal'⟩
      · exact (length_copyInto hfits).trans hwf.length_block
      · have hbuffered := take_copyInto hfits
        rw [Nat.zero_add, List.take_zero, List.nil_append] at hbuffered
        rw [← hstream, hrest, buffered, hbuffered]
    · obtain rfl : remaining = [] :=
        List.eq_nil_of_length_eq_zero (by omega)
      rw [if_neg hkeep]
      refine ⟨⟨hwf.length_block, hwf.bufferedBytes_lt⟩, ?_, htotal'⟩
      rw [← hstream, hrest, ← hempty]
      rfl
  · rw [absorb_of_length_lt (by decide)]
    simp only [List.length_nil, Nat.lt_irrefl, if_false]
    refine ⟨⟨hwf.length_block, hwf.bufferedBytes_lt⟩, ?_, htotal'⟩
    rw [List.append_nil, absorb_of_length_lt
      (hwf.length_buffered ▸ hwf.bufferedBytes_lt)] at hstream
    exact hstream

/-! ## The digest -/

/-- The loop of the padding fills up with zeros. -/
theorem fillTail_eq {fuel : Nat} {tail : List UInt8}
    (hfuel : (56 + 64 - tail.length % 64) % 64 ≤ fuel) :
    fillTail fuel tail =
      tail ++ List.replicate ((56 + 64 - tail.length % 64) % 64) 0 := by
  induction fuel generalizing tail with
  | zero => simp [fillTail, Nat.le_zero.mp hfuel]
  | succ fuel ih =>
    rw [fillTail, blockBytes, lengthSuffixBytes]
    by_cases hmore : tail.length % 64 ≠ 64 - 8
    · have hone : (56 + 64 - tail.length % 64) % 64 =
          (56 + 64 - (tail ++ [0]).length % 64) % 64 + 1 := by
        rw [List.length_append, List.length_singleton]
        omega
      rw [if_pos hmore, ih (by omega), hone, List.replicate_succ,
        List.append_assoc, List.singleton_append]
    · rw [if_neg hmore]
      have hnone : (56 + 64 - tail.length % 64) % 64 = 0 := by omega
      rw [hnone, List.replicate_zero, List.append_nil]

theorem lengthSuffix_eq (bits : UInt64) :
    lengthSuffix bits = SecureHash.lengthBytes bits.toBitVec := by
  apply List.map_congr_left
  intro i hi
  rw [List.mem_range] at hi
  apply UInt8.eq_of_toBitVec_eq
  apply BitVec.eq_of_getLsbD_eq
  intro j hj
  interval_cases i <;> simp [hj]

theorem digestBytes_eq (state : Vector UInt32 8) :
    digestBytes state = state.toList.flatMap SecureHash.wordBytes := by
  apply List.flatMap_congr
  intro word _
  simp only [SecureHash.wordBytes, List.range, List.range.loop, List.map,
    List.cons.injEq, and_true]
  refine ⟨?_, ?_, ?_, ?_⟩
  all_goals
    apply UInt8.eq_of_toBitVec_eq
    apply BitVec.eq_of_getLsbD_eq
    intro i hi
    simp [hi]

/-- The tail is the padded message behind its whole blocks. -/
theorem HasFed.tailOf {hash : Sha256} {fed : List UInt8}
    (hfed : hash.HasFed fed) :
    hash.tailOf = hash.buffered ++
      0x80 :: List.replicate (SecureHash.zeroBytes fed.length) 0 ++
        SecureHash.lengthBytes (BitVec.ofNat 64 (8 * fed.length)) := by
  have hbuffered : hash.buffered.length = fed.length % 64 := by
    have hlength := @length_absorb_snd _ _ compressBlock blockBytes (by decide)
      ({} : Sha256).state fed
    rw [← hfed.absorbed] at hlength
    exact hlength
  have hzeros : (56 + 64 -
        (hash.buffered ++ [paddingStartByte]).length % 64) % 64 =
      SecureHash.zeroBytes fed.length := by
    rw [List.length_append, List.length_singleton, hbuffered,
      SecureHash.zeroBytes]
    omega
  have hbits : (hash.totalBytes * 8).toBitVec =
      BitVec.ofNat 64 (8 * fed.length) := by
    rw [hfed.totalBytes_eq, Nat.mul_comm, BitVec.ofNat_mul]
    rfl
  have hfill := @fillTail_eq blockBytes (hash.buffered ++ [paddingStartByte])
    (Nat.le_of_lt (Nat.mod_lt _ (by decide)))
  rw [hzeros] at hfill
  rw [Sha256.tailOf, lengthSuffix_eq, hbits]
  rw [buffered] at hfill ⊢
  rw [hfill, List.append_assoc _ [_], List.singleton_append]
  rfl

theorem compressTail_eq (state : Vector UInt32 8) {tail : List UInt8}
    {count : Nat} (hlength : tail.length = count * blockBytes) :
    Sha256.compressTail state tail =
      (absorb compressBlock blockBytes state tail).1 := by
  have hcount : (tail.length + blockBytes - 1) / blockBytes = count := by
    rw [hlength, blockBytes]
    omega
  rw [absorb_of_length_eq (by decide) count state hlength,
    Sha256.compressTail, hcount]

/-- The padded message is the bytes taken in and a suffix that completes the
tail. -/
theorem HasFed.absorb_pad {hash : Sha256} {fed : List UInt8}
    (hfed : hash.HasFed fed) :
    absorb compressBlock blockBytes ({} : Sha256).state (SecureHash.pad fed) =
      absorb compressBlock blockBytes hash.state hash.tailOf := by
  rw [SecureHash.pad, List.append_assoc, absorb_append (by decide),
    ← hfed.absorbed, hfed.tailOf, List.append_assoc]

theorem length_pad (message : List UInt8) :
    (SecureHash.pad message).length =
      (SecureHash.pad message).length / 64 * 64 := by
  rw [SecureHash.pad, SecureHash.zeroBytes, SecureHash.lengthBytes]
  simp only [List.length_append, List.length_cons, List.length_replicate,
    List.length_map, List.length_range]
  omega

theorem HasFed.length_tailOf {hash : Sha256} {fed : List UInt8}
    (hfed : hash.HasFed fed) :
    hash.tailOf.length = hash.tailOf.length / blockBytes * blockBytes := by
  have hmod := @length_absorb_snd _ _ compressBlock blockBytes (by decide)
    hash.state hash.tailOf
  rw [← hfed.absorb_pad, length_absorb_snd (by decide), length_pad,
    ← blockBytes, Nat.mul_mod_left] at hmod
  rw [Nat.div_mul_cancel (Nat.dvd_of_mod_eq_zero hmod.symm)]

theorem HasFed.compressTail {hash : Sha256} {fed : List UInt8}
    (hfed : hash.HasFed fed) :
    Sha256.compressTail hash.state hash.tailOf =
      (List.range ((SecureHash.pad fed).length / 64)).foldl
        (fun state i => SecureHash.hashBlock state
          (((SecureHash.pad fed).drop (i * 64)).take 64))
        SecureHash.initialHash := by
  have hpadded := @absorb_of_length_eq _ _ compressBlock blockBytes
    (by decide) _ ({} : Sha256).state _ (length_pad fed)
  rw [compressTail_eq hash.state hfed.length_tailOf, ← hfed.absorb_pad, hpadded,
    initialState_eq]
  simp only [compressBlock_eq]
  rfl

theorem HasFed.digest {hash : Sha256} {fed : List UInt8}
    (hfed : hash.HasFed fed) : hash.digest = SecureHash.sha256 fed := by
  rw [Sha256.digest, digestBytes_eq, hfed.compressTail]
  rfl

/-! ## Calls in any order -/

inductive Call where
  | update (bytes : List UInt8)
  | digest

/-- A run of calls: the hash after them and the digests they returned. -/
def run (hash : Sha256) : List Call → Sha256 × List (List UInt8)
  | [] => (hash, [])
  | .update bytes :: calls => run (hash.update bytes) calls
  | .digest :: calls =>
    ((run hash calls).1, hash.digest :: (run hash calls).2)

/-- The message that a run of calls feeds. -/
def fedBy (calls : List Call) : List UInt8 :=
  calls.flatMap fun call =>
    match call with
    | .update bytes => bytes
    | .digest => []

theorem run_append (hash : Sha256) (before after : List Call) :
    run hash (before ++ after) = ((run (run hash before).1 after).1,
        (run hash before).2 ++ (run (run hash before).1 after).2) := by
  induction before generalizing hash with
  | nil => rfl
  | cons call before ih =>
    cases call with
    | update bytes => exact ih (hash.update bytes)
    | digest =>
      rw [List.cons_append, run, ih]
      rfl

theorem HasFed.run {hash : Sha256} {fed : List UInt8} (hfed : hash.HasFed fed)
    (calls : List Call) : (hash.run calls).1.HasFed (fed ++ fedBy calls) := by
  induction calls generalizing hash fed with
  | nil =>
    rw [fedBy, List.flatMap_nil, List.append_nil]
    exact hfed
  | cons call calls ih =>
    cases call with
    | update bytes =>
      rw [fedBy, List.flatMap_cons, ← List.append_assoc]
      exact ih (hfed.update bytes)
    | digest => exact ih hfed

end Sha256

/-- However a message is cut into `update` calls and however many digests are
asked for in between, the hash ends in the digest of the whole message, each
digest on the way is that of the bytes before it, and the state is the one that
the `update` calls alone give. -/
theorem sha256_streaming (calls : List Sha256.Call) :
    (({} : Sha256).run calls).1.digest =
        SecureHash.sha256 (Sha256.fedBy calls) ∧
      sha256 (Sha256.fedBy calls) = SecureHash.sha256 (Sha256.fedBy calls) ∧
      (∀ before after, calls = before ++ .digest :: after →
        (({} : Sha256).run calls).2[(({} : Sha256).run before).2.length]? =
            some (SecureHash.sha256 (Sha256.fedBy before)) ∧
          (({} : Sha256).run calls).1 =
            (({} : Sha256).run (before ++ after)).1) := by
  have hdigest (calls : List Sha256.Call) :
      (({} : Sha256).run calls).1.digest =
        SecureHash.sha256 (Sha256.fedBy calls) :=
    (Sha256.hasFed_nil.run calls).digest
  refine ⟨hdigest calls, ?_, ?_⟩
  · exact (Sha256.hasFed_nil.update (Sha256.fedBy calls)).digest
  · rintro before after rfl
    constructor
    · rw [Sha256.run_append, Sha256.run, List.getElem?_append_right (Nat.le_refl _),
        Nat.sub_self, List.getElem?_cons_zero, hdigest]
    · rw [Sha256.run_append, Sha256.run_append, Sha256.run]

end Bomwerk.Core

/-!
## Digests as text

The two hex functions of `core/sha256.cpp`, which are inverse to each other on
what they accept.
-/

namespace Bomwerk.Core

open Bomwerk.Support

def sha256HexLength : Nat := 64

/-- `lowercase_hex_value`; 16 for anything but a digit. -/
def lowercaseHexValue (character : UInt8) : Nat :=
  if '0'.toUInt8 ≤ character ∧ character ≤ '9'.toUInt8 then
    character.toNat - '0'.toUInt8.toNat
  else if 'a'.toUInt8 ≤ character ∧ character ≤ 'f'.toUInt8 then
    character.toNat - 'a'.toUInt8.toNat + 10
  else 16

def hexDigits : List UInt8 :=
  "0123456789abcdef".toList.map Char.toUInt8

def toHex (digest : List UInt8) : List UInt8 :=
  digest.flatMap fun byte =>
    [hexDigits.getD (byte.toNat >>> 4) 0, hexDigits.getD (byte.toNat &&& 15) 0]

/-- The loop of `sha256_from_hex`: a byte from two digits. -/
def bytesFromHex : List UInt8 → Option (List UInt8)
  | [] => some []
  | [_] => none
  | high :: low :: rest =>
    if 15 < lowercaseHexValue high ∨ 15 < lowercaseHexValue low then none
    else
      (bytesFromHex rest).map
        (UInt8.ofNat (lowercaseHexValue high <<< 4 ||| lowercaseHexValue low)
          :: ·)

def sha256FromHex (lowercaseHex : List UInt8) : Option (List UInt8) :=
  if lowercaseHex.length ≠ sha256HexLength then none
  else bytesFromHex lowercaseHex

theorem getD_hexDigits {character : UInt8}
    (hdigit : lowercaseHexValue character ≤ 15) :
    hexDigits.getD (lowercaseHexValue character) 0 = character := by
  have hall : ∀ n < 256, lowercaseHexValue (UInt8.ofNat n) ≤ 15 →
      hexDigits.getD (lowercaseHexValue (UInt8.ofNat n)) 0 = UInt8.ofNat n := by
    decide +kernel
  have h := hall character.toNat character.toNat_lt
  rw [UInt8.ofNat_toNat] at h
  exact h hdigit

theorem lowercaseHexValue_getD {value : Nat} (hvalue : value < 16) :
    lowercaseHexValue (hexDigits.getD value 0) = value := by
  have hall : ∀ value < 16,
      lowercaseHexValue (hexDigits.getD value 0) = value := by
    decide +kernel
  exact hall value hvalue

theorem bytesFromHex_toHex (digest : List UInt8) :
    bytesFromHex (toHex digest) = some digest := by
  have hhalves : ∀ n < 256, n >>> 4 < 16 ∧ n &&& 15 < 16 ∧
      n >>> 4 <<< 4 ||| n &&& 15 = n := by
    decide +kernel
  induction digest with
  | nil => rfl
  | cons byte digest ih =>
    obtain ⟨hhigh, hlow, hjoin⟩ := hhalves byte.toNat byte.toNat_lt
    rw [toHex, List.flatMap_cons, ← toHex, List.cons_append,
      List.cons_append, List.nil_append, bytesFromHex]
    rw [lowercaseHexValue_getD hhigh, lowercaseHexValue_getD hlow,
      if_neg (by omega), ih, hjoin, UInt8.ofNat_toNat]
    rfl

/-- What is read as a digest is the text of it. -/
theorem toHex_of_bytesFromHex {hex digest : List UInt8}
    (h : bytesFromHex hex = some digest) : toHex digest = hex := by
  have hhalves : ∀ high < 16, ∀ low < 16,
      (UInt8.ofNat (high <<< 4 ||| low)).toNat >>> 4 = high ∧
        (UInt8.ofNat (high <<< 4 ||| low)).toNat &&& 15 = low := by
    decide +kernel
  induction hex using bytesFromHex.induct generalizing digest with
  | case1 =>
    obtain rfl := Option.some.inj h
    rfl
  | case2 => simp [bytesFromHex] at h
  | case3 high low rest hbad =>
    rw [bytesFromHex, if_pos hbad] at h
    exact absurd h (by simp)
  | case4 high low rest hdigits ih =>
    rw [bytesFromHex, if_neg hdigits] at h
    obtain ⟨bytes, hbytes, rfl⟩ := Option.map_eq_some_iff.mp h
    obtain ⟨hhigh, hlow⟩ := not_or.mp hdigits
    obtain ⟨hupper, hlower⟩ := hhalves (lowercaseHexValue high) (by omega)
      (lowercaseHexValue low) (by omega)
    rw [toHex, List.flatMap_cons, ← toHex, ih hbytes, hupper, hlower,
      getD_hexDigits (by omega), getD_hexDigits (by omega)]
    rfl

theorem sha256FromHex_inj {left right digest : List UInt8}
    (hleft : sha256FromHex left = some digest)
    (hright : sha256FromHex right = some digest) : left = right := by
  rw [sha256FromHex] at hleft hright
  split_ifs at hleft hright
  rw [← toHex_of_bytesFromHex hleft, ← toHex_of_bytesFromHex hright]

theorem sha256FromHex_toHex {digest : List UInt8}
    (hlength : digest.length = 32) :
    sha256FromHex (toHex digest) = some digest := by
  have hhex : (toHex digest).length = sha256HexLength := by
    rw [toHex, List.length_flatMap]
    simp [hlength, sha256HexLength]
  rw [sha256FromHex, if_neg (not_not.mpr hhex), bytesFromHex_toHex]

theorem length_toHex (digest : List UInt8) :
    (toHex digest).length = 2 * digest.length := by
  rw [toHex, List.length_flatMap]
  simp [Nat.mul_comm]

/-- The digests that are read are the written ones: 32 bytes, in lower case. -/
theorem sha256FromHex_eq_some_iff (hex digest : List UInt8) :
    sha256FromHex hex = some digest ↔
      digest.length = 32 ∧ hex = toHex digest := by
  constructor
  · intro h
    rw [sha256FromHex] at h
    split_ifs at h with hlength
    have htext := toHex_of_bytesFromHex h
    have hdouble := length_toHex digest
    rw [htext, not_not.mp hlength, sha256HexLength] at hdouble
    exact ⟨by omega, htext.symm⟩
  · rintro ⟨hlength, rfl⟩
    exact sha256FromHex_toHex hlength

end Bomwerk.Core
