import Tundra.Hash.Memory
import Tundra.Lib.Sha1

/-!
# SHA-1 in place of the fast hash

`HashSha1.cpp`, which the build with `USE_SHA1_HASH` has under `HashUpdate` and `HashFinalize`, against the
standard. A block and the digest are those of the standard. The padding is, but for messages that the one bit
fills up to the length: there a block of zeroes is in between.
-/

namespace Tundra

open Bytes Chunks HashMemory Sha1

namespace HashSha1

/-! ### `HashSha1.cpp` -/

def sha1Rotate (value bits : UInt32) : UInt32 := (value <<< bits) ||| (value >>> (32 - bits))

/-- The first loop over `w`. -/
def firstWords (block : List UInt8) : List UInt32 :=
  (List.range 16).map fun i =>
    ((block.getD (i * 4 + 0) 0).toUInt32 <<< 24) ||| ((block.getD (i * 4 + 1) 0).toUInt32 <<< 16) |||
      ((block.getD (i * 4 + 2) 0).toUInt32 <<< 8) ||| ((block.getD (i * 4 + 3) 0).toUInt32 <<< 0)

/-- One turn of the second loop over `w`. -/
def nextWord (w : List UInt32) (i : Nat) : List UInt32 :=
  w ++ [sha1Rotate (w.getD (i - 3) 0 ^^^ w.getD (i - 8) 0 ^^^ w.getD (i - 14) 0 ^^^ w.getD (i - 16) 0) 1]

/-- The array `w`, which is written from the first word on. -/
def messageSchedule (block : List UInt8) : List UInt32 := (List.range' 16 64).foldl nextWord (firstWords block)

/-- One turn of `SHA1_LOOP`. -/
def loopTurn (func : Words → UInt32) (constant : UInt32) (w : List UInt32) (v : Words) (i : Nat) : Words :=
  let t := sha1Rotate v.a 5 + func v + v.e + constant + w.getD i 0
  ⟨t, v.a, sha1Rotate v.b 30, v.c, v.d⟩

def sha1Loop (start stop : Nat) (func : Words → UInt32) (constant : UInt32) (w : List UInt32) (v : Words) : Words :=
  (List.range' start (stop - start)).foldl (loopTurn func constant w) v

/-- `HashBlock`, on the five words of `m_State`. -/
def hashBlock (block : List UInt8) (state : Words) : Words :=
  let w := messageSchedule block
  let v := sha1Loop 0 20 (fun v => (v.b &&& v.c) ^^^ (~~~v.b &&& v.d)) 0x5a827999 w state
  let v := sha1Loop 20 40 (fun v => v.b ^^^ v.c ^^^ v.d) 0x6ed9eba1 w v
  let v := sha1Loop 40 60 (fun v => (v.b &&& v.c) ^^^ (v.b &&& v.d) ^^^ (v.c &&& v.d)) 0x8f1bbcdc w v
  let v := sha1Loop 60 80 (fun v => v.b ^^^ v.c ^^^ v.d) 0xca62c1d6 w v
  ⟨state.a + v.a, state.b + v.b, state.c + v.c, state.d + v.d, state.e + v.e⟩

/-- `HashInitImpl`. -/
def initImpl : Words := ⟨0x67452301, 0xefcdab89, 0x98badcfe, 0x10325476, 0xc3d2e1f0⟩

/-- The words of `m_State` by index. -/
def stateWord (state : Words) : Nat → UInt32
  | 0 => state.a
  | 1 => state.b
  | 2 => state.c
  | 3 => state.d
  | _ => state.e

/-- `HashFinalizeImpl`: the bytes of `m_Data`. -/
def finalizeImpl (state : Words) : List UInt8 :=
  (List.range 20).map fun i => (stateWord state (i >>> 2) >>> .ofNat ((3 - (i &&& 3)) * 8)).toUInt8

/-! ### A block -/

theorem or_bytes {b c d : Nat} (hb : b < 256) (hc : c < 256) (hd : d < 256) (a : Nat) :
    a <<< 24 ||| b <<< 16 ||| c <<< 8 ||| d = a * 256 ^ 3 + (b * 256 ^ 2 + (c * 256 ^ 1 + d)) := by
  have hab : a <<< 24 ||| b <<< 16 = (a * 256 + b) <<< 16 := by
    rw [← Nat.shiftLeft_add_eq_or_of_lt (by rw [Nat.shiftLeft_eq]; omega), Nat.shiftLeft_eq, Nat.shiftLeft_eq,
      Nat.shiftLeft_eq]
    ring
  have habc : (a * 256 + b) <<< 16 ||| c <<< 8 = ((a * 256 + b) * 256 + c) <<< 8 := by
    rw [← Nat.shiftLeft_add_eq_or_of_lt (by rw [Nat.shiftLeft_eq]; omega), Nat.shiftLeft_eq, Nat.shiftLeft_eq,
      Nat.shiftLeft_eq]
    ring
  rw [hab, habc, ← Nat.shiftLeft_add_eq_or_of_lt (by omega), Nat.shiftLeft_eq]
  ring

theorem word_eq (a b c d : UInt8) :
    (a.toUInt32 <<< 24) ||| (b.toUInt32 <<< 16) ||| (c.toUInt32 <<< 8) ||| (d.toUInt32 <<< 0) = .ofNat
    (number (byteBits [a, b, c, d])) := by
  have ha := a.toNat_lt
  have hb := b.toNat_lt
  have hc := c.toNat_lt
  have hd := d.toNat_lt
  have hnumber : number (byteBits [a, b, c, d]) = a.toNat * 256 ^ 3 +
    (b.toNat * 256 ^ 2 + (c.toNat * 256 ^ 1 + d.toNat)) := by
    simp only [number_byteBits_cons, List.length_cons, List.length_nil, Nat.zero_add, pow_zero, Nat.mul_one]
    rfl
  apply UInt32.toNat.inj
  rw [UInt32.toNat_ofNat_of_lt' (by rw [hnumber, UInt32.size]; omega), hnumber, ← or_bytes hb hc hd]
  have hshift : ∀ byte : UInt8, ∀ n < 25, byte.toNat <<< n % 2 ^ 32 = byte.toNat <<< n := by
    intro byte n hn
    apply Nat.mod_eq_of_lt
    rw [Nat.shiftLeft_eq]
    calc
      byte.toNat * 2 ^ n < 2 ^ 8 * 2 ^ n := Nat.mul_lt_mul_of_pos_right byte.toNat_lt (Nat.two_pow_pos n)
      _ ≤ 2 ^ 8 * 2 ^ 24 := Nat.mul_le_mul_left _ (Nat.pow_le_pow_right (by decide) (by omega))
      _ = 2 ^ 32 := by decide
  have hzero : d.toNat <<< 0 = d.toNat := Nat.shiftLeft_zero
  simp only [UInt32.toNat_or, UInt32.toNat_shiftLeft, UInt8.toNat_toUInt32]
  change a.toNat <<< 24 % 2 ^ 32 ||| b.toNat <<< 16 % 2 ^ 32 ||| c.toNat <<< 8 % 2 ^ 32 ||| d.toNat <<< 0 % 2 ^ 32 = _
  rw [hshift a 24 (by decide), hshift b 16 (by decide), hshift c 8 (by decide), hshift d 0 (by decide), hzero]

theorem take_four {l : List UInt8} {k : Nat} (h : k + 4 ≤ l.length) :
    (l.drop k).take 4 = [l.getD (k + 0) 0, l.getD (k + 1) 0, l.getD (k + 2) 0, l.getD (k + 3) 0] := by
  have hbyte : ∀ i < 4, l[k + i]? = some (l.getD (k + i) 0) := by
    intro i hi
    rw [List.getD_eq_getElem _ _ (by omega), List.getElem?_eq_getElem (by omega)]
  apply List.ext_getElem?
  intro i
  rw [List.getElem?_take, List.getElem?_drop]
  match i with
  | 0 => exact hbyte 0 (by decide)
  | 1 => exact hbyte 1 (by decide)
  | 2 => exact hbyte 2 (by decide)
  | 3 => exact hbyte 3 (by decide)
  | i + 4 => exact if_neg (by omega)

theorem firstWords_eq {block : List UInt8} (hlength : block.length = 64) :
    firstWords block = words (byteBits block) := by
  rw [words, blocks_byteBits 4, blocks, hlength, List.map_map, List.map_map]
  apply List.map_congr_left
  intro i hi
  have hlt := List.mem_range.mp hi
  have hfour : (block.drop (4 * i)).take 4 = _ := take_four (by omega)
  change _ = UInt32.ofNat (number (byteBits ((block.drop (4 * i)).take 4)))
  rw [hfour, ← word_eq, Nat.mul_comm i 4]

/-- After so many turns the array holds so many words of the schedule. -/
theorem foldl_nextWord {M : List UInt32} (hM : M.length = 16) (n : Nat) :
    ((List.range' 16 n).foldl nextWord M).length = 16 + n ∧
      ∀ t < 16 + n, ((List.range' 16 n).foldl nextWord M).getD t 0 = schedule M t := by
  induction n with
  | zero =>
      refine ⟨hM, fun t ht => ?_⟩
      rw [schedule, if_pos ht]
      rfl
  | succ n ih =>
      obtain ⟨hlength, hwords⟩ := ih
      rw [List.range'_concat, Nat.one_mul, List.foldl_append, List.foldl_cons, List.foldl_nil, nextWord]
      constructor
      · rw [List.length_append, hlength, List.length_singleton, Nat.add_assoc]
      · intro t ht
        rcases Nat.lt_or_ge t (16 + n) with hold | hnew
        · rw [List.getD_append _ _ _ _ (by rwa [hlength])]
          exact hwords t hold
        · obtain rfl : t = 16 + n := by omega
          rw [List.getD_append_right _ _ _ _ (by rw [hlength]), hlength, Nat.sub_self, schedule, if_neg (by omega),
            hwords _ (by omega),
            hwords _ (by omega), hwords _ (by omega), hwords _ (by omega)]
          rfl

theorem getD_messageSchedule {block : List UInt8} (hlength : block.length = 64) {t : Nat} (ht : t < 80) :
    (messageSchedule block).getD t 0 = schedule (words (byteBits block)) t := by
  have hM : (firstWords block).length = 16 := by rw [firstWords, List.length_map, List.length_range]
  rw [← firstWords_eq hlength]
  exact (foldl_nextWord hM 64).2 t ht

/-- A loop runs rounds of the standard, if its function and its constant are those of each of them. -/
theorem sha1Loop_eq {start stop : Nat} {func : Words → UInt32} {constant : UInt32} {w : List UInt32} {W : Nat → UInt32}
    (hw : ∀ t < stop, w.getD t 0 = W t) (hf : ∀ v : Words, ∀ t, start ≤ t → t < stop → func v = f t v.b v.c v.d)
    (hK : ∀ t, start ≤ t → t < stop → constant = K t) (v : Words) :
    sha1Loop start stop func constant w v = (List.range' start (stop - start)).foldl (round W) v := by
  apply List.foldl_ext
  intro v t ht
  obtain ⟨hstart, hstop⟩ := List.mem_range'_1.mp ht
  have hlt : t < stop := by omega
  rw [loopTurn, hw t hlt, hf v t hstart hlt, hK t hstart hlt]
  rfl

theorem range_eighty :
    List.range 80 = List.range' 0 20 ++ List.range' 20 20 ++ List.range' 40 20 ++ List.range' 60 20 := rfl

theorem hashBlock_eq {block : List UInt8} (hlength : block.length = 64) (state : Words) :
    hashBlock block state = compress state (byteBits block) := by
  have hw : ∀ n ≤ 80, ∀ t < n, (messageSchedule block).getD t 0 = schedule (words (byteBits block)) t := by
    intro n hn t ht
    exact getD_messageSchedule hlength (by omega)
  have hfirst := @sha1Loop_eq 0 20 (fun v => (v.b &&& v.c) ^^^ (~~~v.b &&& v.d)) 0x5a827999 _ _ (hw 20 (by decide))
    (fun v t _ hlt => (if_pos hlt).symm) (fun t _ hlt => (if_pos hlt).symm)
  have hsecond := @sha1Loop_eq 20 40 (fun v => v.b ^^^ v.c ^^^ v.d) 0x6ed9eba1 _ _ (hw 40 (by decide))
    (fun v t hge hlt => by rw [f, if_neg (by omega), if_pos hlt])
      (fun t hge hlt => by rw [K, if_neg (by omega), if_pos hlt])
  have hthird := @sha1Loop_eq 40 60 (fun v => (v.b &&& v.c) ^^^ (v.b &&& v.d) ^^^ (v.c &&& v.d)) 0x8f1bbcdc _ _
    (hw 60 (by decide))
    (fun v t hge hlt => by rw [f, if_neg (by omega), if_neg (by omega), if_pos hlt])
    (fun t hge hlt => by rw [K, if_neg (by omega), if_neg (by omega), if_pos hlt])
  have hfourth := @sha1Loop_eq 60 80 (fun v => v.b ^^^ v.c ^^^ v.d) 0xca62c1d6 _ _ (hw 80 (by decide))
    (fun v t hge hlt => by rw [f, if_neg (by omega), if_neg (by omega), if_neg (by omega)])
    (fun t hge hlt => by rw [K, if_neg (by omega), if_neg (by omega), if_neg (by omega)])
  simp only [hashBlock, hfirst, hsecond, hthird, hfourth, compress, range_eighty, List.foldl_append]

/-! ### The digest -/

theorem byteBits_word (word : UInt32) :
    byteBits [(word >>> 24).toUInt8, (word >>> 16).toUInt8, (word >>> 8).toUInt8, (word >>> 0).toUInt8] =
    numberBits 32 word.toNat := by
  have hbyte : ∀ (n : UInt32) (k : Nat), n.toNat = k → k < 32 →
    numberBits 8 (word >>> n).toUInt8.toNat = numberBits 8 (word.toNat / 2 ^ k) := by
    rintro n k rfl hk
    rw [UInt32.toNat_toUInt8, UInt32.toNat_shiftRight, Nat.mod_eq_of_lt hk, Nat.shiftRight_eq_div_pow]
    exact numberBits_mod 8 _
  rw [numberBits_add 8 24, numberBits_add 8 16, numberBits_add 8 8]
  simp only [byteBits_cons]
  rw [hbyte 24 24 rfl (by decide), hbyte 16 16 rfl (by decide), hbyte 8 8 rfl (by decide), hbyte 0 0 rfl (by decide),
    pow_zero, Nat.div_one]
  rfl

theorem byteBits_finalizeImpl (state : Words) : byteBits (finalizeImpl state) = state.bits := by
  have hparts : finalizeImpl state =
      [(state.a >>> 24).toUInt8, (state.a >>> 16).toUInt8, (state.a >>> 8).toUInt8, (state.a >>> 0).toUInt8] ++
      [(state.b >>> 24).toUInt8, (state.b >>> 16).toUInt8, (state.b >>> 8).toUInt8, (state.b >>> 0).toUInt8] ++
      [(state.c >>> 24).toUInt8, (state.c >>> 16).toUInt8, (state.c >>> 8).toUInt8, (state.c >>> 0).toUInt8] ++
      [(state.d >>> 24).toUInt8, (state.d >>> 16).toUInt8, (state.d >>> 8).toUInt8, (state.d >>> 0).toUInt8] ++
      [(state.e >>> 24).toUInt8, (state.e >>> 16).toUInt8, (state.e >>> 8).toUInt8, (state.e >>> 0).toUInt8] := rfl
  rw [hparts, byteBits_append, byteBits_append, byteBits_append, byteBits_append, byteBits_word, byteBits_word,
    byteBits_word, byteBits_word,
    byteBits_word]
  rfl

/-- The digest of the standard, from bytes that are the padded message. -/
theorem hash_eq {message stream : List UInt8} (h : byteBits stream = pad (byteBits message)) :
    Sha1.hash (byteBits message) = byteBits
    (finalizeImpl ((blocks hashBufferSize stream).foldl (fun s block => hashBlock block s) initImpl)) := by
  have hblocks : blocks 512 (byteBits stream) = (blocks hashBufferSize stream).map byteBits :=
    blocks_byteBits hashBufferSize stream
  have hfold : (blocks hashBufferSize stream).foldl (fun H block => compress H (byteBits block)) initial =
      (blocks hashBufferSize stream).foldl (fun s block => hashBlock block s) initial := by
    apply List.foldl_ext
    intro state block hblock
    exact (hashBlock_eq (length_of_mem_blocks hblock) state).symm
  rw [byteBits_finalizeImpl, Sha1.hash, ← h, hblocks, List.foldl_map, hfold]
  rfl

/-! ### The padding -/

theorem byteBits_bigEndian (value : UInt64) : byteBits (bigEndian value) = numberBits 64 value.toNat := by
  have hbytes : ∀ (k n : Nat), byteBits (toLE k n).reverse = numberBits (8 * k) n := by
    intro k
    induction k with
    | zero =>
        intro n
        rfl
    | succ k ih =>
        intro n
        have hbyte : numberBits 8 (UInt8.ofNat n).toNat = numberBits 8 n := by
          rw [UInt8.toNat_ofNat']
          exact numberBits_mod 8 n
        rw [toLE, List.reverse_cons, byteBits_append, ih, byteBits_cons, hbyte, Nat.mul_succ, numberBits_add]
        exact congrArg _ (List.append_nil _)
  exact hbytes 8 value.toNat

theorem byteBits_padded {message : List UInt8} (hsize : message.length < 2 ^ 61) :
    byteBits (padded message) =
      byteBits message ++ [true] ++ List.replicate (7 + 8 * paddingZeroes message.length) false ++ numberBits 64
      (byteBits message).length := by
  have hcount : (UInt64.ofNat message.length * 8).toNat = 8 * message.length := by
    rw [UInt64.toNat_mul, UInt64.toNat_ofNat']
    change message.length % 2 ^ 64 * 8 % 2 ^ 64 = _
    omega
  have hone : byteBits [0x80] = [true] ++ List.replicate 7 false := rfl
  rw [padded, byteBits_append, byteBits_append, byteBits_append, byteBits_replicate_zero, byteBits_bigEndian, hcount,
    hone, length_byteBits,
    List.replicate_add]
  simp only [List.append_assoc]

/-- The padding of the standard, unless the one bit comes right in front of the size. -/
theorem byteBits_padded_iff {message : List UInt8} (hsize : message.length < 2 ^ 61) :
    byteBits (padded message) = pad (byteBits message) ↔ message.length % 64 ≠ 55 := by
  have hzeroes : 7 + 8 * paddingZeroes message.length = zeroBits (byteBits message).length ↔
    message.length % 64 ≠ 55 := by
    rw [eq_zeroBits_iff, paddingZeroes, length_byteBits]
    split_ifs <;> omega
  rw [← hzeroes, byteBits_padded hsize, pad]
  constructor
  · intro heq
    have hlength := congrArg List.length heq
    simp only [List.length_append, List.length_replicate] at hlength
    omega
  · intro heq
    rw [heq]

/-- Messages with sizes that can be counted have the digest of the standard, unless the one bit comes right in
front of the size. Exactly then the blocks are not those of the standard. -/
theorem digest_sha1 (buffer : Block UInt8 hashBufferSize) (checks : Bool) {pieces : List (List UInt8)}
    (hsize : pieces.flatten.length < 2 ^ 61) :
    ∃ out, digest hashBlock checks initImpl finalizeImpl buffer pieces = .ok out ∧
      (pieces.flatten.length % 64 ≠ 55 → byteBits out = Sha1.hash (byteBits pieces.flatten)) ∧
      (byteBits (padded pieces.flatten) = pad (byteBits pieces.flatten) ↔ pieces.flatten.length % 64 ≠ 55) := by
  refine ⟨_, digest_eq _ _ _ _ _ _, ?_, byteBits_padded_iff hsize⟩
  intro hmod
  exact (hash_eq ((byteBits_padded_iff hsize).mpr hmod)).symm

def emptyBuffer : Block UInt8 hashBufferSize := ⟨List.replicate hashBufferSize 0, List.length_replicate⟩

/-- A message of 54 bytes in two pieces: one byte more, and the one bit comes right in front of the size. -/
def shortPieces : List (List UInt8) := [List.replicate 20 0x61, List.replicate 34 0x62]

theorem digest_sha1_short : ∃ out, digest hashBlock true initImpl finalizeImpl emptyBuffer shortPieces = .ok out ∧
    byteBits out = Sha1.hash (byteBits shortPieces.flatten) ∧ byteBits (padded shortPieces.flatten) = pad
    (byteBits shortPieces.flatten) := by
  have hsize : shortPieces.flatten.length < 2 ^ 61 := by decide
  have hmod : shortPieces.flatten.length % 64 ≠ 55 := by decide
  obtain ⟨out, hout, hsame, hpadded⟩ := digest_sha1 emptyBuffer true hsize
  exact ⟨out, hout, hsame hmod, hpadded.mpr hmod⟩

/-- The digest that `Test_Hash.cpp` expects for the empty message. -/
example : finalizeImpl ((blocks hashBufferSize (padded [])).foldl (fun s block => hashBlock block s) initImpl) =
    [0xda, 0x39, 0xa3, 0xee, 0x5e, 0x6b, 0x4b, 0x0d, 0x32, 0x55, 0xbf, 0xef, 0x95, 0x60, 0x18, 0x90, 0xaf, 0xd8, 0x07,
    0x09] := by
  decide +kernel

/-- A message for which the one bit comes right in front of the size. -/
def fullMessage : List UInt8 := List.replicate 55 0

theorem byteBits_fullMessage :
    byteBits (fullMessage ++ [0x80] ++ bigEndian 440) = pad (byteBits fullMessage) := by decide +kernel

/-- It is hashed with a block of zeroes too many. -/
theorem digest_fullMessage : ¬ ∃ out, digest hashBlock true initImpl finalizeImpl emptyBuffer [fullMessage] = .ok out ∧
    byteBits out = Sha1.hash (byteBits fullMessage) := by
  rintro ⟨out, hout, hsame⟩
  rw [digest_eq, Except.ok.injEq] at hout
  rw [hash_eq byteBits_fullMessage, ← hout] at hsame
  exact absurd hsame (by decide +kernel)

end HashSha1

end Tundra
