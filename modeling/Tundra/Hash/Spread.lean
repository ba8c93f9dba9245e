import Tundra.Hash.Memory
import Tundra.Lib.Mixing
import Tundra.Signature
import Mathlib.Tactic.FinCases

/-!
# Local changes under the fast hash

A word of the message goes into one of the sixteen values of the fast hash, and four values make a word of the
digest. Each step loses nothing, so that a change of a single word of the message shows in the digest, in the
one word of the digest that this word of the message goes into.
-/

namespace Tundra

open Bytes Chunks HashMemory Mixing

/-! ### The values -/

def HashLane.value (lane : HashLane) : Fin 4 → UInt32
  | 0 => lane.v0
  | 1 => lane.v1
  | 2 => lane.v2
  | 3 => lane.v3

/-- A row of `m_V`. -/
def HashStateImpl.lane (state : HashStateImpl) : Fin 4 → HashLane
  | 0 => state.lane0
  | 1 => state.lane1
  | 2 => state.lane2
  | 3 => state.lane3

/-- A word of `m_Words32`, which are the words of `m_Words64` in halves. -/
def HashDigest.word32 (digest : HashDigest) : Fin 4 → UInt32
  | 0 => digest.word0.toUInt32
  | 1 => (digest.word0 >>> 32).toUInt32
  | 2 => digest.word1.toUInt32
  | 3 => (digest.word1 >>> 32).toUInt32

theorem toUInt32_low (low high : UInt32) : (low.toUInt64 ||| (high.toUInt64 <<< 32)).toUInt32 = low := by
  apply UInt32.toBitVec_inj.mp
  apply BitVec.eq_of_getLsbD_eq
  intro i hi
  simp [hi]

theorem toUInt32_high (low high : UInt32) : ((low.toUInt64 ||| (high.toUInt64 <<< 32)) >>> 32).toUInt32 = high := by
  apply UInt32.toBitVec_inj.mp
  apply BitVec.eq_of_getLsbD_eq
  intro i hi
  have hbits : 32 + i < 64 ∧ i < 64 := by omega
  simp [hi, hbits]

theorem word32_finalize (state : HashStateImpl) (w : Fin 4) : state.finalize.word32 w = (state.lane w).finalize := by
  match w with
  | 0 => exact toUInt32_low _ _
  | 1 => exact toUInt32_high _ _
  | 2 => exact toUInt32_low _ _
  | 3 => exact toUInt32_high _ _

theorem value_hashBlock (block : List UInt8) (state : HashStateImpl) (w j : Fin 4) :
    ((hashBlock block state).lane w).value j = hashWord ((state.lane w).value j) (blockWord block (4 * w + j)) := by
  fin_cases w <;> fin_cases j <;> rfl

theorem value_foldl (bs : List (List UInt8)) (state : HashStateImpl) (w j : Fin 4) :
    ((bs.foldl (fun s block => hashBlock block s) state).lane w).value j =
      (bs.map fun block => blockWord block (4 * w + j)).foldl hashWord ((state.lane w).value j) := by
  induction bs generalizing state with
  | nil => rfl
  | cons block bs ih => rw [List.foldl_cons, ih, value_hashBlock, List.map_cons, List.foldl_cons]

theorem blockWord_block {stream : List UInt8} {k : Nat} (hk : k < 16) (b : Nat) :
    blockWord ((stream.drop (hashBufferSize * b)).take hashBufferSize) k = blockWord stream (16 * b + k) := by
  have hdrop : hashBufferSize * b + 4 * k = 4 * (16 * b + k) := by
    rw [hashBufferSize]
    omega
  have htake : min 4 (hashBufferSize - 4 * k) = 4 := by
    rw [hashBufferSize]
    omega
  rw [blockWord, blockWord, List.drop_take, List.drop_drop, List.take_take, hdrop, htake]

theorem value_blocks (stream : List UInt8) (state : HashStateImpl) (w j : Fin 4) :
    (((blocks hashBufferSize stream).foldl (fun s block => hashBlock block s) state).lane w).value j =
      ((List.range (stream.length / hashBufferSize)).map fun b => blockWord stream (16 * b + (4 * w + j))).foldl
      hashWord ((state.lane w).value j) := by
  rw [value_foldl, blocks, List.map_map]
  congr 1
  apply List.map_congr_left
  intro b _
  exact blockWord_block (by omega) b

/-! ### Steps without loss -/

theorem toBitVec_rotateLeft (value amount : UInt32) (h : 0 < amount.toNat ∧ amount.toNat < 32) :
    (rotateLeft value amount).toBitVec = value.toBitVec.rotateLeft amount.toNat := by
  have hdown : (4294967296 - amount.toNat) % 32 = 32 - amount.toNat % 32 := by omega
  rw [BitVec.rotateLeft_def, rotateLeft]
  simp [hdown]

theorem rotateLeft_injective {amount : UInt32} (h : 0 < amount.toNat ∧ amount.toNat < 32) :
    Function.Injective fun value => rotateLeft value amount := by
  intro x y hxy
  have hbits := congrArg UInt32.toBitVec hxy
  simp only [toBitVec_rotateLeft _ amount h] at hbits
  exact UInt32.toBitVec_inj.mp (Mixing.rotateLeft_injective amount.toNat hbits)

theorem mul_injective {c inverse : UInt32} (h : c * inverse = 1) : Function.Injective fun value => value * c := by
  intro x y hxy
  have hone : c.toBitVec * inverse.toBitVec = 1#32 := congrArg UInt32.toBitVec h
  exact UInt32.toBitVec_inj.mp (Mixing.mul_injective hone (congrArg UInt32.toBitVec hxy))

theorem xorShift_injective {amount : UInt32} (h : 0 < amount.toNat ∧ amount.toNat < 32) :
    Function.Injective fun value => value ^^^ (value >>> amount) := by
  intro x y hxy
  have hamount : amount.toNat % 32 = amount.toNat := Nat.mod_eq_of_lt h.2
  have hbits := congrArg UInt32.toBitVec hxy
  simp only [UInt32.toBitVec_xor, UInt32.toBitVec_shiftRight, BitVec.ushiftRight_eq', BitVec.toNat_umod,
    UInt32.toNat_toBitVec,
    BitVec.reduceToNat, hamount] at hbits
  exact UInt32.toBitVec_inj.mp (Mixing.xorShift_injective h.1 hbits)

theorem kPrime32_1_unit : kPrime32_1 * 244002641 = 1 := by decide

theorem kPrime32_2_unit : kPrime32_2 * 3066638151 = 1 := by decide

theorem kPrime32_3_unit : kPrime32_3 * 2828982549 = 1 := by decide

theorem hashWord_injective_state (word : UInt32) : Function.Injective fun v => hashWord v word := by
  intro v v' h
  have hsum := rotateLeft_injective (by decide) (mul_injective kPrime32_1_unit h)
  exact (UInt32.add_left_inj _).mp hsum

theorem hashWord_injective_word (v : UInt32) : Function.Injective (hashWord v) := by
  intro word word' h
  have hsum := rotateLeft_injective (by decide) (mul_injective kPrime32_1_unit h)
  exact mul_injective kPrime32_2_unit ((UInt32.add_right_inj _).mp hsum)

/-- What `HashFinalizeImpl` starts from in a row. -/
def HashLane.sum (lane : HashLane) : UInt32 :=
  rotateLeft lane.v0 1 + rotateLeft lane.v1 7 + rotateLeft lane.v2 12 + rotateLeft lane.v3 18

theorem HashLane.sum_ne {lane lane' : HashLane} {j : Fin 4} (hne : lane.value j ≠ lane'.value j)
    (hothers : ∀ i ≠ j, lane.value i = lane'.value i) : lane.sum ≠ lane'.sum := by
  intro heq
  apply hne
  rw [HashLane.sum, HashLane.sum] at heq
  match j with
  | 0 =>
      have h1 : lane.v1 = lane'.v1 := hothers 1 (by decide)
      have h2 : lane.v2 = lane'.v2 := hothers 2 (by decide)
      have h3 : lane.v3 = lane'.v3 := hothers 3 (by decide)
      rw [h1, h2, h3, UInt32.add_left_inj, UInt32.add_left_inj, UInt32.add_left_inj] at heq
      exact rotateLeft_injective (by decide) heq
  | 1 =>
      have h0 : lane.v0 = lane'.v0 := hothers 0 (by decide)
      have h2 : lane.v2 = lane'.v2 := hothers 2 (by decide)
      have h3 : lane.v3 = lane'.v3 := hothers 3 (by decide)
      rw [h0, h2, h3, UInt32.add_left_inj, UInt32.add_left_inj, UInt32.add_right_inj] at heq
      exact rotateLeft_injective (by decide) heq
  | 2 =>
      have h0 : lane.v0 = lane'.v0 := hothers 0 (by decide)
      have h1 : lane.v1 = lane'.v1 := hothers 1 (by decide)
      have h3 : lane.v3 = lane'.v3 := hothers 3 (by decide)
      rw [h0, h1, h3, UInt32.add_left_inj, UInt32.add_right_inj] at heq
      exact rotateLeft_injective (by decide) heq
  | 3 =>
      have h0 : lane.v0 = lane'.v0 := hothers 0 (by decide)
      have h1 : lane.v1 = lane'.v1 := hothers 1 (by decide)
      have h2 : lane.v2 = lane'.v2 := hothers 2 (by decide)
      rw [h0, h1, h2, UInt32.add_right_inj] at heq
      exact rotateLeft_injective (by decide) heq

theorem HashLane.sum_eq_of_finalize {lane lane' : HashLane} (h : lane.finalize = lane'.finalize) :
    lane.sum = lane'.sum := by
  have hthird := mul_injective kPrime32_3_unit (xorShift_injective (by decide) h)
  have hsecond := mul_injective kPrime32_2_unit (xorShift_injective (by decide) hthird)
  exact xorShift_injective (by decide) hsecond

theorem HashLane.ext_value {lane lane' : HashLane} (h : ∀ j, lane.value j = lane'.value j) : lane = lane' := by
  cases lane
  cases lane'
  cases h 0
  cases h 1
  cases h 2
  cases h 3
  rfl

/-! ### The words of a stream -/

section Stream

variable {stream stream' message message' : List UInt8}

theorem blockWord_congr {k : Nat} (h : ∀ i, i / 4 = k → stream[i]? = stream'[i]?) :
    blockWord stream k = blockWord stream' k := by
  have hbytes : (stream.drop (4 * k)).take 4 = (stream'.drop (4 * k)).take 4 := by
    apply List.ext_getElem?
    intro i
    rw [List.getElem?_take, List.getElem?_take, List.getElem?_drop, List.getElem?_drop]
    split_ifs with hi
    · exact h (4 * k + i) (by omega)
    · rfl
  rw [blockWord, blockWord, hbytes]

/-- The same length, and different bytes in this word only. -/
structure DifferInWord (k : Nat) (stream stream' : List UInt8) : Prop where
  length : stream.length = stream'.length
  ne : stream ≠ stream'
  others : ∀ i, i / 4 ≠ k → stream[i]? = stream'[i]?

theorem DifferInWord.blockWord_ne {k : Nat} (h : DifferInWord k stream stream') :
    blockWord stream k ≠ blockWord stream' k := by
  intro heq
  have hlength : ((stream.drop (4 * k)).take 4).length = ((stream'.drop (4 * k)).take 4).length := by
    rw [List.length_take, List.length_take, List.length_drop, List.length_drop, h.length]
  have hlt : ∀ bytes : List UInt8, ofLE (bytes.take 4) < 2 ^ 32 := by
    intro bytes
    calc
      ofLE (bytes.take 4) < 256 ^ (bytes.take 4).length := ofLE_lt _
      _ ≤ 256 ^ 4 := Nat.pow_le_pow_right (by decide) (List.length_take_le 4 bytes)
      _ = 2 ^ 32 := by decide
  have hnat := congrArg UInt32.toNat heq
  rw [blockWord, blockWord, UInt32.toNat_ofNat_of_lt' (hlt _), UInt32.toNat_ofNat_of_lt' (hlt _)] at hnat
  have hbytes := ofLE_inj hlength hnat
  apply h.ne
  apply List.ext_getElem?
  intro i
  by_cases hi : i / 4 = k
  · have hbyte := congrArg (fun bytes => bytes[i % 4]?) hbytes
    have hin : i % 4 < 4 := Nat.mod_lt i (by decide)
    have hplace : 4 * k + i % 4 = i := by omega
    simpa only [List.getElem?_take_of_lt hin, List.getElem?_drop, hplace] using hbyte
  · exact h.others i hi

theorem DifferInWord.lt {k : Nat} (h : DifferInWord k stream stream') (hmod : stream.length % 64 = 0) :
    k / 16 < stream.length / hashBufferSize := by
  by_contra hge
  rw [hashBufferSize] at hge
  apply h.ne
  apply List.ext_getElem?
  intro i
  by_cases hi : i / 4 = k
  · rw [List.getElem?_eq_none (by omega), List.getElem?_eq_none (by rw [← h.length]; omega)]
  · exact h.others i hi

theorem getElem?_padded (hlength : message.length = message'.length) {i : Nat} (h : message[i]? = message'[i]?) :
    (padded message)[i]? = (padded message')[i]? := by
  simp only [padded, List.append_assoc, hlength]
  rcases Nat.lt_or_ge i message.length with hi | hi
  · rw [List.getElem?_append_left hi, List.getElem?_append_left (by rwa [← hlength]), h]
  · have hi' : message'.length ≤ i := by rwa [← hlength]
    rw [List.getElem?_append_right hi, List.getElem?_append_right hi', hlength]

theorem length_padded_congr (hlength : message.length = message'.length) :
    (padded message).length = (padded message').length := by
  simp only [padded, List.length_append, length_bigEndian_eight, List.length_replicate, hlength]

theorem DifferInWord.padded {k : Nat} (h : DifferInWord k message message') :
    DifferInWord k (padded message) (padded message') where
  length := length_padded_congr h.length
  ne := by
    intro heq
    simp only [HashMemory.padded, List.append_assoc] at heq
    exact h.ne (List.append_inj_left heq h.length)
  others := fun i hi => getElem?_padded h.length (h.others i hi)

end Stream

/-! ### The words of the digest -/

theorem word32_hashDigest (message : List UInt8) (w : Fin 4) :
    (hashDigest message).word32 w =
      (((blocks hashBufferSize (padded message)).foldl (fun s block => Tundra.hashBlock block s) .init).lane
      w).finalize := by
  rw [hashDigest_eq, word32_finalize]

section Message

variable {message message' : List UInt8} {w : Fin 4}

theorem value_congr {stream stream' : List UInt8} (hlength : stream.length = stream'.length) {j : Fin 4}
    (h : ∀ k : Nat, k % 16 = 4 * w + j → blockWord stream k = blockWord stream' k) (state : HashStateImpl) :
    (((blocks hashBufferSize stream).foldl (fun s block => Tundra.hashBlock block s) state).lane w).value j =
      (((blocks hashBufferSize stream').foldl (fun s block => Tundra.hashBlock block s) state).lane w).value j := by
  rw [value_blocks, value_blocks, hlength]
  congr 1
  apply List.map_congr_left
  intro b _
  apply h
  omega

/-- A word of the digest depends on the length of the message and on the bytes of its quarter of each block only. -/
theorem word32_congr (hlength : message.length = message'.length)
    (h : ∀ i : Nat, i % 64 / 16 = w → message[i]? = message'[i]?) :
    (hashDigest message).word32 w = (hashDigest message').word32 w := by
  rw [word32_hashDigest, word32_hashDigest]
  congr 1
  apply HashLane.ext_value
  intro j
  apply value_congr (length_padded_congr hlength)
  intro k hk
  apply blockWord_congr
  intro i hi
  apply getElem?_padded hlength
  apply h
  omega

/-- A word of the message that differs shows in the word of the digest it goes into. -/
theorem DifferInWord.word32_ne {k : Nat} (h : DifferInWord k message message') (hw : (w : Nat) = k % 16 / 4) :
    (hashDigest message).word32 w ≠ (hashDigest message').word32 w := by
  have hpadded := h.padded
  have hblocks := hpadded.lt (length_padded message)
  have hj : k % 4 < 4 := Nat.mod_lt k (by decide)
  rw [word32_hashDigest, word32_hashDigest]
  intro heq
  refine HashLane.sum_ne (j := ⟨k % 4, hj⟩) ?_ ?_ (HashLane.sum_eq_of_finalize heq)
  · rw [value_blocks, value_blocks, hpadded.length]
    rw [hpadded.length] at hblocks
    apply foldl_map_ne hashWord_injective_state hashWord_injective_word List.nodup_range (List.mem_range.mpr hblocks)
    · have hk : 16 * (k / 16) + (4 * w + k % 4) = k := by omega
      simp only [hk]
      exact hpadded.blockWord_ne
    · intro b _ hb
      apply blockWord_congr
      intro i hi
      apply hpadded.others
      dsimp only at hi
      omega
  · intro j hother
    apply value_congr hpadded.length
    intro n hn
    apply blockWord_congr
    intro i hi
    apply hpadded.others
    have hne : (j : Nat) ≠ k % 4 := fun heq => hother (Fin.ext heq)
    omega

end Message

/-! ### Messages that differ in one place -/

theorem hashDigest_ne {k : Nat} {message message' : List UInt8} (h : DifferInWord k message message') :
    hashDigest message ≠ hashDigest message' := by
  have hw : k % 16 / 4 < 4 := by omega
  intro heq
  exact h.word32_ne (w := ⟨k % 16 / 4, hw⟩) rfl (by rw [heq])

theorem differInWord_append {before piece piece' : List UInt8} {k : Nat} (after : List UInt8)
    (hlength : piece.length = piece'.length) (hne : piece ≠ piece')
    (hothers : ∀ i, (before.length + i) / 4 ≠ k → piece[i]? = piece'[i]?) :
    DifferInWord k (before ++ (piece ++ after)) (before ++ (piece' ++ after)) where
  length := by simp only [List.length_append, hlength]
  ne := by
    intro heq
    exact hne (List.append_inj_left (List.append_cancel_left heq) hlength)
  others := by
    intro i hi
    rcases Nat.lt_or_ge i before.length with hbefore | hbefore
    · rw [List.getElem?_append_left hbefore, List.getElem?_append_left hbefore]
    have hplace : before.length + (i - before.length) = i := by omega
    rw [List.getElem?_append_right hbefore, List.getElem?_append_right hbefore]
    rcases Nat.lt_or_ge (i - before.length) piece.length with hpiece | hpiece
    · rw [List.getElem?_append_left hpiece, List.getElem?_append_left (by rwa [← hlength])]
      exact hothers _ (by rwa [hplace])
    · have hpiece' : piece'.length ≤ i - before.length := by rwa [← hlength]
      rw [List.getElem?_append_right hpiece, List.getElem?_append_right hpiece', hlength]

theorem inputSignature_eq (pieces : List (List UInt8)) : inputSignature pieces = hashDigest pieces.flatten := by
  rw [inputSignature, foldl_hashUpdate]
  rfl

theorem inputSignature_ne {before after : List (List UInt8)} {piece piece' : List UInt8} {k : Nat}
    (hlength : piece.length = piece'.length) (hne : piece ≠ piece')
    (hothers : ∀ i, (before.flatten.length + i) / 4 ≠ k → piece[i]? = piece'[i]?) :
    inputSignature (before ++ piece :: after) ≠ inputSignature (before ++ piece' :: after) := by
  rw [inputSignature_eq, inputSignature_eq, List.flatten_append, List.flatten_append, List.flatten_cons,
    List.flatten_cons]
  exact hashDigest_ne (differInWord_append after.flatten hlength hne hothers)

/-- Messages of any length that differ in a single word have different digests, however they are cut into pieces
and whatever the buffers hold. So a node with another character in its action has another signature, and so has
one with another word of a timestamp, where the timestamp starts at a word of the message. -/
theorem local_change_noticed :
    (∀ (pieces pieces' : List (List UInt8)) (k : Nat), DifferInWord k pieces.flatten pieces'.flatten →
      hashFinalize (pieces.foldl hashUpdate hashInit) ≠ hashFinalize (pieces'.foldl hashUpdate hashInit) ∧
        ∀ (buffer buffer' : Block UInt8 hashBufferSize) (checks : Bool),
          digest hashBlock checks .init HashStateImpl.finalize buffer pieces ≠ digest hashBlock checks .init HashStateImpl.finalize buffer' pieces') ∧
    (∀ (config : SignConfig) (fuel : Nat) (nodeData : NodeData) (caches caches' : SignCaches)
    (pieces : List (List UInt8)) (action : CString) (k : Nat),
      inputPieces config fuel nodeData caches = some
      (pieces, caches') → action.bytes.length = nodeData.action.bytes.length → action ≠ nodeData.action →
        (∀ i ≠ k, action.bytes[i]? = nodeData.action.bytes[i]?) →
          ∃ pieces', inputPieces config fuel { nodeData with action := action } caches = some (pieces', caches') ∧
            inputSignature pieces' ≠ inputSignature pieces) ∧
    ∀ (before after : List (List UInt8)) (timestamp timestamp' : UInt64) (k : Nat), before.flatten.length % 4 = 0 →
      DifferInWord k (bigEndian timestamp) (bigEndian timestamp') →
        inputSignature (before ++ bigEndian timestamp :: after) ≠
          inputSignature (before ++ bigEndian timestamp' :: after) := by
  refine ⟨?_, ?_, ?_⟩
  · intro pieces pieces' k h
    have hne : hashFinalize (pieces.foldl hashUpdate hashInit) ≠ hashFinalize (pieces'.foldl hashUpdate hashInit) := by
      rw [foldl_hashUpdate, foldl_hashUpdate]
      exact hashDigest_ne h
    refine ⟨hne, fun buffer buffer' checks heq => hne ?_⟩
    rw [digest_hashBlock, digest_hashBlock] at heq
    exact Except.ok.inj heq
  · intro config fuel nodeData caches caches' pieces action k h hlength hne hothers
    obtain ⟨⟨inputs, _⟩, hinputs, heq⟩ := Option.map_eq_some_iff.mp h
    obtain ⟨rfl, rfl⟩ := Prod.mk.inj heq
    refine ⟨_, Option.map_eq_some_iff.mpr ⟨_, hinputs, rfl⟩, ?_⟩
    have hbytes : action.bytes ≠ nodeData.action.bytes := fun hsame => hne (CString.ext_bytes hsame)
    refine @inputSignature_ne [] _ _ _ (k / 4) hlength hbytes ?_
    intro i hi
    apply hothers
    rintro rfl
    exact hi (congrArg (fun n => n / 4) (Nat.zero_add i))
  · intro before after timestamp timestamp' k haligned h
    refine @inputSignature_ne before after _ _ (before.flatten.length / 4 + k) h.length h.ne ?_
    intro i hi
    apply h.others
    omega

theorem bigEndian_differInWord : DifferInWord 1 (bigEndian 1000) (bigEndian 1001) where
  length := rfl
  ne := by decide
  others := by
    have hbytes : ∀ i : Fin 8, (i : Nat) / 4 ≠ 1 → (bigEndian 1000)[(i : Nat)]? = (bigEndian 1001)[(i : Nat)]? := by
      decide
    intro i hi
    rcases Nat.lt_or_ge i 8 with hlt | hge
    · exact hbytes ⟨i, hlt⟩ hi
    · rw [List.getElem?_eq_none (by rwa [length_bigEndian_eight]),
        List.getElem?_eq_none (by rwa [length_bigEndian_eight])]

/-- A byte in the second block of a message, a letter of a command and a second in a timestamp. -/
theorem local_change_noticed_places :
    hashFinalize ([List.replicate 100 7, [1], List.replicate 40 9].foldl hashUpdate hashInit) ≠
      hashFinalize ([List.replicate 100 7 ++ [2], List.replicate 40 9].foldl hashUpdate hashInit) ∧
    (∃ pieces pieces' caches, inputPieces confusingFiles 1 inputNode emptyCaches = some (pieces, caches) ∧
      inputPieces confusingFiles 1 { inputNode with action := .lit "cd" } emptyCaches = some (pieces', caches) ∧
      inputSignature pieces' ≠ inputSignature pieces) ∧
    inputSignature ([[1, 2, 3, 4]] ++ bigEndian 1000 :: [[0]]) ≠
      inputSignature ([[1, 2, 3, 4]] ++ bigEndian 1001 :: [[0]]) := by
  obtain ⟨hmessages, hactions, htimestamps⟩ := local_change_noticed
  refine ⟨(hmessages _ _ 25 ?_).1, ?_, htimestamps [[1, 2, 3, 4]] [[0]] 1000 1001 1 (by decide) bigEndian_differInWord⟩
  · have hbyte : ∀ i, ((List.replicate 100 (7 : UInt8)).length + i) / 4 ≠ 25 →
      ([1] : List UInt8)[i]? = ([2] : List UInt8)[i]? := by
      intro i hi
      rw [List.length_replicate] at hi
      rw [List.getElem?_eq_none (by simp; omega), List.getElem?_eq_none (by simp; omega)]
    have hne : ([1] : List UInt8) ≠ [2] := by decide
    exact @differInWord_append (List.replicate 100 7) [1] [2] 25 (List.replicate 40 9) rfl hne hbyte
  · obtain ⟨⟨pieces, caches⟩, hpieces⟩ :=
      Option.isSome_iff_exists.mp
        (by decide +kernel : (inputPieces confusingFiles 1 inputNode emptyCaches).isSome = true)
    have hothers : ∀ i ≠ 1, (CString.lit "cd").bytes[i]? = inputNode.action.bytes[i]? := by
      intro i hi
      match i with
      | 0 => decide
      | 1 => exact absurd rfl hi
      | i + 2 => rfl
    obtain ⟨pieces', hpieces', hne⟩ := hactions _ _ _ _ _ _ _ 1 hpieces (by decide) (by decide) hothers
    exact ⟨pieces, pieces', caches, hpieces, hpieces', hne⟩

def DifferInByte (i : Nat) (message message' : List UInt8) :
    Prop := message[i]? ≠ message'[i]? ∧ ∀ k ≠ i, message[k]? = message'[k]?

theorem DifferInByte.differInWord {i : Nat} {message message' : List UInt8} (h : DifferInByte i message message')
    (hlength : message.length = message'.length) : DifferInWord (i / 4) message message' where
  length := hlength
  ne := fun heq => h.1 (by rw [heq])
  others := by
    intro k hk
    apply h.2
    rintro rfl
    exact hk rfl

/-- Every word of the digest sees its own quarter of each block, and no other byte of a message: the bytes of a
quarter are protected by one word. -/
theorem word32_quarter (n : Nat) (w : Fin 4) :
    (∀ i < n, (∃ message message' : List UInt8, message.length = n ∧ message'.length = n ∧
    DifferInByte i message message' ∧
      (hashDigest message).word32 w ≠ (hashDigest message').word32 w) ↔ (w : Nat) = i % 64 / 16) ∧
    ∀ message message' : List UInt8, message.length = n → message'.length = n →
    (∀ i : Nat, i % 64 / 16 = w → message[i]? = message'[i]?) →
      (hashDigest message).word32 w = (hashDigest message').word32 w := by
  constructor
  · intro i hi
    constructor
    · rintro ⟨message, message', hlength, hlength', hbyte, hne⟩
      by_contra hw
      apply hne
      apply word32_congr (hlength.trans hlength'.symm)
      intro k hk
      apply hbyte.2
      rintro rfl
      exact hw hk.symm
    · intro hw
      have hzero : (List.replicate n (0 : UInt8)).length = n := List.length_replicate
      have hone : ((List.replicate n (0 : UInt8)).set i 1).length = n := by rw [List.length_set, hzero]
      have hbyte : DifferInByte i (List.replicate n 0) ((List.replicate n 0).set i 1) := by
        constructor
        · rw [List.getElem?_set_self (by rwa [hzero]), List.getElem?_replicate_of_lt hi]
          decide
        · intro k hk
          rw [List.getElem?_set_ne hk.symm]
      exact ⟨_, _, hzero, hone, hbyte, (hbyte.differInWord (hzero.trans hone.symm)).word32_ne (by omega)⟩
  · intro message message' hlength hlength' h
    exact word32_congr (hlength.trans hlength'.symm) h

/-- The byte of a message of one byte does not show in the second word of the digest. -/
theorem first_byte_not_seen :
    ¬ ∃ message message' : List UInt8, message.length = 1 ∧ message'.length = 1 ∧ DifferInByte 0 message message' ∧
    (hashDigest message).word32 1 ≠ (hashDigest message').word32 1 := by
  rintro ⟨message, message', hlength, hlength', hbyte, hne⟩
  apply hne
  apply word32_congr (hlength.trans hlength'.symm)
  intro k hk
  apply hbyte.2
  rintro rfl
  exact absurd hk (by decide)

end Tundra
