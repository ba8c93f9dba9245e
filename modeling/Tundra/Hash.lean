import Tundra.Common
import Tundra.Lib.Bytes

/-!
# The fast hash

`Hash.cpp` and `HashFast.cpp` under `USE_FAST_HASH`: four 32-bit hashes side by side over blocks of 64 bytes. A
message is fed piece by piece through a buffer that is never full between two pieces.
-/

namespace Tundra

open Bytes

def kPrime32_1 : UInt32 := 2654435761
def kPrime32_2 : UInt32 := 2246822519
def kPrime32_3 : UInt32 := 3266489917

def rotateLeft (value : UInt32) (amount : UInt32) : UInt32 := (value <<< amount) ||| (value >>> (32 - amount))

/-- One row of `m_V`. -/
structure HashLane where
  v0 : UInt32
  v1 : UInt32
  v2 : UInt32
  v3 : UInt32
deriving DecidableEq

structure HashStateImpl where
  lane0 : HashLane
  lane1 : HashLane
  lane2 : HashLane
  lane3 : HashLane
deriving DecidableEq

/-- A row of `HashInitImpl`. -/
def HashLane.init (seed : UInt32) :
    HashLane := ⟨seed + kPrime32_1 + kPrime32_2, seed + kPrime32_2, seed, seed - kPrime32_1⟩

/-- `HashInitImpl`. -/
def HashStateImpl.init : HashStateImpl := ⟨.init 0x89caf13a, .init 0x179fa534, .init 0x5199afcc, .init 0xef901315⟩

/-- What `HashBlock` does to one value. -/
def hashWord (v word : UInt32) : UInt32 := rotateLeft (v + word * kPrime32_2) 13 * kPrime32_1

def blockWord (block : List UInt8) (k : Nat) : UInt32 := .ofNat (ofLE ((block.drop (4 * k)).take 4))

/-- What `HashBlock` does to one row, with the four words from this index on. -/
def HashLane.block (lane : HashLane) (block : List UInt8) (k : Nat) : HashLane :=
  ⟨hashWord lane.v0 (blockWord block k), hashWord lane.v1 (blockWord block (k + 1)),
    hashWord lane.v2 (blockWord block (k + 2)),
    hashWord lane.v3 (blockWord block (k + 3))⟩

def hashBlock (block : List UInt8) (state : HashStateImpl) : HashStateImpl :=
  ⟨state.lane0.block block 0, state.lane1.block block 4, state.lane2.block block 8, state.lane3.block block 12⟩

/-- One turn of the loop of `HashFinalizeImpl`. -/
def HashLane.finalize (lane : HashLane) : UInt32 :=
  let h32 := rotateLeft lane.v0 1 + rotateLeft lane.v1 7 + rotateLeft lane.v2 12 + rotateLeft lane.v3 18
  let h32 := (h32 ^^^ (h32 >>> 15)) * kPrime32_2
  let h32 := (h32 ^^^ (h32 >>> 13)) * kPrime32_3
  h32 ^^^ (h32 >>> 16)

/-- `HashFinalizeImpl`. The lower one of two neighbouring words is the lower half of the 64-bit word. -/
def HashStateImpl.finalize (state : HashStateImpl) : HashDigest :=
  ⟨state.lane0.finalize.toUInt64 ||| (state.lane1.finalize.toUInt64 <<< 32),
    state.lane2.finalize.toUInt64 ||| (state.lane3.finalize.toUInt64 <<< 32)⟩

/-- The size of `m_Buffer`. -/
def hashBufferSize : Nat := 64

/-- `HashState` without the debug file; `buffer` is the part of `m_Buffer` that is used. -/
structure HashState where
  stateImpl : HashStateImpl
  msgSize : UInt64
  buffer : List UInt8
  used_lt : buffer.length < hashBufferSize

theorem used_nil : ([] : List UInt8).length < hashBufferSize := by decide

def hashInit : HashState := ⟨.init, 0, [], used_nil⟩

/-- The loop of `HashUpdate`, which takes at least one byte each turn. -/
def hashUpdateLoop : Nat → List UInt8 → HashState → HashState
  | 0, _, self => self
  | fuel + 1, data, self =>
      if data = [] then self
      else if self.buffer ≠ [] ∨ data.length < hashBufferSize then
        let copySize := min data.length (hashBufferSize - self.buffer.length)
        let buffer := self.buffer ++ data.take copySize
        if h : buffer.length < hashBufferSize then
          hashUpdateLoop fuel (data.drop copySize) { self with buffer := buffer, used_lt := h }
        else
          hashUpdateLoop fuel (data.drop copySize)
            { self with stateImpl := hashBlock buffer self.stateImpl, buffer := [], used_lt := used_nil }
      else hashUpdateLoop fuel (data.drop hashBufferSize)
        { self with stateImpl := hashBlock (data.take hashBufferSize) self.stateImpl }

def hashUpdate (self : HashState) (data : List UInt8) : HashState :=
  let self := hashUpdateLoop data.length data self
  { self with msgSize := self.msgSize + .ofNat data.length * 8 }

/-- The bytes of an integer, the highest first. -/
def bigEndian (value : UInt64) : List UInt8 := (toLE 8 value.toNat).reverse

def hashFinalize (self : HashState) : HashDigest :=
  let countData := bigEndian self.msgSize
  let self := hashUpdate self [0x80]
  let zeroes := if self.buffer.length < hashBufferSize - 8 then hashBufferSize - 8 - self.buffer.length
    else hashBufferSize - (self.buffer.length - (hashBufferSize - 8))
  (hashUpdate (hashUpdate self (List.replicate zeroes 0)) countData).stateImpl.finalize

/-- The digest of a message that is fed in one piece. -/
def hashDigest (message : List UInt8) : HashDigest := hashFinalize (hashUpdate hashInit message)

/-- The byte `HashAddSeparator` feeds. -/
def separator : List UInt8 := [0]

/-! ### The stream -/

/-- Bytes that are taken in block by block, down to a rest that is shorter than a block. -/
inductive Absorbs : HashStateImpl → List UInt8 → HashStateImpl → List UInt8 → Prop
  | rest {state : HashStateImpl} {bytes : List UInt8} (h : bytes.length < hashBufferSize) : Absorbs state bytes state
      bytes
  | block {state state' : HashStateImpl} {block bytes rest : List UInt8} (hlength : block.length = hashBufferSize)
      (h : Absorbs (hashBlock block state) bytes state' rest) : Absorbs state (block ++ bytes) state' rest

namespace Absorbs

variable {state state' state'' : HashStateImpl} {bytes more rest rest' : List UInt8}

theorem append (h : Absorbs state bytes state' rest) (h' : Absorbs state' (rest ++ more) state'' rest') :
    Absorbs state (bytes ++ more) state'' rest' := by
  induction h with
  | rest _ => exact h'
  | block hlength _ ih =>
      rw [List.append_assoc]
      exact .block hlength (ih h')

theorem unique (h : Absorbs state bytes state' rest) (h' : Absorbs state bytes state'' rest') :
    state' = state'' ∧ rest = rest' := by
  induction h with
  | @rest state bytes hlt =>
      cases h' with
      | rest _ => exact ⟨rfl, rfl⟩
      | block hlength _ =>
          rw [List.length_append] at hlt
          omega
  | @block state state' block bytes rest hlength h ih =>
      generalize hall : block ++ bytes = all at h'
      cases h' with
      | rest hlt =>
          rw [← hall, List.length_append] at hlt
          omega
      | @block _ _ block' bytes' _ hlength' h' =>
          obtain ⟨rfl, rfl⟩ := List.append_inj hall (hlength.trans hlength'.symm)
          exact ih h'

end Absorbs

theorem absorbs_hashUpdateLoop (fuel : Nat) (data : List UInt8) (self : HashState) (hfuel : data.length ≤ fuel) :
    Absorbs self.stateImpl (self.buffer ++ data) (hashUpdateLoop fuel data self).stateImpl
    (hashUpdateLoop fuel data self).buffer := by
  induction fuel generalizing data self with
  | zero =>
      obtain rfl : data = [] := List.length_eq_zero_iff.mp (Nat.le_zero.mp hfuel)
      rw [List.append_nil]
      exact .rest self.used_lt
  | succ fuel ih =>
      rw [hashUpdateLoop]
      have hused := self.used_lt
      by_cases hnil : data = []
      · rw [if_pos hnil, hnil, List.append_nil]
        exact .rest self.used_lt
      have hpos : 0 < data.length := List.length_pos_iff.mpr hnil
      rw [if_neg hnil]
      by_cases hbuffer : self.buffer ≠ [] ∨ data.length < hashBufferSize
      · rw [if_pos hbuffer]
        dsimp only
        generalize hcopy : min data.length (hashBufferSize - self.buffer.length) = copySize
        have hdrop : (data.drop copySize).length ≤ fuel := by
          rw [List.length_drop]
          omega
        have hsplit : (self.buffer ++ data.take copySize) ++ data.drop copySize = self.buffer ++ data := by
          rw [List.append_assoc, List.take_append_drop]
        split_ifs with hroom
        · have hrest := ih (data.drop copySize)
            { self with buffer := self.buffer ++ data.take copySize, used_lt := hroom } hdrop
          rwa [hsplit] at hrest
        · have hrest := ih (data.drop copySize)
            { self with stateImpl := hashBlock (self.buffer ++
              data.take copySize) self.stateImpl, buffer := [], used_lt := used_nil } hdrop
          rw [← hsplit]
          refine .block ?_ hrest
          rw [List.length_append, List.length_take] at hroom ⊢
          omega
      · rw [if_neg hbuffer]
        obtain ⟨hempty, hlong⟩ := not_or.mp hbuffer
        have hdrop : (data.drop hashBufferSize).length ≤ fuel := by
          rw [List.length_drop, hashBufferSize]
          omega
        have hall : self.buffer ++ data = data.take hashBufferSize ++ (self.buffer ++ data.drop hashBufferSize) := by
          rw [not_not.mp hempty, List.nil_append, List.nil_append, List.take_append_drop]
        rw [hall]
        refine .block ?_ (ih (data.drop hashBufferSize)
          { self with stateImpl := hashBlock (data.take hashBufferSize) self.stateImpl } hdrop)
        rw [List.length_take]
        omega

theorem HashState.ext_of {s t : HashState} (hstate : s.stateImpl = t.stateImpl) (hsize : s.msgSize = t.msgSize)
    (hbuffer : s.buffer = t.buffer) :
    s = t := by
  cases s
  cases t
  cases hstate
  cases hsize
  cases hbuffer
  rfl

theorem msgSize_hashUpdateLoop (fuel : Nat) (data : List UInt8) (self : HashState) :
    (hashUpdateLoop fuel data self).msgSize = self.msgSize := by
  induction fuel generalizing data self with
  | zero => rfl
  | succ fuel ih =>
      rw [hashUpdateLoop]
      dsimp only
      split_ifs
      · rfl
      · exact ih _ _
      · exact ih _ _
      · exact ih _ _

/-- It does not matter into how many pieces a stream is cut. -/
theorem hashUpdate_append (self : HashState) (a b : List UInt8) :
    hashUpdate (hashUpdate self a) b = hashUpdate self (a ++ b) := by
  have ha := absorbs_hashUpdateLoop a.length a self le_rfl
  have hb := absorbs_hashUpdateLoop b.length b (hashUpdate self a) le_rfl
  have hab := absorbs_hashUpdateLoop (a ++ b).length (a ++ b) self le_rfl
  rw [← List.append_assoc] at hab
  obtain ⟨hstate, hbuffer⟩ := (ha.append hb).unique hab
  refine HashState.ext_of hstate ?_ hbuffer
  simp only [hashUpdate, msgSize_hashUpdateLoop, List.length_append, UInt64.ofNat_add, UInt64.add_mul, UInt64.add_assoc]

theorem foldl_hashUpdate (self : HashState) (pieces : List (List UInt8)) :
    pieces.foldl hashUpdate self = hashUpdate self pieces.flatten := by
  induction pieces generalizing self with
  | nil => exact HashState.ext_of rfl (by simp [hashUpdate, msgSize_hashUpdateLoop]) rfl
  | cons piece pieces ih => rw [List.foldl_cons, ih, hashUpdate_append, List.flatten_cons]

end Tundra
