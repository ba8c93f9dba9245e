import Tundra.Hash
import Tundra.Lib.Block
import Tundra.Lib.Checked
import Tundra.Lib.Chunks

/-!
# The hash buffer

`HashUpdate` and `HashFinalize` of `Hash.cpp` with the array `m_Buffer`, for any `HashBlock` on any
`HashStateImpl`: both builds of the hash share them. An access outside an array ends a run, as a failed `CHECK`
does in checked builds.

Whatever the pieces of a message are, `HashBlock` is given the blocks of the padded message one after the other.
-/

namespace Tundra

open Bytes Chunks

open Checked (MemoryFault inBounds check check_pos)

namespace HashMemory

/-- `HashState` without the debug file. -/
structure State (σ : Type) where
  stateImpl : σ
  msgSize : UInt64
  bufUsed : Nat
  buffer : Block UInt8 hashBufferSize

theorem length_zeroes : (List.replicate 128 (0 : UInt8)).length = 128 := List.length_replicate

/-- `zeroes` of `HashFinalize`. -/
def zeroes : Block UInt8 128 := ⟨List.replicate 128 0, length_zeroes⟩

/-- `diff` of `HashFinalize`: the difference is one of `size_t`, and is narrowed to `int`. -/
def diff (bufUsed : Nat) : Int32 := (UInt64.ofNat bufUsed - (64 - 8)).toUInt32.toInt32

/-- How many zeroes `HashFinalize` feeds. -/
def zeroCount (bufUsed : Nat) : Nat :=
  if diff bufUsed < 0 then (-diff bufUsed).toInt64.toUInt64.toNat
    else ((64 : UInt64) - (diff bufUsed).toInt64.toUInt64).toNat

section Engine

variable {σ δ : Type} (hashBlock : List UInt8 → σ → σ)

/-- `HashInit`, with what is in the buffer before. -/
def init (initImpl : σ) (buffer : Block UInt8 hashBufferSize) : State σ := ⟨initImpl, 0, 0, buffer⟩

/-- The loop of `HashUpdate`, which takes at least one byte each turn. -/
def updateLoop : Nat → List UInt8 → State σ → Except MemoryFault (State σ)
  | 0, data, self => if data = [] then .ok self else .error .stuck
  | fuel + 1, data, self =>
      if data = [] then .ok self
      else if self.bufUsed ≠ 0 ∨ data.length < hashBufferSize then
        let bufSpace := hashBufferSize - self.bufUsed
        let copySize := if data.length < bufSpace then data.length else bufSpace
        let used := self.bufUsed + copySize
        (inBounds (self.buffer.write self.bufUsed (data.take copySize))).bind fun buffer =>
          if used = hashBufferSize then
            updateLoop fuel (data.drop copySize)
              { self with stateImpl := hashBlock buffer.cells self.stateImpl, bufUsed := 0, buffer := buffer }
          else updateLoop fuel (data.drop copySize) { self with bufUsed := used, buffer := buffer }
      else updateLoop fuel (data.drop hashBufferSize)
        { self with stateImpl := hashBlock (data.take hashBufferSize) self.stateImpl }

/-- `HashUpdate`. -/
def update (self : State σ) (data : List UInt8) : Except MemoryFault (State σ) := do
  let self ← updateLoop hashBlock data.length data self
  return { self with msgSize := self.msgSize + .ofNat data.length * 8 }

/-- `HashFinalize`. -/
def finalize (checks : Bool) (finalizeImpl : σ → δ) (self : State σ) : Except MemoryFault δ := do
  let countData := bigEndian self.msgSize
  let self ← update hashBlock self [0x80]
  let padding ← inBounds (zeroes.read 0 (zeroCount self.bufUsed))
  let self ← update hashBlock self padding
  check checks (self.bufUsed = hashBufferSize - 8)
  let self ← update hashBlock self countData
  check checks (0 = self.bufUsed)
  return finalizeImpl self.stateImpl

/-- The digest of a message that is fed in pieces. -/
def digest (checks : Bool) (initImpl : σ) (finalizeImpl : σ → δ) (buffer : Block UInt8 hashBufferSize)
    (pieces : List (List UInt8)) : Except MemoryFault δ := do
  let self ← pieces.foldlM (update hashBlock) (init initImpl buffer)
  finalize hashBlock checks finalizeImpl self

/-- What is in a state after a stream. -/
structure Fed (initImpl : σ) (stream : List UInt8) (state : State σ) : Prop where
  stateImpl : state.stateImpl = (blocks hashBufferSize stream).foldl (fun s block => hashBlock block s) initImpl
  bufUsed : state.bufUsed = stream.length % hashBufferSize
  buffer : state.buffer.cells.take state.bufUsed = rest hashBufferSize stream

end Engine

/-- How many zeroes are between the one bit and the size: as many as the last block takes, but a whole block of
them instead of none. -/
def paddingZeroes (length : Nat) :
    Nat := if (length + 1) % 64 < 56 then 56 - (length + 1) % 64 else 120 - (length + 1) % 64

def padded (message : List UInt8) : List UInt8 :=
  message ++ [0x80] ++ List.replicate (paddingZeroes message.length) 0 ++ bigEndian (.ofNat message.length * 8)

/-! ### One update -/

section Engine

variable {σ δ : Type} {hashBlock : List UInt8 → σ → σ} {initImpl : σ} {stream : List UInt8} {self : State σ}

theorem hashBufferSize_pos : 0 < hashBufferSize := by decide

theorem Fed.bufUsed_lt (h : Fed hashBlock initImpl stream self) : self.bufUsed < hashBufferSize := by
  rw [h.bufUsed]
  exact Nat.mod_lt _ hashBufferSize_pos

theorem fed_init (buffer : Block UInt8 hashBufferSize) : Fed hashBlock initImpl [] (init initImpl buffer) where
  stateImpl := rfl
  bufUsed := rfl
  buffer := rfl

theorem Fed.fill (h : Fed hashBlock initImpl stream self) {data : List UInt8} {buffer : Block UInt8 hashBufferSize}
    (hwrite : self.buffer.write self.bufUsed data = some buffer) (hroom : self.bufUsed + data.length < hashBufferSize) :
    Fed hashBlock initImpl (stream ++ data) { self with bufUsed := self.bufUsed + data.length, buffer := buffer } := by
  obtain ⟨hblocks, hrest⟩ := blocks_append hashBufferSize_pos stream data
  have hlength : (rest hashBufferSize stream ++ data).length = self.bufUsed + data.length := by
    rw [List.length_append, length_rest, h.bufUsed]
  have hshort : (rest hashBufferSize stream ++ data).length < hashBufferSize := by rwa [hlength]
  rw [rest_of_length_lt hshort] at hrest
  rw [blocks_of_length_lt hshort, List.append_nil] at hblocks
  constructor
  · rw [hblocks]
    exact h.stateImpl
  · rw [← length_rest, hrest]
    exact hlength.symm
  · rw [hrest, ← h.buffer]
    exact Block.take_write hwrite

theorem Fed.flush (h : Fed hashBlock initImpl stream self) {data : List UInt8} {buffer : Block UInt8 hashBufferSize}
    (hwrite : self.buffer.write self.bufUsed data = some buffer) (hfull : self.bufUsed + data.length = hashBufferSize) :
    Fed hashBlock initImpl (stream ++ data)
    { self with stateImpl := hashBlock buffer.cells self.stateImpl, bufUsed := 0, buffer := buffer } := by
  have hcells : buffer.cells = rest hashBufferSize stream ++ data := by
    rw [← h.buffer, ← Block.take_write hwrite, hfull, List.take_of_length_le (by rw [buffer.length_cells])]
  obtain ⟨hblocks, hrest⟩ := blocks_append hashBufferSize_pos stream data
  have hlength : buffer.cells.length = hashBufferSize := buffer.length_cells
  have hone := blocks_append_block hashBufferSize_pos hlength []
  have hnone := rest_append_block hashBufferSize_pos hlength []
  rw [List.append_nil] at hone hnone
  rw [← hcells, hone] at hblocks
  rw [← hcells, hnone] at hrest
  constructor
  · rw [hblocks, List.foldl_append, ← h.stateImpl]
    rfl
  · rw [← length_rest, hrest]
    rfl
  · rw [hrest]
    rfl

theorem Fed.direct (h : Fed hashBlock initImpl stream self) (hused : self.bufUsed = 0) {block : List UInt8}
    (hblock : block.length = hashBufferSize) :
    Fed hashBlock initImpl (stream ++ block) { self with stateImpl := hashBlock block self.stateImpl } := by
  have hempty : rest hashBufferSize stream = [] := by
    rw [← h.buffer, hused, List.take_zero]
  obtain ⟨hblocks, hrest⟩ := blocks_append hashBufferSize_pos stream block
  have hone := blocks_append_block hashBufferSize_pos hblock []
  have hnone := rest_append_block hashBufferSize_pos hblock []
  rw [List.append_nil] at hone hnone
  rw [hempty, List.nil_append, hone] at hblocks
  rw [hempty, List.nil_append, hnone] at hrest
  constructor
  · rw [hblocks, List.foldl_append, ← h.stateImpl]
    rfl
  · rw [← length_rest, hrest]
    exact hused
  · rw [hrest]
    change self.buffer.cells.take self.bufUsed = _
    rw [hused]
    rfl

theorem updateLoop_spec (h : Fed hashBlock initImpl stream self) {fuel : Nat} {data : List UInt8}
    (hfuel : data.length ≤ fuel) :
    ∃ self', updateLoop hashBlock fuel data self = .ok self' ∧ Fed hashBlock initImpl (stream ++ data) self' ∧
    self'.msgSize = self.msgSize := by
  induction fuel generalizing data self stream with
  | zero =>
      obtain rfl : data = [] := List.length_eq_zero_iff.mp (Nat.le_zero.mp hfuel)
      rw [List.append_nil]
      exact ⟨self, rfl, h, rfl⟩
  | succ fuel ih =>
      rw [updateLoop]
      by_cases hnil : data = []
      · rw [if_pos hnil, hnil, List.append_nil]
        exact ⟨self, rfl, h, rfl⟩
      have hpos : 0 < data.length := List.length_pos_iff.mpr hnil
      have hlt := h.bufUsed_lt
      rw [if_neg hnil]
      by_cases hbuffered : self.bufUsed ≠ 0 ∨ data.length < hashBufferSize
      · rw [if_pos hbuffered]
        dsimp only
        generalize hcopy : (if data.length < hashBufferSize - self.bufUsed then data.length
          else hashBufferSize - self.bufUsed) = copySize
        have hle : copySize ≤ data.length ∧ self.bufUsed + copySize ≤ hashBufferSize ∧ 0 < copySize := by
          split_ifs at hcopy <;> omega
        have htake : (data.take copySize).length = copySize := List.length_take_of_le hle.1
        have hdrop : (data.drop copySize).length ≤ fuel := by
          rw [List.length_drop]
          omega
        have hfits : self.bufUsed + (data.take copySize).length ≤ hashBufferSize := by
          rw [htake]
          exact hle.2.1
        obtain ⟨buffer, hwrite⟩ := self.buffer.write_isSome hfits
        rw [hwrite]
        change ∃ self', (if self.bufUsed + copySize = hashBufferSize then _ else _) = _ ∧ _
        rw [← List.take_append_drop copySize data, ← List.append_assoc, List.take_append_drop]
        split_ifs with hfull
        · exact ih (h.flush hwrite (by rw [htake]; exact hfull)) hdrop
        · have hfed := h.fill hwrite (by rw [htake]; omega)
          rw [htake] at hfed
          exact ih hfed hdrop
      · rw [if_neg hbuffered]
        obtain ⟨hempty, hlong⟩ := not_or.mp hbuffered
        have htake : (data.take hashBufferSize).length = hashBufferSize := List.length_take_of_le (not_lt.mp hlong)
        have hdrop : (data.drop hashBufferSize).length ≤ fuel := by
          rw [List.length_drop, hashBufferSize]
          omega
        rw [← List.take_append_drop hashBufferSize data, ← List.append_assoc, List.take_append_drop]
        exact ih (h.direct (not_not.mp hempty) htake) hdrop

theorem update_spec (h : Fed hashBlock initImpl stream self) (data : List UInt8) :
    ∃ self', update hashBlock self data = .ok self' ∧ Fed hashBlock initImpl (stream ++ data) self' ∧
      self'.msgSize = self.msgSize + .ofNat data.length * 8 := by
  obtain ⟨self', hloop, hfed, hsize⟩ := updateLoop_spec h (le_refl data.length)
  refine ⟨{ self' with msgSize := self'.msgSize + .ofNat data.length * 8 }, ?_,
    ⟨hfed.stateImpl, hfed.bufUsed, hfed.buffer⟩, ?_⟩
  · rw [update, hloop]
    rfl
  · rw [← hsize]

theorem foldlM_update_spec (h : Fed hashBlock initImpl stream self) (pieces : List (List UInt8)) :
    ∃ self', pieces.foldlM (update hashBlock) self = .ok self' ∧ Fed hashBlock initImpl
    (stream ++ pieces.flatten) self' ∧
      self'.msgSize = self.msgSize + .ofNat pieces.flatten.length * 8 := by
  induction pieces generalizing self stream with
  | nil =>
      refine ⟨self, rfl, ?_, ?_⟩
      · rw [List.flatten_nil, List.append_nil]
        exact h
      · simp
  | cons piece pieces ih =>
      obtain ⟨self₁, hupdate, hfed₁, hsize₁⟩ := update_spec h piece
      obtain ⟨self₂, hrest, hfed₂, hsize₂⟩ := ih hfed₁
      refine ⟨self₂, ?_, ?_, ?_⟩
      · rw [List.foldlM_cons, hupdate]
        exact hrest
      · rw [List.flatten_cons, ← List.append_assoc]
        exact hfed₂
      · rw [hsize₂, hsize₁, List.flatten_cons, List.length_append, UInt64.ofNat_add, UInt64.add_mul, UInt64.add_assoc]

/-! ### The padding -/

theorem zeroCount_eq : ∀ bufUsed < 64, zeroCount bufUsed = if bufUsed < 56 then 56 - bufUsed else 120 - bufUsed := by
  decide +kernel

theorem length_bigEndian_eight (value : UInt64) : (bigEndian value).length = 8 := by
  rw [bigEndian, List.length_reverse, length_toLE]

/-- The padding goes up to the last eight bytes of a block. -/
theorem add_paddingZeroes (length : Nat) : (length + 1 + paddingZeroes length) % 64 = 56 := by
  rw [paddingZeroes]
  split_ifs with hlt <;> omega

theorem length_padded (message : List UInt8) : (padded message).length % 64 = 0 := by
  have hzeroes := add_paddingZeroes message.length
  simp only [padded, List.length_append, List.length_singleton, List.length_replicate, length_bigEndian_eight]
  omega

theorem read_zeroes {n : Nat} (h : n ≤ 128) : zeroes.read 0 n = some (List.replicate n 0) := by
  rw [Block.read_eq_some (by omega)]
  simp only [zeroes, List.drop_zero, List.take_replicate, Nat.min_eq_left h]

theorem finalize_spec (h : Fed hashBlock initImpl stream self) (hsize : self.msgSize = .ofNat stream.length * 8)
    (checks : Bool) (finalizeImpl : σ → δ) : finalize hashBlock checks finalizeImpl self =
      .ok (finalizeImpl ((blocks hashBufferSize (padded stream)).foldl (fun s block => hashBlock block s)
      initImpl)) := by
  obtain ⟨self₁, hone, hfed₁, -⟩ := update_spec h [0x80]
  have hused₁ : self₁.bufUsed = (stream.length + 1) % 64 := by
    rw [hfed₁.bufUsed, List.length_append, List.length_singleton]
    rfl
  have hcount : zeroCount self₁.bufUsed = paddingZeroes stream.length := by
    rw [zeroCount_eq _ hfed₁.bufUsed_lt, hused₁]
    rfl
  have hread : zeroes.read 0 (zeroCount self₁.bufUsed) = some (List.replicate (paddingZeroes stream.length) 0) := by
    rw [hcount]
    apply read_zeroes
    rw [paddingZeroes]
    split_ifs <;> omega
  obtain ⟨self₂, hzero, hfed₂, -⟩ := update_spec hfed₁ (List.replicate (paddingZeroes stream.length) 0)
  have hused₂ : self₂.bufUsed = hashBufferSize - 8 := by
    rw [hfed₂.bufUsed, List.length_append, List.length_append, List.length_singleton, List.length_replicate]
    exact add_paddingZeroes stream.length
  obtain ⟨self₃, hend, hfed₃, -⟩ := update_spec hfed₂ (bigEndian self.msgSize)
  rw [hsize] at hfed₃
  have hused₃ : 0 = self₃.bufUsed := by
    rw [hfed₃.bufUsed]
    exact (length_padded stream).symm
  have hstate := hfed₃.stateImpl
  rw [finalize, hone]
  change (inBounds (zeroes.read 0 (zeroCount self₁.bufUsed)) >>= _) = _
  rw [hread]
  change (update hashBlock self₁ (List.replicate (paddingZeroes stream.length) 0) >>= _) = _
  rw [hzero]
  change (check checks (self₂.bufUsed = hashBufferSize - 8) >>= _) = _
  rw [check_pos hused₂]
  change (update hashBlock self₂ (bigEndian self.msgSize) >>= _) = _
  rw [hend]
  change (check checks (0 = self₃.bufUsed) >>= _) = _
  rw [check_pos hused₃]
  exact congrArg (fun s => Except.ok (finalizeImpl s)) hstate

theorem foldl_concat_calls (calls bs : List (List UInt8)) :
    bs.foldl (fun s block => s ++ [block]) calls = calls ++ bs := by
  induction bs generalizing calls with
  | nil => exact (List.append_nil calls).symm
  | cons b bs ih => rw [List.foldl_cons, ih, List.append_assoc, List.singleton_append]

theorem digest_eq (hashBlock : List UInt8 → σ → σ) (initImpl : σ) (finalizeImpl : σ → δ)
    (buffer : Block UInt8 hashBufferSize) (checks : Bool) (pieces : List (List UInt8)) :
    digest hashBlock checks initImpl finalizeImpl buffer pieces =
      .ok (finalizeImpl ((blocks hashBufferSize (padded pieces.flatten)).foldl (fun s block => hashBlock block s)
      initImpl)) := by
  obtain ⟨self, hrun, hfed, hsize⟩ := foldlM_update_spec (@fed_init _ hashBlock initImpl buffer) pieces
  rw [List.nil_append] at hfed
  rw [digest, hrun]
  exact finalize_spec hfed (hsize.trans (UInt64.zero_add _)) checks finalizeImpl

/-- Whatever the pieces are: after each of them the buffer holds less than a block, and `HashBlock` has been
given the whole blocks so far. In the end it has been given the blocks of the padded message and no others, with
both checks passed, so that the digest only depends on the message. -/
theorem hash_chunking (hashBlock : List UInt8 → σ → σ) (initImpl : σ) (finalizeImpl : σ → δ)
    (buffer : Block UInt8 hashBufferSize) (checks : Bool) (pieces : List (List UInt8)) :
    (∃ self, pieces.foldlM (update hashBlock) (init initImpl buffer) = .ok self ∧ self.bufUsed < hashBufferSize ∧
      self.bufUsed = pieces.flatten.length % hashBufferSize ∧
      self.stateImpl = (blocks hashBufferSize pieces.flatten).foldl (fun s block => hashBlock block s) initImpl) ∧
    (padded pieces.flatten).length % hashBufferSize = 0 ∧
    digest (fun block calls => calls ++ [block]) checks [] id buffer pieces = .ok
    (blocks hashBufferSize (padded pieces.flatten)) ∧
    ∃ out, digest hashBlock checks initImpl finalizeImpl buffer pieces = .ok out ∧
      ∀ (buffer' : Block UInt8 hashBufferSize) (checks' : Bool) (pieces' : List (List UInt8)), pieces'.flatten =
      pieces.flatten →
        digest hashBlock checks' initImpl finalizeImpl buffer' pieces' = .ok out := by
  obtain ⟨self, hrun, hfed, -⟩ := foldlM_update_spec (@fed_init _ hashBlock initImpl buffer) pieces
  rw [List.nil_append] at hfed
  refine ⟨⟨self, hrun, hfed.bufUsed_lt, hfed.bufUsed, hfed.stateImpl⟩, length_padded _, ?_, _, digest_eq _ _ _ _ _ _,
    ?_⟩
  · rw [digest_eq, foldl_concat_calls]
    rfl
  · intro buffer' checks' pieces' hsame
    rw [digest_eq, hsame]

end Engine

/-! ### The fast hash -/

theorem absorbs_blocks {state state' : HashStateImpl} {bytes tail : List UInt8} (h : Absorbs state bytes state' tail) :
    state' = (blocks hashBufferSize bytes).foldl (fun s block => Tundra.hashBlock block s) state ∧
    tail = rest hashBufferSize bytes := by
  induction h with
  | rest hlt =>
      rw [blocks_of_length_lt hlt, rest_of_length_lt hlt]
      exact ⟨rfl, rfl⟩
  | block hlength _ ih =>
      rw [blocks_append_block hashBufferSize_pos hlength, rest_append_block hashBufferSize_pos hlength]
      exact ih

theorem hashUpdate_hashInit (stream : List UInt8) :
    (hashUpdate hashInit stream).stateImpl = (blocks hashBufferSize stream).foldl
    (fun s block => Tundra.hashBlock block s) .init ∧
      (hashUpdate hashInit stream).buffer = rest hashBufferSize stream :=
  absorbs_blocks (absorbs_hashUpdateLoop stream.length stream hashInit le_rfl)

/-- The fast hash of a message, from the blocks of the padded message. -/
theorem hashDigest_eq (message : List UInt8) :
    hashDigest message = ((blocks hashBufferSize (padded message)).foldl (fun s block => Tundra.hashBlock block s)
    .init).finalize := by
  have hused : (hashUpdate (hashUpdate hashInit message) [0x80]).buffer.length = (message.length + 1) % 64 := by
    rw [hashUpdate_append, (hashUpdate_hashInit _).2, length_rest, List.length_append]
    rfl
  have hzeroes : (if (hashUpdate (hashUpdate hashInit message) [0x80]).buffer.length < hashBufferSize - 8
      then hashBufferSize - 8 - (hashUpdate (hashUpdate hashInit message) [0x80]).buffer.length
      else hashBufferSize - ((hashUpdate (hashUpdate hashInit message) [0x80]).buffer.length - (hashBufferSize - 8))) = paddingZeroes message.length := by
    rw [hused, paddingZeroes]
    change (if (message.length + 1) % 64 < 56 then 56 - (message.length + 1) % 64
      else 64 - ((message.length + 1) % 64 - 56)) = _
    split_ifs <;> omega
  have hcount : (hashUpdate hashInit message).msgSize = .ofNat message.length * 8 := by
    rw [hashUpdate]
    dsimp only
    rw [msgSize_hashUpdateLoop]
    exact UInt64.zero_add _
  rw [hashDigest, hashFinalize]
  rw [hzeroes, hcount, hashUpdate_append, hashUpdate_append, hashUpdate_append, (hashUpdate_hashInit _).1, padded,
    List.append_assoc,
    List.append_assoc]

/-- With the array or without it, the fast hash is the same. -/
theorem digest_hashBlock (buffer : Block UInt8 hashBufferSize) (checks : Bool) (pieces : List (List UInt8)) :
    digest Tundra.hashBlock checks .init HashStateImpl.finalize buffer pieces = .ok
    (hashFinalize (pieces.foldl hashUpdate hashInit)) := by
  rw [digest_eq, foldl_hashUpdate]
  exact congrArg Except.ok (hashDigest_eq pieces.flatten).symm

end HashMemory

end Tundra
