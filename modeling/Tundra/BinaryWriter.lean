import Tundra.Common
import Tundra.Lib.Bytes
import Mathlib.Data.List.Flatten

/-!
# Frozen files

`BinaryWriter.cpp` collects bytes in segments and, when the file is written, lays the segments out one after the
other and puts relative offsets in place of the pointers. `BinaryData.hpp` reads such files where they are
mapped: a pointer is an offset from its own position, a zero offset is the null pointer.

The main result is `flush_shown`: in the file, every segment's bytes stand at the segment's place, apart from
the pointers, and every pointer leads to the place of its target.
-/

namespace Tundra

open Bytes

structure BinaryLocator where
  segIndex : Nat
  offset : Nat
deriving DecidableEq

structure BinaryFixup where
  pointerOffset : Nat
  target : BinaryLocator

/-- `BinarySegment`; `m_Index` is the place of the segment in the writer. The pointers to fix up lie inside the
bytes, one behind the other. -/
structure BinarySegment where
  bytes : List UInt8
  fixups : List BinaryFixup
  fixups_inside : ∀ f ∈ fixups, f.pointerOffset + 4 ≤ bytes.length
  fixups_apart : fixups.Pairwise fun f g => f.pointerOffset + 4 ≤ g.pointerOffset

/-- The bytes of an `int32_t` in memory. -/
def int32Bytes (v : Int32) : List UInt8 := toLE 4 v.toUInt32.toNat

/-- A count that is small enough is read as it was written. -/
theorem toNat_ofNat {n : Nat} (h : n < 2 ^ 31) : (Int32.ofNat n).toInt.toNat = n := by
  rw [Int32.toInt_ofNat_of_lt h, Int.toNat_natCast]

@[simp] theorem length_int32Bytes (v : Int32) : (int32Bytes v).length = 4 := length_toLE _ _

namespace BinarySegment

/-- `BinarySegmentInit`. -/
def empty : BinarySegment := ⟨[], [], by simp, .nil⟩

/-- `BinarySegmentWrite`. -/
def write (seg : BinarySegment) (data : List UInt8) : BinarySegment where
  bytes := seg.bytes ++ data
  fixups := seg.fixups
  fixups_inside f hf := by
    rw [List.length_append]
    exact le_add_right (seg.fixups_inside f hf)
  fixups_apart := seg.fixups_apart

/-- `BinarySegmentWriteUint32`. -/
def writeUint32 (seg : BinarySegment) (v : UInt32) : BinarySegment := seg.write (toLE 4 v.toNat)

/-- `BinarySegmentWriteInt32`. -/
def writeInt32 (seg : BinarySegment) (v : Int32) : BinarySegment := seg.write (int32Bytes v)

/-- `BinarySegmentWriteStringData`. -/
def writeStringData (seg : BinarySegment) (s : CString) : BinarySegment := seg.write (s.bytes ++ [0])

/-- `BinarySegmentPosition`. -/
def position (seg : BinarySegment) (index : Nat) : BinaryLocator := ⟨index, seg.bytes.length⟩

/-- `BinarySegmentWritePointer`. -/
def writePointer (seg : BinarySegment) (locator : BinaryLocator) : BinarySegment where
  bytes := seg.bytes ++ toLE 4 0x7eeeeeee
  fixups := seg.fixups ++ [⟨seg.bytes.length, locator⟩]
  fixups_inside f hf := by
    rw [List.length_append, length_toLE]
    rcases List.mem_append.mp hf with hf | hf
    · exact le_add_right (seg.fixups_inside f hf)
    · rw [List.mem_singleton.mp hf]
  fixups_apart := by
    rw [List.pairwise_append]
    refine ⟨seg.fixups_apart, List.pairwise_singleton _ _, ?_⟩
    intro f hf g hg
    rw [List.mem_singleton.mp hg]
    exact seg.fixups_inside f hf

/-- `BinarySegmentAlign`. -/
def align (seg : BinarySegment) (alignment : Nat) : BinarySegment :=
  let offset := seg.bytes.length
  let aligned := Nat.ldiff (offset + alignment - 1) (alignment - 1)
  seg.write (List.replicate (aligned - offset) 0xfe)

@[simp] theorem length_empty : empty.bytes.length = 0 := rfl

@[simp] theorem length_write (seg : BinarySegment) (data : List UInt8) :
    (seg.write data).bytes.length = seg.bytes.length + data.length :=
  List.length_append

@[simp] theorem length_writeUint32 (seg : BinarySegment) (v : UInt32) :
    (seg.writeUint32 v).bytes.length = seg.bytes.length + 4 := by
  simp [writeUint32]

@[simp] theorem length_writeInt32 (seg : BinarySegment) (v : Int32) :
    (seg.writeInt32 v).bytes.length = seg.bytes.length + 4 := by
  simp [writeInt32]

@[simp] theorem length_writePointer (seg : BinarySegment) (locator : BinaryLocator) :
    (seg.writePointer locator).bytes.length = seg.bytes.length + 4 := by
  simp [writePointer]

@[simp] theorem position_segIndex (seg : BinarySegment) (index : Nat) : (seg.position index).segIndex = index := rfl

@[simp] theorem position_offset (seg : BinarySegment) (index : Nat) :
    (seg.position index).offset = seg.bytes.length := rfl

/-- The distance from a pointer to its target. -/
def delta (globalOffset : Nat → Nat) (segBase : Nat) (fixup : BinaryFixup) : Int :=
  ((globalOffset fixup.target.segIndex + fixup.target.offset : Nat) : Int) - (segBase + fixup.pointerOffset : Nat)

/-- One turn of the loop of `BinarySegmentFixupPointers`; nothing comes of a distance that is too big. -/
def fixupPointer (globalOffset : Nat → Nat) (segBase : Nat) (bytes : List UInt8) (fixup : BinaryFixup) :
    Option (List UInt8) :=
  let delta32 := Int32.ofInt (delta globalOffset segBase fixup)
  if delta32.toInt ≠ delta globalOffset segBase fixup then none
  else some (overwrite bytes fixup.pointerOffset (int32Bytes delta32))

/-- `BinarySegmentFixupPointers`. -/
def fixupPointers (globalOffset : Nat → Nat) (segBase : Nat) (seg : BinarySegment) : Option (List UInt8) :=
  seg.fixups.foldlM (fixupPointer globalOffset segBase) seg.bytes

end BinarySegment

namespace BinaryWriter

/-- The position of a segment in the file. -/
def globalOffset (segs : List BinarySegment) (k : Nat) : Nat := ((segs.take k).map fun seg => seg.bytes.length).sum

/-- `BinaryWriterFinalize`. -/
def finalize (segs : List BinarySegment) : Option (List (List UInt8)) :=
  let segs := segs.map fun seg => seg.align 16
  segs.zipIdx.mapM fun (seg, k) => seg.fixupPointers (globalOffset segs) (globalOffset segs k)

/-- The file `BinaryWriterFlush` writes. -/
def flush (segs : List BinarySegment) : Option (List UInt8) := (finalize segs).map List.flatten

end BinaryWriter

/-! ### Reading -/

def readUint32 (image : List UInt8) (p : Nat) : Option UInt32 := (read image p 4).map fun bs => UInt32.ofNat (ofLE bs)

def readInt32 (image : List UInt8) (p : Nat) : Option Int32 := (readUint32 image p).map UInt32.toInt32

/-- `FrozenPtr::Get`; the null pointer has no position. -/
def readPtr (image : List UInt8) (p : Nat) : Option (Option Nat) :=
  (readInt32 image p).map fun offset => if offset = 0 then none else some ((p : Int) + offset.toInt).toNat

variable {image : List UInt8} {p : Nat}

theorem readUint32_of_at {v : UInt32} (h : At image p (toLE 4 v.toNat)) : readUint32 image p = some v := by
  have hread := h.read (by intro hnil; simpa using congrArg List.length hnil)
  rw [length_toLE] at hread
  rw [readUint32, hread, Option.map_some, ofLE_toLE_of_lt v.toNat_lt, UInt32.ofNat_toNat]

theorem readInt32_of_at {v : Int32} (h : At image p (int32Bytes v)) : readInt32 image p = some v := by
  rw [readInt32, readUint32_of_at h, Option.map_some, Int32.toInt32_toUInt32]

/-- A pointer at position `p` that leads to `target`. -/
def PointerAt (image : List UInt8) (p target : Nat) :
    Prop := ∃ offset : Int32, At image p (int32Bytes offset) ∧ (p : Int) + offset.toInt = target

theorem readPtr_of_pointerAt {target : Nat} (h : PointerAt image p target) (hne : p ≠ target) :
    readPtr image p = some (some target) := by
  obtain ⟨offset, hat, hsum⟩ := h
  have hoffset : offset ≠ 0 := by
    rintro rfl
    simp only [Int32.toInt_zero, add_zero] at hsum
    omega
  rw [readPtr, readInt32_of_at hat, Option.map_some, if_neg hoffset, hsum, Int.toNat_natCast]

theorem PointerAt.lt {target : Nat} (h : PointerAt image p target) : target < p + 2 ^ 31 := by
  obtain ⟨offset, -, hsum⟩ := h
  have := offset.toInt_lt
  omega

/-! ### Relocation -/

/-- A segment stands in the image at position `b`: its bytes apart from the pointers, and the pointers with the
places of their targets. -/
structure Shown (image : List UInt8) (globalOffset : Nat → Nat) (b : Nat) (seg : BinarySegment) : Prop where
  data : ∀ off bs, At seg.bytes off bs →
    (∀ f ∈ seg.fixups, off + bs.length ≤ f.pointerOffset ∨ f.pointerOffset + 4 ≤ off) →
    At image (b + off) bs
  pointer : ∀ f ∈ seg.fixups, PointerAt image (b + f.pointerOffset) (globalOffset f.target.segIndex + f.target.offset)

namespace Shown

variable {globalOffset : Nat → Nat} {b : Nat} {seg : BinarySegment}

/-- What was in the segment before a write is shown if what is in it afterwards is. -/
theorem of_write {data : List UInt8} (h : Shown image globalOffset b (seg.write data)) :
    Shown image globalOffset b seg where
  data off bs hat := h.data off bs (hat.append data)
  pointer := h.pointer

theorem written {data : List UInt8} (h : Shown image globalOffset b (seg.write data)) :
    At image (b + seg.bytes.length) data :=
  h.data _ _ (at_length_append seg.bytes data) fun f hf => .inr (seg.fixups_inside f hf)

theorem of_writePointer {locator : BinaryLocator} (h : Shown image globalOffset b (seg.writePointer locator)) :
    Shown image globalOffset b seg where
  data off bs hat hapart := by
    by_cases hnil : bs = []
    · rw [hnil]
      exact .nil
    · refine h.data off bs (hat.append _) fun f hf => ?_
      rcases List.mem_append.mp hf with hf | hf
      · exact hapart f hf
      · rw [List.mem_singleton.mp hf]
        exact .inl (hat.length_le hnil)
  pointer f hf := h.pointer f (List.mem_append_left _ hf)

theorem pointed {locator : BinaryLocator} (h : Shown image globalOffset b (seg.writePointer locator)) :
    PointerAt image (b + seg.bytes.length) (globalOffset locator.segIndex + locator.offset) :=
  h.pointer ⟨seg.bytes.length, locator⟩ (List.mem_append_right _ List.mem_cons_self)

end Shown

namespace BinarySegment

variable {globalOffset : Nat → Nat} {b : Nat}

/-- What the loop over the pointers leaves: the bytes outside of them, and a distance in each. -/
theorem fixupPointers_fold {fixups : List BinaryFixup} {bytes bytes' : List UInt8}
    (h : fixups.foldlM (fixupPointer globalOffset b) bytes = some bytes')
    (hinside : ∀ f ∈ fixups, f.pointerOffset + 4 ≤ bytes.length)
    (hapart : fixups.Pairwise fun f g => f.pointerOffset + 4 ≤ g.pointerOffset) :
    bytes'.length = bytes.length ∧
      (∀ off bs, At bytes off bs → (∀ f ∈ fixups, off + bs.length ≤ f.pointerOffset ∨ f.pointerOffset + 4 ≤ off) →
      At bytes' off bs) ∧
      ∀ f ∈ fixups, ∃ offset : Int32, offset.toInt = delta globalOffset b f ∧ At bytes' f.pointerOffset
      (int32Bytes offset) := by
  induction fixups generalizing bytes with
  | nil =>
      simp only [List.foldlM_nil, Option.pure_def, Option.some.injEq] at h
      subst h
      exact ⟨rfl, fun _ _ hat _ => hat, by simp⟩
  | cons f fixups ih =>
      rw [List.foldlM_cons, Option.bind_eq_bind, Option.bind_eq_some_iff] at h
      obtain ⟨mid, hfirst, hrest⟩ := h
      simp only [fixupPointer, Option.ite_none_left_eq_some, not_not, Option.some.injEq] at hfirst
      obtain ⟨hfits, rfl⟩ := hfirst
      have hf := hinside f List.mem_cons_self
      have hroom : f.pointerOffset + (int32Bytes (.ofInt (delta globalOffset b f))).length ≤ bytes.length := by
        rwa [length_int32Bytes]
      have hlength := length_overwrite hroom
      rw [List.pairwise_cons] at hapart
      obtain ⟨hlen, hdata, hpointers⟩ := ih hrest (by
        intro g hg
        rw [hlength]
        exact hinside g (List.mem_cons_of_mem _ hg)) hapart.2
      refine ⟨hlen.trans hlength, fun off bs hat hoff => ?_, fun g hg => ?_⟩
      · apply hdata off bs (hat.overwrite hroom ?_) fun g hg => hoff g (List.mem_cons_of_mem _ hg)
        rw [length_int32Bytes]
        exact hoff f List.mem_cons_self
      · rcases List.mem_cons.mp hg with rfl | hg
        · refine ⟨_, hfits, hdata _ _ (at_overwrite hroom) fun k hk => ?_⟩
          rw [length_int32Bytes]
          exact .inl (hapart.1 k hk)
        · exact hpointers g hg

end BinarySegment

namespace BinaryWriter

variable {segs : List BinarySegment}

/-- The positions of the segments once they are aligned. -/
def base (segs : List BinarySegment) : Nat → Nat := globalOffset (segs.map fun seg => seg.align 16)

theorem base_zero : base segs 0 = 0 := rfl

theorem base_add_le {k j : Nat} {seg : BinarySegment} (hk : segs[k]? = some seg) (hkj : k < j) :
    base segs k + seg.bytes.length ≤ base segs j := by
  induction segs generalizing k j with
  | nil => simp at hk
  | cons first segs ih =>
      obtain ⟨j, rfl⟩ : ∃ m, j = m + 1 := ⟨j - 1, by omega⟩
      cases k with
      | zero =>
          simp only [List.getElem?_cons_zero, Option.some.injEq] at hk
          subst hk
          simp only [base, globalOffset, List.take_zero, List.map_cons, List.take_succ_cons, List.sum_cons,
            List.map_nil,
            List.sum_nil, BinarySegment.align, BinarySegment.write, List.length_append]
          omega
      | succ k =>
          have hrest := ih (by simpa using hk) (Nat.lt_of_succ_lt_succ hkj)
          simp only [base, globalOffset, List.map_cons, List.take_succ_cons, List.sum_cons] at hrest ⊢
          omega

theorem finalize_getElem {parts : List (List UInt8)} (h : finalize segs = some parts) :
    parts.length = segs.length ∧ ∀ (k : Nat) (seg : BinarySegment), segs[k]? = some seg →
      ∃ part, parts[k]? = some part ∧ (seg.align 16).fixupPointers (base segs) (base segs k) = some part := by
  rw [finalize, mapM_eq_some_iff] at h
  have hlength := h.length_eq
  simp only [List.length_zipIdx, List.length_map] at hlength
  refine ⟨hlength.symm, fun k seg hk => ?_⟩
  obtain ⟨hlt, hseg⟩ := List.getElem?_eq_some_iff.mp hk
  have hget := h.get (i := k) (by simpa using hlt) (by omega)
  refine ⟨parts[k], List.getElem?_eq_getElem (by omega), ?_⟩
  simpa [hseg, base] using hget

/-- The length of a segment does not change when its pointers are fixed up. -/
theorem base_eq {parts : List (List UInt8)} (h : finalize segs = some parts) (k : Nat) :
    ((parts.take k).map List.length).sum = base segs k := by
  obtain ⟨hlength, hparts⟩ := finalize_getElem h
  have hsame : parts.map List.length = segs.map fun seg => (seg.align 16).bytes.length := by
    apply List.ext_getElem
    · simp [hlength]
    · intro j hj hj'
      simp only [List.length_map] at hj hj'
      obtain ⟨part, hpart, hfix⟩ := hparts j segs[j] (List.getElem?_eq_getElem hj')
      obtain ⟨_, rfl⟩ := List.getElem?_eq_some_iff.mp hpart
      simpa using (BinarySegment.fixupPointers_fold hfix (BinarySegment.fixups_inside _)
        (BinarySegment.fixups_apart _)).1
  rw [base, globalOffset, List.map_take, hsame, ← List.map_take, ← List.map_take, List.map_map]
  rfl

theorem flush_shown_align (h : flush segs = some image) {k : Nat} {seg : BinarySegment} (hk : segs[k]? = some seg) :
    Shown image (base segs) (base segs k) (seg.align 16) := by
  obtain ⟨parts, hparts, rfl⟩ := Option.map_eq_some_iff.mp h
  obtain ⟨part, hpart, hfix⟩ := (finalize_getElem hparts).2 k seg hk
  obtain ⟨-, hdata, hpointers⟩ :=
    BinarySegment.fixupPointers_fold hfix (BinarySegment.fixups_inside _) (BinarySegment.fixups_apart _)
  constructor
  · intro off bs hat hapart
    rw [← base_eq hparts]
    exact at_flatten hpart (hdata off bs hat hapart)
  · intro f hf
    obtain ⟨offset, hdelta, hat⟩ := hpointers f hf
    refine ⟨offset, ?_, ?_⟩
    · rw [← base_eq hparts]
      exact at_flatten hpart hat
    · rw [hdelta, BinarySegment.delta]
      ring

theorem flush_shown (h : flush segs = some image) {k : Nat} {seg : BinarySegment} (hk : segs[k]? = some seg) :
    Shown image (base segs) (base segs k) seg :=
  (flush_shown_align h hk).of_write

/-- The file is as long as the aligned segments together. -/
theorem length_flush (h : flush segs = some image) : image.length = base segs segs.length := by
  obtain ⟨parts, hparts, rfl⟩ := Option.map_eq_some_iff.mp h
  rw [← base_eq hparts, ← (finalize_getElem hparts).1, List.take_length, List.length_flatten]

end BinaryWriter

end Tundra
