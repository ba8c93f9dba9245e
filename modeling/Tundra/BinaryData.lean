import Tundra.BinaryWriter
import Tundra.Dag

/-!
# Values in frozen files

The values of `BinaryData.hpp` beyond single words, as the users of a frozen file read them: digests, strings
behind a pointer, arrays behind a count and a pointer.
-/

namespace Tundra

open Bytes

/-- The bytes of a `HashDigest` in memory. -/
def HashDigest.bytes (d : HashDigest) : List UInt8 := toLE 8 d.word0.toNat ++ toLE 8 d.word1.toNat

/-- A `HashDigest` in the file. -/
def readDigest (image : List UInt8) (p : Nat) : Option HashDigest := do
  let word0 ← read image p 8
  let word1 ← read image (p + 8) 8
  return ⟨UInt64.ofNat (ofLE word0), UInt64.ofNat (ofLE word1)⟩

/-- A `FrozenString` in the file. -/
def readFrozenString (image : List UInt8) (p : Nat) : Option CString := do
  let target ← ← readPtr image p
  let bytes ← readString image target
  if h : (0 : UInt8) ∉ bytes then some ⟨bytes, h⟩ else none

def readUint64 (image : List UInt8) (p : Nat) : Option UInt64 := (read image p 8).map fun bs => UInt64.ofNat (ofLE bs)

/-- The elements behind a pointer, each of this size. -/
def readElems {α : Type} (size : Nat) (elem : List UInt8 → Nat → Option α) (image : List UInt8) (count : Nat)
    (array : Option Nat) :
    Option (List α) :=
  (List.range count).mapM fun k => array.bind fun base => elem image (base + size * k)

/-- A `FrozenArray` in the file. -/
def readFrozenArray {α : Type} (size : Nat) (elem : List UInt8 → Nat → Option α) (image : List UInt8) (p : Nat) :
    Option (List α) := do
  let count ← readInt32 image p
  let array ← readPtr image (p + 4)
  readElems size elem image count.toInt.toNat array

/-- A `FrozenFileAndHash` in the file. -/
def readFileAndHash (image : List UInt8) (p : Nat) : Option FileAndHash := do
  let filename ← readFrozenString image p
  let filenameHash ← readUint32 image (p + 4)
  return ⟨filename, filenameHash⟩

variable {image : List UInt8} {p : Nat}

@[simp] theorem length_bytes (d : HashDigest) : d.bytes.length = 16 := by simp [HashDigest.bytes]

theorem readDigest_of_at {d : HashDigest} (h : At image p d.bytes) : readDigest image p = some d := by
  rw [HashDigest.bytes, at_append_iff, length_toLE] at h
  have hne : ∀ n, toLE 8 n ≠ [] := fun n hnil => by simpa using congrArg List.length hnil
  have h0 := h.1.read (hne _)
  have h1 := h.2.read (hne _)
  rw [length_toLE] at h0 h1
  have hword : ∀ w : UInt64, UInt64.ofNat (ofLE (toLE 8 w.toNat)) = w := by
    intro w
    rw [ofLE_toLE_of_lt w.toNat_lt, UInt64.ofNat_toNat]
  simp [readDigest, h0, h1, hword]

theorem readFrozenString_of_at {s : CString} {target : Nat} (hptr : PointerAt image p target) (hne : p ≠ target)
    (h : At image target (s.bytes ++ [0])) : readFrozenString image p = some s := by
  simp [readFrozenString, readPtr_of_pointerAt hptr hne, h.readString s.noNul, s.noNul]

theorem readUint64_of_at {v : UInt64} (h : At image p (toLE 8 v.toNat)) : readUint64 image p = some v := by
  have hread := h.read (by intro hnil; simpa using congrArg List.length hnil)
  rw [length_toLE] at hread
  rw [readUint64, hread, Option.map_some, ofLE_toLE_of_lt v.toNat_lt, UInt64.ofNat_toNat]

theorem readPtr_of_null (h : At image p (toLE 4 0)) : readPtr image p = some none := by
  have hzero : At image p (int32Bytes 0) := h
  rw [readPtr, readInt32_of_at hzero, Option.map_some, if_pos rfl]

theorem readElems_eq_some {α : Type} {size : Nat} {elem : List UInt8 → Nat → Option α} {target : Nat} {values : List α}
    (h : ∀ k (hk : k < values.length), elem image (target + size * k) = some values[k]) :
    readElems size elem image values.length (some target) = some values := mapM_range_eq_some rfl h

@[simp] theorem readElems_zero {α : Type} (size : Nat) (elem : List UInt8 → Nat → Option α) (array : Option Nat) :
    readElems size elem image 0 array = some [] := rfl

theorem readFrozenArray_eq_some {α : Type} {size : Nat} {elem : List UInt8 → Nat → Option α} {array : Option Nat}
    {values : List α} (hcount : At image p (int32Bytes (.ofNat values.length)))
    (hptr : readPtr image (p + 4) = some array) (hlength : values.length < 2 ^ 31)
    (h : readElems size elem image values.length array = some values) :
    readFrozenArray size elem image p = some values := by
  simp only [readFrozenArray, readInt32_of_at hcount, hptr, Option.bind_eq_bind, Option.bind_some,
    toNat_ofNat hlength, h]

end Tundra
