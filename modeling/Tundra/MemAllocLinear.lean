import Tundra.Common
import Tundra.Lib.Aligned
import Tundra.Lib.Arena

/-!
# The linear allocator

`MemAllocLinear.cpp` and `MemAllocLinear.hpp`: memory is handed out from the front of one allocation, and given
back by going back to an offset of before, when a `MemAllocLinearScope` ends or when the allocator is reset.
Sizes and addresses are machine words and wrap. `Croak` has no result. The checks are left out: that of the
owner is one of the thread, and those of the alignment are what a caller has to see to.

A client holds the pointers that it was given, and writes through them where they are still good.
-/

namespace Tundra

structure MemAllocLinear where
  basePointer : UInt64
  pointer : UInt64
  size : UInt64
  offset : UInt64
deriving DecidableEq

/-- `MemAllocLinear::kMaxAlignment`. -/
def kMaxAlignment : UInt64 := 64

/-- `LinearAllocInit`, with what `HeapAllocate` has returned. -/
def linearAllocInit (base maxSize : UInt64) : MemAllocLinear :=
  let alignedBase := (base + kMaxAlignment - 1) &&& ~~~(kMaxAlignment - 1)
  let delta := alignedBase - base
  ⟨base, base + delta, maxSize - delta, 0⟩

namespace MemAllocLinear

variable (self : MemAllocLinear)

def linearAllocate (size align : UInt64) : Option (UInt64 × MemAllocLinear) :=
  let offset := (self.offset + align - 1) &&& ~~~(align - 1)
  if offset + size ≤ self.size then some (self.pointer + offset, { self with offset := offset + size }) else none

def linearAllocReset : MemAllocLinear := { self with offset := 0 }

/-- The end of a `MemAllocLinearScope` that was entered at this offset. -/
def leave (offset : UInt64) : MemAllocLinear := { self with offset := offset }

end MemAllocLinear

/-- A pointer that was handed out, with the size and the alignment that were asked for. -/
structure Handed where
  ptr : UInt64
  size : Nat
  align : Nat
deriving DecidableEq

/-- A client of the allocator: the memory, the pointers that are still good, and the scopes that are open, the
innermost one first, each with the offset that it has saved and the number of pointers there were. -/
structure ArenaClient where
  alloc : MemAllocLinear
  memory : Nat → UInt8
  live : List Handed
  scopes : List (UInt64 × Nat)

inductive ArenaOp
  | allocate (size align : UInt64)
  | strDup (str : CString)
  /-- Write a byte through a pointer. -/
  | store (index pos : Nat) (byte : UInt8)
  | enter
  | leave
  | reset

namespace ArenaClient

/-- In front of any operation. -/
def init (alloc : MemAllocLinear) (memory : Nat → UInt8) : ArenaClient := ⟨alloc, memory, [], []⟩

variable (c : ArenaClient)

def hand (size align : UInt64) : Option (UInt64 × ArenaClient) :=
  (c.alloc.linearAllocate size align).map
    fun (ptr, alloc) => (ptr, { c with alloc := alloc, live := c.live ++ [⟨ptr, size.toNat, align.toNat⟩] })

/-- `StrDupN` and `StrDup`. -/
def strDup (str : CString) : Option ArenaClient :=
  (c.hand (UInt64.ofNat (str.bytes.length + 1)) 1).map
    fun (ptr, c) => { c with memory := Arena.write c.memory ptr.toNat (str.bytes ++ [0]) }

/-- All pointers are given up, also those of the scopes that are open. -/
def reset :
    ArenaClient := { c with alloc := c.alloc.linearAllocReset, live := [], scopes := c.scopes.map fun scope => (scope.1, 0) }

/-- One operation. There is no result when the program croaks, and where the client has no such pointer or no
open scope. -/
def step : ArenaOp → Option ArenaClient
  | .allocate size align => (c.hand size align).map Prod.snd
  | .strDup str => c.strDup str
  | .store index pos byte =>
      c.live[index]?.bind fun handed =>
        if pos < handed.size then some { c with memory := Arena.write c.memory (handed.ptr.toNat + pos) [byte] }
          else none
  | .enter => some { c with scopes := (c.alloc.offset, c.live.length) :: c.scopes }
  | .leave =>
      match c.scopes with
      | [] => none
      | (offset, count) :: scopes =>
          some { c with alloc := c.alloc.leave offset, live := c.live.take count, scopes := scopes }
  | .reset => some c.reset

def run (c : ArenaClient) (ops : List ArenaOp) : Option ArenaClient := ops.foldlM step c

end ArenaClient

end Tundra
