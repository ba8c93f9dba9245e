import Tundra.PathUtil.Names
import Tundra.Lib.Block
import Tundra.Lib.Checked
import Mathlib.Data.Int.Basic

/-!
# Paths in memory

`PathUtil.cpp` with the arrays it writes: `m_SegEnds` and `m_Data` of a `PathBuffer`, and the output of
`PathFormat`. Offsets and lengths are narrowed where the program narrows them, and an access outside an array
ends a run, as a failed `CHECK` or `Croak` does. `CHECK` only does something in checked builds.
-/

namespace Tundra

open Checked (MemoryFault inBounds check)

namespace PathMemory

/-- `PathBuffer`. -/
structure Buffer where
  type : PathType
  /-- `kFlagAbsolute`. -/
  absolute : Bool
  /-- `kFlagWindowsDevicePath`. -/
  windowsDevicePath : Bool
  segCount : Nat
  leadingDotDots : Nat
  segEnds : Block Nat kMaxPathSegments
  data : Block UInt8 kMaxPathLength

/-- The segment that ends at `pos` and began behind the last separator. Its length is an `int`. -/
def pathSeg (path : CString) (last pos : Nat) : List PathSeg :=
  let len := ((pos - last : Nat) : Int).bmod (2 ^ 32)
  if len > 0 then
    [⟨last % 2 ^ 16, len.toNat % 2 ^ 16, 2 = len ∧ (path.slice last 2).bytes = [46, 46], 1 = len ∧
      (path.slice last 1).bytes = [46]⟩]
  else []

/-- The loop of `PathGetSegments`. -/
def pathGetSegmentsFrom (path : CString) : List UInt8 → Nat → Nat → List PathSeg
  | [], last, pos => pathSeg path last pos
  | ch :: rest, last, pos =>
      if isSeparator ch then pathSeg path last pos ++ pathGetSegmentsFrom path rest (pos + 1) (pos + 1)
      else pathGetSegmentsFrom path rest last (pos + 1)

def pathGetSegments (path : CString) : Except MemoryFault (List PathSeg) :=
  let segments := pathGetSegmentsFrom path path.bytes 0 0
  if segments.length > kMaxPathSegments then .error .croak else .ok segments

/-- What the loop over the retained segments writes. -/
structure Output where
  segEnds : Block Nat kMaxPathSegments
  data : Block UInt8 kMaxPathLength
  segCount : Nat
  pos : Nat

def copySegments (path : CString) : List PathSeg → Output → Except MemoryFault Output
  | [], output => .ok output
  | seg :: segments, output =>
      if output.pos ≥ kMaxPathLength then .error .croak
      else do
        let data ← inBounds (output.data.write output.pos (path.slice seg.offset seg.len).bytes)
        let pos := (output.pos + seg.len) % 2 ^ 16
        let segEnds ← inBounds (output.segEnds.write output.segCount [pos])
        copySegments path segments ⟨segEnds, data, output.segCount + 1, pos⟩

def pathInit (buffer : Buffer) (path : CString) (type : PathType) : Except MemoryFault Buffer := do
  let (absolute, windowsDevicePath, rest) := pathRoot path type
  let segments ← pathGetSegments rest
  let (leadingDotDots, kept) := dropDotDots segments
  let output ← copySegments rest kept ⟨buffer.segEnds, buffer.data, 0, 0⟩
  return ⟨type, absolute, windowsDevicePath, output.segCount, leadingDotDots, output.segEnds, output.data⟩

def bufferSize (checks : Bool) (buffer : Buffer) (segCount : Nat) : Except MemoryFault Nat := do
  check checks (segCount % 2 ^ 16 ≤ buffer.segCount)
  if segCount > 0 then inBounds buffer.segEnds.cells[segCount - 1]? else return 0

/-- The loop over the segment ends in `PathConcatImpl`. -/
def copySegEnds (other : Block Nat kMaxPathSegments) (keep segCount : Nat) :
    List Nat → Block Nat kMaxPathSegments → Except MemoryFault (Block Nat kMaxPathSegments)
  | [], segEnds => .ok segEnds
  | i :: rest, segEnds => do
      let otherEnd ← inBounds other.cells[i]?
      let segEnds ← inBounds (segEnds.write (segCount + i) [(otherEnd + keep) % 2 ^ 16])
      copySegEnds other keep segCount rest segEnds

def Buffer.minSegCount (buffer : Buffer) : Nat := if buffer.windowsDevicePath then 1 else 0

def pathConcatImpl (checks : Bool) (buffer other : Buffer) : Except MemoryFault Buffer := do
  check checks (other.absolute = false)
  let (segCount, leadingDotDots) :=
    throwAway buffer.minSegCount other.leadingDotDots (buffer.segCount, buffer.leadingDotDots)
  let keep ← bufferSize checks buffer segCount
  let otherSize ← bufferSize checks other other.segCount
  check checks (segCount + other.segCount ≤ kMaxPathSegments)
  check checks (keep + otherSize ≤ kMaxPathLength)
  let text ← inBounds (other.data.read 0 otherSize)
  let data ← inBounds (buffer.data.write keep text)
  let segEnds ← copySegEnds other.segEnds keep segCount (List.range other.segCount) buffer.segEnds
  return ⟨buffer.type, buffer.absolute, buffer.windowsDevicePath, (segCount + other.segCount) % 2 ^ 16,
    if buffer.absolute then 0 else leadingDotDots % 2 ^ 16, segEnds, data⟩

def pathConcat (checks : Bool) (buffer other : Buffer) : Except MemoryFault Buffer :=
  if other.absolute then .ok other else pathConcatImpl checks buffer other

def Buffer.segLength (checks : Bool) (buffer : Buffer) (i : Nat) : Except MemoryFault Nat := do
  check checks (i % 2 ^ 16 < buffer.segCount)
  let segEnd ← inBounds buffer.segEnds.cells[i]?
  if i > 0 then
    let before ← inBounds buffer.segEnds.cells[i - 1]?
    return (segEnd + 2 ^ 16 - before) % 2 ^ 16
  else return segEnd

/-- The output of `PathFormat`, with the cursor. -/
structure Cursor where
  output : Block UInt8 kMaxPathLength
  pos : Nat

def Cursor.put (cursor : Cursor) (bytes : List UInt8) : Except MemoryFault Cursor := do
  let output ← inBounds (cursor.output.write cursor.pos bytes)
  return ⟨output, cursor.pos + bytes.length⟩

/-- The loop of `PathFormatPartial` over the leading `..`. -/
def formatDotDots (sep : CString) : Nat → Cursor → Except MemoryFault Cursor
  | 0, cursor => .ok cursor
  | n + 1, cursor => do
      let cursor ← cursor.put (dotDot ++ sep).bytes
      formatDotDots sep n cursor

/-- The loop of `PathFormatPartial` over the segments. -/
def formatSegments (checks : Bool) (buffer : Buffer) (sep : CString) :
    List Nat → Nat → Cursor → Except MemoryFault Cursor
  | [], _, cursor => .ok cursor
  | i :: rest, off, cursor => do
      let len ← buffer.segLength checks i
      if cursor.pos + len + 1 ≥ kMaxPathLength then .error .croak
      else do
        let cursor ← cursor.put (if i > 0 then sep.bytes else [])
        let text ← inBounds (buffer.data.read off len)
        let cursor ← cursor.put text
        formatSegments checks buffer sep rest ((off + len) % 2 ^ 16) cursor

def pathFormat (checks : Bool) (output : Block UInt8 kMaxPathLength) (buffer : Buffer) : Except MemoryFault Cursor := do
  let sep := buffer.type.separator
  let cursor ← (Cursor.mk output 0).put (if buffer.absolute && !buffer.windowsDevicePath then sep.bytes else [])
  let cursor ← formatDotDots sep buffer.leadingDotDots cursor
  let cursor ← formatSegments checks buffer sep (List.range buffer.segCount) 0 cursor
  cursor.put [0]

end PathMemory

end Tundra
