import Tundra.Lua.StringBuffer
import Tundra.Lib.Block
import Mathlib.Data.Int.Basic

/-!
# String buffers in memory

`StringBuffer` of `LuaInterpolate.cpp` with the arrays it works on: `m_InternalBuffer`, and `m_Buffer`, whose
storage is reallocated when it has to grow. `GetBuffer` and `GetSize` are those of the heap buffer as soon as
that one has a size. An access outside an array has no value. The loops that look for the last byte of a kind
count with an `int`.
-/

namespace Tundra

structure StringMemory where
  /-- `m_InternalBufferUsed`. -/
  used : Nat
  /-- `m_InternalBuffer`. -/
  internal : Block UInt8 kInternalBufferSize
  /-- `m_Buffer.m_Capacity`. -/
  capacity : Nat
  /-- `m_Buffer.m_Storage`. -/
  storage : Block UInt8 capacity
  /-- `m_Buffer.m_Size`. -/
  size : Nat

namespace StringMemory

/-- A new buffer, with what was in memory before. -/
def init (internal : Block UInt8 kInternalBufferSize) : StringMemory := ⟨0, internal, 0, ⟨[], rfl⟩, 0⟩

variable (m : StringMemory)

def getSize : Nat := if m.size ≠ 0 then m.size else m.used

/-- Read from `GetBuffer`. -/
def read (pos len : Nat) : Option (List UInt8) := if m.size ≠ 0 then m.storage.read pos len else m.internal.read pos len

/-- Write to `GetBuffer`. -/
def write (pos : Nat) (data : List UInt8) : Option StringMemory :=
  if m.size ≠ 0 then (m.storage.write pos data).map fun storage => { m with storage := storage }
  else (m.internal.write pos data).map fun internal => { m with internal := internal }

/-- The capacity that `BufferAlloc` asks for. -/
def newCapacity (capacity needed : Nat) : Nat := max (if capacity ≠ 0 then capacity * 2 else 8) needed

def bufferAlloc (count : Nat) : StringMemory :=
  if m.size + count > m.capacity then
    ⟨m.used, m.internal, newCapacity m.capacity (m.size + count),
      m.storage.realloc (newCapacity m.capacity (m.size + count)) 0, m.size + count⟩
  else { m with size := m.size + count }

/-- `Grow`: the new bytes begin at the offset that is returned. -/
def grow (len : Nat) : Option (StringMemory × Nat) :=
  if m.size ≠ 0 then some (m.bufferAlloc len, m.size)
  else if len + m.used ≤ kInternalBufferSize then some ({ m with used := m.used + len }, m.used)
  else
    -- the text moves to the heap
    (m.internal.read 0 m.used).bind fun text =>
      ((m.bufferAlloc m.used).storage.write 0 text).map fun storage =>
        (({ m.bufferAlloc m.used with storage := storage } : StringMemory).bufferAlloc len, m.used)

def shrink (size : Nat) : StringMemory := if m.size ≠ 0 then { m with size := size } else { m with used := size }

/-- `Add` and `Append`. -/
def add (data : List UInt8) : Option StringMemory := do
  let (m, dest) ← m.grow data.length
  m.write dest data

def nullTerminate : Option StringMemory := m.add [0]

def prepend (data : List UInt8) : Option StringMemory := do
  let (m, _) ← m.grow data.length
  let text ← m.read 0 (m.getSize - data.length)
  let m ← m.write data.length text
  m.write 0 data

def prependUnless (data : List UInt8) : Option StringMemory :=
  if data.length > m.getSize then m.prepend data
  else (m.read 0 data.length).bind fun text => if text ≠ data then m.prepend data else some m

def appendUnless (data : List UInt8) : Option StringMemory :=
  if m.getSize < data.length then m.add data
  else (m.read (m.getSize - data.length) data.length).bind fun text => if text ≠ data then m.add data else some m

/-- The loop of the conversions. -/
def convert (f : UInt8 → UInt8) : List Nat → StringMemory → Option StringMemory
  | [], m => some m
  | i :: rest, m => do
      let ch ← m.read i 1
      let m ← m.write i (ch.map f)
      convert f rest m

def toForwardSlashes : Option StringMemory := convert (fun ch => if ch = 92 then 47 else ch) (List.range m.getSize) m

def toBackSlashes : Option StringMemory := convert (fun ch => if ch = 47 then 92 else ch) (List.range m.getSize) m

def toUppercase :
    Option StringMemory := convert (fun ch => if 97 ≤ ch ∧ ch ≤ 122 then ch - 32 else ch) (List.range m.getSize) m

def toLowercase :
    Option StringMemory := convert (fun ch => if 65 ≤ ch ∧ ch ≤ 90 then ch + 32 else ch) (List.range m.getSize) m

/-- A size as an `int`. -/
def intSize (n : Nat) : Int := (n : Int).bmod (2 ^ 32)

/-- The loop down to the last byte of a kind. It does not run when the size is negative as an `int`. -/
def findLast (p : UInt8 → Bool) : Nat → Option (Option Nat)
  | 0 => some none
  | i + 1 => (m.read i 1).bind fun ch => if ch.any p then some (some i) else findLast p i

def dropSuffix : Option StringMemory :=
  (m.findLast (· = 46) (intSize m.getSize).toNat).map fun found => found.elim m m.shrink

def getFilename : Option StringMemory :=
  (m.findLast StringBuffer.isSlash (intSize m.getSize).toNat).bind fun found =>
    found.elim (some m) fun i =>
      let targetLen := intSize (m.getSize - i - 1)
      if targetLen < 0 then none
      else do
        let text ← m.read (i + 1) targetLen.toNat
        let m ← m.write 0 text
        return m.shrink targetLen.toNat

def getFilenameDir : Option StringMemory :=
  (m.findLast StringBuffer.isSlash (intSize m.getSize).toNat).map fun found => found.elim m m.shrink

def doubleBackslashes : Nat → Nat → Nat → StringMemory → Option StringMemory
  | 0, _, _, m => some m
  | n + 1, r, w, m => do
      let ch ← m.read r 1
      let m ← m.write w ch
      if ch = [92] then do
        let m ← m.write (w + 1) [92]
        doubleBackslashes n (r + 1) (w + 2) m
      else doubleBackslashes n (r + 1) (w + 1) m

/-- The loss of a trailing backslash in `PrepQuoteCommon`. -/
def dropBackslash : Option StringMemory :=
  if m.getSize > 0 then (m.read (m.getSize - 1) 1).map fun last => if last = [92] then m.shrink (m.getSize - 1) else m
    else some m

def prepQuoteCommon : Option StringMemory := do
  let m ← m.dropBackslash
  let origLen := m.getSize
  let text ← m.read 0 origLen
  if text.count 92 > 0 then do
    let (m, _) ← m.grow (text.count 92)
    let data ← m.read 0 origLen
    let m ← m.write (text.count 92) data
    doubleBackslashes origLen (text.count 92) 0 m
  else return m

def isQuoted : Option Bool :=
  if m.getSize > 0 then (m.read 0 1).bind fun first => (m.read (m.getSize - 1) 1).map fun last => first = [34] &&
    last = [34] else some false

def quote : Option StringMemory := do
  let quoted ← m.isQuoted
  if quoted then
    if m.getSize > 1 then do
      let before ← m.read (m.getSize - 2) 1
      if before = [92] then (m.shrink (m.getSize - 1)).write (m.getSize - 2) [34] else return m
    else return m
  else do
    let m ← m.prepQuoteCommon
    let m ← m.prepend [34]
    m.add [34]

def escapeForCmdlineDefine : Option StringMemory := do
  let m ← m.prepQuoteCommon
  let m ← m.prepend [92, 34]
  m.add [92, 34]

end StringMemory

end Tundra
