import Tundra.ScanCache
import Tundra.Lib.Linked
import Tundra.Lib.Outcome

/-!
# The table of the scan cache in memory

The dynamic part of `ScanCache.cpp` with its pointers: records that stand at addresses, each with a link to the
next one, and a table of the heads of the chains. A rehash walks over the chains and relinks the records one
after another. A loop over a chain that does not end runs out of fuel.

Records, arrays and strings come from a linear allocator of 64 MB, which ends the process when it is full.
-/

namespace Tundra

/-- `ScanCache::Record`. -/
structure ScanNode extends ScanRecord where
  next : Option Nat
deriving DecidableEq

/-- `Croak` in the allocator, or a pointer to no record. -/
inductive ScanTableError where
  | outOfMemory
  | badPointer
deriving DecidableEq

/-- The dynamic part of the `ScanCache`, and the allocator's `m_Offset`. The address of a record is its place
among the records in the order of their allocation. -/
structure ScanTable where
  nodes : List ScanNode
  table : List (Option Nat)
  recordCount : Nat
  offset : Nat
deriving DecidableEq

namespace ScanTable

/-- `ScanCacheInit`. -/
def init : ScanTable := ⟨[], [], 0, 0⟩

/-- The allocator's `m_Size`. A few bytes go to the alignment of its base. -/
def allocatorSize (delta : Nat) : Nat := 64 * 1024 * 1024 - delta

def linearAllocate (delta offset size align : Nat) : Outcome ScanTableError Nat :=
  let start := (offset + align - 1) / align * align
  if start + size ≤ allocatorSize delta then .ok (start + size) else .error .outOfMemory

/-- `sizeof(ScanCache::Record)`. -/
def sizeofRecord : Nat := 48

def sizeofFileAndHash : Nat := 16

/-- `m_Includes` is allocated, and each name is copied. -/
def allocateIncludes (delta offset : Nat) (includedFiles : List CString) : Outcome ScanTableError Nat := do
  let offset ← linearAllocate delta offset (sizeofFileAndHash * includedFiles.length) 8
  includedFiles.foldlM (fun offset file => linearAllocate delta offset (file.bytes.length + 1) 1) offset

/-- The loop of `LookupDynamic`. -/
def lookupChain (nodes : List ScanNode) (key : HashDigest) : Nat → Option Nat → Outcome ScanTableError (Option Nat)
  | _, none => .ok none
  | 0, some _ => .outOfFuel
  | fuel + 1, some a =>
      match nodes[a]? with
      | none => .error .badPointer
      | some node => if key = node.key then .ok (some a) else lookupChain nodes key fuel node.next

/-- `LookupDynamic`. A chain of more records than there are does not end. -/
def lookupDynamic (self : ScanTable) (key : HashDigest) : Outcome ScanTableError (Option Nat) :=
  if self.table.length > 0 then
    lookupChain self.nodes key self.nodes.length self.table[ScanCache.tableIndex self.table.length key]?.join
  else .ok none

/-- The inner loop of the rehash. -/
def relinkChain :
    Nat → Option Nat → List ScanNode × List (Option Nat) → Outcome ScanTableError (List ScanNode × List (Option Nat))
  | _, none, state => .ok state
  | 0, some _, _ => .outOfFuel
  | fuel + 1, some a, (nodes, newTable) =>
      match nodes[a]? with
      | none => .error .badPointer
      | some r =>
          let index := ScanCache.tableIndex newTable.length r.key
          relinkChain fuel r.next (nodes.set a { r with next := newTable[index]?.join }, newTable.set index (some a))

/-- `ScanCachePrepareInsert`. -/
def prepareInsert (self : ScanTable) : Outcome ScanTableError ScanTable :=
  let oldSize := self.table.length
  if oldSize > 0 ∧ 0x100 * self.recordCount % 2 ^ 32 / oldSize < 0xc0 then .ok self
  else do
    let newSize := max (nextPowerOfTwo (oldSize + 1)) 64
    let (nodes, newTable) ← self.table.foldlM (fun state head => relinkChain self.nodes.length head state)
      (self.nodes, List.replicate newSize none)
    return { self with nodes := nodes, table := newTable }

/-- `ScanCacheInsert` for a key without a record. -/
def insertFresh (delta : Nat) (self : ScanTable) (record : ScanRecord) (includedFiles : List CString) :
    Outcome ScanTableError ScanTable := do
  let self ← self.prepareInsert
  let index := ScanCache.tableIndex self.table.length record.key
  let offset ← linearAllocate delta self.offset sizeofRecord 8
  let offset ← allocateIncludes delta offset includedFiles
  return {
    nodes := self.nodes ++ [⟨record, self.table[index]?.join⟩]
    table := self.table.set index (some self.nodes.length)
    recordCount := (self.recordCount + 1) % 2 ^ 32
    offset := offset }

/-- `ScanCacheInsert` for a key with a record, which is written over. -/
def overwrite (delta : Nat) (self : ScanTable) (a : Nat) (record : ScanRecord) (includedFiles : List CString) :
    Outcome ScanTableError ScanTable := do
  let self ← self.prepareInsert
  let offset ← allocateIncludes delta self.offset includedFiles
  return {
    self with
    nodes := self.nodes.modify a
      fun node => { node with fileTimestamp := record.fileTimestamp, includes := record.includes }
    offset := offset }

/-- `ScanCacheInsert`. -/
def insert (delta : Nat) (self : ScanTable) (key : HashDigest) (timestamp : UInt64) (includedFiles : List CString) :
    Outcome ScanTableError ScanTable := do
  let record := ScanCache.newRecord key timestamp includedFiles
  match ← self.lookupDynamic key with
  | none => insertFresh delta self record includedFiles
  | some a =>
      match self.nodes[a]? with
      | none => .error .badPointer
      | some node => if node.fileTimestamp = timestamp then return self else overwrite delta self a record includedFiles

end ScanTable

/-- A call of `ScanCacheInsert`. -/
structure ScanInsert where
  key : HashDigest
  timestamp : UInt64
  includedFiles : List CString

namespace ScanTable

def run (delta : Nat) (ops : List ScanInsert) : Outcome ScanTableError ScanTable :=
  ops.foldlM (fun self op => insert delta self op.key op.timestamp op.includedFiles) init

/-- The link of the record at an address. -/
def next (nodes : List ScanNode) (a : Nat) : Option (Option Nat) := nodes[a]?.map ScanNode.next

def records (nodes : List ScanNode) : List ScanRecord := nodes.map ScanNode.toScanRecord

end ScanTable

end Tundra
