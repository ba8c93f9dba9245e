import Tundra.Dag
import Tundra.SortedArrayUtil

/-!
# The scan cache

`ScanCache.cpp`: the lists of included files found by earlier scans, by scanner and file, with the timestamp of
the file. The lists of the last session are frozen, the lists of this one are in a hash table of chains. Neither
the existence of the included files nor the name of the including file is part of an entry: the key has a hash
of the name.
-/

namespace Tundra

/-- `Djb2HashPath64` on a file system that tells case apart. -/
def djb2HashPath64 (str : CString) : UInt64 :=
  let hash := str.bytes.foldl (fun hash c => hash * 33 + c.toUInt64) 5381
  if hash = 0 then 1 else hash

def computeScanCacheKey (filename : CString) (scannerHash : HashDigest) : HashDigest :=
  ⟨scannerHash.word0 ^^^ djb2HashPath64 filename, scannerHash.word1⟩

/-- `ScanCache::Record`, without the link to the next one. -/
structure ScanRecord where
  key : HashDigest
  fileTimestamp : UInt64
  includes : List FileAndHash
deriving DecidableEq

/-- One element of the arrays of `ScanData`. -/
structure FrozenRecord where
  record : ScanRecord
  accessTime : UInt64
deriving DecidableEq

/-- `ScanCache`. The chains of `m_Table` are lists, and `m_TableSize` is their number. -/
structure ScanCache where
  frozenData : Option (List FrozenRecord)
  frozenAccess : List Bool
  table : List (List ScanRecord)
  recordCount : Nat
deriving DecidableEq

namespace ScanCache

/-- `ScanCacheInit`, then `ScanCacheSetCache`. -/
def init (frozenData : Option (List FrozenRecord)) : ScanCache :=
  ⟨frozenData, (frozenData.getD []).map fun _ => false, [], 0⟩

/-- The chain of a key in a table of this size. `m_Words32[0]` is the lower half of the first word. -/
def tableIndex (size : Nat) (key : HashDigest) : Nat := key.word0.toNat % 2 ^ 32 &&& (size - 1)

def lookupDynamic (self : ScanCache) (key : HashDigest) : Option ScanRecord :=
  if self.table.length > 0 then (self.table.getD (tableIndex self.table.length key) []).find? fun r => r.key = key
    else none

/-- The frozen entry of a key, if its timestamp is the one asked for. -/
def lookupFrozen (self : ScanCache) (key : HashDigest) (timestamp : UInt64) : Option (Nat × ScanRecord) :=
  self.frozenData.bind fun entries =>
    (binarySearch compareHashDigests (entries.map fun entry => entry.record.key) key).bind fun index =>
      entries[index]?.bind fun entry =>
        if entry.record.fileTimestamp = timestamp then some (index, entry.record) else none

/-- `ScanCacheLookup`. A frozen entry that is used is flagged. -/
def lookup (self : ScanCache) (key : HashDigest) (timestamp : UInt64) : Option (List FileAndHash) × ScanCache :=
  match self.lookupFrozen key timestamp with
  | some (index, record) => (some record.includes, { self with frozenAccess := self.frozenAccess.set index true })
  | none =>
      match self.lookupDynamic key with
      | some record => (if record.fileTimestamp = timestamp then some record.includes else none, self)
      | none => (none, self)

/-- Put a record in front of its chain. -/
def link (table : List (List ScanRecord)) (record : ScanRecord) : List (List ScanRecord) :=
  table.modify (tableIndex table.length record.key) (record :: ·)

/-- `ScanCachePrepareInsert`. -/
def prepareInsert (self : ScanCache) : ScanCache :=
  let oldSize := self.table.length
  if oldSize > 0 ∧ 0x100 * self.recordCount / oldSize < 0xc0 then self
  else
    let newSize := max (nextPowerOfTwo (oldSize + 1)) 64
    { self with table := self.table.flatten.foldl link (List.replicate newSize []) }

/-- The record `ScanCacheInsert` makes. -/
def newRecord (key : HashDigest) (timestamp : UInt64) (includedFiles : List CString) : ScanRecord :=
  ⟨key, timestamp, includedFiles.map fun file => ⟨file, djb2HashPath file⟩⟩

/-- `ScanCacheInsert`. A record with another timestamp is written over. -/
def insert (self : ScanCache) (key : HashDigest) (timestamp : UInt64) (includedFiles : List CString) : ScanCache :=
  let record := newRecord key timestamp includedFiles
  match self.lookupDynamic key with
  | some old =>
      if old.fileTimestamp = timestamp then self
      else
        let self := self.prepareInsert
        { self with table := self.table.map fun chain => chain.map fun r => if r.key = key then record else r }
  | none =>
      let self := self.prepareInsert
      { self with table := link self.table record, recordCount := self.recordCount + 1 }

/-- All records, frozen ones and those of this session. -/
def records (self : ScanCache) :
    List ScanRecord := (self.frozenData.getD []).map FrozenRecord.record ++ self.table.flatten

variable {self : ScanCache} {key : HashDigest} {timestamp : UInt64} {record : ScanRecord}

theorem tableIndex_lt {size : Nat} (hsize : 0 < size) (key : HashDigest) : tableIndex size key < size := by
  have hle : tableIndex size key ≤ size - 1 := Nat.and_le_right
  omega

theorem flatten_modify_cons {α : Type} (x : α) (xss : List (List α)) {i : Nat} (hi : i < xss.length) :
    (xss.modify i (x :: ·)).flatten.Perm (x :: xss.flatten) := by
  induction xss generalizing i with
  | nil => simp at hi
  | cons xs xss ih =>
      cases i with
      | zero => exact .refl _
      | succ i =>
          rw [List.modify_succ_cons, List.flatten_cons, List.flatten_cons]
          exact ((ih (by simpa using hi)).append_left xs).trans List.perm_middle

theorem lookupDynamic_mem (h : self.lookupDynamic key = some record) :
    record ∈ self.table.flatten ∧ record.key = key := by
  unfold lookupDynamic at h
  split_ifs at h
  refine ⟨?_, by simpa using List.find?_some h⟩
  have hmem := List.mem_of_find?_eq_some h
  rw [List.getD_eq_getElem?_getD] at hmem
  cases hchain : self.table[tableIndex self.table.length key]? with
  | none => simp [hchain] at hmem
  | some chain =>
      rw [hchain] at hmem
      exact List.mem_flatten.mpr ⟨chain, List.mem_of_getElem? hchain, hmem⟩

theorem lookupFrozen_mem {index : Nat} (h : self.lookupFrozen key timestamp = some (index, record)) :
    record ∈ self.records ∧ record.key = key ∧ record.fileTimestamp = timestamp := by
  simp only [lookupFrozen, Option.bind_eq_some_iff, Option.ite_none_right_eq_some, Option.some.injEq,
    Prod.mk.injEq] at h
  obtain ⟨entries, hentries, i, hfound, entry, hentry, htime, rfl, rfl⟩ := h
  have hkey := getElem?_of_binarySearch compares_hashDigests hfound
  rw [List.getElem?_map, hentry, Option.map_some, Option.some.injEq] at hkey
  refine ⟨List.mem_append_left _ ?_, hkey, htime⟩
  rw [hentries]
  exact List.mem_map_of_mem (List.mem_of_getElem? hentry)

/-- A lookup leaves the records alone, and what it finds is in one of them. -/
theorem lookup_spec (self : ScanCache) (key : HashDigest) (timestamp : UInt64) :
    (self.lookup key timestamp).2.records = self.records ∧ ∀ files, (self.lookup key timestamp).1 = some files →
      ∃ record ∈ self.records, record.key = key ∧ record.fileTimestamp = timestamp ∧ record.includes = files := by
  unfold lookup
  cases hfrozen : self.lookupFrozen key timestamp with
  | some found =>
      obtain ⟨index, record⟩ := found
      obtain ⟨hmem, hkey, htime⟩ := lookupFrozen_mem hfrozen
      exact ⟨rfl, fun files h => ⟨record, hmem, hkey, htime, Option.some.inj h⟩⟩
  | none =>
      cases hdynamic : self.lookupDynamic key with
      | none => exact ⟨rfl, fun files h => by cases h⟩
      | some record =>
          refine ⟨rfl, fun files h => ?_⟩
          rw [Option.ite_none_right_eq_some, Option.some.injEq] at h
          obtain ⟨hmem, hkey⟩ := lookupDynamic_mem hdynamic
          exact ⟨record, List.mem_append_right _ hmem, hkey, h.1, h.2⟩

theorem mem_link {table : List (List ScanRecord)} {new : ScanRecord} (h : record ∈ (link table new).flatten) :
    record = new ∨ record ∈ table.flatten := by
  obtain ⟨chain, hchain, hmem⟩ := List.mem_flatten.mp h
  obtain ⟨i, hi⟩ := List.mem_iff_getElem?.mp hchain
  rw [link, List.getElem?_modify, Option.map_eq_map, Option.map_eq_some_iff] at hi
  obtain ⟨old, hold, rfl⟩ := hi
  split_ifs at hmem
  · rcases List.mem_cons.mp hmem with rfl | hmem
    · exact .inl rfl
    · exact .inr (List.mem_flatten.mpr ⟨old, List.mem_of_getElem? hold, hmem⟩)
  · exact .inr (List.mem_flatten.mpr ⟨old, List.mem_of_getElem? hold, hmem⟩)

theorem mem_prepareInsert (h : record ∈ self.prepareInsert.table.flatten) : record ∈ self.table.flatten := by
  simp only [prepareInsert] at h
  split_ifs at h
  · exact h
  · have hfold : ∀ (rs : List ScanRecord) (table : List (List ScanRecord)), record ∈ (rs.foldl link table).flatten →
        record ∈ rs ∨ record ∈ table.flatten := by
      intro rs
      induction rs with
      | nil => exact fun table h => .inr h
      | cons r rs ih =>
          intro table h
          rcases ih _ h with h | h
          · exact .inl (List.mem_cons_of_mem _ h)
          · rcases mem_link h with rfl | h
            · exact .inl List.mem_cons_self
            · exact .inr h
    rcases hfold _ _ h with h | h
    · exact h
    · simp at h

@[simp] theorem prepareInsert_frozenData (self : ScanCache) : self.prepareInsert.frozenData = self.frozenData := by
  simp only [prepareInsert]
  split_ifs <;> rfl

theorem mem_insert {files : List CString} (h : record ∈ (self.insert key timestamp files).records) :
    record = newRecord key timestamp files ∨ record ∈ self.records := by
  -- the frozen records stay
  have hsplit : ∀ table : List (List ScanRecord),
      record ∈ (self.prepareInsert.frozenData.getD []).map FrozenRecord.record ++ table.flatten →
        record ∈ self.records ∨ record ∈ table.flatten := by
    intro table hmem
    rw [prepareInsert_frozenData] at hmem
    rcases List.mem_append.mp hmem with hmem | hmem
    · exact .inl (List.mem_append_left _ hmem)
    · exact .inr hmem
  unfold insert at h
  cases hdynamic : self.lookupDynamic key with
  | none =>
      simp only [hdynamic] at h
      rcases hsplit _ h with h | h
      · exact .inr h
      · rcases mem_link h with h | h
        · exact .inl h
        · exact .inr (List.mem_append_right _ (mem_prepareInsert h))
  | some old =>
      simp only [hdynamic] at h
      split_ifs at h
      · exact .inr h
      · rcases hsplit _ h with h | h
        · exact .inr h
        · obtain ⟨chain, hchain, hmem⟩ := List.mem_flatten.mp h
          obtain ⟨chain', hchain', rfl⟩ := List.mem_map.mp hchain
          obtain ⟨r, hr, rfl⟩ := List.mem_map.mp hmem
          split_ifs
          · exact .inl rfl
          · exact .inr (List.mem_append_right _ (mem_prepareInsert (List.mem_flatten.mpr ⟨chain', hchain', hr⟩)))

end ScanCache

end Tundra
