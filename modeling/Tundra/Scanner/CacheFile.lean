import Tundra.ScanCache
import Tundra.Segments
import Mathlib.Data.List.Sort

/-!
# The file of the scan cache

`ScanCacheSave` and `LoadFrozenData<ScanData>`. The records of the session and the frozen ones that are not too
old are written with a `BinaryWriter` of six segments, every file name once. Loading the file gives back the
records that were written, so saving and loading can lose records but never makes one up.
-/

namespace Tundra

open Bytes

def scanDataMagicNumber : UInt32 := 0x1517000e ^^^ 0x7810221e

structure ScanCacheWriter where
  segs : Segments
  atoms : HashTable BinaryLocator
  recordsOut : Nat

namespace ScanCacheWriter

@[simp] abbrev mainSeg : Nat := 0
@[simp] abbrev digestSeg : Nat := 1
@[simp] abbrev dataSeg : Nat := 2
@[simp] abbrev timestampSeg : Nat := 3
@[simp] abbrev arraySeg : Nat := 4
@[simp] abbrev stringSeg : Nat := 5

def init : ScanCacheWriter := ⟨.empty, .init, 0⟩

def writeUniqueStringPointer (self : ScanCacheWriter) (hash : UInt32) (filename : CString) : ScanCacheWriter :=
  match self.atoms.lookup hash filename with
  | some locator => { self with segs := self.segs.writePointer arraySeg locator }
  | none =>
      let pos := self.segs.position stringSeg
      { self with
        atoms := self.atoms.insert hash filename pos
        segs := (self.segs.writePointer arraySeg pos).writeStringData stringSeg filename }

/-- One turn of the loop of `SaveRecord`. -/
def saveFile (self : ScanCacheWriter) (file : FileAndHash) : ScanCacheWriter :=
  let self := self.writeUniqueStringPointer file.filenameHash file.filename
  { self with segs := self.segs.writeUint32 arraySeg file.filenameHash }

def saveRecord (self : ScanCacheWriter) (entry : FrozenRecord) : ScanCacheWriter :=
  let stringPtrs := self.segs.position arraySeg
  let self := entry.record.includes.foldl saveFile self
  let segs := self.segs.write digestSeg entry.record.key.bytes
  let segs := segs.writeUint64 dataSeg entry.record.fileTimestamp
  let segs := segs.writeUint32 dataSeg (.ofNat entry.record.includes.length)
  let segs := segs.writePointer dataSeg stringPtrs
  { self with segs := segs.writeUint64 timestampSeg entry.accessTime, recordsOut := self.recordsOut + 1 }

/-- `ScanCacheWriterFlush`. -/
def flush (self : ScanCacheWriter) : Option (List UInt8) :=
  let segs := (self.segs.writeUint32 mainSeg scanDataMagicNumber).writeUint32 mainSeg (.ofNat self.recordsOut)
  let segs := segs.writePointer mainSeg (Segments.empty.position digestSeg)
  let segs := segs.writePointer mainSeg (Segments.empty.position dataSeg)
  (segs.writePointer mainSeg (Segments.empty.position timestampSeg)).flush 6

end ScanCacheWriter

namespace ScanCache

/-- The `std::sort` by key. -/
def sortRecords (records : List ScanRecord) : List ScanRecord := records.insertionSort fun l r => l.key ≤ r.key

def frozenEntries (self : ScanCache) : List (FrozenRecord × Bool) := (self.frozenData.getD []).zip self.frozenAccess

/-- `save_frozen`: a record is dropped if it was not used for a week. -/
def saveFrozen (now : UInt64) (writer : ScanCacheWriter) (entry : FrozenRecord × Bool) : ScanCacheWriter :=
  let timestampCutoff := now - 60 * 60 * 24 * 7
  let timestamp := if entry.2 then now else entry.1.accessTime
  if timestamp > timestampCutoff then writer.saveRecord ⟨entry.1.record, timestamp⟩ else writer

/-- The file `ScanCacheSave` writes at this time. The number of records in the table is checked. -/
def save (self : ScanCache) (now : UInt64) : Option (List UInt8) :=
  let dynRecords := self.table.flatten
  if dynRecords.length ≠ self.recordCount then none
  else
    (traverseSortedArrays compareHashDigests (fun writer record => writer.saveRecord ⟨record, now⟩) ScanRecord.key
      (saveFrozen now)
      (fun entry => entry.1.record.key) (sortRecords dynRecords) self.frozenEntries .init).flush

/-- The cache after `ScanCacheSave`. -/
def afterSave (self : ScanCache) : ScanCache := { self with frozenData := none }

end ScanCache

/-- A `ScanCacheEntry` in the file. -/
def readScanCacheEntry (image : List UInt8) (p : Nat) : Option (UInt64 × List FileAndHash) := do
  let fileTimestamp ← readUint64 image p
  let includedFiles ← readFrozenArray 8 readFileAndHash image (p + 8)
  return (fileTimestamp, includedFiles)

/-- `LoadFrozenData<ScanData>`, with everything the file leads to. -/
def loadScanData (image : List UInt8) : Option (List FrozenRecord) := do
  if image.length < 20 then none
  let magicNumber ← readUint32 image 0
  if magicNumber ≠ scanDataMagicNumber then none
  let entryCount ← readInt32 image 4
  let keys ← readPtr image 8
  let data ← readPtr image 12
  let accessTimes ← readPtr image 16
  let keys ← readElems 16 readDigest image entryCount.toInt.toNat keys
  let data ← readElems 16 readScanCacheEntry image entryCount.toInt.toNat data
  let accessTimes ← readElems 8 readUint64 image entryCount.toInt.toNat accessTimes
  return ((keys.zip data).zip accessTimes).map fun ((key, fileTimestamp, includes), accessTime) =>
    ⟨⟨key, fileTimestamp, includes⟩, accessTime⟩

/-! ### Reading what was written -/

namespace ScanCacheWriter

variable {self : ScanCacheWriter} {image : List UInt8} {base : Nat → Nat}

/-- The pool is right about the strings. -/
def Good (self : ScanCacheWriter) : Prop := Pooled 6 stringSeg self.segs self.atoms

theorem good_init : init.Good := Pooled.init

theorem le_saveFile (file : FileAndHash) : self.segs ≤ (self.saveFile file).segs := by
  refine le_trans ?_ (Segments.le_write _ _ _)
  unfold writeUniqueStringPointer
  split
  · exact Segments.le_writePointer _ _ _
  · exact (Segments.le_writePointer _ _ _).trans (Segments.le_write _ _ _)

theorem size_saveFile (file : FileAndHash) (k : Nat) (hk : k ≠ stringSeg) :
    (self.saveFile file).segs.size k = self.segs.size k + if k = arraySeg then 8 else 0 := by
  simp only [saveFile, Segments.writeUint32, Segments.size_write, length_toLE]
  unfold writeUniqueStringPointer
  split
  · rw [Segments.size_writePointer]
    split_ifs <;> rfl
  · simp only [Segments.writeStringData, Segments.size_write, Segments.size_writePointer, if_neg hk]
    split_ifs <;> rfl

/-- The pointer that is written for a file name leads to the name. -/
theorem writeUniqueStringPointer_spec {hash : UInt32} (hhash : hash ≠ 0) (filename : CString) (hgood : self.Good) :
    (self.writeUniqueStringPointer hash filename).Good ∧
      ∀ image base, Placed 6 (self.writeUniqueStringPointer hash filename).segs image base →
        readFrozenString image (base arraySeg + self.segs.size arraySeg) = some filename ∧
          base stringSeg < base arraySeg + self.segs.size arraySeg + 2 ^ 31 := by
  unfold writeUniqueStringPointer
  split
  · next locator hlookup =>
    obtain ⟨hsegment, hstored⟩ := hgood.lookup hlookup
    have hle := Segments.le_writePointer self.segs arraySeg locator
    refine ⟨hgood.of_le hle, fun image base hp => ⟨?_, ?_⟩⟩
    · exact readFrozenString_of_stored hp (hstored _ _ (hp.of_le hle)) (by rw [hsegment]; decide)
        (by rw [hsegment]; decide)
    · have hlt := (hp.pointed (by decide : arraySeg < 6)).lt
      rw [hsegment] at hlt
      omega
  · have hle := (Segments.le_writePointer self.segs arraySeg (self.segs.position stringSeg)).trans
      (Segments.le_write _ stringSeg (filename.bytes ++ [0]))
    have hstored : Stored 6 ((self.segs.writePointer arraySeg (self.segs.position stringSeg)).writeStringData
      stringSeg filename)
        (self.segs.position stringSeg) filename := by
      have hat := @stored_writeStringData (self.segs.writePointer arraySeg (self.segs.position stringSeg)) 6 stringSeg
        (by decide) filename
      simpa [Stored] using hat
    refine ⟨(hgood.of_le hle).insert hhash rfl hstored, fun image base hp => ⟨?_, ?_⟩⟩
    · exact readFrozenString_of_stored (hp.of_le (Segments.le_write _ _ _)) (hstored _ _ hp)
        (by decide : arraySeg < stringSeg)
        (by decide : stringSeg < 6)
    · have hlt := ((hp.of_le (Segments.le_write _ _ _)).pointed (by decide : arraySeg < 6)).lt
      rw [Segments.position_segIndex] at hlt
      omega

theorem saveFile_spec {file : FileAndHash} (hhash : file.filenameHash ≠ 0) (hgood : self.Good) :
    (self.saveFile file).Good ∧ ∀ image base, Placed 6 (self.saveFile file).segs image base →
      readFileAndHash image (base arraySeg + self.segs.size arraySeg) = some file ∧
        base stringSeg < base arraySeg + self.segs.size arraySeg + 2 ^ 31 := by
  obtain ⟨hgood', hread⟩ := writeUniqueStringPointer_spec hhash file.filename hgood
  have hle : (self.writeUniqueStringPointer file.filenameHash file.filename).segs ≤ (self.saveFile file).segs :=
    Segments.le_write _ _ _
  refine ⟨hgood'.of_le hle, fun image base hp => ?_⟩
  obtain ⟨hname, hfar⟩ := hread image base (hp.of_le hle)
  have hsize : (self.writeUniqueStringPointer file.filenameHash file.filename).segs.size arraySeg =
    self.segs.size arraySeg + 4 := by
    have htotal := self.size_saveFile file arraySeg (by decide)
    simp only [saveFile, Segments.writeUint32, Segments.size_write, length_toLE, if_true] at htotal
    omega
  have hhashAt : At image (base arraySeg + self.segs.size arraySeg + 4) (toLE 4 file.filenameHash.toNat) := by
    have hwritten := Placed.written hp (by decide)
    rwa [hsize, ← Nat.add_assoc] at hwritten
  exact ⟨by simp [readFileAndHash, hname, readUint32_of_at hhashAt], hfar⟩

theorem writes_saveFile {files : List FileAndHash} (hhash : ∀ file ∈ files, file.filenameHash ≠ 0) :
    Writes segs Good (fun s file t => saveFile s file = t) files where
  inv _ file _ hmem hR hs := hR ▸ (saveFile_spec (hhash file hmem) hs).1
  le s file _ _ hR _ := hR ▸ s.le_saveFile file

theorem adds_saveFile (files : List FileAndHash) (k : Nat) (hk : k ≠ stringSeg) :
    Adds k (if k = arraySeg then 8 else 0) segs Good (fun s file t => saveFile s file = t) files :=
  fun s file _ _ hR _ => hR ▸ s.size_saveFile file k hk

theorem puts_saveFile {files : List FileAndHash} (hhash : ∀ file ∈ files, file.filenameHash ≠ 0) :
    Puts 6 arraySeg segs Good (fun s file t => saveFile s file = t) readFileAndHash id files :=
  fun _ file _ hmem hR hs image base hp => ((saveFile_spec (hhash file hmem) hs).2 image base (hR ▸ hp)).1

theorem saveFiles_spec {files : List FileAndHash} (hhash : ∀ file ∈ files, file.filenameHash ≠ 0) (hgood : self.Good) :
    self.segs ≤ (files.foldl saveFile self).segs ∧ (files.foldl saveFile self).Good ∧
      (∀ k, k ≠ stringSeg → (files.foldl saveFile self).segs.size k = self.segs.size k +
      (if k = arraySeg then 8 else 0) * files.length) ∧
      ∀ image base, Placed 6 (files.foldl saveFile self).segs image base → files.length < 2 ^ 31 ∧
        readElems 8 readFileAndHash image files.length
        (some (base arraySeg + self.segs.size arraySeg)) = some files := by
  have hsteps := steps_foldl saveFile files self
  have hwrites := writes_saveFile hhash
  have hsize : ∀ k, k ≠ stringSeg →
      (files.foldl saveFile self).segs.size k = self.segs.size k + (if k = arraySeg then 8 else 0) * files.length :=
    fun k hk => hwrites.steps_size (adds_saveFile files k hk) hsteps hgood
  refine ⟨hwrites.steps_le hsteps hgood, hsteps.inv hwrites.inv hgood, hsize, fun image base hp => ⟨?_, ?_⟩⟩
  · cases files with
    | nil => simp
    | cons file files =>
        -- the pointer to the first name reaches over the array
        have hfirst : (self.saveFile file).segs ≤ ((file :: files).foldl saveFile self).segs :=
          (writes_saveFile fun f hf => hhash f (List.mem_cons_of_mem _ hf)).steps_le (steps_foldl saveFile files _)
            (saveFile_spec (hhash file List.mem_cons_self) hgood).1
        have hfar := ((saveFile_spec (hhash file List.mem_cons_self) hgood).2 image base (hp.of_le hfirst)).2
        have hapart := hp.apart arraySeg stringSeg (by decide) (by decide)
        rw [hsize arraySeg (by decide), if_pos rfl] at hapart
        omega
  · have hread := hwrites.steps_readElems (adds_saveFile files arraySeg (by decide)) (puts_saveFile hhash) hsteps
      hgood hp
    rwa [List.map_id] at hread

/-- The part of `SaveRecord` behind the loop. -/
def saveEntry (segs : Segments) (entry : FrozenRecord) (stringPtrs : BinaryLocator) : Segments :=
  ((((segs.write digestSeg entry.record.key.bytes).writeUint64 dataSeg entry.record.fileTimestamp).writeUint32 dataSeg
    (.ofNat entry.record.includes.length)).writePointer dataSeg stringPtrs).writeUint64 timestampSeg entry.accessTime

theorem le_saveEntry (segs : Segments) (entry : FrozenRecord) (stringPtrs : BinaryLocator) :
    segs ≤ saveEntry segs entry stringPtrs :=
  ((((Segments.le_write _ _ _).trans (Segments.le_write _ _ _)).trans (Segments.le_write _ _ _)).trans
    (Segments.le_writePointer _ _ _)).trans (Segments.le_write _ _ _)

theorem size_saveEntry (segs : Segments) (entry : FrozenRecord) (stringPtrs : BinaryLocator) (k : Nat) :
    (saveEntry segs entry stringPtrs).size k =
      segs.size k + if k = digestSeg then 16 else if k = dataSeg then 16 else if k = timestampSeg then 8 else 0 := by
  simp only [saveEntry, Segments.writeUint64, Segments.writeUint32, Segments.size_write, Segments.size_writePointer,
    length_bytes, length_toLE]
  split_ifs <;> simp_all

/-- What is written for a record can be read in the three segments of the records. -/
theorem read_saveEntry {segs : Segments} {entry : FrozenRecord} {stringPtrs : BinaryLocator}
    (hp : Placed 6 (saveEntry segs entry stringPtrs) image base) (hptrs : stringPtrs.segIndex = arraySeg)
    (hlength : entry.record.includes.length < 2 ^ 31)
    (hfiles : readElems 8 readFileAndHash image entry.record.includes.length
    (some (base arraySeg + stringPtrs.offset)) = some entry.record.includes) :
    readDigest image (base digestSeg + segs.size digestSeg) = some entry.record.key ∧
      readScanCacheEntry image (base dataSeg + segs.size dataSeg) = some
      (entry.record.fileTimestamp, entry.record.includes) ∧
      readUint64 image (base timestampSeg + segs.size timestampSeg) = some entry.accessTime := by
  have hp4 := hp.of_le (Segments.le_write _ _ _)
  have hp3 := hp4.of_le (Segments.le_writePointer _ _ _)
  have hp2 := hp3.of_le (Segments.le_write _ _ _)
  have hp1 := hp2.of_le (Segments.le_write _ _ _)
  have hdigest := hp1.written (by decide : digestSeg < 6)
  have htimestamp := hp2.written (by decide : dataSeg < 6)
  have hcount := hp3.written (by decide : dataSeg < 6)
  have hptr := hp4.readPtr (by rw [hptrs]; decide) (by rw [hptrs]; decide)
  have haccess := hp.written (by decide : timestampSeg < 6)
  simp +decide only [Segments.writeUint64, Segments.writeUint32, Segments.size_write, Segments.size_writePointer,
    length_bytes, length_toLE,
    hptrs, if_true, if_false, Nat.add_zero, ← Nat.add_assoc] at htimestamp hcount hptr haccess
  refine ⟨readDigest_of_at hdigest, ?_, readUint64_of_at haccess⟩
  have harray := readFrozenArray_eq_some hcount hptr hlength hfiles
  simp only [readScanCacheEntry, readUint64_of_at htimestamp, harray, Option.bind_eq_bind, Option.bind_some,
    Option.pure_def]

theorem saveRecord_segs (self : ScanCacheWriter) (entry : FrozenRecord) : (self.saveRecord entry).segs =
    saveEntry (entry.record.includes.foldl saveFile self).segs entry (self.segs.position arraySeg) := rfl

theorem saveRecord_spec {entry : FrozenRecord} (hhash : ∀ file ∈ entry.record.includes, file.filenameHash ≠ 0)
    (hgood : self.Good) :
    self.segs ≤ (self.saveRecord entry).segs ∧ (self.saveRecord entry).Good ∧
      (∀ k, k < arraySeg → (self.saveRecord entry).segs.size k =
        self.segs.size k + if k = digestSeg then 16 else if k = dataSeg then 16 else if k = timestampSeg then 8 else 0) ∧
      ∀ image base, Placed 6 (self.saveRecord entry).segs image base →
        readDigest image (base digestSeg + self.segs.size digestSeg) = some entry.record.key ∧
        readScanCacheEntry image (base dataSeg + self.segs.size dataSeg) = some
        (entry.record.fileTimestamp, entry.record.includes) ∧
        readUint64 image (base timestampSeg + self.segs.size timestampSeg) = some entry.accessTime := by
  obtain ⟨hle, hgood', hsize, hread⟩ := saveFiles_spec hhash hgood
  have hle' := le_saveEntry (entry.record.includes.foldl saveFile self).segs entry (self.segs.position arraySeg)
  have hsame : ∀ k, k < arraySeg → (entry.record.includes.foldl saveFile self).segs.size k = self.segs.size k := by
    intro k hk
    rw [hsize k (by simp at hk ⊢; omega), if_neg (by omega), Nat.zero_mul, Nat.add_zero]
  rw [saveRecord_segs]
  refine ⟨hle.trans hle', hgood'.of_le hle', fun k hk => ?_, fun image base hp => ?_⟩
  · rw [size_saveEntry, hsame k hk]
  · obtain ⟨hlength, hfiles⟩ := hread image base (hp.of_le hle')
    have hentry := read_saveEntry hp rfl hlength hfiles
    rwa [hsame digestSeg (by decide), hsame dataSeg (by decide), hsame timestampSeg (by decide)] at hentry

/-! ### The whole file -/

/-- The file names of an entry come with hashes that the pool can hold. -/
def Hashed (entry : FrozenRecord) : Prop := ∀ file ∈ entry.record.includes, file.filenameHash ≠ 0

variable {entries : List FrozenRecord}

theorem writes_saveRecord (hentries : ∀ entry ∈ entries, Hashed entry) :
    Writes segs Good (fun s entry t => saveRecord s entry = t) entries where
  inv _ entry _ hmem hR hs := hR ▸ (saveRecord_spec (hentries entry hmem) hs).2.1
  le _ entry _ hmem hR hs := hR ▸ (saveRecord_spec (hentries entry hmem) hs).1

theorem adds_saveRecord (hentries : ∀ entry ∈ entries, Hashed entry) {k : Nat} (hk : k < arraySeg) :
    Adds k (if k = digestSeg then 16 else if k = dataSeg then 16 else if k = timestampSeg then 8 else 0) segs Good
      (fun s entry t => saveRecord s entry = t) entries :=
  fun _ entry _ hmem hR hs => hR ▸ (saveRecord_spec (hentries entry hmem) hs).2.2.1 k hk

theorem puts_saveRecord (hentries : ∀ entry ∈ entries, Hashed entry) :
    Puts 6 digestSeg segs Good (fun s entry t => saveRecord s entry = t) readDigest
    (fun entry => entry.record.key) entries ∧
    Puts 6 dataSeg segs Good (fun s entry t => saveRecord s entry = t) readScanCacheEntry
      (fun entry => (entry.record.fileTimestamp, entry.record.includes)) entries ∧
    Puts 6 timestampSeg segs Good
    (fun s entry t => saveRecord s entry = t) readUint64 FrozenRecord.accessTime entries := by
  have hread : ∀ s entry t, entry ∈ entries → saveRecord s entry = t → s.Good →
    ∀ image base, Placed 6 t.segs image base →
      readDigest image (base digestSeg + s.segs.size digestSeg) = some entry.record.key ∧
      readScanCacheEntry image (base dataSeg + s.segs.size dataSeg) =
        some (entry.record.fileTimestamp, entry.record.includes) ∧
      readUint64 image (base timestampSeg + s.segs.size timestampSeg) = some entry.accessTime := by
    rintro s entry _ hmem rfl hs
    exact (saveRecord_spec (hentries entry hmem) hs).2.2.2
  refine ⟨fun s entry t hmem hR hs image base hp => ?_, fun s entry t hmem hR hs image base hp => ?_,
    fun s entry t hmem hR hs image base hp => ?_⟩
  · exact (hread s entry t hmem hR hs image base hp).1
  · exact (hread s entry t hmem hR hs image base hp).2.1
  · exact (hread s entry t hmem hR hs image base hp).2.2

theorem recordsOut_foldl (entries : List FrozenRecord) :
    ∀ self, (entries.foldl saveRecord self).recordsOut = self.recordsOut + entries.length := by
  have hfiles : ∀ (files : List FileAndHash) self, (files.foldl saveFile self).recordsOut = self.recordsOut := by
    intro files
    induction files with
    | nil => exact fun self => rfl
    | cons file files ih =>
        intro self
        rw [List.foldl_cons, ih]
        simp only [saveFile, writeUniqueStringPointer]
        split <;> rfl
  induction entries with
  | nil => exact fun self => rfl
  | cons entry entries ih =>
      intro self
      rw [List.foldl_cons, ih, List.length_cons]
      simp only [saveRecord, hfiles]
      omega

/-- The file of a writer into which entries were saved has their number and loads as these entries. -/
theorem load_flush_scan (hentries : ∀ entry ∈ entries, Hashed entry)
    (h : (entries.foldl saveRecord .init).flush = some image) :
    (readInt32 image 4).map Int32.toInt = some (entries.length : Int) ∧ loadScanData image = some entries := by
  have hsteps := steps_foldl saveRecord entries .init
  have hwrites := writes_saveRecord hentries
  have hcount := recordsOut_foldl entries .init
  have hmain := hwrites.steps_size (adds_saveRecord hentries (by decide : mainSeg < arraySeg)) hsteps good_init
  have hdata := hwrites.steps_size (adds_saveRecord hentries (by decide : dataSeg < arraySeg)) hsteps good_init
  generalize hw : entries.foldl saveRecord .init = w at h hsteps hcount hmain hdata
  have hp5 := Placed.of_flush h
  generalize BinaryWriter.base _ = base at hp5
  have hp4 := hp5.of_le (Segments.le_writePointer _ _ _)
  have hp3 := hp4.of_le (Segments.le_writePointer _ _ _)
  have hp2 := hp3.of_le (Segments.le_writePointer _ _ _)
  have hp1 := hp2.of_le (Segments.le_write _ _ _)
  have hp := hp1.of_le (Segments.le_write _ _ _)
  have hmagicAt := hp1.written (by decide : mainSeg < 6)
  have hcountAt := hp2.written (by decide : mainSeg < 6)
  have hkeys := hp3.readPtr (by decide : mainSeg < digestSeg) (by decide : digestSeg < 6)
  have hentriesPtr := hp4.readPtr (by decide : mainSeg < dataSeg) (by decide : dataSeg < 6)
  have htimes := hp5.readPtr (by decide : mainSeg < timestampSeg) (by decide : timestampSeg < 6)
  have hpointer := hp5.pointed (by decide : mainSeg < 6)
  have hend := hp5.apart dataSeg timestampSeg (by decide) (by decide)
  simp +decide only [Segments.writeUint32, Segments.size_write, Segments.size_writePointer, length_toLE, hmain, hdata,
    hp.zero, init,
    Segments.size_empty, Segments.position_segIndex, Segments.position_offset, if_true, if_false, Nat.add_zero,
      Nat.zero_add, Nat.zero_mul,
    Nat.reduceAdd] at hmagicAt hcountAt hkeys hentriesPtr htimes hpointer hend hcount
  have hlength : entries.length < 2 ^ 31 := by
    have hfar := hpointer.lt
    omega
  have hsize : ¬ image.length < 20 := by
    obtain ⟨offset, hat, -⟩ := hpointer
    have hle := hat.length_le (by intro hnil; simpa using congrArg List.length hnil)
    rw [length_int32Bytes] at hle
    omega
  have hcount' : readInt32 image 4 = some (.ofNat entries.length) := readInt32_of_at (hcount ▸ hcountAt)
  obtain ⟨hputsKeys, hputsData, hputsTimes⟩ := puts_saveRecord hentries
  have hkeyList : readElems 16 readDigest image entries.length (some (base digestSeg)) =
    some (entries.map fun entry => entry.record.key) :=
    hwrites.steps_readElems (adds_saveRecord hentries (by decide : digestSeg < arraySeg)) hputsKeys hsteps good_init hp
  have hdataList : readElems 16 readScanCacheEntry image entries.length (some (base dataSeg)) =
      some (entries.map fun entry => (entry.record.fileTimestamp, entry.record.includes)) :=
    hwrites.steps_readElems (adds_saveRecord hentries (by decide : dataSeg < arraySeg)) hputsData hsteps good_init hp
  have htimeList : readElems 8 readUint64 image entries.length (some (base timestampSeg)) =
    some (entries.map FrozenRecord.accessTime) :=
    hwrites.steps_readElems (adds_saveRecord hentries (by decide : timestampSeg < arraySeg)) hputsTimes hsteps
      good_init hp
  refine ⟨by rw [hcount', Option.map_some, Int32.toInt_ofNat_of_lt hlength], ?_⟩
  simp only [loadScanData, if_neg hsize, readUint32_of_at hmagicAt, hcount', hkeys, hentriesPtr, htimes,
    toNat_ofNat hlength,
    Option.bind_eq_bind, Option.bind_some, hkeyList, hdataList, htimeList, ne_eq, not_true_eq_false, if_false,
      Option.pure_def,
    List.zip_map', List.map_map]
  exact congrArg some (List.map_id' _)

end ScanCacheWriter

namespace ScanCache

/-- The entry that is written for a record of the session or a frozen one, if one is. -/
def savedEntry (now : UInt64) : ScanRecord ⊕ FrozenRecord × Bool → Option FrozenRecord
  | .inl record => some ⟨record, now⟩
  | .inr entry =>
      let timestamp := if entry.2 then now else entry.1.accessTime
      if timestamp > now - 60 * 60 * 24 * 7 then some ⟨entry.1.record, timestamp⟩ else none

theorem foldl_savedEntry (now : UInt64) (items : List (ScanRecord ⊕ FrozenRecord × Bool)) (writer : ScanCacheWriter) :
    items.foldl (fun writer item => item.elim (fun record => writer.saveRecord ⟨record, now⟩) (saveFrozen now writer))
    writer =
      (items.filterMap (savedEntry now)).foldl ScanCacheWriter.saveRecord writer := by
  induction items generalizing writer with
  | nil => rfl
  | cons item items ih =>
      rw [List.foldl_cons, ih]
      cases item with
      | inl record => rfl
      | inr entry =>
          simp only [Sum.elim_inr, saveFrozen, List.filterMap_cons, savedEntry]
          split_ifs <;> rfl

theorem load_save {self : ScanCache} {now : UInt64} {image : List UInt8}
    (hhash : ∀ record ∈ self.records, ∀ file ∈ record.includes, file.filenameHash ≠ 0)
    (h : self.save now = some image) :
    ∃ entries, loadScanData image = some entries ∧ ∀ entry ∈ entries, entry.record ∈ self.records := by
  simp only [save, traverseSortedArrays_eq_foldl] at h
  split_ifs at h
  rw [foldl_savedEntry] at h
  generalize hitems : visited compareHashDigests ScanRecord.key _ (sortRecords self.table.flatten)
    self.frozenEntries = items at h
  have hmem : ∀ entry ∈ items.filterMap (savedEntry now), entry.record ∈ self.records := by
    intro entry hentry
    obtain ⟨item, hitem, hsaved⟩ := List.mem_filterMap.mp hentry
    rw [← hitems] at hitem
    cases item with
    | inl record =>
        cases hsaved
        have hsorted := (inl_mem_visited record).mp hitem
        rw [sortRecords, List.mem_insertionSort] at hsorted
        exact List.mem_append_right _ hsorted
    | inr frozen =>
        simp only [savedEntry, Option.ite_none_right_eq_some, Option.some.injEq] at hsaved
        obtain ⟨-, rfl⟩ := hsaved
        have hfrozen := List.of_mem_zip (mem_of_inr_mem_visited hitem)
        exact List.mem_append_left _ (List.mem_map.mpr ⟨frozen.1, hfrozen.1, rfl⟩)
  exact ⟨_, (ScanCacheWriter.load_flush_scan (fun entry hentry => hhash _ (hmem entry hentry)) h).2, hmem⟩

/-- The records of a cache that starts from a file are those of the file. -/
theorem mem_records_init {file : Option (List UInt8)} {record : ScanRecord}
    (h : record ∈ (init (file.bind loadScanData)).records) :
    ∃ image, file = some image ∧ ∃ entries, loadScanData image = some entries ∧
      ∃ entry ∈ entries, entry.record = record := by
  cases hload : file.bind loadScanData with
  | none =>
      rw [hload] at h
      cases h
  | some entries =>
      obtain ⟨image, himage, hentries⟩ := Option.bind_eq_some_iff.mp hload
      rw [hload] at h
      exact ⟨image, himage, entries, hentries, by simpa [records, init] using h⟩

end ScanCache

end Tundra
