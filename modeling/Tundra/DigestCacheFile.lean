import Tundra.DigestCache
import Tundra.Segments

/-!
# The file of the digest cache

`DigestCacheSave` writes every record of the table into three segments, and `DigestCacheOpen` puts those of a
file that were used in the last week into the table again. The records of the file are laid out by hand and read
as structures of 48 bytes.

A file that is opened holds the records that were saved, so the digests are found again. The exception is a
clock in the first week of its epoch: the time a week before it is not below it, and records that were used
lately are thrown out as well.
-/

namespace Tundra

open Bytes

/-- `DigestCacheState::MagicNumber`. -/
def digestCacheMagicNumber : UInt32 := 0x12781fa6 ^^^ 0x7810221e

structure FrozenDigestRecord where
  timestamp : UInt64
  accessTime : UInt64
  filenameHash : UInt32
  contentDigest : HashDigest
  filename : CString
deriving DecidableEq

namespace DigestCache

@[simp] abbrev mainSeg : Nat := 0
@[simp] abbrev arraySeg : Nat := 1
@[simp] abbrev stringSeg : Nat := 2

/-- `DigestCacheInit` at this time. -/
def init (now : UInt64) : DigestCache := ⟨.init, now⟩

/-- `save_record` of `DigestCacheSave`. -/
def saveRecord (segs : Segments) (r : Record DigestCacheRecord) : Segments :=
  let segs := segs.writeUint64 arraySeg r.payload.timestamp
  let segs := segs.writeUint64 arraySeg r.payload.accessTime
  let segs := segs.writeUint32 arraySeg r.hash
  let segs := segs.write arraySeg r.payload.contentDigest.bytes
  let segs := segs.writePointer arraySeg (segs.position stringSeg)
  let segs := segs.writeStringData stringSeg r.string
  let segs := segs.writeUint32 arraySeg 0
  segs.writeUint32 arraySeg 0

/-- The file `DigestCacheSave` writes. `HashTableWalk` checks the number of records. -/
def save (self : DigestCache) : Option (List UInt8) :=
  if self.table.walk.length ≠ self.table.recordCount then none
  else
    let segs := self.table.walk.foldl saveRecord .empty
    let segs := segs.writeUint32 mainSeg digestCacheMagicNumber
    let segs := segs.writeInt32 mainSeg (.ofNat self.table.recordCount)
    (segs.writePointer mainSeg (Segments.empty.position arraySeg)).flush 3

/-- A `FrozenDigestRecord` in the file. -/
def readFrozenDigestRecord (image : List UInt8) (p : Nat) : Option FrozenDigestRecord := do
  let timestamp ← readUint64 image p
  let accessTime ← readUint64 image (p + 8)
  let filenameHash ← readUint32 image (p + 16)
  let contentDigest ← readDigest image (p + 20)
  let filename ← readFrozenString image (p + 36)
  return ⟨timestamp, accessTime, filenameHash, contentDigest, filename⟩

/-- One turn of the loop of `DigestCacheOpen`. -/
def openRecord (cutoffTime : UInt64) (table : HashTable DigestCacheRecord) (record : FrozenDigestRecord) :
    HashTable DigestCacheRecord :=
  if record.accessTime < cutoffTime then table
  else table.insert record.filenameHash record.filename ⟨record.contentDigest, record.timestamp, record.accessTime⟩

/-- `DigestCacheOpen` of a file with these contents at this time. A file with another magic number is closed again. -/
def openFile (self : DigestCache) (image : List UInt8) (timeNow : UInt64) : Option DigestCache := do
  let magicNumber ← readUint32 image 0
  if magicNumber ≠ digestCacheMagicNumber then return self
  let records ← readFrozenArray 48 readFrozenDigestRecord image 4
  let cutoffTime := timeNow - 7 * 24 * 60 * 60
  return { self with table := records.foldl (openRecord cutoffTime) self.table }

/-! ### Reading what was written -/

/-- The record in the file for a record of the table. -/
def frozen (r : Record DigestCacheRecord) : FrozenDigestRecord :=
  ⟨r.payload.timestamp, r.payload.accessTime, r.hash, r.payload.contentDigest, r.string⟩

variable {segs : Segments} {r : Record DigestCacheRecord} {image : List UInt8} {base : Nat → Nat}

theorem le_saveRecord (segs : Segments) (r : Record DigestCacheRecord) : segs ≤ saveRecord segs r :=
  (Segments.le_write _ _ _).trans <| (Segments.le_write _ _ _).trans <| (Segments.le_write _ _ _).trans <|
    (Segments.le_write _ _ _).trans <| (Segments.le_writePointer _ _ _).trans <| (Segments.le_write _ _ _).trans <|
    (Segments.le_write _ _ _).trans (Segments.le_write _ _ _)

theorem size_saveRecord (segs : Segments) (r : Record DigestCacheRecord) {k : Nat} (hk : k ≠ stringSeg) :
    (saveRecord segs r).size k = segs.size k + if k = arraySeg then 48 else 0 := by
  simp only [saveRecord, Segments.writeUint64, Segments.writeUint32, Segments.writeStringData, Segments.size_write,
    Segments.size_writePointer,
    length_bytes, length_toLE, if_neg hk]
  split_ifs <;> rfl

/-- What is written for a record reads as the record. Its name is behind all records. -/
theorem read_saveRecord (hp : Placed 3 (saveRecord segs r) image base) :
    readFrozenDigestRecord image (base arraySeg + segs.size arraySeg) = some (frozen r) ∧
      base stringSeg < base arraySeg + segs.size arraySeg + 36 + 2 ^ 31 := by
  have hp7 := hp.of_le (Segments.le_write _ _ _)
  have hp6 := hp7.of_le (Segments.le_write _ _ _)
  have hp5 := hp6.of_le (Segments.le_write _ _ _)
  have hp4 := hp5.of_le (Segments.le_writePointer _ _ _)
  have hp3 := hp4.of_le (Segments.le_write _ _ _)
  have hp2 := hp3.of_le (Segments.le_write _ _ _)
  have hp1 := hp2.of_le (Segments.le_write _ _ _)
  have htimestamp := hp1.written (by decide : arraySeg < 3)
  have haccess := hp2.written (by decide : arraySeg < 3)
  have hhash := hp3.written (by decide : arraySeg < 3)
  have hdigest := hp4.written (by decide : arraySeg < 3)
  have hname := hp6.written (by decide : stringSeg < 3)
  have hpointer := hp5.pointed (by decide : arraySeg < 3)
  have hfar := hpointer.lt
  have hstring := readFrozenString_of_stored hp5 (s := r.string) (by simpa using hname)
    (by decide : arraySeg < stringSeg) (by decide : stringSeg < 3)
  simp +decide only [Segments.writeUint64, Segments.writeUint32, Segments.size_write, length_bytes, length_toLE,
    Segments.position_segIndex, Segments.position_offset, if_true, if_false, Nat.add_zero, ← Nat.add_assoc] at haccess hhash hdigest hstring hfar
  refine ⟨?_, by omega⟩
  simp only [Nat.add_assoc, Nat.reduceAdd] at haccess hhash hdigest hstring
  simp only [readFrozenDigestRecord, readUint64_of_at htimestamp, Nat.add_assoc, readUint64_of_at haccess,
    readUint32_of_at hhash,
    readDigest_of_at hdigest, hstring, Option.bind_eq_bind, Option.bind_some, Option.pure_def, frozen]

theorem writes_saveRecord (rs : List (Record DigestCacheRecord)) :
    Writes id (fun _ => True) (fun s r t => saveRecord s r = t) rs where
  inv _ _ _ _ _ _ := trivial
  le s r _ _ hR _ := hR ▸ le_saveRecord s r

theorem adds_saveRecord (rs : List (Record DigestCacheRecord)) {k : Nat} (hk : k ≠ stringSeg) :
    Adds k (if k = arraySeg then 48 else 0) id (fun _ => True) (fun s r t => saveRecord s r = t) rs :=
  fun s r _ _ hR _ => hR ▸ size_saveRecord s r hk

theorem puts_saveRecord (rs : List (Record DigestCacheRecord)) :
    Puts 3 arraySeg id (fun _ => True) (fun s r t => saveRecord s r = t) readFrozenDigestRecord frozen rs :=
  fun _ _ _ _ hR _ _ _ hp => (read_saveRecord (hR ▸ hp)).1

theorem read_saveRecords {rs : List (Record DigestCacheRecord)}
    (hp : Placed 3 (rs.foldl saveRecord .empty) image base) :
    rs.length < 2 ^ 31 ∧ readElems 48 readFrozenDigestRecord image rs.length (some (base arraySeg)) = some
    (rs.map frozen) := by
  have hsteps := steps_foldl saveRecord rs .empty
  refine ⟨?_, (writes_saveRecord rs).steps_readElems (adds_saveRecord rs (by decide : arraySeg ≠ stringSeg))
    (puts_saveRecord rs) hsteps trivial hp⟩
  cases rs with
  | nil => simp
  | cons r rs =>
      -- the pointer to the first name reaches over the array
      have hfirst : saveRecord .empty r ≤ (r :: rs).foldl saveRecord .empty :=
        (writes_saveRecord rs).steps_le (steps_foldl saveRecord rs _) trivial
      have hfar := (read_saveRecord (hp.of_le hfirst)).2
      have hsize := (writes_saveRecord (r :: rs)).steps_size
        (adds_saveRecord (r :: rs) (by decide : arraySeg ≠ stringSeg)) hsteps trivial
      have hapart := hp.apart arraySeg stringSeg (by decide) (by decide)
      simp only [id, if_true, Segments.size_empty] at hsize hfar
      omega

theorem openFile_save {self fresh : DigestCache} (h : self.save = some image) (timeNow : UInt64) :
    fresh.openFile image timeNow =
    some { fresh with table := (self.table.walk.map frozen).foldl (openRecord
    (timeNow - 7 * 24 * 60 * 60)) fresh.table } := by
  simp only [save] at h
  split_ifs at h with hcount
  rw [not_not] at hcount
  have hmain : (self.table.walk.foldl saveRecord .empty).size mainSeg = 0 := by
    have hsize := (writes_saveRecord self.table.walk).steps_size
      (adds_saveRecord self.table.walk (by decide : mainSeg ≠ stringSeg))
      (steps_foldl saveRecord self.table.walk .empty) trivial
    exact hsize.trans (by simp)
  have hp3 := Placed.of_flush h
  generalize BinaryWriter.base _ = base at hp3
  have hp2 := hp3.of_le (Segments.le_writePointer _ _ _)
  have hp1 := hp2.of_le (Segments.le_write _ _ _)
  have hp := hp1.of_le (Segments.le_write _ _ _)
  have hmagicAt := hp1.written (by decide : mainSeg < 3)
  have hcountAt := hp2.written (by decide : mainSeg < 3)
  have harray := hp3.readPtr (by decide : mainSeg < arraySeg) (by decide : arraySeg < 3)
  simp only [Segments.writeUint32, Segments.writeInt32, Segments.size_write, length_toLE, length_int32Bytes, hmain,
    hp.zero,
    Segments.size_empty, Segments.position_segIndex, Segments.position_offset, if_true, Nat.add_zero, Nat.zero_add, Nat.reduceAdd] at hmagicAt hcountAt harray
  obtain ⟨hlength, helems⟩ := read_saveRecords hp
  rw [← hcount] at hcountAt
  have hrecords : readFrozenArray 48 readFrozenDigestRecord image 4 = some (self.table.walk.map frozen) := by
    rw [← List.length_map (f := frozen)] at hcountAt hlength helems
    exact readFrozenArray_eq_some hcountAt harray hlength helems
  simp only [openFile, readUint32_of_at hmagicAt, hrecords, ne_eq, not_true_eq_false, if_false, Option.bind_eq_bind,
    Option.bind_some,
    Option.pure_def]

/-! ### Sessions -/

section Sessions

variable {hashOf : CString → UInt32}

/-- The caches of a program that calls `DigestCacheGet` and `DigestCacheSet` with the hashes of the paths. A
session begins with an empty cache or with the file of an earlier session. -/
inductive Reachable (hashOf : CString → UInt32) : DigestCache → Prop
  | init (now : UInt64) : Reachable hashOf (.init now)
  | openFile {self cache : DigestCache} {image : List UInt8} (h : Reachable hashOf self)
      (hsave : self.save = some image) (now timeNow : UInt64)
      (hopen : (init now).openFile image timeNow = some cache) : Reachable hashOf cache
  | get {self : DigestCache} (h : Reachable hashOf self) (filename : CString) (timestamp : UInt64) :
      Reachable hashOf (self.get filename (hashOf filename) timestamp).2
  | set {self : DigestCache} (h : Reachable hashOf self) (filename : CString) (timestamp : UInt64)
      (digest : HashDigest) :
      Reachable hashOf (self.set filename (hashOf filename) timestamp digest)

theorem openRecord_frozen (cutoffTime : UInt64) (table : HashTable DigestCacheRecord) (r : Record DigestCacheRecord) :
    openRecord cutoffTime table (frozen r) = if r.payload.accessTime < cutoffTime then table
    else table.insert r.hash r.string r.payload :=
  rfl

theorem foldl_openRecord (hhash : ∀ s, hashOf s ≠ 0) (cutoffTime : UInt64) (rs : List (Record DigestCacheRecord))
    (hrs : ∀ r ∈ rs, r.hash = hashOf r.string) (hstrings : (rs.map Record.string).Nodup) :
    ∀ table : HashTable DigestCacheRecord, table.Distinct hashOf → (∀ r ∈ rs, ∀ r' ∈ table.walk, r'.string ≠ r.string) →
      ((rs.map frozen).foldl (openRecord cutoffTime) table).Distinct hashOf ∧
        ∀ r, r ∈ ((rs.map frozen).foldl (openRecord cutoffTime) table).walk ↔
          r ∈ table.walk ∨ r ∈ rs ∧ cutoffTime ≤ r.payload.accessTime := by
  induction rs with
  | nil => exact fun table h _ => ⟨h, by simp⟩
  | cons r rs ih =>
      intro table h hnew
      rw [List.map_cons, List.nodup_cons] at hstrings
      have hrest := ih (fun r' hr' => hrs r' (List.mem_cons_of_mem _ hr')) hstrings.2
      rw [List.map_cons, List.foldl_cons, openRecord_frozen]
      by_cases hold : r.payload.accessTime < cutoffTime
      · rw [if_pos hold]
        obtain ⟨hdistinct, hmem⟩ := hrest table h fun r' hr' => hnew r' (List.mem_cons_of_mem _ hr')
        refine ⟨hdistinct, fun r' => ?_⟩
        rw [hmem, List.mem_cons]
        constructor
        · rintro (hr' | ⟨hr', hkept⟩)
          · exact .inl hr'
          · exact .inr ⟨.inr hr', hkept⟩
        · rintro (hr' | ⟨rfl | hr', hkept⟩)
          · exact .inl hr'
          · exact absurd hold (UInt64.not_lt.mpr hkept)
          · exact .inr ⟨hr', hkept⟩
      · rw [if_neg hold, hrs r List.mem_cons_self]
        obtain ⟨-, hperm, -⟩ := h.valid.insert_spec (hhash r.string) r.string r.payload
        have hself : (⟨hashOf r.string, r.string, r.payload⟩ : Record DigestCacheRecord) = r := by
          rw [← hrs r List.mem_cons_self]
        rw [hself] at hperm
        obtain ⟨hdistinct, hmem⟩ := hrest _ (h.insert (hhash r.string) (hnew r List.mem_cons_self) r.payload) (by
          intro r' hr' r'' hr''
          rcases List.mem_cons.mp (hperm.mem_iff.mp hr'') with rfl | hr''
          · intro hstring
            exact hstrings.1 (hstring ▸ List.mem_map_of_mem hr')
          · exact hnew r' (List.mem_cons_of_mem _ hr') r'' hr'')
        refine ⟨hdistinct, fun r' => ?_⟩
        rw [hmem, hperm.mem_iff, List.mem_cons, List.mem_cons]
        constructor
        · rintro ((rfl | hr') | ⟨hr', hkept⟩)
          · exact .inr ⟨.inl rfl, UInt64.not_lt.mp hold⟩
          · exact .inl hr'
          · exact .inr ⟨.inr hr', hkept⟩
        · rintro (hr' | ⟨rfl | hr', hkept⟩)
          · exact .inl (.inr hr')
          · exact .inl (.inl rfl)
          · exact .inr ⟨hr', hkept⟩

/-- The cache that is opened has the records that are not too old, and no others. -/
theorem openFile_spec (hhash : ∀ s, hashOf s ≠ 0) {self : DigestCache} (hself : self.table.Distinct hashOf)
    (hsave : self.save = some image) (now timeNow : UInt64) :
    ∃ cache, (init now).openFile image timeNow = some cache ∧ cache.table.Distinct hashOf ∧
      ∀ r, r ∈ cache.table.walk ↔ r ∈ self.table.walk ∧ timeNow - 7 * 24 * 60 * 60 ≤ r.payload.accessTime := by
  refine ⟨_, openFile_save hsave timeNow, ?_⟩
  obtain ⟨hdistinct, hmem⟩ :=
    foldl_openRecord hhash (timeNow - 7 * 24 * 60 * 60) self.table.walk hself.hash hself.strings _ .init
    fun r _ r' hr' => absurd hr' List.not_mem_nil
  exact ⟨hdistinct, fun r => (hmem r).trans (or_iff_right List.not_mem_nil)⟩

theorem Reachable.distinct (hhash : ∀ s, hashOf s ≠ 0) {self : DigestCache} (h : Reachable hashOf self) :
    self.table.Distinct hashOf := by
  induction h with
  | init now => exact .init
  | openFile _ hsave now timeNow hopen ih =>
      obtain ⟨cache, hcache, hdistinct, -⟩ := openFile_spec hhash ih hsave now timeNow
      rw [hopen, Option.some.injEq] at hcache
      exact hcache ▸ hdistinct
  | @get self _ filename timestamp ih =>
      unfold DigestCache.get
      split
      · split_ifs
        · exact ih.modify (hashOf filename) filename fun r => { r with accessTime := self.accessTime }
        · exact ih
      · exact ih
  | @set self _ filename timestamp digest ih =>
      simp only [DigestCache.set]
      split
      · exact ih.modify (hashOf filename) filename fun _ => ⟨digest, timestamp, self.accessTime⟩
      · next hnone =>
        refine ih.insert (hhash filename) (fun r hr hstring => ?_) _
        exact ih.valid.lookup_eq_none.mp hnone r hr ⟨hstring ▸ ih.hash r hr, hstring⟩

theorem get_eq_some_iff {self : DigestCache} (h : self.table.Distinct hashOf) {filename : CString}
    {timestamp : UInt64} {digest : HashDigest} :
    (self.get filename (hashOf filename) timestamp).1 = some digest ↔
      ∃ r ∈ self.table.walk, r.string = filename ∧ r.payload.timestamp = timestamp ∧
      r.payload.contentDigest = digest := by
  unfold DigestCache.get
  cases hlookup : self.table.lookup (hashOf filename) filename with
  | none =>
      refine ⟨fun hget => absurd hget.symm (Option.some_ne_none _), ?_⟩
      rintro ⟨r, hr, rfl, -⟩
      exact absurd ⟨h.hash r hr, rfl⟩ (h.valid.lookup_eq_none.mp hlookup r hr)
  | some payload =>
      obtain ⟨r, hr, hstring, rfl⟩ := h.lookup_eq_some_iff.mp hlookup
      constructor
      · intro hget
        dsimp only at hget
        split_ifs at hget with htime
        exact ⟨r, hr, hstring, htime, Option.some.inj hget⟩
      · rintro ⟨r', hr', hstring', htime, hdigest⟩
        have hsame := List.inj_on_of_nodup_map h.strings hr hr' (hstring.trans hstring'.symm)
        subst hsame
        dsimp only
        rw [if_pos htime, hdigest]

/-- The second cache answers as the first one does for the records that were used in the week before this time. -/
def Persists (hashOf : CString → UInt32) (self cache : DigestCache) (timeNow : UInt64) : Prop :=
  ∀ filename timestamp digest, (cache.get filename (hashOf filename) timestamp).1 = some digest ↔
    (self.get filename (hashOf filename) timestamp).1 = some digest ∧
      ∃ r, self.table.lookup (hashOf filename) filename = some r ∧ timeNow.toNat ≤ r.accessTime.toNat + 7 * 24 * 60 * 60

/-- The comparison of `DigestCacheOpen` when the time a week before is no wrapped number. -/
theorem cutoff_le_iff {timeNow accessTime : UInt64} (hweek : 7 * 24 * 60 * 60 ≤ timeNow.toNat) :
    timeNow - 7 * 24 * 60 * 60 ≤ accessTime ↔ timeNow.toNat ≤ accessTime.toNat + 7 * 24 * 60 * 60 := by
  have hconst : (7 * 24 * 60 * 60 : UInt64).toNat = 604800 := by decide
  have hle : (7 * 24 * 60 * 60 : UInt64) ≤ timeNow := by
    rw [UInt64.le_iff_toNat_le, hconst]
    exact hweek
  rw [UInt64.le_iff_toNat_le, UInt64.toNat_sub_of_le _ _ hle, hconst]
  omega

/-- A cache that is saved and opened again answers as before, but for the records that are too old, if and only
if the time a week before is no wrapped number or none of the records is below the wrapped number. -/
theorem reopen_persists (hhash : ∀ s, hashOf s ≠ 0) {self : DigestCache} (h : Reachable hashOf self)
    (hsave : self.save = some image) (now timeNow : UInt64) :
    ∃ cache, (init now).openFile image timeNow = some cache ∧ (cache.table.walk.map Record.string).Nodup ∧
      (Persists hashOf self cache timeNow ↔
        7 * 24 * 60 * 60 ≤ timeNow.toNat ∨ ∀ r ∈ self.table.walk, timeNow - 7 * 24 * 60 * 60 ≤ r.payload.accessTime) := by
  have hself := h.distinct hhash
  obtain ⟨cache, hopen, hcache, hmem⟩ := openFile_spec hhash hself hsave now timeNow
  refine ⟨cache, hopen, hcache.strings, ?_⟩
  constructor
  · intro hpersists
    by_contra hnot
    rw [not_or, not_forall] at hnot
    obtain ⟨hweek, r, hr⟩ := hnot
    obtain ⟨hr, hdropped⟩ := Classical.not_imp.mp hr
    have hfound := (hpersists r.string r.payload.timestamp r.payload.contentDigest).mpr
      ⟨(get_eq_some_iff hself).mpr ⟨r, hr, rfl, rfl, rfl⟩, r.payload,
        hself.lookup_eq_some_iff.mpr ⟨r, hr, rfl, rfl⟩, by omega⟩
    obtain ⟨r', hr', hstring, -⟩ := (get_eq_some_iff hcache).mp hfound
    obtain ⟨hr', hkept⟩ := (hmem r').mp hr'
    rw [List.inj_on_of_nodup_map hself.strings hr' hr hstring] at hkept
    exact hdropped hkept
  · intro hcondition
    have hkept : ∀ r ∈ self.table.walk,
        (timeNow - 7 * 24 * 60 * 60 ≤ r.payload.accessTime ↔
          timeNow.toNat ≤ r.payload.accessTime.toNat + 7 * 24 * 60 * 60) := by
      intro r hr
      by_cases hweek : 7 * 24 * 60 * 60 ≤ timeNow.toNat
      · exact cutoff_le_iff hweek
      · refine iff_of_true (hcondition.resolve_left hweek r hr) (by omega)
    intro filename timestamp digest
    rw [get_eq_some_iff hcache, get_eq_some_iff hself]
    constructor
    · rintro ⟨r, hr, rfl, htime, hdigest⟩
      obtain ⟨hr, hnew⟩ := (hmem r).mp hr
      exact ⟨⟨r, hr, rfl, htime, hdigest⟩, r.payload, hself.lookup_eq_some_iff.mpr ⟨r, hr, rfl, rfl⟩,
        (hkept r hr).mp hnew⟩
    · rintro ⟨⟨r, hr, rfl, htime, hdigest⟩, payload, hlookup, hnew⟩
      rw [hself.lookup_eq_some_iff.mpr ⟨r, hr, rfl, rfl⟩, Option.some.injEq] at hlookup
      subst hlookup
      exact ⟨r, (hmem r).mpr ⟨hr, (hkept r hr).mpr hnew⟩, rfl, htime, hdigest⟩

/-- A session with two files, one of which was seen again. -/
def twoDigests : DigestCache :=
  (((init 1700000000).set (.lit "a.c") (djb2HashPath (.lit "a.c")) 5 ⟨1, 2⟩).set (.lit "b.c")
    (djb2HashPath (.lit "b.c")) 6 ⟨3, 4⟩).get
    (.lit "a.c") (djb2HashPath (.lit "a.c")) 5 |>.2

theorem reachable_twoDigests : Reachable djb2HashPath twoDigests := (((Reachable.init _).set _ _ _).set _ _ _).get _ _

theorem reopen_persists_twoDigests :
    ∃ image cache, twoDigests.save = some image ∧ (init 1700000100).openFile image 1700000100 = some cache ∧
    Persists djb2HashPath twoDigests cache 1700000100 := by
  have hsave : twoDigests.save.isSome := by decide +kernel
  obtain ⟨image, himage⟩ := Option.isSome_iff_exists.mp hsave
  obtain ⟨cache, hopen, -, hpersists⟩ :=
    reopen_persists djb2HashPath_ne_zero reachable_twoDigests himage 1700000100 1700000100
  exact ⟨image, cache, himage, hopen, hpersists.mpr (.inl (by decide))⟩

/-- With a clock in its first week even what was just saved is thrown out. -/
theorem reopen_first_week : ∃ self image cache, Reachable djb2HashPath self ∧ self.save = some image ∧
    (init 100).openFile image 100 = some cache ∧ ¬Persists djb2HashPath self cache 100 := by
  have hrun : (((init 100).set (.lit "a.c") (djb2HashPath (.lit "a.c")) 5 ⟨1, 2⟩).save.bind fun image =>
      ((init 100).openFile image 100).map fun cache => (cache.get (.lit "a.c") (djb2HashPath (.lit "a.c")) 5).1) = some none := by
    decide +kernel
  obtain ⟨image, himage, hrun⟩ := Option.bind_eq_some_iff.mp hrun
  obtain ⟨cache, hopen, hget⟩ := Option.map_eq_some_iff.mp hrun
  refine ⟨_, image, cache, (Reachable.init 100).set _ _ _, himage, hopen, fun hpersists => ?_⟩
  have hfound := (hpersists (.lit "a.c") 5 ⟨1, 2⟩).mpr
    ⟨by decide +kernel, ⟨⟨1, 2⟩, 5, 100⟩, by decide +kernel, by decide⟩
  rw [hget] at hfound
  cases hfound

end Sessions

end DigestCache

end Tundra
