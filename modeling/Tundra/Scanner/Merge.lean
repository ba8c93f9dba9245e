import Tundra.Scanner.CacheFile

/-!
# What saving the scan cache keeps

`ScanCacheSave` merges the records of the session with the frozen ones. The table of the session is one of
chains; `Chained` is what insertions keep of it: every record is in the chain of its key, and no key occurs
twice. With that, `save_merges` says which entries the file has, in which order, and with which access times.
-/

namespace Tundra

namespace ScanCache

/-! ### The table of the session -/

/-- A table in which a record is found in the chain of its key. -/
structure Chained (table : List (List ScanRecord)) : Prop where
  index : ∀ i chain, table[i]? = some chain → ∀ r ∈ chain, tableIndex table.length r.key = i
  distinct : (table.flatten.map ScanRecord.key).Nodup

section Link

variable {table : List (List ScanRecord)} {record : ScanRecord}

@[simp] theorem length_link : (link table record).length = table.length := List.length_modify _ _ _

theorem flatten_link (hsize : 0 < table.length) : (link table record).flatten.Perm (record :: table.flatten) :=
  flatten_modify_cons _ _ (tableIndex_lt hsize _)

theorem chained_link (h : Chained table) (hsize : 0 < table.length) (hnew : ∀ r ∈ table.flatten, r.key ≠ record.key) :
    Chained (link table record) := by
  constructor
  · intro i chain hi r hr
    rw [length_link]
    rw [link, List.getElem?_modify, Option.map_eq_map, Option.map_eq_some_iff] at hi
    obtain ⟨old, hold, rfl⟩ := hi
    split_ifs at hr with hindex
    · rcases List.mem_cons.mp hr with rfl | hr
      · exact hindex
      · exact h.index i old hold r hr
    · exact h.index i old hold r hr
  · rw [((flatten_link hsize).map _).nodup_iff, List.map_cons, List.nodup_cons]
    refine ⟨fun hmem => ?_, h.distinct⟩
    obtain ⟨r, hr, hkey⟩ := List.mem_map.mp hmem
    exact hnew r hr hkey

/-- Linking records with different keys into a table one after the other. -/
theorem foldl_link (rs : List ScanRecord) : ∀ {table : List (List ScanRecord)}, Chained table → 0 < table.length →
    (rs.map ScanRecord.key).Nodup → (∀ r ∈ rs, ∀ r' ∈ table.flatten, r'.key ≠ r.key) →
      Chained (rs.foldl link table) ∧ (rs.foldl link table).length = table.length ∧ (rs.foldl link table).flatten.Perm
      (rs ++ table.flatten) := by
  induction rs with
  | nil => exact fun h _ _ _ => ⟨h, rfl, .refl _⟩
  | cons r rs ih =>
      intro table h hsize hnodup hnew
      rw [List.map_cons, List.nodup_cons] at hnodup
      have hperm := @flatten_link table r hsize
      obtain ⟨hchained, hlength, hflatten⟩ :=
        ih (chained_link h hsize (hnew r List.mem_cons_self)) (by rwa [length_link]) hnodup.2 (by
        intro s hs r' hr'
        rcases List.mem_cons.mp (hperm.mem_iff.mp hr') with rfl | hr'
        · intro hkey
          exact hnodup.1 (hkey ▸ List.mem_map_of_mem hs)
        · exact hnew s (List.mem_cons_of_mem _ hs) r' hr')
      refine ⟨hchained, hlength.trans length_link, hflatten.trans ?_⟩
      exact (hperm.append_left rs).trans List.perm_middle

end Link

variable {self : ScanCache} {key : HashDigest} {timestamp : UInt64} {files : List CString}

/-- The lookup finds the record of a key, and it is the only one. -/
theorem lookupDynamic_eq_some_iff (h : Chained self.table) {record : ScanRecord} :
    self.lookupDynamic key = some record ↔ record ∈ self.table.flatten ∧ record.key = key := by
  refine ⟨lookupDynamic_mem, ?_⟩
  rintro ⟨hmem, rfl⟩
  cases hfound : self.lookupDynamic record.key with
  | some other =>
      obtain ⟨hother, hkey⟩ := lookupDynamic_mem hfound
      exact congrArg some (List.inj_on_of_nodup_map h.distinct hother hmem hkey)
  | none =>
      obtain ⟨chain, hchain, hrecord⟩ := List.mem_flatten.mp hmem
      obtain ⟨i, hi⟩ := List.mem_iff_getElem?.mp hchain
      have hlt := (List.getElem?_eq_some_iff.mp hi).1
      rw [lookupDynamic, if_pos (by omega), h.index i chain hi record hrecord, List.getD_eq_getElem?_getD, hi,
        Option.getD_some,
        List.find?_eq_none] at hfound
      exact absurd (decide_eq_true rfl) (hfound record hrecord)

theorem lookupDynamic_eq_none_iff (h : Chained self.table) :
    self.lookupDynamic key = none ↔ ∀ r ∈ self.table.flatten, r.key ≠ key := by
  rw [Option.eq_none_iff_forall_ne_some]
  constructor
  · intro hnone r hr hkey
    exact hnone r ((lookupDynamic_eq_some_iff h).mpr ⟨hr, hkey⟩)
  · intro hall r hr
    obtain ⟨hmem, hkey⟩ := lookupDynamic_mem hr
    exact hall r hmem hkey

structure TableInv (cache : ScanCache) : Prop where
  chained : Chained cache.table
  count : cache.recordCount = cache.table.flatten.length

theorem tableInv_prepareInsert (h : self.TableInv) : self.prepareInsert.TableInv ∧ 0 < self.prepareInsert.table.length ∧
    self.prepareInsert.table.flatten.Perm self.table.flatten := by
  simp only [prepareInsert]
  split_ifs with hroom
  · exact ⟨h, hroom.1, .refl _⟩
  · have hempty : Chained (List.replicate (max (nextPowerOfTwo (self.table.length + 1)) 64)
      ([] : List ScanRecord)) := by
      constructor
      · intro i chain hi r hr
        rw [List.getElem?_replicate, Option.ite_none_right_eq_some, Option.some.injEq] at hi
        rw [← hi.2] at hr
        cases hr
      · simp
    obtain ⟨hchained, hlength, hflatten⟩ := foldl_link self.table.flatten hempty (by simp) h.chained.distinct (by simp)
    simp only [List.flatten_replicate_nil, List.append_nil] at hflatten
    refine ⟨⟨hchained, ?_⟩, ?_, hflatten⟩
    · rw [hflatten.length_eq]
      exact h.count
    · rw [hlength]
      simp

theorem TableInv.insert (h : self.TableInv) : (self.insert key timestamp files).TableInv := by
  obtain ⟨hprepared, hsize, hperm⟩ := tableInv_prepareInsert h
  unfold ScanCache.insert
  cases hdynamic : self.lookupDynamic key with
  | none =>
      have hnew : ∀ r ∈ self.prepareInsert.table.flatten, r.key ≠ key := fun r hr =>
        (lookupDynamic_eq_none_iff h.chained).mp hdynamic r (hperm.mem_iff.mp hr)
      refine ⟨chained_link hprepared.chained hsize hnew, ?_⟩
      simp only [(flatten_link hsize).length_eq, List.length_cons, hprepared.count]
  | some old =>
      by_cases hsame : old.fileTimestamp = timestamp
      · simp only [if_pos hsame]
        exact h
      · simp only [if_neg hsame]
        have hkeys : ∀ r : ScanRecord, (if r.key = key then newRecord key timestamp files else r).key = r.key := by
          intro r
          split_ifs with hkey
          · exact hkey.symm
          · rfl
        have hflatten : ∀ table : List (List ScanRecord),
            (table.map fun chain => chain.map fun r => if r.key = key then newRecord key timestamp files
              else r).flatten =
              table.flatten.map fun r => if r.key = key then newRecord key timestamp files else r := by
          intro table
          rw [List.map_flatten]
        refine ⟨⟨?_, ?_⟩, ?_⟩
        · intro i chain hi r hr
          rw [List.getElem?_map, Option.map_eq_some_iff] at hi
          obtain ⟨before, hbefore, rfl⟩ := hi
          obtain ⟨r', hr', rfl⟩ := List.mem_map.mp hr
          rw [hkeys, List.length_map]
          exact hprepared.chained.index i before hbefore r' hr'
        · have hsameKeys : (ScanRecord.key ∘ fun r => if r.key = key then newRecord key timestamp files else r) =
            ScanRecord.key := funext hkeys
          rw [hflatten, List.map_map, hsameKeys]
          exact hprepared.chained.distinct
        · rw [hflatten, List.length_map]
          exact hprepared.count

/-- The caches of a session: a frozen cache with any of its entries flagged, and insertions. -/
inductive Session (frozenData : Option (List FrozenRecord)) : ScanCache → Prop
  | frozen (frozenAccess : List Bool) (hlength : frozenAccess.length = (frozenData.getD []).length) :
      Session frozenData ⟨frozenData, frozenAccess, [], 0⟩
  | insert {self : ScanCache} (h : Session frozenData self) (key : HashDigest) (timestamp : UInt64)
      (files : List CString) :
      Session frozenData (self.insert key timestamp files)

@[simp] theorem insert_frozenData : (self.insert key timestamp files).frozenData = self.frozenData := by
  unfold ScanCache.insert
  split
  · split_ifs
    · rfl
    · exact prepareInsert_frozenData self
  · exact prepareInsert_frozenData self

@[simp] theorem insert_frozenAccess : (self.insert key timestamp files).frozenAccess = self.frozenAccess := by
  have hprepare : self.prepareInsert.frozenAccess = self.frozenAccess := by
    simp only [prepareInsert]
    split_ifs <;> rfl
  unfold ScanCache.insert
  split
  · split_ifs
    · rfl
    · exact hprepare
  · exact hprepare

/-! ### The merge -/

section Merge

variable {frozenData : Option (List FrozenRecord)} {now : UInt64} {entry : FrozenRecord}

/-- The included files come with the hashes of their names. -/
def NamesHashed (record : ScanRecord) : Prop := ∀ file ∈ record.includes, file.filenameHash = djb2HashPath file.filename

namespace Session

theorem frozenData_eq (h : Session frozenData self) : self.frozenData = frozenData := by
  induction h with
  | frozen _ _ => rfl
  | insert _ _ _ _ ih => rw [insert_frozenData, ih]

theorem length_frozenAccess (h : Session frozenData self) : self.frozenAccess.length = (frozenData.getD []).length := by
  induction h with
  | frozen _ hlength => exact hlength
  | insert _ _ _ _ ih => rw [insert_frozenAccess, ih]

theorem tableInv (h : Session frozenData self) : self.TableInv := by
  induction h with
  | frozen _ _ => exact ⟨⟨by simp, by simp⟩, rfl⟩
  | insert _ _ _ _ ih => exact ih.insert

theorem namesHashed (h : Session frozenData self) (hfrozen : ∀ entry ∈ frozenData.getD [], NamesHashed entry.record) :
    ∀ record ∈ self.records, NamesHashed record := by
  induction h with
  | frozen _ _ =>
      intro record hrecord
      simp only [records, List.flatten_nil, List.append_nil, List.mem_map] at hrecord
      obtain ⟨entry, hentry, rfl⟩ := hrecord
      exact hfrozen entry hentry
  | insert _ key timestamp files ih =>
      intro record hrecord
      rcases mem_insert hrecord with rfl | hrecord
      · intro file hfile
        obtain ⟨name, -, rfl⟩ := List.mem_map.mp hfile
        rfl
      · exact ih record hrecord

end Session

def savedWriter (self : ScanCache) (now : UInt64) : ScanCacheWriter :=
  traverseSortedArrays compareHashDigests (fun writer record => writer.saveRecord ⟨record, now⟩) ScanRecord.key
    (saveFrozen now)
    (fun entry => entry.1.record.key) (sortRecords self.table.flatten) self.frozenEntries .init

def savedEntries (self : ScanCache) (now : UInt64) : List FrozenRecord :=
  (visited compareHashDigests ScanRecord.key (fun entry : FrozenRecord × Bool => entry.1.record.key)
    (sortRecords self.table.flatten)
    self.frozenEntries).filterMap (savedEntry now)

theorem savedWriter_eq (self : ScanCache) (now : UInt64) :
    self.savedWriter now = (self.savedEntries now).foldl ScanCacheWriter.saveRecord .init := by
  rw [savedWriter, traverseSortedArrays_eq_foldl, foldl_savedEntry]
  rfl

theorem save_eq_flush (h : self.TableInv) : self.save now = (self.savedWriter now).flush := by
  rw [save, if_neg (not_not.mpr h.count.symm)]
  rfl

theorem sortRecords_pairwise (h : Chained self.table) :
    (sortRecords self.table.flatten).Pairwise fun a b => a.key < b.key := by
  have hle := List.pairwise_insertionSort (fun l r : ScanRecord => l.key ≤ r.key) self.table.flatten
  have hperm := List.perm_insertionSort (fun l r : ScanRecord => l.key ≤ r.key) self.table.flatten
  have hne : (sortRecords self.table.flatten).Pairwise fun a b => a.key ≠ b.key :=
    List.pairwise_map.mp ((hperm.map _).nodup_iff.mpr h.distinct)
  exact (hle.and hne).imp fun hlt => lt_of_le_of_ne hlt.1 hlt.2

theorem frozenEntries_pairwise (h : Session frozenData self)
    (hsorted : (frozenData.getD []).Pairwise fun a b => a.record.key < b.record.key) :
    self.frozenEntries.Pairwise fun a b => a.1.record.key < b.1.record.key := by
  have hfirst : self.frozenEntries.map Prod.fst = frozenData.getD [] := by
    rw [frozenEntries, h.frozenData_eq, List.map_fst_zip (le_of_eq h.length_frozenAccess.symm)]
  rw [← hfirst, List.pairwise_map] at hsorted
  exact hsorted

/-- What is saved for an element of either array has the key of the element. -/
theorem key_of_savedEntry {item : ScanRecord ⊕ FrozenRecord × Bool} (h : savedEntry now item = some entry) :
    entry.record.key = visitKey ScanRecord.key (fun entry : FrozenRecord × Bool => entry.1.record.key) item := by
  cases item with
  | inl record =>
      cases h
      rfl
  | inr old =>
      simp only [savedEntry, Option.ite_none_right_eq_some, Option.some.injEq] at h
      obtain ⟨-, rfl⟩ := h
      rfl

theorem savedEntries_pairwise (h : Session frozenData self)
    (hsorted : (frozenData.getD []).Pairwise fun a b => a.record.key < b.record.key) :
    (self.savedEntries now).Pairwise fun a b => a.record.key < b.record.key := by
  have hvisited := visited_pairwise compares_hashDigests (sortRecords_pairwise h.tableInv.chained)
    (frozenEntries_pairwise h hsorted)
  refine List.Pairwise.filterMap _ ?_ hvisited
  intro item item' hlt entry hentry entry' hentry'
  rw [key_of_savedEntry hentry, key_of_savedEntry hentry']
  exact hlt

/-- The entry is in the file that is saved at this time: it has a record of the session, or a frozen one that
was used lately. -/
def Keeps (self : ScanCache) (now : UInt64) (entry : FrozenRecord) : Prop :=
  (self.lookupDynamic entry.record.key = some entry.record ∧ entry.accessTime = now) ∨
    (self.lookupDynamic entry.record.key = none ∧ ∃ old accessed, (old, accessed) ∈ self.frozenEntries ∧
      entry.record = old.record ∧
      (accessed = true ∧ entry.accessTime = now ∨
        accessed = false ∧ entry.accessTime = old.accessTime ∧ old.accessTime > now - 60 * 60 * 24 * 7))

theorem mem_savedEntries_iff (h : Session frozenData self)
    (hsorted : (frozenData.getD []).Pairwise fun a b => a.record.key < b.record.key) (hnow : 60 * 60 * 24 * 7 ≤ now) :
    entry ∈ self.savedEntries now ↔ self.Keeps now entry := by
  have hrecent : now > now - 60 * 60 * 24 * 7 := by
    rw [gt_iff_lt, UInt64.lt_iff_toNat_lt, UInt64.toNat_sub_of_le _ _ hnow]
    have hweek : (60 * 60 * 24 * 7 : UInt64).toNat = 604800 := by decide
    rw [UInt64.le_iff_toNat_le, hweek] at hnow
    omega
  have hdynamic : ∀ record, .inl record ∈
    visited compareHashDigests ScanRecord.key (fun entry : FrozenRecord × Bool => entry.1.record.key)
      (sortRecords self.table.flatten) self.frozenEntries ↔ self.lookupDynamic record.key = some record := by
    intro record
    rw [inl_mem_visited, sortRecords, List.mem_insertionSort, lookupDynamic_eq_some_iff h.tableInv.chained,
      and_iff_left rfl]
  have hfrozen : ∀ old, .inr old ∈
    visited compareHashDigests ScanRecord.key (fun entry : FrozenRecord × Bool => entry.1.record.key)
      (sortRecords self.table.flatten) self.frozenEntries ↔ old ∈ self.frozenEntries ∧
        self.lookupDynamic old.1.record.key = none := by
    intro old
    rw [inr_mem_visited compares_hashDigests (sortRecords_pairwise h.tableInv.chained)
      (frozenEntries_pairwise h hsorted),
      lookupDynamic_eq_none_iff h.tableInv.chained]
    simp only [sortRecords, List.mem_insertionSort]
  rw [savedEntries, List.mem_filterMap]
  constructor
  · rintro ⟨record | ⟨old, accessed⟩, hitem, hsaved⟩
    · cases hsaved
      exact .inl ⟨(hdynamic record).mp hitem, rfl⟩
    · obtain ⟨hmem, hnone⟩ := (hfrozen _).mp hitem
      simp only [savedEntry, Option.ite_none_right_eq_some, Option.some.injEq] at hsaved
      obtain ⟨hkept, rfl⟩ := hsaved
      refine .inr ⟨hnone, old, accessed, hmem, rfl, ?_⟩
      cases accessed with
      | true => exact .inl ⟨rfl, rfl⟩
      | false => exact .inr ⟨rfl, rfl, hkept⟩
  · rintro (⟨hfound, htime⟩ | ⟨hnone, old, accessed, hmem, hrecord, htime⟩)
    · refine ⟨.inl entry.record, (hdynamic _).mpr hfound, ?_⟩
      rw [savedEntry, ← htime]
    · rw [hrecord] at hnone
      refine ⟨.inr (old, accessed), (hfrozen _).mpr ⟨hmem, hnone⟩, ?_⟩
      rcases htime with ⟨rfl, htime⟩ | ⟨rfl, htime, hkept⟩
      · cases entry
        simp_all [savedEntry]
      · cases entry
        simp_all [savedEntry]

/-- Saving merges the records of the session with the frozen ones that were used lately, and loading gives the
result of the merge. -/
theorem save_merges (h : Session frozenData self)
    (hsorted : (frozenData.getD []).Pairwise fun a b => a.record.key < b.record.key)
    (hhash : ∀ entry ∈ frozenData.getD [], NamesHashed entry.record) (hnow : 60 * 60 * 24 * 7 ≤ now) :
    self.save now = (self.savedWriter now).flush ∧ ∀ image, self.save now = some image → ∃ entries,
      loadScanData image = some entries ∧ entries.Pairwise (fun a b => a.record.key < b.record.key) ∧
      (readInt32 image 4).map Int32.toInt = some (entries.length : Int) ∧
      (self.savedWriter now).segs.size ScanCacheWriter.digestSeg = 16 * entries.length ∧
      (self.savedWriter now).segs.size ScanCacheWriter.dataSeg = 16 * entries.length ∧
      (self.savedWriter now).segs.size ScanCacheWriter.timestampSeg = 8 * entries.length ∧
      ∀ entry, entry ∈ entries ↔ self.Keeps now entry := by
  refine ⟨save_eq_flush h.tableInv, fun image hsave => ?_⟩
  have hhashed : ∀ entry ∈ self.savedEntries now, ScanCacheWriter.Hashed entry := by
    intro entry hentry file hfile
    have hrecord : entry.record ∈ self.records := by
      rcases (mem_savedEntries_iff h hsorted hnow).mp hentry with ⟨hfound, -⟩ | ⟨-, old, accessed, hmem, hrecord, -⟩
      · exact List.mem_append_right _ (lookupDynamic_mem hfound).1
      · rw [hrecord]
        exact List.mem_append_left _ (List.mem_map_of_mem (List.of_mem_zip hmem).1)
    rw [h.namesHashed hhash _ hrecord file hfile]
    exact djb2HashPath_ne_zero _
  rw [save_eq_flush h.tableInv, savedWriter_eq] at hsave
  obtain ⟨hcount, hload⟩ := ScanCacheWriter.load_flush_scan hhashed hsave
  have hsteps := steps_foldl ScanCacheWriter.saveRecord (self.savedEntries now) .init
  have hwrites := ScanCacheWriter.writes_saveRecord hhashed
  have hsize : ∀ k, k < ScanCacheWriter.arraySeg → (self.savedWriter now).segs.size k =
      (if k = ScanCacheWriter.digestSeg then 16 else if k = ScanCacheWriter.dataSeg then 16
        else if k = ScanCacheWriter.timestampSeg then 8 else 0) * (self.savedEntries now).length := by
    intro k hk
    rw [savedWriter_eq, hwrites.steps_size (ScanCacheWriter.adds_saveRecord hhashed hk) hsteps
      ScanCacheWriter.good_init]
    exact Nat.zero_add _
  refine ⟨_, hload, savedEntries_pairwise h hsorted, hcount, ?_, ?_, ?_,
    fun entry => mem_savedEntries_iff h hsorted hnow⟩
  · exact hsize ScanCacheWriter.digestSeg (by decide)
  · exact hsize ScanCacheWriter.dataSeg (by decide)
  · exact hsize ScanCacheWriter.timestampSeg (by decide)

/-- Two frozen entries that were last used long ago. -/
def staleEntries : List FrozenRecord :=
  [⟨⟨⟨1, 0⟩, 5, [⟨.lit "a.h", djb2HashPath (.lit "a.h")⟩]⟩, 10⟩, ⟨⟨⟨1, 1⟩, 6, []⟩, 20⟩]

/-- The first one is used again, and there is a record of the session. -/
def staleCache : ScanCache := (⟨some staleEntries, [true, false], [], 0⟩ : ScanCache).insert ⟨2, 0⟩ 7
    [.lit "b.h", .lit "a.h"]

theorem session_staleCache : Session (some staleEntries) staleCache := (Session.frozen [true, false] rfl).insert _ _ _

theorem save_merges_stale : ∃ image entries, staleCache.save 1000000 = some image ∧ loadScanData image = some entries ∧
    entries.Pairwise (fun a b => a.record.key < b.record.key) ∧ ∀ entry, entry ∈ entries ↔
    staleCache.Keeps 1000000 entry := by
  have hsave : (staleCache.save 1000000).isSome := by decide +kernel
  obtain ⟨image, himage⟩ := Option.isSome_iff_exists.mp hsave
  obtain ⟨entries, hload, hpairwise, -, -, -, -, hkeeps⟩ := (save_merges session_staleCache (by decide +kernel) (by
    intro entry hentry file hfile
    simp only [Option.getD_some, staleEntries, List.mem_cons, List.not_mem_nil, or_false] at hentry
    rcases hentry with rfl | rfl
    · rw [List.mem_singleton.mp hfile]
    · cases hfile) (by decide +kernel)).2 image himage
  exact ⟨image, entries, himage, hload, hpairwise, hkeeps⟩

end Merge

end ScanCache

end Tundra
