import Tundra.Scanner.Implicit
import Tundra.Scanner.CacheFile

/-!
# Scans through one cache

Any sequence of scans, saves and loads through one scan cache, within a build and across builds. With one file
system the cache changes nothing. When the file system changes, a record is only as good as the places at which
its file's headers were looked for: the key of a record has the file's name and timestamp, and neither changes
when a header appears or disappears.
-/

namespace Tundra

/-- A cache and a cache file after these scans, each with the file system it was made on, the last one first.
Between the scans the cache may have been saved, at any time, and loaded from the file. -/
inductive ScanHistory (scanner : ScannerData) : List (FileSystem × CString) → ScanCache → Option (List UInt8) → Prop
  | start : ScanHistory scanner [] (.init none) none
  | scan {past cache file fs fn fuel found cache'} (h : ScanHistory scanner past cache file)
      (hscan : scanImplicitDeps fs scanner fuel fn cache = .returned found cache') :
        ScanHistory scanner ((fs, fn) :: past) cache' file
  | save {past cache file image} (now : UInt64) (h : ScanHistory scanner past cache file)
      (hsave : cache.save now = some image) :
      ScanHistory scanner past cache.afterSave (some image)
  | saveFails {past cache file} (now : UInt64) (h : ScanHistory scanner past cache file)
      (hsave : cache.save now = none) :
      ScanHistory scanner past cache.afterSave file
  | load {past cache file} (h : ScanHistory scanner past cache file) : ScanHistory scanner past
      (.init (file.bind loadScanData)) file

variable {fs : FileSystem} {scanner : ScannerData} {past : List (FileSystem × CString)} {cache : ScanCache}
  {file : Option (List UInt8)}
  {fn root : CString}

/-- What every scan keeps for the records of a cache holds for all caches and files. -/
theorem ScanHistory.inv {P : ScanRecord → Prop}
    (hhash : ∀ record, P record → ∀ file ∈ record.includes, file.filenameHash ≠ 0)
    (h : ScanHistory scanner past cache file)
    (hscan : ∀ fs fn fuel cache found cache', (fs, fn) ∈ past → (∀ record ∈ cache.records, P record) →
    scanImplicitDeps fs scanner fuel fn cache = .returned found cache' → ∀ record ∈ cache'.records, P record) :
    (∀ record ∈ cache.records, P record) ∧
      ∀ image ∈ file, ∀ entries, loadScanData image = some entries → ∀ entry ∈ entries, P entry.record := by
  have hafter : ∀ (cache : ScanCache), (∀ record ∈ cache.records, P record) →
    ∀ record ∈ cache.afterSave.records, P record :=
    fun cache hcache record hmem => hcache record (List.mem_append_right _ hmem)
  induction h with
  | start =>
      refine ⟨fun record hmem => ?_, fun image hmem => ?_⟩
      · cases hmem
      · cases hmem
  | scan h hreturned ih =>
      obtain ⟨hcache, hfile⟩ := ih
        fun fs fn fuel cache found cache' hmem => hscan fs fn fuel cache found cache' (List.mem_cons_of_mem _ hmem)
      exact ⟨hscan _ _ _ _ _ _ List.mem_cons_self hcache hreturned, hfile⟩
  | save now h hsave ih =>
      obtain ⟨hcache, -⟩ := ih hscan
      refine ⟨hafter _ hcache, fun image hmem entries hload entry hentry => ?_⟩
      obtain ⟨saved, hsaved, hrecords⟩ :=
        ScanCache.load_save (fun record hmem => hhash record (hcache record hmem)) hsave
      obtain rfl := Option.some.inj hmem
      obtain rfl := Option.some.inj (hsaved.symm.trans hload)
      exact hcache _ (hrecords entry hentry)
  | saveFails now h hsave ih =>
      obtain ⟨hcache, hfile⟩ := ih hscan
      exact ⟨hafter _ hcache, hfile⟩
  | @load past cache file h ih =>
      obtain ⟨-, hfile⟩ := ih hscan
      refine ⟨fun record hmem => ?_, hfile⟩
      obtain ⟨image, himage, entries, hentries, entry, hentry, rfl⟩ := ScanCache.mem_records_init hmem
      exact hfile image himage entries hentries entry hentry

theorem ScanRecord.Bounded.hash_ne_zero {record : ScanRecord} (h : record.Bounded) :
    ∀ file ∈ record.includes, file.filenameHash ≠ 0 := by
  obtain ⟨found, hfound, -⟩ := h
  intro file hmem
  rw [hfound] at hmem
  obtain ⟨path, -, rfl⟩ := List.mem_map.mp hmem
  exact djb2HashPath_ne_zero path

/-- Every record that a scan adds is what it found for an existing file. -/
theorem scanLoop_records {P : ScanRecord → Prop}
    (hnew : ∀ fn found, (fs.info fn).exists = true → includesOf fs scanner fn = some found →
      P (ScanCache.newRecord (scanKey scanner fn) (fs.info fn).timestamp found)) (fuel : Nat) :
    ∀ (s : IncludeSearch) (cache : ScanCache), (∀ record ∈ cache.records, P record) → ∀ found cache',
      scanLoop fs scanner fuel s cache = .returned found cache' → ∀ record ∈ cache'.records, P record := by
  induction fuel with
  | zero => exact fun s cache _ found cache' h => by cases h
  | succ fuel ih =>
      intro s cache hcache found cache' h
      rw [scanLoop] at h
      cases hstack : s.filenameStack with
      | nil =>
          simp only [hstack] at h
          cases h
          exact hcache
      | cons fn stack =>
          simp only [hstack] at h
          cases hincluded : includedFiles fs scanner cache fn with
          | none => simp [hincluded] at h
          | some result =>
              obtain ⟨included, kept⟩ := result
              simp only [hincluded] at h
              refine ih _ kept (fun record hmem => ?_) found cache' h
              rcases includedFiles_cases hincluded with ⟨hrecords, -⟩ | ⟨found, hfound, -, hrecords⟩
              · exact hcache record (hrecords ▸ hmem)
              · rcases hrecords record hmem with hold | ⟨hexists, rfl⟩
                · exact hcache record hold
                · exact hnew fn found hexists hfound

theorem ScanHistory.bounded (h : ScanHistory scanner past cache file) : cache.Bounded := by
  refine (h.inv (fun record hrecord => hrecord.hash_ne_zero)
    fun fs fn fuel cache found cache' _ hcache hreturned => ?_).1
  exact scanLoop_records (fun fn found _ hfound => ⟨found, rfl, includesOf_length hfound⟩) fuel _ cache hcache found
    cache' hreturned

theorem ScanHistory.ends (h : ScanHistory scanner past cache file) (fs : FileSystem) (fn : CString) :
    ∃ bound, ∀ fuel > bound, scanImplicitDeps fs scanner fuel fn cache ≠ .outOfFuel := by
  refine ⟨finite_paths.toFinset.card + 1, fun fuel hfuel hout => ?_⟩
  rcases scanLoop_ends fuel ⟨[], [fn]⟩ cache h.bounded List.nodup_nil (fun g hg => by cases hg)
    (by simp only [List.length_singleton, List.length_nil]; omega) with hcroaked | ⟨seen, cache', hreturned, -⟩
  · cases hcroaked.symm.trans hout
  · cases hreturned.symm.trans hout

/-- With a cache that is sound for the files that can be reached, a scan ends as it does with an empty cache. -/
theorem files_eq_of_cacheSound {files : Set CString} (hclosed : Closed fs scanner files)
    (hkeys : KeysApart fs scanner files) (hfn : fn ∈ files) (hsound : CacheSound fs scanner files cache)
    (fuel : Nat) :
    (scanImplicitDeps fs scanner fuel fn cache).files = (scanImplicitDeps fs scanner fuel fn (.init none)).files := by
  have hstack : ∀ f ∈ [fn], f ∈ files := fun f hf => List.mem_singleton.mp hf ▸ hfn
  have hcached := (scanLoop_eq hclosed hkeys fuel ⟨.init, [fn]⟩ cache hsound hstack).1
  have hempty := (scanLoop_eq hclosed hkeys fuel ⟨.init, [fn]⟩ (.init none) (cacheSound_init files) hstack).1
  exact hcached.trans hempty.symm

/-! ### One file system -/

/-- The files that scans of these files can meet. -/
def involved (fs : FileSystem) (scanner : ScannerData) (roots : Set CString) : Set CString :=
  {f | ∃ root ∈ roots, f ∈ reachable fs scanner root}

theorem closed_involved (roots : Set CString) : Closed fs scanner (involved fs scanner roots) := by
  rintro f ⟨root, hroot, hf⟩ found hfound g hg
  exact ⟨root, hroot, closed_reachable f hf found hfound g hg⟩

/-- Every record that is left by scans on one file system whose files have keys of their own is what a scan
would make now. -/
theorem ScanHistory.cacheSound {roots : Set CString} (h : ScanHistory scanner past cache file)
    (hfs : ∀ scan ∈ past, scan.1 = fs ∧ scan.2 ∈ roots) (hkeys : KeysApart fs scanner (involved fs scanner roots)) :
    CacheSound fs scanner (involved fs scanner roots) cache := by
  have hinv := h.inv (P := fun record => record.Bounded ∧ ∀ f ∈ involved fs scanner roots, (fs.info f).exists = true →
    record.key = scanKey scanner f → record.fileTimestamp = (fs.info f).timestamp → RecordOf fs scanner f record)
    (fun record hrecord => hrecord.1.hash_ne_zero) ?_
  · exact fun record hmem => (hinv.1 record hmem).2
  · intro fs' f fuel cache found cache' hmem hcache hreturned record hrecord
    obtain ⟨rfl, hf⟩ := hfs _ hmem
    have hbounded := scanLoop_records (fun fn found _ hfound => ⟨found, rfl, includesOf_length hfound⟩) fuel _ cache
      (fun record hmem => (hcache record hmem).1) found cache' hreturned
    have hstack : ∀ g ∈ [f], g ∈ involved fs' scanner roots := by
      intro g hg
      rw [List.mem_singleton.mp hg]
      exact ⟨f, hf, .refl⟩
    have hsound := (scanLoop_eq (closed_involved roots) hkeys fuel ⟨.init, [f]⟩ cache
      (fun record hmem => (hcache record hmem).2) hstack).2
      found cache' hreturned
    exact ⟨hbounded record hrecord, hsound record hrecord⟩

/-- Through such a cache a scan returns what it returns with an empty one. -/
theorem ScanHistory.files_eq (h : ScanHistory scanner past cache file) (hfs : ∀ scan ∈ past, scan.1 = fs)
    (hkeys : KeysApart fs scanner (involved fs scanner {f | f = fn ∨ ∃ scan ∈ past, scan.2 = f})) (fuel : Nat) :
    (scanImplicitDeps fs scanner fuel fn cache).files = (scanImplicitDeps fs scanner fuel fn (.init none)).files := by
  have hsound := h.cacheSound (fun scan hmem => ⟨hfs scan hmem, .inr ⟨scan, hmem, rfl⟩⟩) hkeys
  exact files_eq_of_cacheSound (closed_involved _) hkeys ⟨fn, .inl rfl, .refl⟩ hsound fuel

/-- On one file system whose files have keys of their own, the cache does not change what a scan returns, nor in
which order. -/
theorem scan_cache_transparent (h : ScanHistory scanner past cache file) (hfs : ∀ scan ∈ past, scan.1 = fs)
    (hkeys : KeysApart fs scanner (involved fs scanner {f | f = fn ∨ ∃ scan ∈ past, scan.2 = f})) :
    (∃ bound, ∀ fuel > bound, scanImplicitDeps fs scanner fuel fn cache ≠ .outOfFuel) ∧
      ∀ fuel, (scanImplicitDeps fs scanner fuel fn cache).files =
      (scanImplicitDeps fs scanner fuel fn (.init none)).files :=
  ⟨h.ends fs fn, h.files_eq hfs hkeys⟩

/-- A scan, a save and a load. -/
theorem scan_cache_transparent_cyclic : ∃ cache file, ScanHistory cppScanner [(cyclicHeaders, .lit "a")] cache file ∧
    ∀ fuel, (scanImplicitDeps cyclicHeaders cppScanner fuel (.lit "a") cache).files =
      (scanImplicitDeps cyclicHeaders cppScanner fuel (.lit "a") (.init none)).files := by
  obtain ⟨cache, file, hhistory⟩ : ∃ cache file, ScanHistory cppScanner [(cyclicHeaders, .lit "a")] cache file := by
    have hends : scanImplicitDeps cyclicHeaders cppScanner 4 (.lit "a") (.init none) ≠ .croaked ∧
        scanImplicitDeps cyclicHeaders cppScanner 4 (.lit "a") (.init none) ≠ .outOfFuel := by
      decide +kernel
    cases hscan : scanImplicitDeps cyclicHeaders cppScanner 4 (.lit "a") (.init none) with
    | croaked => exact absurd hscan hends.1
    | outOfFuel => exact absurd hscan hends.2
    | returned found cache =>
        have hscanned := ScanHistory.scan .start hscan
        cases hsave : cache.save 1000000 with
        | none => exact ⟨_, _, .load (.saveFails 1000000 hscanned hsave)⟩
        | some image => exact ⟨_, _, .load (.save 1000000 hscanned hsave)⟩
  refine ⟨cache, file, hhistory, (scan_cache_transparent hhistory (fun scan hscan => ?_) ?_).2⟩
  · rw [List.mem_singleton.mp hscan]
  · have hinvolved : ∀ f ∈ involved cyclicHeaders cppScanner
      {f | f = .lit "a" ∨ ∃ scan ∈ [(cyclicHeaders, CString.lit "a")], scan.2 = f},
        f ∈ reachable cyclicHeaders cppScanner (.lit "a") := by
      rintro f ⟨root, rfl | ⟨scan, hscan, rfl⟩, hreachable⟩
      · exact hreachable
      · rwa [List.mem_singleton.mp hscan] at hreachable
    exact fun f hf g hg => keysApart_cyclicHeaders f (hinvolved f hf) g (hinvolved g hg)

/-! ### A file system that changes -/

/-- The directives of a file lead to the same files in both file systems. -/
def SameHeaders (before fs : FileSystem) (scanner : ScannerData) (f : CString) : Prop :=
  ∀ data, fs.read f = .bytes data → ∀ inc ∈ scanner.scannerType.scan (fileText data),
    findFile before scanner.includePaths f inc = findFile fs scanner.includePaths f inc

/-- An earlier scan says nothing wrong about a file: no other file was there with this key and timestamp, and if
the file was there with this timestamp, its directives led to the same files. -/
def StillRight (before fs : FileSystem) (scanner : ScannerData) (f : CString) : Prop :=
  ∀ g, (before.info g).exists = true → (fs.info f).exists = true → scanKey scanner g = scanKey scanner f →
    (before.info g).timestamp = (fs.info f).timestamp → g = f ∧ SameHeaders before fs scanner f

/-- The timestamp of a file tells a change of its contents. -/
def TimestampsTell (before fs : FileSystem) : Prop :=
  ∀ f, (before.info f).exists = true → (fs.info f).exists = true → (before.info f).timestamp = (fs.info f).timestamp →
    before.read f = fs.read f

/-- A record is what an earlier scan found for a file. -/
def RecordFrom (scanner : ScannerData) (past : List (FileSystem × CString)) (record : ScanRecord) : Prop :=
  ∃ scan ∈ past, ∃ g found, (scan.1.info g).exists = true ∧ includesOf scan.1 scanner g = some found ∧
    record = ScanCache.newRecord (scanKey scanner g) (scan.1.info g).timestamp found

theorem includesOf_congr {before : FileSystem} {f : CString} (hbefore : (before.info f).exists = true)
    (hnow : (fs.info f).exists = true) (hread : before.read f = fs.read f) (hsame : SameHeaders before fs scanner f) :
    includesOf before scanner f = includesOf fs scanner f := by
  unfold includesOf
  rw [if_pos hbefore, if_pos hnow, hread]
  cases hdata : fs.read f with
  | cannotOpen => rfl
  | readFails => rfl
  | bytes data =>
      cases data with
      | nil => rfl
      | cons b data =>
          simp only [scanFile]
          rw [Bytes.mapM_congr (hsame _ hdata)]

theorem ScanHistory.recordFrom (h : ScanHistory scanner past cache file) :
    ∀ record ∈ cache.records, RecordFrom scanner past record := by
  refine (h.inv (fun record hrecord => ?_) fun fs fn fuel cache found cache' hmem hcache hreturned => ?_).1
  · obtain ⟨_, -, g, found, -, hfound, rfl⟩ := hrecord
    exact ScanRecord.Bounded.hash_ne_zero ⟨found, rfl, includesOf_length hfound⟩
  · exact scanLoop_records (fun g found hexists hfound => ⟨_, hmem, g, found, hexists, hfound, rfl⟩) fuel _ cache
      hcache found cache' hreturned

/-- A scan through a cache returns what it would return with an empty cache if the timestamps tell changed
contents and every earlier scan is still right about the files that can be reached. -/
theorem scan_cache_valid (h : ScanHistory scanner past cache file) (htimes : ∀ scan ∈ past, TimestampsTell scan.1 fs)
    (hkeys : KeysApart fs scanner (reachable fs scanner fn))
    (hright : ∀ scan ∈ past, ∀ f ∈ reachable fs scanner fn, StillRight scan.1 fs scanner f) :
    (∃ bound, ∀ fuel > bound, scanImplicitDeps fs scanner fuel fn cache ≠ .outOfFuel) ∧
      ∀ fuel, (scanImplicitDeps fs scanner fuel fn cache).files =
      (scanImplicitDeps fs scanner fuel fn (.init none)).files := by
  refine ⟨h.ends fs fn, fun fuel => files_eq_of_cacheSound closed_reachable hkeys .refl ?_ fuel⟩
  intro record hmem f hf hexists hkey htime
  obtain ⟨scan, hscan, g, found, hgexists, hfound, rfl⟩ := h.recordFrom record hmem
  obtain ⟨rfl, hsame⟩ := hright scan hscan f hf g hgexists hexists hkey htime
  refine ⟨found, ?_, rfl⟩
  rw [← includesOf_congr hgexists hexists (htimes scan hscan g hgexists hexists htime) hsame]
  exact hfound

def cacheAfter (fs : FileSystem) (scanner : ScannerData) (fuel : Nat) (fn : CString) (cache : ScanCache) : ScanCache :=
  match scanImplicitDeps fs scanner fuel fn cache with
  | .returned _ cache => cache
  | .croaked | .outOfFuel => cache

/-- A file whose header does not exist yet. -/
def headerMissing : FileSystem := .ofFiles [("a", "#include \"h\"")]

def headerCreated : FileSystem := .ofFiles [("a", "#include \"h\""), ("h", " ")]

def otherCreated : FileSystem := .ofFiles [("a", "#include \"h\""), ("h", " "), ("z", " ")]

theorem eq_of_exists_headerCreated {f : CString} (h : (headerCreated.info f).exists = true) :
    f = .lit "a" ∨ f = .lit "h" := by
  by_contra hne
  rw [not_or] at hne
  simp [headerCreated, FileSystem.info, FileSystem.ofFiles, Ne.symm hne.1, Ne.symm hne.2, getFileInfo,
    FileInfo.exists] at h

theorem reachable_otherCreated : reachable otherCreated cppScanner (.lit "a") ⊆ {.lit "a", .lit "h"} := by
  have hincludes : includesOf otherCreated cppScanner (.lit "a") = some [.lit "h"] ∧
    includesOf otherCreated cppScanner (.lit "h") = some [] := by
    decide +kernel
  refine reachable_subset (.inl rfl) fun f hf g hedge => ?_
  rcases hf with rfl | rfl
  · rw [← mem_includesOf hincludes.1, List.mem_singleton] at hedge
    exact .inr hedge
  · rw [← mem_includesOf hincludes.2] at hedge
    cases hedge

/-- The keys of the two files differ, and their contents and the files their directives lead to stay. -/
theorem otherCreated_facts : scanKey cppScanner (.lit "a") ≠ scanKey cppScanner (.lit "h") ∧
    ∀ file ∈ [("a", "#include \"h\""), ("h", " ")], headerCreated.read (.lit file.1) = .bytes
    (CString.lit file.2).bytes ∧
      otherCreated.read (.lit file.1) = .bytes (CString.lit file.2).bytes ∧
      ∀ inc ∈ scanIncludesCpp (fileText (CString.lit file.2).bytes),
        findFile headerCreated [] (.lit file.1) inc = findFile otherCreated [] (.lit file.1) inc := by
  decide +kernel

theorem eq_of_scanKey {f g : CString} (hf : f = .lit "a" ∨ f = .lit "h") (hg : g = .lit "a" ∨ g = .lit "h")
    (hkey : scanKey cppScanner f = scanKey cppScanner g) : f = g := by
  have hne := otherCreated_facts.1
  rcases hf with rfl | rfl <;> rcases hg with rfl | rfl
  · rfl
  · exact absurd hkey hne
  · exact absurd hkey.symm hne
  · rfl

theorem scan_cache_valid_created : ∃ cache, ScanHistory cppScanner [(headerCreated, .lit "a")] cache none ∧
    ∀ fuel, (scanImplicitDeps otherCreated cppScanner fuel (.lit "a") cache).files =
      (scanImplicitDeps otherCreated cppScanner fuel (.lit "a") (.init none)).files := by
  have hscan : scanImplicitDeps headerCreated cppScanner 3 (.lit "a") (.init none) =
      .returned [.ofPath (.lit "h")] (cacheAfter headerCreated cppScanner 3 (.lit "a") (.init none)) := by
    decide +kernel
  have hhistory := ScanHistory.scan .start hscan
  have hfile : ∀ f : CString, f = .lit "a" ∨ f = .lit "h" →
    ∃ file ∈ [("a", "#include \"h\""), ("h", " ")], f = .lit file.1 := by
    rintro f (rfl | rfl)
    · exact ⟨_, List.mem_cons_self, rfl⟩
    · exact ⟨_, List.mem_cons_of_mem _ List.mem_cons_self, rfl⟩
  refine ⟨_, hhistory, (scan_cache_valid hhistory (fun scan hmem => ?_) (fun f hf g hg _ _ hkey _ => ?_)
    (fun scan hmem f hf => ?_)).2⟩
  · rw [List.mem_singleton.mp hmem]
    intro f hbefore _ _
    obtain ⟨file, hfile, rfl⟩ := hfile f (eq_of_exists_headerCreated hbefore)
    rw [(otherCreated_facts.2 file hfile).1, (otherCreated_facts.2 file hfile).2.1]
  · exact eq_of_scanKey (reachable_otherCreated hf) (reachable_otherCreated hg) hkey
  · rw [List.mem_singleton.mp hmem]
    intro g hbefore _ hkey _
    refine ⟨eq_of_scanKey (eq_of_exists_headerCreated hbefore) (reachable_otherCreated hf) hkey,
      fun data hread inc hinc => ?_⟩
    obtain ⟨file, hfile, rfl⟩ := hfile f (reachable_otherCreated hf)
    obtain ⟨-, hnow, hsame⟩ := otherCreated_facts.2 file hfile
    rw [hnow, FileRead.bytes.injEq] at hread
    exact hsame inc (hread ▸ hinc)

/-- A header that is created after its file was scanned is missed. -/
theorem scan_cache_outdated : ∃ cache, ScanHistory cppScanner [(headerMissing, .lit "a")] cache none ∧
    TimestampsTell headerMissing headerCreated ∧
    (scanImplicitDeps headerCreated cppScanner 3 (.lit "a") cache).files.toOption = some [] ∧
    (scanImplicitDeps headerCreated cppScanner 3 (.lit "a") (.init none)).files.toOption = some
    [.ofPath (.lit "h")] := by
  refine ⟨cacheAfter headerMissing cppScanner 3 (.lit "a") (.init none), ?_, ?_, by decide +kernel, by decide +kernel⟩
  · have hscan : scanImplicitDeps headerMissing cppScanner 3 (.lit "a") (.init none) =
        .returned [] (cacheAfter headerMissing cppScanner 3 (.lit "a") (.init none)) := by
      decide +kernel
    exact .scan .start hscan
  · intro f hbefore _ _
    by_cases hf : f = .lit "a"
    · subst hf
      decide +kernel
    · have hmissing : (headerMissing.info f).exists = false := by
        simp [headerMissing, FileSystem.info, FileSystem.ofFiles, Ne.symm hf, getFileInfo, FileInfo.exists]
      rw [hmissing] at hbefore
      cases hbefore

end Tundra
