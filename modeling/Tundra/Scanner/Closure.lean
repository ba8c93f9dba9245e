import Tundra.Scanner.Scan
import Tundra.Lib.Worklist
import Tundra.Lib.Bytes
import Mathlib.Data.Set.Finite.List

/-!
# The files a file includes

What a scan is for: the files that can be reached from a file by include directives. Without the cache the loop
of `ScanImplicitDeps` is a worklist search whose set of seen files is the hash set. A cache whose records say
what a scan of the files would find now does not change anything.
-/

namespace Tundra

/-- The files a file includes, as a scan without cache finds them. -/
def includesOf (fs : FileSystem) (scanner : ScannerData) (fn : CString) : Option (List CString) :=
  if (fs.info fn).exists then
    match fs.read fn with
    | .cannotOpen | .readFails | .bytes [] => some []
    | .bytes data => scanFile fs scanner fn data
  else some []

/-- The loop of `ScanImplicitDeps` without the cache. -/
def searchLoop (fs : FileSystem) (scanner : ScannerData) : Nat → IncludeSearch → Except Bool (List FileAndHash)
  | 0, _ => .error false
  | fuel + 1, s =>
      match s.filenameStack with
      | [] => .ok (walkFiles s.incset)
      | fn :: stack =>
          match includesOf fs scanner fn with
          | none => .error true
          | some found =>
              searchLoop fs scanner fuel ((found.map FileAndHash.ofPath).foldl IncludeSearch.addFile ⟨s.incset, stack⟩)

/-- The key of a file in the cache. -/
def scanKey (scanner : ScannerData) (fn : CString) : HashDigest := computeScanCacheKey fn scanner.scannerGuid

/-- A record is what a scan of the file would make now. -/
def RecordOf (fs : FileSystem) (scanner : ScannerData) (fn : CString) (record : ScanRecord) : Prop :=
  ∃ found, includesOf fs scanner fn = some found ∧ record.includes = found.map FileAndHash.ofPath

/-- Every record that a lookup for one of these files can find is what a scan of the file would make now. -/
def CacheSound (fs : FileSystem) (scanner : ScannerData) (files : Set CString) (cache : ScanCache) : Prop :=
  ∀ record ∈ cache.records, ∀ fn ∈ files, (fs.info fn).exists = true → record.key = scanKey scanner fn →
    record.fileTimestamp = (fs.info fn).timestamp → RecordOf fs scanner fn record

/-- A set of files with everything they include. -/
def Closed (fs : FileSystem) (scanner : ScannerData) (files : Set CString) : Prop :=
  ∀ fn ∈ files, ∀ found, includesOf fs scanner fn = some found → ∀ file ∈ found, file ∈ files

/-- No two of these files that exist with the same timestamp have the same key. -/
def KeysApart (fs : FileSystem) (scanner : ScannerData) (files : Set CString) : Prop :=
  ∀ f ∈ files, ∀ g ∈ files, (fs.info f).exists = true → (fs.info g).exists = true →
    scanKey scanner f = scanKey scanner g →
    (fs.info f).timestamp = (fs.info g).timestamp → f = g

variable {fs : FileSystem} {scanner : ScannerData} {files : Set CString} {cache : ScanCache} {fn root : CString}

/-- What can come of one turn of the loop: the list of a record for this file, or what a scan finds, which may
get into the cache. -/
theorem includedFiles_cases {included : List FileAndHash} {cache' : ScanCache}
    (h : includedFiles fs scanner cache fn = some (included, cache')) :
    (cache'.records = cache.records ∧ (fs.info fn).exists = true ∧
    ∃ record ∈ cache.records, record.key = scanKey scanner fn ∧
      record.fileTimestamp = (fs.info fn).timestamp ∧ record.includes = included) ∨
    ∃ found, includesOf fs scanner fn = some found ∧ included = found.map FileAndHash.ofPath ∧
    ∀ record ∈ cache'.records,
      record ∈ cache.records ∨
        (fs.info fn).exists = true ∧ record = ScanCache.newRecord (scanKey scanner fn)
        (fs.info fn).timestamp found := by
  cases hexists : (fs.info fn).exists with
  | false =>
      simp only [includedFiles, hexists, Bool.false_eq_true, not_false_eq_true, if_true, Option.some.injEq,
        Prod.mk.injEq] at h
      obtain ⟨rfl, rfl⟩ := h
      exact .inr ⟨[], by simp [includesOf, hexists], rfl, fun record hmem => .inl hmem⟩
  | true =>
      obtain ⟨hrecords, hfiles⟩ := cache.lookup_spec (scanKey scanner fn) (fs.info fn).timestamp
      simp only [includedFiles, hexists, not_true_eq_false, if_false,
        show computeScanCacheKey fn scanner.scannerGuid = scanKey scanner fn from rfl] at h
      generalize cache.lookup (scanKey scanner fn) (fs.info fn).timestamp = result at h hrecords hfiles
      obtain ⟨hit, kept⟩ := result
      cases hit with
      | some cached =>
          cases h
          exact .inl ⟨hrecords, rfl, hfiles included rfl⟩
      | none =>
          have hkept : ∀ record ∈ kept.records, record ∈ cache.records := fun record hmem => hrecords ▸ hmem
          have hinsert : ∀ found, ∀ record ∈ (kept.insert (scanKey scanner fn) (fs.info fn).timestamp found).records,
              record ∈ cache.records ∨ true = true ∧
                record = ScanCache.newRecord (scanKey scanner fn) (fs.info fn).timestamp found := by
            intro found record hmem
            rcases ScanCache.mem_insert hmem with hnew | hold
            · exact .inr ⟨rfl, hnew⟩
            · exact .inl (hkept record hold)
          cases hread : fs.read fn with
          | cannotOpen =>
              simp only [hread, Option.some.injEq, Prod.mk.injEq] at h
              obtain ⟨rfl, rfl⟩ := h
              exact .inr ⟨[], by simp [includesOf, hread], rfl, fun record hmem => .inl (hkept record hmem)⟩
          | readFails =>
              simp only [hread, Option.some.injEq, Prod.mk.injEq] at h
              obtain ⟨rfl, rfl⟩ := h
              exact .inr ⟨[], by simp [includesOf, hread], rfl, hinsert []⟩
          | bytes data =>
              cases data with
              | nil =>
                  simp only [hread, Option.some.injEq, Prod.mk.injEq] at h
                  obtain ⟨rfl, rfl⟩ := h
                  exact .inr ⟨[], by simp [includesOf, hread], rfl, fun record hmem => .inl (hkept record hmem)⟩
              | cons b data =>
                  simp only [hread, Option.map_eq_some_iff, Prod.mk.injEq] at h
                  obtain ⟨found, hfound, rfl, rfl⟩ := h
                  exact .inr ⟨found, by simp [includesOf, hexists, hread, hfound], rfl, hinsert found⟩

/-- The program ends on a path only where a scan without cache does. -/
theorem includesOf_eq_none (h : includedFiles fs scanner cache fn = none) : includesOf fs scanner fn = none := by
  unfold includedFiles at h
  unfold includesOf
  cases hexists : (fs.info fn).exists with
  | false => simp [hexists] at h
  | true =>
      simp only [hexists, not_true_eq_false, if_false] at h
      split at h
      · cases h
      · split at h
        · cases h
        · cases h
        · cases h
        · next data hdata hread =>
            simp only [if_true, hread]
            exact Option.map_eq_none_iff.mp h

/-- With a sound cache, a file's includes are what a scan without cache finds. -/
theorem includedFiles_eq (hsound : CacheSound fs scanner files cache) (hkeys : KeysApart fs scanner files)
    (hfn : fn ∈ files) :
    includedFiles fs scanner cache fn = none ∧ includesOf fs scanner fn = none ∨
    ∃ found cache', includedFiles fs scanner cache fn = some (found.map FileAndHash.ofPath, cache') ∧
      includesOf fs scanner fn = some found ∧ CacheSound fs scanner files cache' := by
  cases hincluded : includedFiles fs scanner cache fn with
  | none => exact .inl ⟨rfl, includesOf_eq_none hincluded⟩
  | some result =>
      obtain ⟨included, cache'⟩ := result
      refine .inr ?_
      rcases includedFiles_cases hincluded with ⟨hrecords, hexists, record, hmem, hkey, htime, rfl⟩ |
        ⟨found, hfound, rfl, hrecords⟩
      · obtain ⟨found, hfound, hrecord⟩ := hsound record hmem fn hfn hexists hkey htime
        refine ⟨found, cache', by rw [hrecord], hfound, fun record' hmem' => ?_⟩
        exact hsound record' (hrecords ▸ hmem')
      · refine ⟨found, cache', rfl, hfound, fun record hmem g hg hgexists hkey htime => ?_⟩
        rcases hrecords record hmem with hold | ⟨hexists, rfl⟩
        · exact hsound record hold g hg hgexists hkey htime
        · obtain rfl := hkeys fn hfn g hg hexists hgexists hkey htime
          exact ⟨found, hfound, rfl⟩

theorem mem_stack_addFiles (found : List FileAndHash) :
    ∀ s : IncludeSearch, ∀ fn ∈ (found.foldl IncludeSearch.addFile s).filenameStack,
    fn ∈ s.filenameStack ∨ ∃ file ∈ found, file.filename = fn := by
  induction found with
  | nil => exact fun s fn h => .inl h
  | cons file found ih =>
      intro s fn h
      rcases ih _ fn h with h | ⟨f, hf, rfl⟩
      · unfold IncludeSearch.addFile at h
        split at h
        · exact .inl h
        · rcases List.mem_cons.mp h with rfl | h
          · exact .inr ⟨file, List.mem_cons_self, rfl⟩
          · exact .inl h
      · exact .inr ⟨f, List.mem_cons_of_mem _ hf, rfl⟩

/-- With a sound cache, a scan ends as it does without cache, and leaves a sound cache. -/
theorem scanLoop_eq (hclosed : Closed fs scanner files) (hkeys : KeysApart fs scanner files) (fuel : Nat) :
    ∀ (s : IncludeSearch) (cache : ScanCache), CacheSound fs scanner files cache →
    (∀ fn ∈ s.filenameStack, fn ∈ files) →
      (scanLoop fs scanner fuel s cache).files = searchLoop fs scanner fuel s ∧
        ∀ found cache', scanLoop fs scanner fuel s cache = .returned found cache' →
        CacheSound fs scanner files cache' := by
  induction fuel with
  | zero => exact fun s cache _ _ => ⟨rfl, fun _ _ h => by cases h⟩
  | succ fuel ih =>
      intro s cache hsound hstack
      rw [scanLoop, searchLoop]
      cases hfiles : s.filenameStack with
      | nil =>
          refine ⟨rfl, fun found cache' h => ?_⟩
          cases h
          exact hsound
      | cons fn stack =>
          have hfn : fn ∈ files := hstack fn (hfiles ▸ List.mem_cons_self)
          rcases includedFiles_eq hsound hkeys hfn with ⟨hnone, hnone'⟩ | ⟨found, cache', hsome, hfound, hsound'⟩
          · simp only [hnone, hnone']
            exact ⟨rfl, fun _ _ h => by cases h⟩
          · simp only [hsome, hfound]
            refine ih _ cache' hsound' fun g hg => ?_
            rcases mem_stack_addFiles _ _ g hg with hg | ⟨file, hfile, rfl⟩
            · exact hstack g (hfiles ▸ List.mem_cons_of_mem _ hg)
            · obtain ⟨f, hf, rfl⟩ := List.mem_map.mp hfile
              exact hclosed fn hfn found hfound f hf

/-! ### The hash set as a list of files -/

/-- The hash set after these files were added, one after another. -/
def fileSet (seen : List CString) :
    HashTable Unit := seen.foldl (fun set file => set.insert (djb2HashPath file) file ()) .init

theorem fileSet_snoc (seen : List CString) (file : CString) :
    fileSet (seen ++ [file]) = (fileSet seen).insert (djb2HashPath file) file () := by
  simp [fileSet]

theorem fileSet_spec (seen : List CString) :
    (fileSet seen).Valid ∧ (fileSet seen).walk.Perm (seen.map fun file => ⟨djb2HashPath file, file, ()⟩) := by
  induction seen using List.reverseRecOn with
  | nil => exact ⟨HashTable.valid_init, .refl _⟩
  | append_singleton seen file ih =>
      obtain ⟨hvalid, hperm, -⟩ := ih.1.insert_spec (djb2HashPath_ne_zero file) file ()
      rw [fileSet_snoc, List.map_append]
      refine ⟨hvalid, hperm.trans ((ih.2.cons _).trans ?_)⟩
      exact (List.perm_append_singleton _ _).symm

theorem lookup_fileSet {seen : List CString} {file : CString} :
    (fileSet seen).lookup (djb2HashPath file) file = none ↔ file ∉ seen := by
  obtain ⟨hvalid, hperm⟩ := fileSet_spec seen
  rw [hvalid.lookup_eq_none]
  simp only [hperm.mem_iff, List.forall_mem_map]
  constructor
  · exact fun h hmem => h file hmem ⟨rfl, rfl⟩
  · rintro h f hf ⟨-, rfl⟩
    exact h hf

/-- The search with its set of files as a list. -/
def IncludeSearch.ofState (s : Worklist.State CString) : IncludeSearch := ⟨fileSet s.seen, s.stack⟩

theorem addFile_ofState (s : Worklist.State CString) (file : CString) :
    (IncludeSearch.ofState s).addFile (.ofPath file) = .ofState (s.add file) := by
  unfold IncludeSearch.addFile Worklist.State.add
  by_cases hseen : file ∈ s.seen
  · obtain ⟨found, hfound⟩ := Option.ne_none_iff_exists'.mp fun h => lookup_fileSet.mp h hseen
    simp only [IncludeSearch.ofState, FileAndHash.ofPath, hfound, if_pos hseen]
  · simp only [IncludeSearch.ofState, FileAndHash.ofPath, lookup_fileSet.mpr hseen, if_neg hseen, fileSet_snoc]

theorem addFiles_ofState (found : List CString) (s : Worklist.State CString) :
    (found.map FileAndHash.ofPath).foldl IncludeSearch.addFile (.ofState s) = .ofState (s.visit found) := by
  induction found generalizing s with
  | nil => rfl
  | cons file found ih =>
      rw [List.map_cons, List.foldl_cons, addFile_ofState, ih, Worklist.State.visit, Worklist.State.visit,
        List.foldl_cons]

/-- The files a file includes, if the program does not end on them. -/
def nextFiles (fs : FileSystem) (scanner : ScannerData) (fn : CString) :
    List CString := (includesOf fs scanner fn).getD []

/-- The list a scan returns when it has seen these files in this order. -/
def listing (seen : List CString) : List FileAndHash := walkFiles (fileSet seen)

theorem searchLoop_eq {next : CString → List CString} (hclosed : Closed fs scanner files)
    (hnext : ∀ fn ∈ files, includesOf fs scanner fn = some (next fn)) (fuel : Nat) :
    ∀ s : Worklist.State CString, (∀ fn ∈ s.stack, fn ∈ files) → ∀ seen, Worklist.run next fuel s = some seen →
      searchLoop fs scanner fuel (.ofState s) = .ok (listing seen) := by
  induction fuel with
  | zero => exact fun s _ seen h => by cases h
  | succ fuel ih =>
      intro s hstack seen hrun
      rw [Worklist.run] at hrun
      rw [searchLoop]
      simp only [IncludeSearch.ofState] at hrun ⊢
      cases hs : s.stack with
      | nil =>
          simp only [hs, Option.some.injEq] at hrun
          simp only [hrun, listing]
      | cons fn stack =>
          simp only [hs] at hrun
          have hfn : fn ∈ files := hstack fn (hs ▸ List.mem_cons_self)
          simp only [hnext fn hfn]
          have hadd := addFiles_ofState (next fn) ⟨s.seen, stack⟩
          simp only [IncludeSearch.ofState] at hadd ih
          rw [hadd]
          refine ih _ (fun g hg => ?_) seen hrun
          obtain ⟨new, hvisit, -, hnew, -⟩ := Worklist.visit_spec (next fn) ⟨s.seen, stack⟩
          rw [hvisit] at hg
          rcases List.mem_append.mp hg with hg | hg
          · exact hclosed fn hfn _ (hnext fn hfn) g (hnew g (List.mem_reverse.mp hg)).1
          · exact hstack g (hs ▸ List.mem_cons_of_mem _ hg)

/-! ### Include edges -/

/-- An include edge: the file exists, can be read and is not empty, and one of its directives resolves to the
other file. -/
def IncludeEdge (fs : FileSystem) (scanner : ScannerData) (f g : CString) : Prop :=
  (fs.info f).exists = true ∧ ∃ data, fs.read f = .bytes data ∧ data ≠ [] ∧
    ∃ inc ∈ scanner.scannerType.scan (fileText data), findFile fs scanner.includePaths f inc = some (some g)

/-- All paths that are tried for the directives of a file fit into a path buffer. -/
def PathsFit (fs : FileSystem) (scanner : ScannerData) (f : CString) : Prop :=
  (fs.info f).exists = true → ∀ data, fs.read f = .bytes data → data ≠ [] →
    ∀ inc ∈ scanner.scannerType.scan (fileText data), findFile fs scanner.includePaths f inc ≠ none

theorem mem_scanFile {f g : CString} {data : List UInt8} {found : List CString}
    (h : scanFile fs scanner f data = some found) :
    g ∈ found ↔ ∃ inc ∈ scanner.scannerType.scan (fileText data), findFile fs scanner.includePaths f inc = some
    (some g) := by
  obtain ⟨results, hresults, rfl⟩ := Option.map_eq_some_iff.mp h
  rw [List.mem_filterMap]
  simp only [id, exists_eq_right, Bytes.mem_of_mapM_eq_some hresults]

theorem mem_includesOf {f g : CString} {found : List CString} (h : includesOf fs scanner f = some found) :
    g ∈ found ↔ IncludeEdge fs scanner f g := by
  have hnone : some [] = some found → (¬ ∃ data, fs.read f = .bytes data ∧ data ≠ []) →
    (g ∈ found ↔ IncludeEdge fs scanner f g) := by
    rintro hnil hnot
    cases hnil
    refine iff_of_false List.not_mem_nil ?_
    rintro ⟨-, data, hread, hne, -⟩
    exact hnot ⟨data, hread, hne⟩
  unfold includesOf at h
  split_ifs at h with hexists
  · cases hread : fs.read f with
    | cannotOpen => exact hnone (by rwa [hread] at h) (by simp [hread])
    | readFails => exact hnone (by rwa [hread] at h) (by simp [hread])
    | bytes data =>
        cases data with
        | nil => exact hnone (by rwa [hread] at h) (by simp [hread])
        | cons b data =>
            rw [hread] at h
            simp only [mem_scanFile h, IncludeEdge, hexists, hread, FileRead.bytes.injEq, true_and, exists_eq_left',
              ne_eq, reduceCtorEq,
              not_false_eq_true]
  · cases h
    refine iff_of_false List.not_mem_nil ?_
    rintro ⟨hexists', -⟩
    exact hexists hexists'

/-- Without a path that is too long the includes of a file are found. -/
theorem includesOf_of_pathsFit {f : CString} (hfit : PathsFit fs scanner f) :
    ∃ found, includesOf fs scanner f = some found := by
  unfold includesOf
  split_ifs with hexists
  · cases hread : fs.read f with
    | cannotOpen => exact ⟨[], rfl⟩
    | readFails => exact ⟨[], rfl⟩
    | bytes data =>
        cases data with
        | nil => exact ⟨[], rfl⟩
        | cons b data =>
            rw [← Option.ne_none_iff_exists']
            intro hnone
            obtain ⟨inc, hinc, hfind⟩ := Bytes.mapM_eq_none_iff.mp (Option.map_eq_none_iff.mp hnone)
            exact hfit hexists _ hread (List.cons_ne_nil _ _) inc hinc hfind
  · exact ⟨[], rfl⟩

theorem candidate_length {directory : Option PathBuffer} {includeBuf : PathBuffer} {path : CString}
    (hdirectory : ∀ buffer, directory = some buffer → buffer.leadingDotDots ≤ kMaxPathSegments)
    (hinclude : includeBuf.leadingDotDots ≤ kMaxPathSegments) (h : candidate directory includeBuf = some path) :
    path.bytes.length < kMaxPathLength := by
  obtain ⟨buffer, hbuffer, hjoin⟩ := Option.bind_eq_some_iff.mp h
  obtain ⟨joined, hconcat, hformat⟩ := Option.bind_eq_some_iff.mp hjoin
  have hdots := pathConcat_leadingDotDots hconcat
  have hlimit := hdirectory buffer hbuffer
  exact pathFormat_length (by omega) hformat

theorem firstExisting_mem {paths : List (Option CString)} {path : CString}
    (h : firstExisting fs paths = some (some path)) :
    some path ∈ paths := by
  induction paths with
  | nil => cases h
  | cons first paths ih =>
      cases first with
      | none => cases h
      | some first =>
          rw [firstExisting] at h
          split_ifs at h
          · cases h
            exact List.mem_cons_self
          · exact List.mem_cons_of_mem _ (ih h)

/-- A file that a directive resolves to has a path that fits into a buffer. -/
theorem findFile_length {includePaths : List CString} {f g : CString} {inc : IncludeData}
    (h : findFile fs includePaths f inc = some (some g)) : g.bytes.length < kMaxPathLength := by
  obtain ⟨filenameBuf, hfilename, hfind⟩ := Option.bind_eq_some_iff.mp h
  obtain ⟨includeBuf, hinclude, hfind⟩ := Option.bind_eq_some_iff.mp hfind
  have hinclude' := pathInit_leadingDotDots hinclude
  rcases List.mem_append.mp (firstExisting_mem hfind) with hmem | hmem
  · split_ifs at hmem
    · cases hmem
    · refine candidate_length (fun buffer hbuffer => ?_) hinclude' (List.mem_singleton.mp hmem).symm
      cases hbuffer
      have hfilename' := pathInit_leadingDotDots hfilename
      unfold pathStripLast
      split_ifs <;> exact hfilename'
  · obtain ⟨path, -, hcandidate⟩ := List.mem_map.mp hmem
    exact candidate_length (fun buffer hbuffer => pathInit_leadingDotDots hbuffer) hinclude' hcandidate

end Tundra
