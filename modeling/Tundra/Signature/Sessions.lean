import Tundra.Signature.Plain

/-!
# Signatures through builds and sessions

The two caches behind the signatures live through a whole sequence of builds: every thread of every build uses
them, in any order, while files come and go, and the next session begins with what the last one saved. Every
record that is ever found in them was made from some file at some time. So a node is signed with the same bytes
as in a session that starts without cache files, as long as what was seen then still holds for the files the
node can meet.
-/

namespace Tundra

/-- One use of the caches: the contents of a file are signed, or a file is scanned for its includes, on the file
system as it is then. -/
inductive CacheUse
  | digest (fs : FileSystem) (path : CString)
  | scan (fs : FileSystem) (scanner : ScannerData) (path : CString)

def CacheUse.fs : CacheUse → FileSystem
  | digest fs _ | scan fs _ _ => fs

structure CacheFiles where
  scanFile : Option (List UInt8)
  digestFile : Option (List UInt8)

/-- What `DigestCacheInit` makes of the file at this time. -/
def openDigests (digestFile : Option (List UInt8)) (now timeNow : UInt64) : Option DigestCache :=
  match digestFile with
  | none => some (.init now)
  | some image => (DigestCache.init now).openFile image timeNow

/-- What a session leaves of the files when it ends: the build is over then, and each cache is saved or its file
stays as it was. -/
structure CacheFiles.EndOf (files : CacheFiles) (caches : SignCaches) (files' : CacheFiles) : Prop where
  scan : files'.scanFile = files.scanFile ∨ ∃ now image, caches.scanCache.save now = some image ∧
    files'.scanFile = some image
  digest : files'.digestFile = files.digestFile ∨ ∃ image, caches.digestCache.save = some image ∧
    files'.digestFile = some image

/-- The caches and their files after these uses, the last one first. A use is one call of
`ComputeFileSignatureSha1` or one turn of the loop of `ScanImplicitDeps`, so the calls of several threads may
lie between each other. The caches are saved only when a session ends: saving unmaps the files that their
records point into. -/
inductive CacheSessions : List CacheUse → SignCaches → CacheFiles → Prop
  | start (now : UInt64) : CacheSessions [] ⟨.init none, .init now⟩ ⟨none, none⟩
  | digest {past : List CacheUse} {caches : SignCaches} {files : CacheFiles} (h : CacheSessions past caches files)
      (config : SignConfig) (path : CString) : CacheSessions (.digest config.fs path :: past)
        { caches with digestCache := (computeFileSignatureSha1 config caches.digestCache (.ofPath path)).2 } files
  | scan {past : List CacheUse} {caches : SignCaches} {files : CacheFiles} {included : List FileAndHash}
      {scanCache : ScanCache}
      (h : CacheSessions past caches files) (fs : FileSystem) (scanner : ScannerData) (path : CString)
      (hincluded : includedFiles fs scanner caches.scanCache path = some (included, scanCache)) :
      CacheSessions (.scan fs scanner path :: past) { caches with scanCache := scanCache } files
  | restart {past : List CacheUse} {caches : SignCaches} {files files' : CacheFiles} {digestCache : DigestCache}
      (h : CacheSessions past caches files) (hend : files.EndOf caches files') (now timeNow : UInt64)
      (hopen : openDigests files'.digestFile now timeNow = some digestCache) :
      CacheSessions past ⟨.init (files'.scanFile.bind loadScanData), digestCache⟩ files'

/-- The file was there with this timestamp when its contents had this digest. -/
def DigestFrom (past : List CacheUse) (path : CString) (timestamp : UInt64) (digest : HashDigest) : Prop :=
  ∃ fs, .digest fs path ∈ past ∧ (fs.info path).exists = true ∧ timestamp = (fs.info path).timestamp ∧
    (fs.read path).digest = some digest

/-- A record is what was once found in a file. -/
def ScanFrom (past : List CacheUse) (record : ScanRecord) : Prop :=
  ∃ fs scanner path found, .scan fs scanner path ∈ past ∧ (fs.info path).exists = true ∧
    includesOf fs scanner path = some found ∧
    record = ScanCache.newRecord (scanKey scanner path) (fs.info path).timestamp found

/-- Everything in the caches and their files was once seen. -/
structure CachesFrom (past : List CacheUse) (caches : SignCaches) (files : CacheFiles) : Prop where
  digest : caches.digestCache.Keeps (DigestFrom past)
  scan : ∀ record ∈ caches.scanCache.records, ScanFrom past record
  digestFile : ∀ image ∈ files.digestFile, ∃ cache : DigestCache, cache.save = some image ∧
    cache.Keeps (DigestFrom past)
  scanFile : ∀ image ∈ files.scanFile, ∀ entries, loadScanData image = some entries →
    ∀ entry ∈ entries, ScanFrom past entry.record

variable {past : List CacheUse} {caches : SignCaches} {files : CacheFiles} {use : CacheUse}

theorem DigestFrom.later {path : CString} {timestamp : UInt64} {digest : HashDigest}
    (h : DigestFrom past path timestamp digest) :
    DigestFrom (use :: past) path timestamp digest := by
  obtain ⟨fs, hmem, h⟩ := h
  exact ⟨fs, List.mem_cons_of_mem _ hmem, h⟩

theorem ScanFrom.later {record : ScanRecord} (h : ScanFrom past record) : ScanFrom (use :: past) record := by
  obtain ⟨fs, scanner, path, found, hmem, h⟩ := h
  exact ⟨fs, scanner, path, found, List.mem_cons_of_mem _ hmem, h⟩

theorem ScanFrom.bounded {record : ScanRecord} (h : ScanFrom past record) : record.Bounded := by
  obtain ⟨fs, scanner, path, found, -, -, hfound, rfl⟩ := h
  exact ⟨found, rfl, includesOf_length hfound⟩

theorem DigestCache.Keeps.mono {P Q : CString → UInt64 → HashDigest → Prop} {cache : DigestCache} (h : cache.Keeps P)
    (himp : ∀ path timestamp digest, P path timestamp digest → Q path timestamp digest) : cache.Keeps Q :=
  ⟨h.distinct, fun r hr => himp _ _ _ (h.records r hr)⟩

/-- The records of a cache that is opened were in the cache that was saved. -/
theorem DigestCache.Keeps.openFile {P : CString → UInt64 → HashDigest → Prop} {cache opened : DigestCache}
    {image : List UInt8} {now timeNow : UInt64} (h : cache.Keeps P) (hsave : cache.save = some image)
    (hopen : (DigestCache.init now).openFile image timeNow = some opened) : opened.Keeps P := by
  obtain ⟨opened', hopened, hdistinct, hrecords⟩ :=
    DigestCache.openFile_spec djb2HashPath_ne_zero h.distinct hsave now timeNow
  obtain rfl := Option.some.inj (hopen.symm.trans hopened)
  exact ⟨hdistinct, fun r hr => h.records r ((hrecords r).mp hr).1⟩

theorem CachesFrom.later (h : CachesFrom past caches files) : CachesFrom (use :: past) caches files where
  digest := h.digest.mono fun _ _ _ hfrom => hfrom.later
  scan record hmem := (h.scan record hmem).later
  digestFile image himage := by
    obtain ⟨cache, hsave, hcache⟩ := h.digestFile image himage
    exact ⟨cache, hsave, hcache.mono fun _ _ _ hfrom => hfrom.later⟩
  scanFile image himage entries hload entry hentry := (h.scanFile image himage entries hload entry hentry).later

theorem CachesFrom.digest_step (h : CachesFrom past caches files) (config : SignConfig) (path : CString) :
    CachesFrom (.digest config.fs path :: past)
      { caches with digestCache := (computeFileSignatureSha1 config caches.digestCache (.ofPath path)).2 } files := by
  have hlater : CachesFrom (.digest config.fs path :: past) caches files := h.later
  refine { hlater with digest := ?_ }
  have hpath : PathHashed (.ofPath path) := rfl
  refine (computeFileSignatureSha1_cases hlater.digest hpath fun digest hexists hread => ?_).1
  exact ⟨config.fs, List.mem_cons_self, hexists, rfl, hread⟩

theorem CachesFrom.scan_step {included : List FileAndHash} {scanCache : ScanCache} {fs : FileSystem}
    {scanner : ScannerData} {path : CString} (h : CachesFrom past caches files)
    (hincluded : includedFiles fs scanner caches.scanCache path = some (included, scanCache)) :
    CachesFrom (.scan fs scanner path :: past) { caches with scanCache := scanCache } files := by
  have hlater : CachesFrom (.scan fs scanner path :: past) caches files := h.later
  refine { hlater with scan := fun record hmem => ?_ }
  rcases includedFiles_cases hincluded with ⟨hrecords, -⟩ | ⟨found, hfound, -, hrecords⟩
  · exact hlater.scan record (hrecords ▸ hmem)
  · rcases hrecords record hmem with hold | ⟨hexists, rfl⟩
    · exact hlater.scan record hold
    · exact ⟨fs, scanner, path, found, List.mem_cons_self, hexists, hfound, rfl⟩

/-- What is saved when a session ends was once seen as well. -/
theorem CachesFrom.endOf_step {files' : CacheFiles} (h : CachesFrom past caches files)
    (hend : files.EndOf caches files') :
    CachesFrom past caches files' := by
  refine { h with digestFile := fun image himage => ?_, scanFile := fun image himage entries hload entry hentry => ?_ }
  · rcases hend.digest with hkept | ⟨saved, hsave, hfile⟩
    · exact h.digestFile image (hkept ▸ himage)
    · obtain rfl := Option.some.inj (hfile.symm.trans himage)
      exact ⟨caches.digestCache, hsave, h.digest⟩
  · rcases hend.scan with hkept | ⟨now, saved, hsave, hfile⟩
    · exact h.scanFile image (hkept ▸ himage) entries hload entry hentry
    · obtain rfl := Option.some.inj (hfile.symm.trans himage)
      obtain ⟨loaded, hloaded, hrecords⟩ :=
        ScanCache.load_save (fun record hmem => (h.scan record hmem).bounded.hash_ne_zero) hsave
      obtain rfl := Option.some.inj (hloaded.symm.trans hload)
      exact h.scan _ (hrecords entry hentry)

theorem CachesFrom.restart_step {digestCache : DigestCache} {now timeNow : UInt64} (h : CachesFrom past caches files)
    (hopen : openDigests files.digestFile now timeNow = some digestCache) :
    CachesFrom past ⟨.init (files.scanFile.bind loadScanData), digestCache⟩ files := by
  refine { h with digest := ?_, scan := fun record hmem => ?_ }
  · cases hfile : files.digestFile with
    | none =>
        rw [hfile] at hopen
        obtain rfl := Option.some.inj hopen
        exact DigestCache.Keeps.init now
    | some image =>
        rw [hfile] at hopen
        obtain ⟨cache, hsave, hcache⟩ := h.digestFile image hfile
        exact hcache.openFile hsave hopen
  · obtain ⟨image, himage, entries, hentries, entry, hentry, rfl⟩ := ScanCache.mem_records_init hmem
    exact h.scanFile image himage entries hentries entry hentry

/-- Everything that is in the caches after any number of sessions was once seen. -/
theorem CacheSessions.cachesFrom (h : CacheSessions past caches files) : CachesFrom past caches files := by
  induction h with
  | start now =>
      refine ⟨DigestCache.Keeps.init now, fun record hmem => ?_, fun image hmem => ?_, fun image hmem => ?_⟩
      · cases hmem
      · cases hmem
      · cases hmem
  | digest _ config path ih => exact ih.digest_step config path
  | scan _ fs scanner path hincluded ih => exact ih.scan_step hincluded
  | restart _ hend now timeNow hopen ih => exact (ih.endOf_step hend).restart_step hopen

/-! ### A node as a sequence of uses -/

section Uses

variable {config : SignConfig} {scanner : Option ScannerData} {nodeData : NodeData} {fuel : Nat}

/-- A use on this file system that scans with this scanner, if it scans. -/
def CacheUse.Within (fs : FileSystem) (scanner : Option ScannerData) : CacheUse → Prop
  | .digest fs' _ => fs' = fs
  | .scan fs' scanner' _ => fs' = fs ∧ scanner' ∈ scanner

/-- The caches after some more uses on this file system. -/
def UsedWithin (past : List CacheUse) (files : CacheFiles) (fs : FileSystem) (scanner : Option ScannerData)
    (caches : SignCaches) : Prop :=
  ∃ uses, CacheSessions (uses ++ past) caches files ∧ ∀ use ∈ uses, use.Within fs scanner

namespace UsedWithin

theorem refl (h : CacheSessions past caches files) (fs : FileSystem) (scanner : Option ScannerData) :
    UsedWithin past files fs scanner caches :=
  ⟨[], h, fun _ huse => absurd huse List.not_mem_nil⟩

theorem next {caches' : SignCaches} (h : UsedWithin past files config.fs scanner caches)
    (hwithin : use.Within config.fs scanner)
    (hstep : ∀ past, CacheSessions past caches files → CacheSessions (use :: past) caches' files) :
    UsedWithin past files config.fs scanner caches' := by
  obtain ⟨uses, hsessions, huses⟩ := h
  refine ⟨use :: uses, hstep _ hsessions, fun other hother => ?_⟩
  rcases List.mem_cons.mp hother with rfl | hother
  · exact hwithin
  · exact huses other hother

theorem bounded (h : UsedWithin past files config.fs scanner caches) : caches.scanCache.Bounded := by
  obtain ⟨uses, hsessions, -⟩ := h
  exact fun record hmem => (hsessions.cachesFrom.scan record hmem).bounded

theorem signFile (h : UsedWithin past files config.fs scanner caches) {file : FileAndHash} (hfile : PathHashed file) :
    UsedWithin past files config.fs scanner
    { caches with digestCache := (Tundra.signFile config caches.digestCache file).2 } := by
  have hdigest : UsedWithin past files config.fs scanner
      { caches with digestCache := (computeFileSignatureSha1 config caches.digestCache file).2 } := by
    have hwithin : (CacheUse.digest config.fs file.filename).Within config.fs scanner := rfl
    refine h.next hwithin fun past hsessions => ?_
    have hpath : file = .ofPath file.filename := by rw [FileAndHash.ofPath, ← hfile]
    rw [hpath]
    exact hsessions.digest config file.filename
  unfold Tundra.signFile computeFileSignature
  cases extension file.filename with
  | none => exact h
  | some ext =>
      dsimp only
      split_ifs
      · exact hdigest
      · exact h

theorem signFiles (signed : List FileAndHash) : ∀ caches : SignCaches, UsedWithin past files config.fs scanner caches →
    (∀ file ∈ signed, PathHashed file) →
      UsedWithin past files config.fs scanner
      { caches with digestCache := (Tundra.signFiles config caches.digestCache signed).2 } := by
  induction signed with
  | nil => exact fun caches h _ => h
  | cons file signed ih =>
      intro caches h hsigned
      exact ih _ (h.signFile (hsigned file List.mem_cons_self)) fun f hf => hsigned f (List.mem_cons_of_mem _ hf)

theorem scanLoop {s : ScannerData} {found : List FileAndHash} {scanCache : ScanCache} (fuel : Nat) :
    ∀ (search : IncludeSearch) (caches : SignCaches), UsedWithin past files config.fs (some s) caches →
      Tundra.scanLoop config.fs s fuel search caches.scanCache = .returned found scanCache →
        UsedWithin past files config.fs (some s) { caches with scanCache := scanCache } := by
  induction fuel with
  | zero => exact fun search caches _ h => by cases h
  | succ fuel ih =>
      intro search caches hused h
      rw [Tundra.scanLoop] at h
      cases hstack : search.filenameStack with
      | nil =>
          simp only [hstack] at h
          cases h
          exact hused
      | cons path stack =>
          simp only [hstack] at h
          cases hincluded : includedFiles config.fs s caches.scanCache path with
          | none => simp [hincluded] at h
          | some result =>
              obtain ⟨included, kept⟩ := result
              simp only [hincluded] at h
              have hwithin : (CacheUse.scan config.fs s path).Within config.fs (some s) := ⟨rfl, rfl⟩
              refine ih _ { caches with scanCache := kept } (hused.next hwithin fun past hsessions => ?_) h
              exact hsessions.scan config.fs s path hincluded

/-- What a scan returns comes with the hashes of the paths, whatever is in a cache with bounded records. -/
theorem pathHashed_of_scan {s : ScannerData} {cache scanCache : ScanCache} {root : CString}
    {found : List FileAndHash} (hcache : cache.Bounded)
    (h : scanImplicitDeps config.fs s fuel root cache = .returned found scanCache) :
    ∀ file ∈ found, PathHashed file := by
  -- a scan that has returned returns the same with enough turns
  rw [scanImplicitDeps] at h
  have hmore := scanLoop_add (finite_paths.toFinset.card + 2) fuel ⟨.init, [root]⟩ cache
    (by rw [h]; exact ScanOutcome.noConfusion)
  rw [h] at hmore
  rcases scanLoop_ends (fuel + (finite_paths.toFinset.card + 2)) ⟨[], [root]⟩ cache hcache List.nodup_nil
    (fun g hg => by cases hg)
    (by simp only [List.length_singleton, List.length_nil]; omega) with hcroaked | ⟨seen, cache', hreturned, -⟩
  · cases hmore.symm.trans hcroaked
  · obtain ⟨rfl, -⟩ := ScanOutcome.returned.inj (hmore.symm.trans hreturned)
    exact (listing_spec seen).2

theorem signInputs (inputs : List FileAndHash) : ∀ caches : SignCaches, UsedWithin past files config.fs scanner caches →
    (∀ input ∈ inputs, PathHashed input) →
    ∀ pieces caches', Tundra.signInputs config fuel scanner caches inputs = some (pieces, caches') →
      UsedWithin past files config.fs scanner caches' := by
  induction inputs with
  | nil =>
      intro caches h _ pieces caches' hsigned
      cases hsigned
      exact h
  | cons input inputs ih =>
      intro caches h hhashed pieces caches' hsigned
      have hfirst := h.signFile (hhashed input List.mem_cons_self)
      have hrest := fun f hf => hhashed f (List.mem_cons_of_mem input hf)
      simp only [Tundra.signInputs, Option.bind_eq_some_iff, Option.map_eq_some_iff, Prod.mk.injEq] at hsigned
      obtain ⟨⟨included, kept⟩, hscanned, ⟨more, after⟩, hmore, -, rfl⟩ := hsigned
      refine ih kept ?_ hrest more after hmore
      cases scanner with
      | none =>
          cases hscanned
          exact hfirst
      | some s =>
          simp only at hscanned
          cases hscan : scanImplicitDeps config.fs s fuel input.filename caches.scanCache with
          | croaked => simp [hscan] at hscanned
          | outOfFuel => simp [hscan] at hscanned
          | returned found scanCache =>
              simp only [hscan, Option.some.injEq, Prod.mk.injEq] at hscanned
              obtain ⟨-, rfl⟩ := hscanned
              exact (hfirst.scanLoop fuel _ _ hscan).signFiles found _ (pathHashed_of_scan h.bounded hscan)

end UsedWithin

/-- A whole `CheckInputSignature` is a sequence of uses on one file system. -/
theorem CacheSessions.inputPieces {pieces : List (List UInt8)} {caches' : SignCaches}
    (h : CacheSessions past caches files) (hhashed : ∀ input ∈ nodeData.inputFiles, PathHashed input)
    (hsigned : Tundra.inputPieces config fuel nodeData caches = some (pieces, caches')) :
    UsedWithin past files config.fs nodeData.scanner caches' := by
  obtain ⟨⟨inputs, after⟩, hinputs, heq⟩ := Option.map_eq_some_iff.mp hsigned
  obtain ⟨-, rfl⟩ := Prod.mk.inj heq
  exact UsedWithin.signInputs nodeData.inputFiles caches (.refl h _ _) hhashed inputs after hinputs

end Uses

/-! ### What still holds -/

/-- An earlier use of the caches says nothing wrong about a file: no other file was scanned then with this key
and timestamp, and if the file was, its directives led to the same files, and it was scanned as it is now. -/
def CacheUse.StillRight (fs : FileSystem) (scanner : ScannerData) (f : CString) : CacheUse → Prop
  | .digest _ _ => True
  | .scan before scanner' g =>
      (before.info g).exists = true → (fs.info f).exists = true → scanKey scanner' g = scanKey scanner f →
      (before.info g).timestamp = (fs.info f).timestamp →
        g = f ∧ scanner'.scannerType = scanner.scannerType ∧ scanner'.includePaths = scanner.includePaths ∧
          SameHeaders before fs scanner f

/-- What the caches may have is still right for the files this node can meet on this file system. -/
structure StillHolds (past : List CacheUse) (fs : FileSystem) (nodeData : NodeData) : Prop where
  times : ∀ use ∈ past, TimestampsTell use.fs fs
  scans : ∀ use ∈ past, ∀ scanner ∈ nodeData.scanner, ∀ f ∈ metFiles fs nodeData.scanner nodeData.inputFiles,
    use.StillRight fs scanner f
  keys : KeysTell fs nodeData.scanner (metFiles fs nodeData.scanner nodeData.inputFiles)

/-- A scan reads the directives and the include paths of a scanner and nothing else. -/
theorem includesOf_scanner {fs : FileSystem} {scanner scanner' : ScannerData}
    (htype : scanner'.scannerType = scanner.scannerType) (hpaths : scanner'.includePaths = scanner.includePaths)
    (f : CString) : includesOf fs scanner' f = includesOf fs scanner f := by
  unfold includesOf scanFile
  rw [htype, hpaths]

/-- What was once seen and still holds makes the caches sound for a node. -/
theorem CachesFrom.sound {fs : FileSystem} {nodeData : NodeData} (h : CachesFrom past caches files)
    (hholds : StillHolds past fs nodeData) :
    caches.Sound fs nodeData.scanner (metFiles fs nodeData.scanner nodeData.inputFiles) := by
  refine ⟨fun scanner hscanner record hmem f hf hexists hkey htime => ?_,
    h.digest.mono fun path timestamp digest hfrom hexists htime => ?_⟩
  · obtain ⟨before, scanner', g, found, huse, hbefore, hfound, rfl⟩ := h.scan record hmem
    obtain ⟨rfl, htype, hpaths, hsame⟩ := hholds.scans _ huse scanner hscanner f hf hbefore hexists hkey htime
    refine ⟨found, ?_, rfl⟩
    rw [← includesOf_congr hbefore hexists (hholds.times _ huse g hbefore hexists htime) hsame,
      ← includesOf_scanner htype hpaths]
    exact hfound
  · obtain ⟨before, huse, hbefore, rfl, hread⟩ := hfrom
    rw [← hholds.times _ huse path hbefore hexists htime]
    exact hread

variable {config : SignConfig} {nodeData : NodeData} {fuel : Nat}

theorem sound_init (fs : FileSystem) (scanner : Option ScannerData) (files : Set CString) (now : UInt64) :
    (⟨.init none, .init now⟩ : SignCaches).Sound fs scanner files :=
  ⟨fun _ _ => cacheSound_init files, DigestCache.Keeps.init now⟩

/-- With enough turns the includes of an input file are found, unless a path is too long. -/
theorem plainInput_isSome
    (hkeys : KeysTell config.fs nodeData.scanner (metFiles config.fs nodeData.scanner nodeData.inputFiles))
    (hfit : ∀ s ∈ nodeData.scanner, ∀ f ∈ metFiles config.fs nodeData.scanner nodeData.inputFiles, PathsFit config.fs
    s f)
    {input : FileAndHash} (hinput : input ∈ nodeData.inputFiles) :
    ∃ bound, ∀ fuel > bound, ∃ pieces, plainInput config fuel nodeData.scanner input = some pieces := by
  unfold plainInput plainIncludes
  cases hscanner : nodeData.scanner with
  | none => exact ⟨0, fun _ _ => ⟨_, rfl⟩⟩
  | some s =>
      have hmet : reachable config.fs s input.filename ⊆ metFiles config.fs nodeData.scanner nodeData.inputFiles :=
        fun f hf => ⟨s, hscanner, input, hinput, hf⟩
      have hapart : KeysApart config.fs s (reachable config.fs s input.filename) :=
        fun f hf g hg => hkeys s hscanner f (hmet hf) g (hmet hg)
      obtain ⟨bound, hclosure⟩ := scansClosure_of_reachable hapart fun f hf => hfit s hscanner f (hmet hf)
      refine ⟨bound, fun fuel hfuel => ?_⟩
      obtain ⟨found, cache, hreturned, -⟩ := hclosure fuel hfuel
      obtain ⟨hsearch, -⟩ := scanLoop_eq closed_reachable hapart fuel ⟨.init, [input.filename]⟩ (.init none)
        (cacheSound_init _)
        fun f hf => List.mem_singleton.mp hf ▸ .refl
      rw [scanImplicitDeps] at hreturned
      rw [hreturned] at hsearch
      refine ⟨plainFile config input ++ found.flatMap (plainFile config), ?_⟩
      simp only [← hsearch]
      rfl

theorem plainInputs_isSome
    (hkeys : KeysTell config.fs nodeData.scanner (metFiles config.fs nodeData.scanner nodeData.inputFiles))
    (hfit : ∀ s ∈ nodeData.scanner, ∀ f ∈ metFiles config.fs nodeData.scanner nodeData.inputFiles, PathsFit config.fs
    s f)
    (inputs : List FileAndHash) (hinputs : ∀ input ∈ inputs, input ∈ nodeData.inputFiles) :
    ∃ bound, ∀ fuel > bound, (inputs.mapM (plainInput config fuel nodeData.scanner)).isSome = true := by
  induction inputs with
  | nil => exact ⟨0, fun _ _ => rfl⟩
  | cons input inputs ih =>
      obtain ⟨bound, hbound⟩ := ih fun f hf => hinputs f (List.mem_cons_of_mem _ hf)
      obtain ⟨bound', hbound'⟩ := plainInput_isSome hkeys hfit (hinputs input List.mem_cons_self)
      refine ⟨max bound bound', fun fuel hfuel => ?_⟩
      obtain ⟨pieces, hpieces⟩ := hbound' fuel (lt_of_le_of_lt (le_max_right _ _) hfuel)
      obtain ⟨rest, hrest⟩ := Option.isSome_iff_exists.mp (hbound fuel (lt_of_le_of_lt (le_max_left _ _) hfuel))
      rw [List.mapM_cons, hpieces, hrest]
      rfl

/-- After any number of builds and sessions a node is signed with the bytes it would be signed with in a first
session without cache files, if what was seen on the way still holds for the files it can meet; and it is
signed, unless a path is too long. -/
theorem inputPieces_sessions (h : CacheSessions past caches files) (hholds : StillHolds past config.fs nodeData)
    (hhashed : ∀ input ∈ nodeData.inputFiles, PathHashed input) :
    (∀ fuel now, (inputPieces config fuel nodeData caches).map Prod.fst =
      (inputPieces config fuel nodeData ⟨.init none, .init now⟩).map Prod.fst) ∧
    ((∀ s ∈ nodeData.scanner, ∀ f ∈ metFiles config.fs nodeData.scanner nodeData.inputFiles, PathsFit config.fs s f) →
      ∃ bound, ∀ fuel > bound, (inputPieces config fuel nodeData caches).isSome = true) := by
  have hwarm := fun fuel => inputPieces_eq hholds.keys hhashed (h.cachesFrom.sound hholds) fuel
  have hcold := fun fuel now => inputPieces_eq hholds.keys hhashed
    (sound_init config.fs nodeData.scanner (metFiles config.fs nodeData.scanner nodeData.inputFiles) now) fuel
  refine ⟨fun fuel now => (hwarm fuel).trans (hcold fuel now).symm, fun hfit => ?_⟩
  obtain ⟨bound, hbound⟩ := plainInputs_isSome hholds.keys hfit nodeData.inputFiles fun _ hinput => hinput
  refine ⟨bound, fun fuel hfuel => ?_⟩
  rw [← Option.isSome_map (f := Prod.fst), hwarm fuel, plainPieces, Option.isSome_map]
  exact hbound fuel hfuel

/-- A source file, its header, and a file that may be there as well. -/
def sessionFiles (others : List (String × String)) : FileSystem := .ofFiles
    ([("a.c", "#include \"b.h\""), ("b.h", " ")] ++ others)

def sessionConfig (others : List (String × String)) : SignConfig := ⟨sessionFiles others, [djb2HashPath (.lit ".c")]⟩

def sessionNode : NodeData :=
  { NodeData.empty with action := .lit "cc a.c", inputFiles := [.ofPath (.lit "a.c")], scanner := some cppScanner }

/-- The node is signed, both caches are saved, and the next session opens them. -/
def sessionRun : Option (SignCaches × List UInt8 × List UInt8 × DigestCache) := do
  let (_, caches) ← inputPieces (sessionConfig []) 3 sessionNode ⟨.init none, .init 1700000000⟩
  let scanImage ← caches.scanCache.save 1700000000
  let digestImage ← caches.digestCache.save
  let digestCache ← (DigestCache.init 1700000100).openFile digestImage 1700000100
  return (caches, scanImage, digestImage, digestCache)

theorem sessionFiles_exists {others : List (String × String)} {f : CString}
    (h : ((FileSystem.ofFiles others).info f).exists = true) :
    ∃ file ∈ others, f = .lit file.1 := by
  unfold FileSystem.info FileSystem.ofFiles at h
  cases hfind : others.find? fun file => CString.lit file.1 = f with
  | none =>
      simp only [hfind] at h
      cases h
  | some file =>
      exact ⟨file, List.mem_of_find?_eq_some hfind,
        (by simpa using List.find?_some hfind : CString.lit file.1 = f).symm⟩

theorem sessionFacts : scanKey cppScanner (.lit "a.c") ≠ scanKey cppScanner (.lit "b.h") ∧
    includesOf (sessionFiles [("z.c", " ")]) cppScanner (.lit "a.c") = some [.lit "b.h"] ∧
    includesOf (sessionFiles [("z.c", " ")]) cppScanner (.lit "b.h") = some [] ∧
    ∀ file ∈ [("a.c", "#include \"b.h\""), ("b.h", " ")], (sessionFiles []).read
    (.lit file.1) = (sessionFiles [("z.c", " ")]).read (.lit file.1) ∧
      (sessionFiles [("z.c", " ")]).read (.lit file.1) = .bytes (CString.lit file.2).bytes ∧
      ∀ inc ∈ scanIncludesCpp (fileText (CString.lit file.2).bytes),
        findFile (sessionFiles []) [] (.lit file.1) inc = findFile (sessionFiles [("z.c", " ")]) []
        (.lit file.1) inc := by
  decide +kernel

theorem sessionRun_isSome : sessionRun.isSome = true := by decide +kernel

/-- What the first session has seen still holds when there is another file. -/
theorem sessionHolds {past : List CacheUse} (hpast : ∀ use ∈ past, use.Within (sessionFiles []) (some cppScanner)) :
    StillHolds past (sessionFiles [("z.c", " ")]) sessionNode := by
  have hbefore : ∀ f, ((sessionFiles []).info f).exists = true →
    ∃ file ∈ [("a.c", "#include \"b.h\""), ("b.h", " ")], f = .lit file.1 :=
    fun f h => sessionFiles_exists h
  have hmet : ∀ f ∈ metFiles (sessionFiles [("z.c", " ")]) (some cppScanner) [.ofPath (.lit "a.c")], f = .lit "a.c" ∨
    f = .lit "b.h" := by
    rintro f ⟨s, hs, input, hinput, hf⟩
    obtain rfl := Option.some.inj hs
    obtain rfl := List.mem_singleton.mp hinput
    have hroot : CString.lit "a.c" ∈ {f | f = .lit "a.c" ∨ f = .lit "b.h"} := .inl rfl
    refine reachable_subset hroot (fun f hf g hedge => ?_) hf
    rcases hf with rfl | rfl
    · rw [← mem_includesOf sessionFacts.2.1, List.mem_singleton] at hedge
      exact .inr hedge
    · rw [← mem_includesOf sessionFacts.2.2.1] at hedge
      cases hedge
  have hsame : ∀ f g : CString, f = .lit "a.c" ∨ f = .lit "b.h" → g = .lit "a.c" ∨ g = .lit "b.h" →
      scanKey cppScanner f = scanKey cppScanner g → f = g := by
    rintro f g (rfl | rfl) (rfl | rfl) hkey
    · rfl
    · exact absurd hkey sessionFacts.1
    · exact absurd hkey.symm sessionFacts.1
    · rfl
  have hfile : ∀ f : CString, f = .lit "a.c" ∨ f = .lit "b.h" →
    ∃ file ∈ [("a.c", "#include \"b.h\""), ("b.h", " ")], f = .lit file.1 := by
    rintro f (rfl | rfl)
    · exact ⟨_, List.mem_cons_self, rfl⟩
    · exact ⟨_, List.mem_cons_of_mem _ List.mem_cons_self, rfl⟩
  have hnamed : ∀ f, (∃ file ∈ [("a.c", "#include \"b.h\""), ("b.h", " ")], f = CString.lit file.1) →
    f = .lit "a.c" ∨ f = .lit "b.h" := by
    rintro f ⟨file, hmem, rfl⟩
    rcases List.mem_pair.mp hmem with rfl | rfl
    · exact .inl rfl
    · exact .inr rfl
  refine ⟨fun use huse f hexists _ _ => ?_, fun use huse s hs f hf => ?_, fun s hs f hf g hg _ _ hkey _ => ?_⟩
  · have hfs : use.fs = sessionFiles [] := by
      cases use with
      | digest fs path => exact hpast _ huse
      | scan fs scanner path => exact (hpast _ huse).1
    rw [hfs] at hexists ⊢
    obtain ⟨file, hmem, rfl⟩ := hbefore f hexists
    exact (sessionFacts.2.2.2 file hmem).1
  · obtain rfl := Option.some.inj hs
    cases use with
    | digest fs path => trivial
    | scan fs scanner g =>
        obtain ⟨rfl, hscanner⟩ := hpast _ huse
        obtain rfl := Option.some.inj hscanner
        intro hexists _ hkey _
        refine ⟨hsame g f (hnamed g (hbefore g hexists)) (hmet f hf) hkey, rfl, rfl, fun data hread inc hinc => ?_⟩
        obtain ⟨file, hmem, rfl⟩ := hfile f (hmet f hf)
        obtain ⟨-, hnow, hfound⟩ := sessionFacts.2.2.2 file hmem
        rw [hnow, FileRead.bytes.injEq] at hread
        exact hfound inc (hread ▸ hinc)
  · obtain rfl := Option.some.inj hs
    exact hsame f g (hmet f hf) (hmet g hg) hkey

theorem inputPieces_sessions_later :
    ∃ past caches files, CacheSessions past caches files ∧ files.scanFile.isSome = true ∧
    files.digestFile.isSome = true ∧
    ∀ fuel now, (inputPieces (sessionConfig [("z.c", " ")]) fuel sessionNode caches).map Prod.fst =
      (inputPieces (sessionConfig [("z.c", " ")]) fuel sessionNode ⟨.init none, .init now⟩).map Prod.fst := by
  obtain ⟨⟨caches, scanImage, digestImage, digestCache⟩, hrun⟩ := Option.isSome_iff_exists.mp sessionRun_isSome
  simp only [sessionRun, Option.bind_eq_bind, Option.bind_eq_some_iff, Option.pure_def, Option.some.injEq,
    Prod.mk.injEq] at hrun
  obtain ⟨⟨pieces, caches'⟩, hsigned, image, hscan, image', hdigest, opened, hopen, rfl, rfl, rfl, rfl⟩ := hrun
  have hhashed : ∀ input ∈ sessionNode.inputFiles, PathHashed input := fun input hinput => by
    rw [List.mem_singleton.mp hinput]
    rfl
  obtain ⟨uses, hsessions, hwithin⟩ := (CacheSessions.start 1700000000).inputPieces hhashed hsigned
  rw [List.append_nil] at hsessions
  have hend : CacheFiles.EndOf ⟨none, none⟩ caches' ⟨some image, some image'⟩ :=
    ⟨.inr ⟨1700000000, image, hscan, rfl⟩, .inr ⟨image', hdigest, rfl⟩⟩
  have hlater := hsessions.restart hend 1700000100 1700000100 hopen
  exact ⟨uses, _, _, hlater, rfl, rfl, (inputPieces_sessions hlater (sessionHolds hwithin) hhashed).1⟩

end Tundra
