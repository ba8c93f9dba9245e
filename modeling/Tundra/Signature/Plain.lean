import Tundra.Signature
import Tundra.DigestCacheFile
import Tundra.Scanner.History
import Tundra.Scanner.NoFollow

/-!
# Signatures without caches

What `CheckInputSignature` would feed to the hash if every file was read again and every include directive was
looked up again. With caches whose records say what the file system says now, the same bytes are fed, and the
caches that are left are as good.
-/

namespace Tundra

def FileRead.digest : FileRead → Option HashDigest
  | .cannotOpen => none
  | .readFails => some (hashDigest [])
  | .bytes data => some (hashDigest data)

section Plain

variable (config : SignConfig)

/-- What `ComputeFileSignatureSha1` feeds when the digest cache has nothing. -/
def contentSignature (path : CString) : List UInt8 :=
  if (config.fs.info path).exists then
    match (config.fs.read path).digest with
    | none => (CString.lit "<missing>").bytes
    | some digest => digest.bytes
  else bigEndian 0xffffffffffffffff

/-- What `ComputeFileSignature` feeds when the digest cache has nothing. -/
def plainSignature (file : FileAndHash) : List UInt8 :=
  match extension file.filename with
  | some ext =>
      if djb2HashPath ext ∈ config.shaDigestExtensions then contentSignature config file.filename
      else computeFileSignatureTimestamp config file
  | none => computeFileSignatureTimestamp config file

def plainFile (file : FileAndHash) : List (List UInt8) := [file.filename.bytes, plainSignature config file]

/-- The files a scan without cache finds behind an input file. -/
def plainIncludes (fuel : Nat) (scanner : Option ScannerData) (path : CString) : Option (List FileAndHash) :=
  match scanner with
  | none => some []
  | some scanner => (searchLoop config.fs scanner fuel ⟨.init, [path]⟩).toOption

/-- What is fed for one input file. -/
def plainInput (fuel : Nat) (scanner : Option ScannerData) (input : FileAndHash) : Option (List (List UInt8)) :=
  (plainIncludes config fuel scanner input.filename).map fun included => plainFile config input ++
    included.flatMap (plainFile config)

/-- What `CheckInputSignature` feeds when the caches have nothing. -/
def plainPieces (fuel : Nat) (nodeData : NodeData) : Option (List (List UInt8)) :=
  let command := [nodeData.action.bytes, separator]
  let preCommand := match nodeData.preAction with
    | some preAction => [preAction.bytes, separator]
    | none => []
  (nodeData.inputFiles.mapM (plainInput config fuel nodeData.scanner)).map fun inputs => command ++ preCommand ++
    inputs.flatten

end Plain

/-! ### The digest cache -/

/-- A write through a pointer into the table changes one record of the name at most. -/
theorem HashTable.Valid.mem_walk_modify {T : Type} {table : HashTable T} (h : table.Valid) {hash : UInt32}
    {string : CString} {f : T → T} {r : Record T} (hr : r ∈ (table.modify hash string f).walk) :
    r ∈ table.walk ∨ ∃ r' ∈ table.walk, r'.string = string ∧ r = { r' with payload := f r'.payload } := by
  rcases h.baseLookup_cases hash string with ⟨hnone, -⟩ | ⟨i, hi, r', -, hsome, hslot, hkey, -⟩
  · rw [HashTable.modify, hnone] at hr
    exact .inl hr
  · rw [HashTable.modify, hsome] at hr
    simp only [HashTable.walk, List.reduceOption_mem_iff, List.modify_eq_set_getElem?, List.getElem?_eq_getElem hi,
      hslot] at hr ⊢
    rcases List.mem_or_eq_of_mem_set hr with hold | heq
    · exact .inl hold
    · refine .inr ⟨r', hslot ▸ List.getElem_mem hi, (HashTable.isKey_iff.mp hkey).2, ?_⟩
      exact Option.some.inj heq

/-- Every record of the cache has this property of its file name, timestamp and digest. -/
structure DigestCache.Keeps (P : CString → UInt64 → HashDigest → Prop) (cache : DigestCache) : Prop where
  distinct : cache.table.Distinct djb2HashPath
  records : ∀ r ∈ cache.table.walk, P r.string r.payload.timestamp r.payload.contentDigest

/-- Every record that an existing file finds has the digest of what is in the file. -/
def DigestSound (fs : FileSystem) : DigestCache → Prop :=
  DigestCache.Keeps fun path timestamp digest =>
    (fs.info path).exists = true → timestamp = (fs.info path).timestamp → (fs.read path).digest = some digest

namespace DigestCache.Keeps

variable {P : CString → UInt64 → HashDigest → Prop} {cache : DigestCache} {path : CString} {timestamp : UInt64}
  {digest : HashDigest}

theorem init (now : UInt64) : Keeps P (.init now) := ⟨.init, fun _ hr => absurd hr List.not_mem_nil⟩

theorem get (h : Keeps P cache) (path : CString) (timestamp : UInt64) :
    Keeps P (cache.get path (djb2HashPath path) timestamp).2 := by
  unfold DigestCache.get
  cases hlookup : cache.table.lookup (djb2HashPath path) path with
  | none => exact h
  | some payload =>
      dsimp only
      split_ifs
      · refine ⟨h.distinct.modify (djb2HashPath path) path fun r => { r with accessTime := cache.accessTime },
          fun r hr => ?_⟩
        -- only the access time is written
        rcases h.distinct.valid.mem_walk_modify hr with hold | ⟨r', hr', -, rfl⟩
        · exact h.records r hold
        · exact h.records r' hr'
      · exact h

theorem set (h : Keeps P cache) (hnew : P path timestamp digest) :
    Keeps P (cache.set path (djb2HashPath path) timestamp digest) := by
  unfold DigestCache.set
  cases hlookup : cache.table.lookup (djb2HashPath path) path with
  | none =>
      have hfresh : ∀ r ∈ cache.table.walk, r.string ≠ path := fun r hr hstring =>
        h.distinct.valid.lookup_eq_none.mp hlookup r hr ⟨hstring ▸ h.distinct.hash r hr, hstring⟩
      refine ⟨h.distinct.insert (djb2HashPath_ne_zero path) hfresh _, fun r hr => ?_⟩
      obtain ⟨-, hperm, -⟩ := h.distinct.valid.insert_spec (djb2HashPath_ne_zero path) path
        ⟨digest, timestamp, cache.accessTime⟩
      rcases List.mem_cons.mp (hperm.mem_iff.mp hr) with rfl | hold
      · exact hnew
      · exact h.records r hold
  | some payload =>
      refine ⟨h.distinct.modify (djb2HashPath path) path fun _ => ⟨digest, timestamp, cache.accessTime⟩, fun r hr => ?_⟩
      rcases h.distinct.valid.mem_walk_modify hr with hold | ⟨r', -, rfl, rfl⟩
      · exact h.records r hold
      · exact hnew

theorem of_get (h : Keeps P cache) (hget : (cache.get path (djb2HashPath path) timestamp).1 = some digest) :
    P path timestamp digest := by
  obtain ⟨r, hr, rfl, rfl, rfl⟩ := (DigestCache.get_eq_some_iff h.distinct).mp hget
  exact h.records r hr

end DigestCache.Keeps

variable {config : SignConfig} {fuel : Nat} {digestCache : DigestCache} {path : CString} {file : FileAndHash}

/-- The hash that comes with a file is that of its path. -/
def PathHashed (file : FileAndHash) : Prop := file.filenameHash = djb2HashPath file.filename

/-- What is fed for the contents of a file is in a record for its timestamp, or is what would be fed without the
cache; the cache gets no record but one of the file as it is. -/
theorem computeFileSignatureSha1_cases {P : CString → UInt64 → HashDigest → Prop} (h : digestCache.Keeps P)
    (hfile : PathHashed file)
    (hnew : ∀ digest, (config.fs.info file.filename).exists = true →
    (config.fs.read file.filename).digest = some digest → P file.filename (config.fs.info file.filename).timestamp digest) :
    (computeFileSignatureSha1 config digestCache file).2.Keeps P ∧
      ((computeFileSignatureSha1 config digestCache file).1 = contentSignature config file.filename ∨
        (config.fs.info file.filename).exists = true ∧ ∃ digest, P file.filename
        (config.fs.info file.filename).timestamp digest ∧
          (computeFileSignatureSha1 config digestCache file).1 = digest.bytes) := by
  unfold computeFileSignatureSha1 contentSignature
  rw [hfile]
  cases hexists : (config.fs.info file.filename).exists with
  | false =>
      simp only [hexists, Bool.false_eq_true, not_false_eq_true, if_true, if_false]
      exact ⟨h, .inl trivial⟩
  | true =>
      simp only [hexists, not_true_eq_false, if_true, if_false]
      have hkept := h.get file.filename (config.fs.info file.filename).timestamp
      have hfound := fun digest => @DigestCache.Keeps.of_get _ _ file.filename
        (config.fs.info file.filename).timestamp digest h
      generalize digestCache.get file.filename (djb2HashPath file.filename) (config.fs.info file.filename).timestamp =
        answer at hkept hfound
      obtain ⟨hit, kept⟩ := answer
      cases hit with
      | some digest => exact ⟨hkept, .inr ⟨trivial, digest, hfound digest rfl, rfl⟩⟩
      | none =>
          cases hread : config.fs.read file.filename with
          | cannotOpen => exact ⟨hkept, .inl rfl⟩
          | readFails => exact ⟨hkept.set (hnew (hashDigest []) hexists (by rw [hread]; rfl)), .inl rfl⟩
          | bytes data => exact ⟨hkept.set (hnew (hashDigest data) hexists (by rw [hread]; rfl)), .inl rfl⟩

theorem computeFileSignatureSha1_eq (h : DigestSound config.fs digestCache) (hfile : PathHashed file) :
    (computeFileSignatureSha1 config digestCache file).1 = contentSignature config file.filename ∧
      DigestSound config.fs (computeFileSignatureSha1 config digestCache file).2 := by
  obtain ⟨hkept, hplain | ⟨hexists, digest, hdigest, hbytes⟩⟩ :=
    computeFileSignatureSha1_cases h hfile fun _ _ hread _ _ => hread
  · exact ⟨hplain, hkept⟩
  · refine ⟨?_, hkept⟩
    rw [hbytes, contentSignature, if_pos hexists, hdigest hexists rfl]

theorem signFile_eq (h : DigestSound config.fs digestCache) (hfile : PathHashed file) :
    (signFile config digestCache file).1 = plainFile config file ∧ DigestSound config.fs
    (signFile config digestCache file).2 := by
  obtain ⟨hbytes, hkept⟩ := computeFileSignatureSha1_eq h hfile
  unfold signFile plainFile computeFileSignature plainSignature
  cases extension file.filename with
  | none => exact ⟨rfl, h⟩
  | some ext =>
      dsimp only
      split_ifs
      · exact ⟨by rw [hbytes], hkept⟩
      · exact ⟨rfl, h⟩

theorem signFiles_eq (files : List FileAndHash) :
    ∀ digestCache, DigestSound config.fs digestCache → (∀ file ∈ files, PathHashed file) →
    (signFiles config digestCache files).1 = files.flatMap (plainFile config) ∧
      DigestSound config.fs (signFiles config digestCache files).2 := by
  induction files with
  | nil => exact fun digestCache h _ => ⟨rfl, h⟩
  | cons file files ih =>
      intro digestCache h hfiles
      obtain ⟨hfirst, hkept⟩ := signFile_eq h (hfiles file List.mem_cons_self)
      obtain ⟨hrest, hkept'⟩ := ih _ hkept fun f hf => hfiles f (List.mem_cons_of_mem _ hf)
      refine ⟨?_, hkept'⟩
      rw [List.flatMap_cons, ← hfirst, ← hrest]
      rfl

/-! ### One node -/

/-- The caches say about these files what the file system says now. -/
structure SignCaches.Sound (fs : FileSystem) (scanner : Option ScannerData) (files : Set CString)
    (caches : SignCaches) : Prop where
  scan : ∀ s ∈ scanner, CacheSound fs s files caches.scanCache
  digest : DigestSound fs caches.digestCache

theorem pathHashed_of_searchLoop {fs : FileSystem} {scanner : ScannerData} {root : CString} {files : List FileAndHash}
    (h : searchLoop fs scanner fuel ⟨.init, [root]⟩ = .ok files) : ∀ file ∈ files, PathHashed file := by
  obtain ⟨seen, rfl, -⟩ := searchLoop_ok fuel ⟨[], [root]⟩ files .start (fun f hf hnot => by
    rcases hf with rfl | hf
    · exact absurd (List.mem_singleton_self _) hnot
    · cases hf) h
  exact (listing_spec seen).2

/-- The files that a node with this scanner and these inputs can meet. -/
def metFiles (fs : FileSystem) (scanner : Option ScannerData) (inputs : List FileAndHash) : Set CString :=
  {f | ∃ s ∈ scanner, ∃ input ∈ inputs, f ∈ reachable fs s input.filename}

theorem closed_metFiles {fs : FileSystem} {scanner : Option ScannerData} {inputs : List FileAndHash}
    {s : ScannerData} (hs : s ∈ scanner) :
    Closed fs s (metFiles fs scanner inputs) := by
  rintro f ⟨s', hs', input, hinput, hf⟩ found hfound g hg
  obtain rfl := Option.mem_unique hs hs'
  exact ⟨s, hs, input, hinput, closed_reachable f hf found hfound g hg⟩

/-- No two of the files a node can meet that exist with the same timestamp have the same key in the scan cache. -/
def KeysTell (fs : FileSystem) (scanner : Option ScannerData) (files : Set CString) :
    Prop := ∀ s ∈ scanner, KeysApart fs s files

variable {scanner : Option ScannerData} {files : Set CString} {caches : SignCaches}

theorem signInputs_cons_eq (hkeys : KeysTell config.fs scanner files)
    (hclosed : ∀ s ∈ scanner, Closed config.fs s files) (hsound : caches.Sound config.fs scanner files)
    {input : FileAndHash} (inputs : List FileAndHash) (hhashed : PathHashed input)
    (hinput : ∀ s ∈ scanner, input.filename ∈ files) :
    plainInput config fuel scanner input = none ∧ signInputs config fuel scanner caches (input :: inputs) = none ∨
    ∃ pieces caches', plainInput config fuel scanner input = some pieces ∧ caches'.Sound config.fs scanner files ∧
      signInputs config fuel scanner caches (input :: inputs) =
        (signInputs config fuel scanner caches' inputs).map fun rest => (pieces ++ rest.1, rest.2) := by
  obtain ⟨hfirst, hkept⟩ := signFile_eq hsound.digest hhashed
  simp only [signInputs, hfirst, plainInput, plainIncludes]
  cases scanner with
  | none =>
      refine .inr ⟨_, ⟨caches.scanCache, (signFile config caches.digestCache input).2⟩, rfl,
        ⟨fun s hs => (by cases hs), hkept⟩, ?_⟩
      simp
  | some s =>
      have hstack : ∀ f ∈ [input.filename], f ∈ files := fun f hf => List.mem_singleton.mp hf ▸ hinput s rfl
      obtain ⟨hsearch, hscan⟩ :=
        scanLoop_eq (hclosed s rfl) (hkeys s rfl) fuel ⟨.init, [input.filename]⟩ caches.scanCache
        (hsound.scan s rfl) hstack
      simp only [scanImplicitDeps]
      cases hreturned : scanLoop config.fs s fuel ⟨.init, [input.filename]⟩ caches.scanCache with
      | croaked =>
          rw [hreturned] at hsearch
          exact .inl ⟨by rw [← hsearch]; rfl, rfl⟩
      | outOfFuel =>
          rw [hreturned] at hsearch
          exact .inl ⟨by rw [← hsearch]; rfl, rfl⟩
      | returned found scanCache =>
          rw [hreturned] at hsearch
          obtain ⟨hincluded, hkept'⟩ := signFiles_eq found _ hkept (pathHashed_of_searchLoop hsearch.symm)
          refine .inr ⟨plainFile config input ++ found.flatMap (plainFile config),
            ⟨scanCache, (signFiles config (signFile config caches.digestCache input).2 found).2⟩, ?_, ⟨fun s' hs' => ?_, hkept'⟩, ?_⟩
          · rw [← hsearch]
            rfl
          · obtain rfl := Option.some.inj hs'
            exact hscan found scanCache hreturned
          · simp only [hincluded, Option.bind_some]

theorem signInputs_eq (hkeys : KeysTell config.fs scanner files) (hclosed : ∀ s ∈ scanner, Closed config.fs s files)
    (inputs : List FileAndHash) :
    ∀ caches : SignCaches, caches.Sound config.fs scanner files → (∀ input ∈ inputs, PathHashed input) →
      (∀ s ∈ scanner, ∀ input ∈ inputs, input.filename ∈ files) →
      (signInputs config fuel scanner caches inputs).map Prod.fst =
      (inputs.mapM (plainInput config fuel scanner)).map List.flatten := by
  induction inputs with
  | nil => exact fun caches _ _ _ => rfl
  | cons input inputs ih =>
      intro caches hsound hhashed hfiles
      have hinput := fun s hs => hfiles s hs input List.mem_cons_self
      rw [List.mapM_cons]
      rcases signInputs_cons_eq hkeys hclosed hsound inputs (hhashed input List.mem_cons_self) hinput with
        ⟨hplain, hnone⟩ | ⟨pieces, caches', hplain, hkept, hcons⟩
      · rw [hplain, hnone]
        rfl
      · have hrest := ih caches' hkept (fun f hf => hhashed f (List.mem_cons_of_mem _ hf))
          fun s hs f hf => hfiles s hs f (List.mem_cons_of_mem _ hf)
        rw [hplain, hcons, Option.map_map]
        cases hsigned : signInputs config fuel scanner caches' inputs with
        | none =>
            rw [hsigned] at hrest
            have hnone := Option.map_eq_none_iff.mp hrest.symm
            simp [hnone]
        | some result =>
            rw [hsigned] at hrest
            obtain ⟨rest, hrest', hflatten⟩ := Option.map_eq_some_iff.mp hrest.symm
            simp [hrest', ← hflatten]

/-- With sound caches `CheckInputSignature` feeds what it would feed without them. -/
theorem inputPieces_eq {nodeData : NodeData}
    (hkeys : KeysTell config.fs nodeData.scanner (metFiles config.fs nodeData.scanner nodeData.inputFiles))
    (hhashed : ∀ input ∈ nodeData.inputFiles, PathHashed input)
    (hsound : caches.Sound config.fs nodeData.scanner (metFiles config.fs nodeData.scanner nodeData.inputFiles))
    (fuel : Nat) :
    (inputPieces config fuel nodeData caches).map Prod.fst = plainPieces config fuel nodeData := by
  have hinputs : (signInputs config fuel nodeData.scanner caches nodeData.inputFiles).map Prod.fst = _ :=
    signInputs_eq hkeys (fun s hs => closed_metFiles hs) nodeData.inputFiles caches hsound hhashed
      fun s hs input hinput => ⟨s, hs, input, hinput, .refl⟩
  unfold inputPieces plainPieces
  rw [Option.map_map]
  cases hsigned : signInputs config fuel nodeData.scanner caches nodeData.inputFiles with
  | none =>
      rw [hsigned] at hinputs
      rw [Option.map_eq_none_iff.mp hinputs.symm]
      rfl
  | some result =>
      rw [hsigned] at hinputs
      obtain ⟨rest, hrest, hflatten⟩ := Option.map_eq_some_iff.mp hinputs.symm
      rw [hrest]
      cases nodeData.preAction <;> simp [hflatten]

end Tundra
