import Tundra.Signature

/-!
# The stream of a signature can be read back

What `CheckInputSignature` feeds to the hash has no lengths in it, and a separator only behind the commands. It
can be taken apart all the same when the files are signed by their timestamps: the timestamp of an existing file
begins with two zero bytes, that of a missing one is all ones, and no path has such bytes in it. A single zero
byte ends a command; two of them belong to a timestamp.
-/

namespace Tundra

open Bytes

section Files

variable (config : SignConfig) (fuel : Nat) (scanner : Option ScannerData)

/-- The files whose paths and signatures are fed for these inputs, in order. -/
def signedFiles : ScanCache → List FileAndHash → Option (List FileAndHash)
  | _, [] => some []
  | scanCache, input :: inputs =>
      match scanner with
      | none => (signedFiles scanCache inputs).map fun rest => input :: rest
      | some scanner =>
          match scanImplicitDeps config.fs scanner fuel input.filename scanCache with
          | .returned files scanCache => (signedFiles scanCache inputs).map fun rest => input :: (files ++ rest)
          | .croaked | .outOfFuel => none

end Files

/-- `ComputeFileSignature` takes the timestamp of the file. -/
def TimestampSigned (config : SignConfig) (file : FileAndHash) : Prop :=
  ∀ ext, extension file.filename = some ext → djb2HashPath ext ∉ config.shaDigestExtensions

/-- The timestamp of a file, if it exists. -/
def fileStamp (config : SignConfig) (file : FileAndHash) : Option UInt64 :=
  let info := config.fs.info file.filename
  if info.exists then some info.timestamp else none

/-- What can be read back for a file. -/
def signedEntry (config : SignConfig) (file : FileAndHash) :
    CString × Option UInt64 := (file.filename, fileStamp config file)

/-- The bytes of a path and a timestamp. -/
def entryBytes (entry : CString × Option UInt64) :
    List UInt8 := entry.1.bytes ++ bigEndian (entry.2.getD 0xffffffffffffffff)

/-- A path that is not empty and has no byte of all ones, with a timestamp that begins with two zero bytes. -/
def PlainEntry (entry : CString × Option UInt64) : Prop :=
  entry.1.bytes ≠ [] ∧ 255 ∉ entry.1.bytes ∧ ∀ timestamp ∈ entry.2, timestamp.toNat < 2 ^ 48

/-! ### Entries -/

theorem length_bigEndian (value : UInt64) : (bigEndian value).length = 8 := by simp [bigEndian]

theorem bigEndian_injective : Function.Injective bigEndian := by
  intro l r h
  have hle := congrArg ofLE (List.reverse_injective h)
  rwa [ofLE_toLE_of_lt l.toNat_lt, ofLE_toLE_of_lt r.toNat_lt, UInt64.toNat_inj] at hle

theorem bigEndian_small {value : UInt64} (h : value.toNat < 2 ^ 48) : ∃ rest, bigEndian value = 0 :: 0 :: rest := by
  have hseventh : value.toNat / 256 / 256 / 256 / 256 / 256 / 256 = 0 := by omega
  simp only [bigEndian, toLE, hseventh]
  exact ⟨_, rfl⟩

theorem bigEndian_missing : bigEndian 0xffffffffffffffff = List.replicate 8 255 := by decide +kernel

/-- A byte that ends a path. -/
def isMark (b : UInt8) : Bool := b = 0 || b = 255

/-- The bytes of a timestamp begin with a zero byte and another one, or with a byte of all ones. -/
theorem stamp_cases {stamp : Option UInt64} (h : ∀ timestamp ∈ stamp, timestamp.toNat < 2 ^ 48) :
    (∃ rest, bigEndian (stamp.getD 0xffffffffffffffff) = 0 :: 0 :: rest) ∨
      ∃ rest, bigEndian (stamp.getD 0xffffffffffffffff) = 255 :: rest := by
  cases stamp with
  | none => exact .inr ⟨List.replicate 7 255, bigEndian_missing⟩
  | some timestamp => exact .inl (bigEndian_small (h timestamp rfl))

theorem stamp_mark {stamp : Option UInt64} (h : ∀ timestamp ∈ stamp, timestamp.toNat < 2 ^ 48) :
    ∃ mark rest, bigEndian (stamp.getD 0xffffffffffffffff) = mark :: rest ∧ isMark mark = true := by
  rcases stamp_cases h with ⟨rest, hrest⟩ | ⟨rest, hrest⟩
  · exact ⟨0, 0 :: rest, hrest, rfl⟩
  · exact ⟨255, rest, hrest, rfl⟩

/-- All ones is no timestamp that begins with two zero bytes, so the bytes say which it is. -/
theorem stamp_injective {l r : Option UInt64} (hl : ∀ timestamp ∈ l, timestamp.toNat < 2 ^ 48)
    (hr : ∀ timestamp ∈ r, timestamp.toNat < 2 ^ 48)
    (h : bigEndian (l.getD 0xffffffffffffffff) = bigEndian (r.getD 0xffffffffffffffff)) : l = r := by
  have hones : ¬ (0xffffffffffffffff : UInt64).toNat < 2 ^ 48 := by decide
  have hvalue := bigEndian_injective h
  cases l with
  | none =>
      cases r with
      | none => rfl
      | some timestamp =>
          refine absurd (hr timestamp rfl) ?_
          rwa [← show (0xffffffffffffffff : UInt64) = timestamp from hvalue]
  | some timestamp =>
      cases r with
      | none =>
          refine absurd (hl timestamp rfl) ?_
          rwa [show timestamp = (0xffffffffffffffff : UInt64) from hvalue]
      | some timestamp' => exact congrArg some hvalue

theorem bytes_mark_inj {a b : CString} {m n : UInt8} {r t : List UInt8} (ha : 255 ∉ a.bytes) (hb : 255 ∉ b.bytes)
    (hm : isMark m = true) (hn : isMark n = true) (h : a.bytes ++ m :: r = b.bytes ++ n :: t) :
    a = b ∧ m :: r = n :: t := by
  have hcut : ∀ (s : CString) (mark : UInt8) (rest : List UInt8), 255 ∉ s.bytes → isMark mark = true →
      (s.bytes ++ mark :: rest).takeWhile (fun c => !isMark c) = s.bytes := by
    intro s mark rest hs hmark
    rw [List.takeWhile_append_of_pos]
    · simp [hmark]
    · intro c hc
      have hzero : c ≠ 0 := fun h => s.noNul (h ▸ hc)
      have hones : c ≠ 255 := fun h => hs (h ▸ hc)
      simp [isMark, hzero, hones]
  have hbytes : a.bytes = b.bytes := by rw [← hcut a m r ha hm, ← hcut b n t hb hn, h]
  obtain ⟨a, hnul⟩ := a
  obtain ⟨b, hnul'⟩ := b
  obtain rfl : a = b := hbytes
  exact ⟨rfl, List.append_cancel_left h⟩

theorem entries_unique {ls : List (CString × Option UInt64)} :
    ∀ {rs : List (CString × Option UInt64)}, (∀ entry ∈ ls, PlainEntry entry) →
    (∀ entry ∈ rs, PlainEntry entry) → ls.flatMap entryBytes = rs.flatMap entryBytes → ls = rs := by
  induction ls with
  | nil =>
      intro rs _ hrs h
      cases rs with
      | nil => rfl
      | cons r rs =>
          have hempty : r.1.bytes = [] := by
            have hnil := List.append_eq_nil_iff.mp h.symm
            exact (List.append_eq_nil_iff.mp hnil.1).1
          exact absurd hempty (hrs r List.mem_cons_self).1
  | cons l ls ih =>
      intro rs hls hrs h
      have hl := hls l List.mem_cons_self
      cases rs with
      | nil =>
          have hempty : l.1.bytes = [] := by
            have hnil := List.append_eq_nil_iff.mp h
            exact (List.append_eq_nil_iff.mp hnil.1).1
          exact absurd hempty hl.1
      | cons r rs =>
          have hr := hrs r List.mem_cons_self
          obtain ⟨m, ltail, hlstamp, hm⟩ := stamp_mark hl.2.2
          obtain ⟨n, rtail, hrstamp, hn⟩ := stamp_mark hr.2.2
          simp only [List.flatMap_cons, entryBytes, List.append_assoc] at h
          rw [hlstamp, hrstamp, List.cons_append, List.cons_append] at h
          obtain ⟨hpath, hrest⟩ := bytes_mark_inj hl.2.1 hr.2.1 hm hn h
          rw [← List.cons_append, ← List.cons_append, ← hlstamp, ← hrstamp] at hrest
          obtain ⟨hstamp, htail⟩ := List.append_inj hrest (by rw [length_bigEndian, length_bigEndian])
          have hentry : l = r := Prod.ext hpath (stamp_injective hl.2.2 hr.2.2 hstamp)
          rw [hentry, ih (fun entry hmem => hls entry (List.mem_cons_of_mem _ hmem))
            (fun entry hmem => hrs entry (List.mem_cons_of_mem _ hmem))
            htail]

theorem entries_ne_zero {entries : List (CString × Option UInt64)} (hplain : ∀ entry ∈ entries, PlainEntry entry)
    (rest : List UInt8) :
    entries.flatMap entryBytes ≠ 0 :: rest := by
  intro h
  cases entries with
  | nil => cases h
  | cons entry entries =>
      obtain ⟨hne, -⟩ := hplain entry List.mem_cons_self
      obtain ⟨c, path, hpath⟩ := List.exists_cons_of_ne_nil hne
      simp only [List.flatMap_cons, entryBytes, hpath, List.cons_append, List.cons.injEq] at h
      exact entry.1.noNul (hpath ▸ h.1 ▸ List.mem_cons_self)

theorem command_ne_entries {command : CString} {entries entries' : List (CString × Option UInt64)}
    (hcommand : 255 ∉ command.bytes) (hplain : ∀ entry ∈ entries, PlainEntry entry)
    (hplain' : ∀ entry ∈ entries', PlainEntry entry) :
    command.bytes ++ 0 :: entries.flatMap entryBytes ≠ entries'.flatMap entryBytes := by
  intro h
  cases entries' with
  | nil =>
      rw [List.flatMap_nil, List.append_eq_nil_iff] at h
      cases h.2
  | cons entry entries' =>
      obtain ⟨hne, hones, hstamp⟩ := hplain' entry List.mem_cons_self
      simp only [List.flatMap_cons, entryBytes, List.append_assoc] at h
      -- the path is the command, and what follows it begins with a single zero byte
      rcases stamp_cases hstamp with ⟨tail, htail⟩ | ⟨tail, htail⟩
      · rw [htail] at h
        obtain ⟨-, hrest⟩ := bytes_mark_inj hcommand hones rfl rfl h
        exact entries_ne_zero hplain _ (List.cons.inj hrest).2
      · rw [htail] at h
        obtain ⟨-, hrest⟩ := bytes_mark_inj hcommand hones rfl rfl h
        cases (List.cons.inj hrest).1

/-! ### Nodes -/

variable {config : SignConfig} {fuel : Nat} {scanner : Option ScannerData}

theorem signFile_timestamp {digestCache : DigestCache} {file : FileAndHash} (h : TimestampSigned config file) :
    signFile config digestCache file =
    ([file.filename.bytes, bigEndian ((fileStamp config file).getD 0xffffffffffffffff)], digestCache) := by
  have hstamp : computeFileSignatureTimestamp config file =
    bigEndian ((fileStamp config file).getD 0xffffffffffffffff) := by
    simp only [computeFileSignatureTimestamp, fileStamp]
    split_ifs <;> rfl
  simp only [signFile, computeFileSignature, hstamp]
  cases hext : extension file.filename with
  | none => rfl
  | some ext => simp only [if_neg (h ext hext)]

theorem signFiles_timestamps {files : List FileAndHash} (h : ∀ file ∈ files, TimestampSigned config file)
    (digestCache : DigestCache) :
    (signFiles config digestCache files).1.flatten = (files.map (signedEntry config)).flatMap entryBytes := by
  induction files generalizing digestCache with
  | nil => rfl
  | cons file files ih =>
      have htail := ih (fun file hmem => h file (List.mem_cons_of_mem _ hmem)) digestCache
      simp only [signFiles, signFile_timestamp (h file List.mem_cons_self), List.map_cons, List.flatMap_cons,
        List.flatten_append, htail]
      simp [entryBytes, signedEntry]

theorem signInputs_timestamps {inputs : List FileAndHash} : ∀ {caches caches' : SignCaches} {pieces : List (List UInt8)}
    {files : List FileAndHash}, signInputs config fuel scanner caches inputs = some (pieces, caches') →
    signedFiles config fuel scanner caches.scanCache inputs = some files →
    (∀ file ∈ files, TimestampSigned config file) →
      pieces.flatten = (files.map (signedEntry config)).flatMap entryBytes := by
  induction inputs with
  | nil =>
      intro caches caches' pieces files hpieces hfiles _
      cases hpieces
      cases hfiles
      rfl
  | cons input inputs ih =>
      intro caches caches' pieces files hpieces hfiles hsigned
      simp only [signInputs, Option.bind_eq_some_iff, Option.map_eq_some_iff, Prod.mk.injEq, Prod.exists] at hpieces
      obtain ⟨included, between, hscanned, rest, _, hrest, rfl, rfl⟩ := hpieces
      cases scanner with
      | none =>
          cases hscanned
          obtain ⟨files, htail, rfl⟩ := Option.map_eq_some_iff.mp hfiles
          have hflatten := ih hrest htail fun file hmem => hsigned file (List.mem_cons_of_mem _ hmem)
          rw [signFile_timestamp (hsigned input List.mem_cons_self)]
          simp [hflatten, entryBytes, signedEntry]
      | some scanner =>
          simp only [signedFiles] at hfiles
          cases hscan : scanImplicitDeps config.fs scanner fuel input.filename caches.scanCache with
          | croaked => simp [hscan] at hfiles
          | outOfFuel => simp [hscan] at hfiles
          | returned found scanCache =>
              simp only [hscan, Option.some.injEq, Prod.mk.injEq] at hscanned hfiles
              obtain ⟨rfl, rfl⟩ := hscanned
              obtain ⟨files, htail, rfl⟩ := Option.map_eq_some_iff.mp hfiles
              have hflatten := ih hrest htail fun file hmem =>
                hsigned file (List.mem_cons_of_mem _ (List.mem_append_right _ hmem))
              rw [List.flatten_append, List.flatten_append, hflatten,
                signFiles_timestamps fun file hmem => hsigned file
                  (List.mem_cons_of_mem _ (List.mem_append_left _ hmem)),
                signFile_timestamp (hsigned input List.mem_cons_self)]
              simp [entryBytes, signedEntry]

/-- The condition on a signed file: it is signed by its timestamp, and its path and timestamp can be read back. -/
def PlainFile (config : SignConfig) (file : FileAndHash) :
    Prop := TimestampSigned config file ∧ PlainEntry (signedEntry config file)

/-- When two nodes feed the same bytes to the hash, they have the same commands, and the same files with the
same timestamps are signed for them. -/
theorem signature_stream_decodes {n₁ n₂ : NodeData} {config₁ config₂ : SignConfig} {fuel₁ fuel₂ : Nat}
    {caches₁ caches₂ caches₁' caches₂' : SignCaches} {pieces₁ pieces₂ : List (List UInt8)}
    {files₁ files₂ : List FileAndHash} (h₁ : inputPieces config₁ fuel₁ n₁ caches₁ = some (pieces₁, caches₁'))
    (h₂ : inputPieces config₂ fuel₂ n₂ caches₂ = some (pieces₂, caches₂'))
    (hfiles₁ : signedFiles config₁ fuel₁ n₁.scanner caches₁.scanCache n₁.inputFiles = some files₁)
    (hfiles₂ : signedFiles config₂ fuel₂ n₂.scanner caches₂.scanCache n₂.inputFiles = some files₂)
    (hplain₁ : ∀ file ∈ files₁, PlainFile config₁ file) (hplain₂ : ∀ file ∈ files₂, PlainFile config₂ file)
    (hpre₁ : ∀ preAction ∈ n₁.preAction, 255 ∉ preAction.bytes)
    (hpre₂ : ∀ preAction ∈ n₂.preAction, 255 ∉ preAction.bytes) (heq : pieces₁.flatten = pieces₂.flatten) :
    n₁.action = n₂.action ∧ n₁.preAction = n₂.preAction ∧ files₁.map (signedEntry config₁) = files₂.map
    (signedEntry config₂) := by
  obtain ⟨inputs₁, hinputs₁, hflatten₁⟩ := inputPieces_flatten h₁
  obtain ⟨inputs₂, hinputs₂, hflatten₂⟩ := inputPieces_flatten h₂
  rw [signInputs_timestamps hinputs₁ hfiles₁ fun file hmem => (hplain₁ file hmem).1] at hflatten₁
  rw [signInputs_timestamps hinputs₂ hfiles₂ fun file hmem => (hplain₂ file hmem).1] at hflatten₂
  have hentries₁ : ∀ entry ∈ files₁.map (signedEntry config₁), PlainEntry entry :=
    List.forall_mem_map.mpr fun file hmem => (hplain₁ file hmem).2
  have hentries₂ : ∀ entry ∈ files₂.map (signedEntry config₂), PlainEntry entry :=
    List.forall_mem_map.mpr fun file hmem => (hplain₂ file hmem).2
  obtain ⟨haction, hrest⟩ := bytes_zero_inj (hflatten₁.symm.trans (heq.trans hflatten₂))
  refine ⟨haction, ?_⟩
  cases hpreAction₁ : n₁.preAction with
  | none =>
      cases hpreAction₂ : n₂.preAction with
      | none =>
          rw [hpreAction₁, hpreAction₂] at hrest
          exact ⟨rfl, entries_unique hentries₁ hentries₂ hrest⟩
      | some preAction₂ =>
          rw [hpreAction₁, hpreAction₂] at hrest
          exact absurd hrest.symm (command_ne_entries (hpre₂ preAction₂ hpreAction₂) hentries₂ hentries₁)
  | some preAction₁ =>
      cases hpreAction₂ : n₂.preAction with
      | none =>
          rw [hpreAction₁, hpreAction₂] at hrest
          exact absurd hrest (command_ne_entries (hpre₁ preAction₁ hpreAction₁) hentries₁ hentries₂)
      | some preAction₂ =>
          rw [hpreAction₁, hpreAction₂] at hrest
          obtain ⟨hpre, hinputs⟩ := bytes_zero_inj hrest
          exact ⟨congrArg some hpre, entries_unique hentries₁ hentries₂ hinputs⟩

/-- A node with a pre-action, an input file that exists and one that does not. -/
def missingInputNode (envVars : List EnvVarData) : NodeData :=
  { NodeData.empty with
    action := .lit "cc", preAction := some (.lit "x"), envVars := envVars
    inputFiles := [.ofPath (.lit "a"), .ofPath (.lit "b")] }

/-- What is fed for this node. -/
def missingInputPieces : List (List UInt8) :=
  [(CString.lit "cc").bytes, separator, (CString.lit "x").bytes, separator, (CString.lit "a").bytes, bigEndian 5,
    (CString.lit "b").bytes,
    bigEndian 0xffffffffffffffff]

def smallTimestamps (files : List (String × UInt64)) : SignConfig := ⟨mtimeFiles files, []⟩

theorem plainFile_smallTimestamps (files : List (String × UInt64))
    (hfiles : files = [("a", 5)] ∨ files = [("a", 5), ("z", 7)]) :
    ∀ file ∈ [FileAndHash.ofPath (.lit "a"), .ofPath (.lit "b")], PlainFile (smallTimestamps files) file := by
  have hentries : ∀ config, config = smallTimestamps [("a", 5)] ∨ config = smallTimestamps [("a", 5), ("z", 7)] →
      signedEntry config (.ofPath (.lit "a")) = (.lit "a", some 5) ∧
        signedEntry config (.ofPath (.lit "b")) = (.lit "b", none) := by
    rintro config (rfl | rfl) <;> decide +kernel
  obtain ⟨ha, hb⟩ := hentries (smallTimestamps files) (by rcases hfiles with rfl | rfl <;> simp)
  intro file hmem
  refine ⟨fun ext _ => List.not_mem_nil, ?_⟩
  simp only [List.mem_cons, List.not_mem_nil, or_false] at hmem
  rcases hmem with rfl | rfl
  · rw [ha]
    exact ⟨by decide +kernel, by decide +kernel, fun timestamp h => by cases h; decide⟩
  · rw [hb]
    exact ⟨by decide +kernel, by decide +kernel, fun timestamp h => by cases h⟩

/-- Two nodes that differ in their environment variables, when another file is there for the second one. -/
theorem signature_stream_decodes_missing :
    (missingInputNode []).preAction = (missingInputNode [⟨.lit "LANG", .lit "C"⟩]).preAction ∧
      [FileAndHash.ofPath (.lit "a"), .ofPath (.lit "b")].map (signedEntry (smallTimestamps [("a", 5)])) =
        [FileAndHash.ofPath (.lit "a"), .ofPath (.lit "b")].map
        (signedEntry (smallTimestamps [("a", 5), ("z", 7)])) := by
  have hpre : ∀ envVars, ∀ preAction ∈ (missingInputNode envVars).preAction, 255 ∉ preAction.bytes := by
    rintro envVars preAction h
    obtain rfl : CString.lit "x" = preAction := Option.some.inj h
    decide +kernel
  have h₁ : inputPieces (smallTimestamps [("a", 5)]) 1 (missingInputNode []) emptyCaches =
    some (missingInputPieces, emptyCaches) := rfl
  have h₂ : inputPieces (smallTimestamps [("a", 5), ("z", 7)]) 1 (missingInputNode [⟨.lit "LANG", .lit "C"⟩])
    emptyCaches =
      some (missingInputPieces, emptyCaches) := rfl
  exact (signature_stream_decodes h₁ h₂ rfl rfl (plainFile_smallTimestamps _ (.inl rfl))
    (plainFile_smallTimestamps _ (.inr rfl))
    (hpre []) (hpre _) rfl).2

end Tundra
