import Tundra.Hash
import Tundra.HashTable.FiniteMap
import Tundra.StatCache
import Tundra.Lib.SortedSets

/-!
# Directory fingerprints

`ListDirectory` of `FileInfo.cpp` and `CalculateGlobSignatureFor` of `FileSign.cpp`. The names of the
directories and of the files in a directory are sorted, each kind on its own, and fed to the hash with a
separator behind each name, but with nothing between the two kinds.
-/

namespace Tundra

/-- `IsDirectory` of a `FileInfo`. -/
def FileInfo.isDirectory (info : FileInfo) : Bool := info.flags &&& FileInfo.kFlagDirectory != 0

/-- What the operating system says about directories: the names in one, in the order `readdir_r` gives them, and
what is behind a path. -/
structure DirectoryView where
  readdir : CString → Option (List CString)
  stat : CString → StatResult

/-- `ShouldFilter`: entries that come and go without a meaning for the build. -/
def shouldFilter (name : CString) : Bool :=
  let len := name.bytes.length
  name.bytes = [46] || name.bytes = [46, 46] ||
    (4 ≤ len && name.bytes.head? = some 46 && (CString.lit ".swp").bytes.isSuffixOf name.bytes) ||
    (CString.lit ".tundra2.").bytes.isPrefixOf name.bytes ||
    (1 < len && name.bytes.getLast? = some 126)

/-- `sizeof full_fn`. -/
def fullNameSize : Nat := 512

def listDirectory (fs : DirectoryView) (path : CString) : List (FileInfo × CString) :=
  if path.bytes.length + 1 > fullNameSize then []
  else
    let names := ((fs.readdir path).getD []).filter fun name =>
      !shouldFilter name && name.bytes.length + path.bytes.length + 2 < fullNameSize
    names.map fun name => (getFileInfo (fs.stat (path ++ .lit "/" ++ name)), name)

/-- `SortStringPtrs` lets the one in front of the other. -/
def InOrder (l r : CString) : Prop := strcmp l.bytes r.bytes ≤ 0

instance : DecidableRel InOrder := fun l r => inferInstanceAs (Decidable (strcmp l.bytes r.bytes ≤ 0))

/-- The `qsort` of an array of names. -/
def sortNames (names : List CString) : List CString := names.insertionSort InOrder

/-- The names of the directories, or of the files, of a listing. -/
def listedNames (directories : Bool) (listing : List (FileInfo × CString)) : List CString :=
  (listing.filter fun entry => entry.1.isDirectory = directories).map Prod.snd

/-- What `CalculateGlobSignatureFor` feeds to the hash, piece by piece. -/
def globPieces (listing : List (FileInfo × CString)) : List (List UInt8) :=
  (sortNames (listedNames true listing) ++ sortNames (listedNames false listing)).flatMap
    fun name => [name.bytes, separator]

def globStream (listing : List (FileInfo × CString)) : List UInt8 := (globPieces listing).flatten

def calculateGlobSignatureFor (fs : DirectoryView) (path : CString) : HashDigest :=
  hashFinalize ((globPieces (listDirectory fs path)).foldl hashUpdate hashInit)

theorem calculateGlobSignatureFor_eq (fs : DirectoryView) (path : CString) :
    calculateGlobSignatureFor fs path = hashDigest (globStream (listDirectory fs path)) := by
  rw [calculateGlobSignatureFor, foldl_hashUpdate]
  rfl

/-! ### The order of names -/

theorem strcmp_le_zero_iff {l r : List UInt8} (hl : (0 : UInt8) ∉ l) : strcmp l r ≤ 0 ↔ l ≤ r := by
  induction l generalizing r with
  | nil =>
      cases r with
      | nil => simp [strcmp]
      | cons r rs => simp [strcmp]
  | cons l ls ih =>
      rw [List.mem_cons, not_or] at hl
      cases r with
      | nil =>
          have hne : l.toNat ≠ 0 := fun h => hl.1 (UInt8.toNat_inj.mp h).symm
          simpa [strcmp] using hne
      | cons r rs =>
          rw [strcmp, List.cons_le_cons_iff]
          by_cases heq : l = r
          · rw [if_pos heq, ih hl.2]
            simp [heq]
          · have hne : l.toNat ≠ r.toNat := fun h => heq (UInt8.toNat_inj.mp h)
            rw [if_neg heq, UInt8.lt_iff_toNat_lt]
            simp only [heq, false_and, or_false]
            omega

theorem inOrder_iff {l r : CString} : InOrder l r ↔ l.bytes ≤ r.bytes := strcmp_le_zero_iff l.noNul

instance :
    IsTrans CString InOrder :=
    ⟨fun _ _ _ hab hbc => inOrder_iff.mpr (List.le_trans (inOrder_iff.mp hab) (inOrder_iff.mp hbc))⟩

instance :
    Std.Antisymm InOrder := ⟨fun _ _ hab hba => CString.ext_bytes
    (List.le_antisymm (inOrder_iff.mp hab) (inOrder_iff.mp hba))⟩

instance : Std.Total InOrder := ⟨fun _ _ => (List.le_total _ _).imp inOrder_iff.mpr inOrder_iff.mpr⟩

/-! ### The stream of a listing -/

/-- A listing with these directories and these other files, in any order. No name is there twice. -/
structure Lists (listing : List (FileInfo × CString)) (content : Finset CString × Finset CString) : Prop where
  nodup : (listing.map Prod.snd).Nodup
  directories : ∀ name, name ∈ content.1 ↔ ∃ info : FileInfo, (info, name) ∈ listing ∧ info.isDirectory = true
  files : ∀ name, name ∈ content.2 ↔ ∃ info : FileInfo, (info, name) ∈ listing ∧ info.isDirectory = false

theorem sortNames_eq {names : List CString} {set : Finset CString} (hnodup : names.Nodup)
    (hmem : ∀ name, name ∈ set ↔ name ∈ names) :
    sortNames names = set.sort InOrder := by
  have hperm := List.perm_insertionSort InOrder names
  refine (SortedSets.sort_eq_of_mem (List.pairwise_insertionSort InOrder names) (hperm.nodup_iff.mpr hnodup)
    fun name => ?_).symm
  rw [hperm.mem_iff, hmem]

theorem mem_listedNames {directories : Bool} {listing : List (FileInfo × CString)} {name : CString} :
    name ∈ listedNames directories listing ↔ ∃ info : FileInfo, (info, name) ∈ listing ∧
    info.isDirectory = directories := by
  simp [listedNames]

namespace Lists

variable {listing listing₁ listing₂ : List (FileInfo × CString)}
  {content content₁ content₂ : Finset CString × Finset CString}

theorem nodup_listedNames (h : Lists listing content) (directories : Bool) : (listedNames directories listing).Nodup :=
  h.nodup.sublist (List.filter_sublist.map Prod.snd)

theorem flatten_pieces (names : List CString) :
    (names.flatMap fun name => [name.bytes, separator]).flatten = names.flatMap fun name => name.bytes ++ [0] := by
  induction names with
  | nil => rfl
  | cons name names ih =>
      rw [List.flatMap_cons, List.flatMap_cons, List.flatten_append, ih]
      simp [separator]

theorem globStream_eq (h : Lists listing content) :
    globStream listing = (content.1.sort InOrder ++ content.2.sort InOrder).flatMap fun name => name.bytes ++ [0] := by
  rw [globStream, globPieces,
    sortNames_eq (h.nodup_listedNames true) fun name => (h.directories name).trans mem_listedNames.symm,
    sortNames_eq (h.nodup_listedNames false) fun name => (h.files name).trans mem_listedNames.symm, flatten_pieces]

end Lists

/-- Names with a zero byte behind each can be told apart. -/
theorem terminated_injective :
    Function.Injective fun names : List CString => names.flatMap fun name => name.bytes ++ [0] := by
  intro l
  induction l with
  | nil =>
      rintro (_ | ⟨name, r⟩) h
      · rfl
      · simp at h
  | cons name l ih =>
      rintro (_ | ⟨other, r⟩) h
      · simp at h
      · have htake : ∀ (s : CString) (rest : List UInt8), (s.bytes ++ 0 :: rest).takeWhile (· ≠ 0) = s.bytes := by
          intro s rest
          rw [List.takeWhile_append_of_pos]
          · simp
          · intro ch hch
            rw [decide_eq_true_eq]
            rintro rfl
            exact s.noNul hch
        simp only [List.flatMap_cons, List.append_assoc, List.singleton_append] at h
        have hname : name = other := by
          apply CString.ext_bytes
          rw [← htake name, h, htake]
        subst hname
        rw [ih (List.cons.inj (List.append_cancel_left h)).2]

namespace Lists

variable {listing₁ listing₂ : List (FileInfo × CString)} {content₁ content₂ : Finset CString × Finset CString}

/-- Two listings have one stream exactly if they have the same contents, or some names moved between the
directories and the files. -/
theorem globStream_eq_iff (h₁ : Lists listing₁ content₁) (h₂ : Lists listing₂ content₂) :
    globStream listing₁ = globStream listing₂ ↔
    content₁ = content₂ ∨ SortedSets.Moved InOrder content₁ content₂ ∨ SortedSets.Moved InOrder content₂ content₁ := by
  rw [h₁.globStream_eq, h₂.globStream_eq, terminated_injective.eq_iff]
  exact SortedSets.sort_append_eq_iff

end Lists

/-- The fingerprint of a directory is the digest of a stream that does not depend on the order of its entries.
Two contents have different streams exactly if they do not differ by names alone that are directories in the one
and files in the other, and that come after all directories and before all files that both have. -/
theorem globSignature_contents {fs₁ fs₂ : DirectoryView} {path₁ path₂ : CString}
    {content₁ content₂ : Finset CString × Finset CString} (h₁ : Lists (listDirectory fs₁ path₁) content₁)
    (h₂ : Lists (listDirectory fs₂ path₂) content₂) :
    (calculateGlobSignatureFor fs₁ path₁ = hashDigest (globStream (listDirectory fs₁ path₁)) ∧
      calculateGlobSignatureFor fs₂ path₂ = hashDigest (globStream (listDirectory fs₂ path₂))) ∧
    (content₁ = content₂ → globStream (listDirectory fs₁ path₁) = globStream (listDirectory fs₂ path₂)) ∧
    ((content₁ ≠ content₂ → globStream (listDirectory fs₁ path₁) ≠ globStream (listDirectory fs₂ path₂)) ↔
      ¬SortedSets.Moved InOrder content₁ content₂ ∧ ¬SortedSets.Moved InOrder content₂ content₁) := by
  have hiff := h₁.globStream_eq_iff h₂
  refine ⟨⟨calculateGlobSignatureFor_eq fs₁ path₁, calculateGlobSignatureFor_eq fs₂ path₂⟩,
    fun hcontent => hiff.mpr (.inl hcontent), ?_⟩
  rw [← not_or]
  constructor
  · intro h hmoved
    have hne : content₁ ≠ content₂ := by
      rintro rfl
      rcases hmoved with hmoved | hmoved <;> exact hmoved.fst_ne rfl
    exact h hne (hiff.mpr (.inr hmoved))
  · intro hmoved hne hstream
    rcases hiff.mp hstream with hcontent | hmoved'
    · exact hne hcontent
    · exact hmoved hmoved'

def contentOf (listing : List (FileInfo × CString)) : Finset CString × Finset CString :=
  ((listedNames true listing).toFinset, (listedNames false listing).toFinset)

theorem lists_contentOf {listing : List (FileInfo × CString)} (h : (listing.map Prod.snd).Nodup) :
    Lists listing (contentOf listing) where
  nodup := h
  directories _ := List.mem_toFinset.trans mem_listedNames
  files _ := List.mem_toFinset.trans mem_listedNames

/-- A directory `src` of these directories and files. -/
def flatFileSystem (directories files : List String) : DirectoryView where
  readdir _ := some ((directories ++ files).map .lit)
  stat path := .found (if path ∈ directories.map fun name => .lit "src/" ++ .lit name then .directory else .regular) 0 0

theorem globSignature_contents_other : contentOf (listDirectory (flatFileSystem ["a"] ["b"]) (.lit "src")) ≠
    contentOf (listDirectory (flatFileSystem ["a"] ["b", "c"]) (.lit "src")) ∧
      globStream (listDirectory (flatFileSystem ["a"] ["b"]) (.lit "src")) ≠ globStream
      (listDirectory (flatFileSystem ["a"] ["b", "c"]) (.lit "src")) := by
  have h₁ : ((listDirectory (flatFileSystem ["a"] ["b"]) (.lit "src")).map Prod.snd).Nodup := by decide +kernel
  have h₂ : ((listDirectory (flatFileSystem ["a"] ["b", "c"]) (.lit "src")).map Prod.snd).Nodup := by decide +kernel
  have hfirst : (contentOf (listDirectory (flatFileSystem ["a"] ["b"]) (.lit "src"))).1 =
      (contentOf (listDirectory (flatFileSystem ["a"] ["b", "c"]) (.lit "src"))).1 := by decide +kernel
  have hdifferent : contentOf (listDirectory (flatFileSystem ["a"] ["b"]) (.lit "src")) ≠
      contentOf (listDirectory (flatFileSystem ["a"] ["b", "c"]) (.lit "src")) := by decide +kernel
  exact ⟨hdifferent, (globSignature_contents (lists_contentOf h₁) (lists_contentOf h₂)).2.2.mpr
    ⟨fun hmoved => hmoved.fst_ne hfirst, fun hmoved => hmoved.fst_ne hfirst.symm⟩ hdifferent⟩

/-- `b` is a file and becomes a directory, and the stream stays as it was. -/
theorem globSignature_retyped :
    ¬∀ (fs₁ fs₂ : DirectoryView) (path : CString) (content₁ content₂ : Finset CString × Finset CString),
    Lists (listDirectory fs₁ path) content₁ → Lists (listDirectory fs₂ path) content₂ → content₁ ≠ content₂ →
      globStream (listDirectory fs₁ path) ≠ globStream (listDirectory fs₂ path) := by
  intro h
  have h₁ : ((listDirectory (flatFileSystem ["b"] ["c"]) (.lit "src")).map Prod.snd).Nodup := by decide +kernel
  have h₂ : ((listDirectory (flatFileSystem [] ["b", "c"]) (.lit "src")).map Prod.snd).Nodup := by decide +kernel
  exact h _ _ (.lit "src") _ _ (lists_contentOf h₁) (lists_contentOf h₂) (by decide +kernel) (by decide +kernel)

end Tundra
