import Tundra.DagGenerator.Document
import Tundra.ScanCache

/-!
# The guid of a scanner

`WriteScanner` feeds the kind and the include paths of a scanner to the hash that tells scanners apart in the
scan cache. They are fed one after the other without a separator, and the flags and keywords are not fed at all.
-/

namespace Tundra

namespace ScannerData

def kind (scanner : ScannerData) : CString :=
  match scanner.scannerType with
  | .cpp => .lit "cpp"
  | .generic .. => .lit "generic"

/-- What `WriteScanner` feeds to the hash, piece by piece. -/
def hashedPieces (scanner : ScannerData) : List (List UInt8) := (scanner.kind :: scanner.includePaths).map CString.bytes

def hashedBytes (scanner : ScannerData) : List UInt8 := scanner.hashedPieces.flatten

def joinedPaths (scanner : ScannerData) : List UInt8 := (scanner.includePaths.map CString.bytes).flatten

theorem hashedBytes_eq (scanner : ScannerData) : scanner.hashedBytes = scanner.kind.bytes ++ scanner.joinedPaths := rfl

theorem kind_eq_of_append {s t : ScannerData} {l r : List UInt8} (h : s.kind.bytes ++ l = t.kind.bytes ++ r) :
    s.kind = t.kind := by
  have hcpp : ∃ rest, (CString.lit "cpp").bytes = 99 :: rest := ⟨[112, 112], by decide +kernel⟩
  have hgeneric : ∃ rest, (CString.lit "generic").bytes = 103 :: rest :=
    ⟨[101, 110, 101, 114, 105, 99], by decide +kernel⟩
  obtain ⟨cpp, hcpp⟩ := hcpp
  obtain ⟨generic, hgeneric⟩ := hgeneric
  have hhead := congrArg List.head? h
  unfold kind at hhead ⊢
  split at hhead <;> split at hhead
  · rfl
  · simp [hcpp, hgeneric] at hhead
  · simp [hcpp, hgeneric] at hhead
  · rfl

theorem hashedBytes_inj {s t : ScannerData} :
    s.hashedBytes = t.hashedBytes ↔ s.kind = t.kind ∧ s.joinedPaths = t.joinedPaths := by
  rw [hashedBytes_eq, hashedBytes_eq]
  constructor
  · intro h
    have hkind := kind_eq_of_append h
    rw [hkind] at h
    exact ⟨hkind, List.append_cancel_left h⟩
  · rintro ⟨hkind, hpaths⟩
    rw [hkind, hpaths]

end ScannerData

theorem readScanner_guid {value : JsonValue} {scanner : ScannerData} (h : readScanner value = .ok scanner) :
    scanner.scannerGuid = hashFinalize (scanner.hashedPieces.foldl hashUpdate hashInit) := by
  obtain ⟨data, -, h⟩ := Checked.bind_eq_ok.mp h
  obtain ⟨kind, -, h⟩ := Checked.bind_eq_ok.mp h
  obtain ⟨incpaths, -, h⟩ := Checked.bind_eq_ok.mp h
  split_ifs at h with hcpp hgeneric
  · obtain ⟨includePaths, -, h⟩ := Checked.bind_eq_ok.mp h
    obtain rfl := Except.ok.inj h
    rw [hcpp]
    rfl
  · obtain ⟨includePaths, -, h⟩ := Checked.bind_eq_ok.mp h
    obtain ⟨follow, -, h⟩ := Checked.bind_eq_ok.mp h
    obtain ⟨nofollow, -, h⟩ := Checked.bind_eq_ok.mp h
    obtain rfl := Except.ok.inj h
    rw [hgeneric]
    rfl

theorem readScanner_guid_eq {value : JsonValue} {scanner : ScannerData} (h : readScanner value = .ok scanner) :
    scanner.scannerGuid = hashDigest scanner.hashedBytes := by
  rw [readScanner_guid h, foldl_hashUpdate]
  rfl

/-- Two scanners feed different streams to the hash exactly if they differ in their kinds or in their include
paths written as one string. If they do not, they have the same keys in the scan cache. -/
theorem scanner_identity {value₁ value₂ : JsonValue} {s₁ s₂ : ScannerData} (h₁ : readScanner value₁ = .ok s₁)
    (h₂ : readScanner value₂ = .ok s₂) :
    s₁.scannerGuid = hashDigest s₁.hashedBytes ∧ s₂.scannerGuid = hashDigest s₂.hashedBytes ∧
      (s₁.hashedBytes ≠ s₂.hashedBytes ↔ s₁.kind ≠ s₂.kind ∨ s₁.joinedPaths ≠ s₂.joinedPaths) ∧
      (¬(s₁.kind ≠ s₂.kind ∨ s₁.joinedPaths ≠ s₂.joinedPaths) →
        ∀ filename, computeScanCacheKey filename s₁.scannerGuid = computeScanCacheKey filename s₂.scannerGuid) := by
  have hiff : s₁.hashedBytes ≠ s₂.hashedBytes ↔ s₁.kind ≠ s₂.kind ∨ s₁.joinedPaths ≠ s₂.joinedPaths := by
    rw [Ne, ScannerData.hashedBytes_inj, not_and_or]
  refine ⟨readScanner_guid_eq h₁, readScanner_guid_eq h₂, hiff, fun hsame filename => ?_⟩
  rw [readScanner_guid_eq h₁, readScanner_guid_eq h₂, not_not.mp (hiff.not.mpr hsame)]

def genericScanner (keywords includePaths : List String) : JsonValue :=
  .object [(.lit "Kind", .string (.lit "generic")),
    (.lit "IncludePaths", .array (includePaths.map fun path => .string (.lit path))),
    (.lit "Keywords", .array (keywords.map fun keyword => .string (.lit keyword)))]

theorem scanner_identity_paths : ∃ s₁ s₂, (readScanner (genericScanner ["include"] ["a"]) = .ok s₁ ∧
    readScanner (genericScanner ["include"] ["b"]) = .ok s₂) ∧ s₁.hashedBytes ≠ s₂.hashedBytes := by
  have hread : ((readScanner (genericScanner ["include"] ["a"])).toOption.bind fun s₁ =>
      (readScanner (genericScanner ["include"] ["b"])).toOption.map fun s₂ => decide (s₁.joinedPaths ≠ s₂.joinedPaths)) = some true := by
    decide +kernel
  obtain ⟨s₁, h₁, hread⟩ := Option.bind_eq_some_iff.mp hread
  obtain ⟨s₂, h₂, hread⟩ := Option.map_eq_some_iff.mp hread
  replace h₁ := Checked.toOption_eq_some.mp h₁
  replace h₂ := Checked.toOption_eq_some.mp h₂
  exact ⟨s₁, s₂, ⟨h₁, h₂⟩, (scanner_identity h₁ h₂).2.2.1.mpr (.inr (of_decide_eq_true hread))⟩

/-- Two scanners that look for different keywords, and two that look in different places, feed the same streams. -/
theorem scanner_identity_lost :
    (∃ s₁ s₂, readScanner (genericScanner ["include"] []) = .ok s₁ ∧
    readScanner (genericScanner ["import"] []) = .ok s₂ ∧
      s₁.scannerType ≠ s₂.scannerType ∧ s₁.hashedBytes = s₂.hashedBytes) ∧
    ∃ s₁ s₂, readScanner (genericScanner [] ["a", "b"]) = .ok s₁ ∧ readScanner (genericScanner [] ["ab"]) = .ok s₂ ∧
      s₁.includePaths ≠ s₂.includePaths ∧ s₁.hashedBytes = s₂.hashedBytes := by
  have hkeywords : ((readScanner (genericScanner ["include"] [])).toOption.bind fun s₁ =>
      (readScanner (genericScanner ["import"] [])).toOption.map fun s₂ =>
        decide (s₁.scannerType ≠ s₂.scannerType ∧ s₁.hashedBytes = s₂.hashedBytes)) = some true := by decide +kernel
  have hpaths : ((readScanner (genericScanner [] ["a", "b"])).toOption.bind fun s₁ =>
      (readScanner (genericScanner [] ["ab"])).toOption.map fun s₂ =>
        decide (s₁.includePaths ≠ s₂.includePaths ∧ s₁.hashedBytes = s₂.hashedBytes)) = some true := by decide +kernel
  obtain ⟨s₁, h₁, hkeywords⟩ := Option.bind_eq_some_iff.mp hkeywords
  obtain ⟨s₂, h₂, hkeywords⟩ := Option.map_eq_some_iff.mp hkeywords
  obtain ⟨t₁, k₁, hpaths⟩ := Option.bind_eq_some_iff.mp hpaths
  obtain ⟨t₂, k₂, hpaths⟩ := Option.map_eq_some_iff.mp hpaths
  refine ⟨⟨s₁, s₂, Checked.toOption_eq_some.mp h₁, Checked.toOption_eq_some.mp h₂, of_decide_eq_true hkeywords⟩, ?_⟩
  exact ⟨t₁, t₂, Checked.toOption_eq_some.mp k₁, Checked.toOption_eq_some.mp k₂, of_decide_eq_true hpaths⟩

end Tundra
