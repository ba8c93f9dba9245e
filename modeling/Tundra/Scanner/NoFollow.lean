import Tundra.Scanner.History

/-!
# Keywords that are not followed

A keyword of a generic scanner says whether the files it names are to be scanned themselves, and the scanner of
a line hands that on in `m_ShouldFollow`. Nothing reads it: `ScanFile` resolves the directives to paths and
drops the rest, and neither the scan cache nor the stack has a place for it. So the files named by
`KeywordsNoFollow` are scanned like all others.
-/

namespace Tundra

/-- A directive of the file whose keyword is followed resolves to the other file. -/
def FollowEdge (fs : FileSystem) (scanner : ScannerData) (f g : CString) : Prop :=
  (fs.info f).exists = true ∧ ∃ data, fs.read f = .bytes data ∧ data ≠ [] ∧
    ∃ inc ∈ scanner.scannerType.scan (fileText data), inc.shouldFollow = true ∧
      findFile fs scanner.includePaths f inc = some (some g)

/-- The files that are to be scanned: the input file, and those reached through keywords that are followed. -/
inductive Scanned (fs : FileSystem) (scanner : ScannerData) (root : CString) : CString → Prop
  | root : Scanned fs scanner root root
  | follow {f g} (h : Scanned fs scanner root f) (hedge : FollowEdge fs scanner f g) : Scanned fs scanner root g

/-- The files a scan is to return: those to which a directive of a scanned file resolves. -/
def followed (fs : FileSystem) (scanner : ScannerData) (root : CString) : Set CString :=
  {g | ∃ f, Scanned fs scanner root f ∧ IncludeEdge fs scanner f g}

/-- A scan through this cache returns these files. -/
def ScansFollowed (fs : FileSystem) (scanner : ScannerData) (root : CString) (cache : ScanCache) : Prop :=
  ∃ bound, ∀ fuel > bound, ∃ files cache', scanImplicitDeps fs scanner fuel root cache = .returned files cache' ∧
    ∀ g, g ∈ files.map FileAndHash.filename ↔ g ∈ followed fs scanner root

/-- A file that is reached only through keywords that are not followed has no directive that resolves to a file
outside. -/
def NothingBeyond (fs : FileSystem) (scanner : ScannerData) (root : CString) : Prop :=
  ∀ f ∈ followed fs scanner root, ¬ Scanned fs scanner root f → ∀ g, IncludeEdge fs scanner f g →
    g ∈ followed fs scanner root

variable {fs : FileSystem} {scanner : ScannerData} {root : CString}

theorem FollowEdge.includeEdge {f g : CString} (h : FollowEdge fs scanner f g) : IncludeEdge fs scanner f g := by
  obtain ⟨hexists, data, hread, hne, inc, hinc, -, hfind⟩ := h
  exact ⟨hexists, data, hread, hne, inc, hinc, hfind⟩

theorem Scanned.reachable {f : CString} (h : Scanned fs scanner root f) : f ∈ reachable fs scanner root := by
  induction h with
  | root => exact .refl
  | follow _ hedge ih => exact Relation.ReflTransGen.tail ih hedge.includeEdge

/-- The set is the least one with the directives of the input file and of its members that are reached through a
keyword that is followed. -/
theorem followed_subset {files : Set CString} (scanned : CString → Prop) (hroot : scanned root)
    (hfollow : ∀ f g, scanned f → FollowEdge fs scanner f g → scanned g)
    (hmember : ∀ f g, scanned f → IncludeEdge fs scanner f g → g ∈ files) :
    followed fs scanner root ⊆ files := by
  rintro g ⟨f, hf, hedge⟩
  have hscanned : scanned f := by
    clear hedge
    induction hf with
    | root => exact hroot
    | follow _ hstep ih => exact hfollow _ _ ih hstep
  exact hmember f g hscanned hedge

/-! ### A scan that returns has read every file -/

theorem pathsFit_of_includesOf {f : CString} (h : includesOf fs scanner f ≠ none) : PathsFit fs scanner f := by
  intro hexists data hread hne inc hinc hfind
  have hnone : scanFile fs scanner f data = none :=
    Option.map_eq_none_iff.mpr (Bytes.mapM_eq_none_iff.mpr ⟨inc, hinc, hfind⟩)
  apply h
  cases data with
  | nil => exact absurd rfl hne
  | cons b data => simp only [includesOf, hexists, if_true, hread, hnone]

/-- What a search returns, from any state on the way: the files that can be reached, when the includes of all of
them were found. -/
theorem searchLoop_ok (fuel : Nat) :
    ∀ (w : Worklist.State CString) (files : List FileAndHash), Worklist.Inv (nextFiles fs scanner) root w →
    (∀ f, f = root ∨ f ∈ w.seen → f ∉ w.stack → includesOf fs scanner f ≠ none) → searchLoop fs scanner fuel
    (.ofState w) = .ok files →
      ∃ seen, files = listing seen ∧ (∀ f, f = root ∨ f ∈ seen → includesOf fs scanner f ≠ none) ∧
        ∀ f, f ∈ seen ↔ Worklist.Reached (nextFiles fs scanner) root f := by
  induction fuel with
  | zero => exact fun w files _ _ h => by cases h
  | succ fuel ih =>
      intro w files hinv hread h
      rw [searchLoop] at h
      cases hstack : w.stack with
      | nil =>
          simp only [IncludeSearch.ofState, hstack, Except.ok.injEq] at h
          refine ⟨w.seen, h.symm, fun f hf => hread f hf ?_, hinv.done hstack⟩
          rw [hstack]
          exact List.not_mem_nil
      | cons fn stack =>
          simp only [IncludeSearch.ofState, hstack] at h
          cases hincludes : includesOf fs scanner fn with
          | none => simp [hincludes] at h
          | some found =>
              have hnext : nextFiles fs scanner fn = found := by rw [nextFiles, hincludes, Option.getD_some]
              have hadd := addFiles_ofState found ⟨w.seen, stack⟩
              have hstep := hinv.step hstack
              obtain ⟨new, hvisit, -, hnew, -⟩ := Worklist.visit_spec found ⟨w.seen, stack⟩
              rw [hnext, hvisit] at hstep
              rw [hvisit] at hadd
              simp only [hincludes] at h
              simp only [IncludeSearch.ofState] at hadd ih
              rw [hadd] at h
              refine ih _ files hstep (fun f hf hnot => ?_) h
              simp only [List.mem_append, List.mem_reverse, not_or] at hf hnot
              by_cases hfn : f = fn
              · rw [hfn, hincludes]
                exact Option.some_ne_none found
              · refine hread f ?_ ?_
                · rcases hf with hf | hf | hf
                  · exact .inl hf
                  · exact .inr hf
                  · exact absurd hf hnot.1
                · rw [hstack, List.mem_cons, not_or]
                  exact ⟨hfn, hnot.2⟩

/-- When a search from a file returns, no path was too long and the result is the files that can be reached. -/
theorem searchLoop_root {fuel : Nat} {files : List FileAndHash}
    (h : searchLoop fs scanner fuel ⟨.init, [root]⟩ = .ok files) :
    (∀ f ∈ reachable fs scanner root, PathsFit fs scanner f) ∧
      ∀ g, g ∈ files.map FileAndHash.filename ↔ Relation.TransGen (IncludeEdge fs scanner) root g := by
  obtain ⟨seen, rfl, hread, hseen⟩ := searchLoop_ok fuel ⟨[], [root]⟩ files .start (fun f hf hnot => by
    rcases hf with rfl | hf
    · exact absurd (List.mem_singleton_self _) hnot
    · cases hf) h
  have hreached : ∀ f ∈ reachable fs scanner root, f = root ∨ f ∈ seen := by
    intro f hf
    induction hf with
    | refl => exact .inl rfl
    | @tail f g _ hedge ih =>
        obtain ⟨found, hfound⟩ := Option.ne_none_iff_exists'.mp (hread f ih)
        have hnext : g ∈ nextFiles fs scanner f := by
          rw [nextFiles, hfound, Option.getD_some]
          exact (mem_includesOf hfound).mpr hedge
        refine .inr ((hseen g).mpr ?_)
        rcases ih with rfl | hf
        · exact .single hnext
        · exact ((hseen f).mp hf).tail hnext
  have hfit : ∀ f ∈ reachable fs scanner root, PathsFit fs scanner f :=
    fun f hf => pathsFit_of_includesOf (hread f (hreached f hf))
  refine ⟨hfit, fun g => ?_⟩
  rw [(listing_spec seen).1.mem_iff, hseen, reached_iff hfit]

/-! ### When the missing flag does no harm -/

theorem transGen_of_mem_followed {g : CString} (h : g ∈ followed fs scanner root) :
    Relation.TransGen (IncludeEdge fs scanner) root g := by
  obtain ⟨f, hf, hedge⟩ := h
  exact Relation.TransGen.tail' hf.reachable hedge

/-- The files that can be reached are those a scan is to return exactly when nothing lies beyond. -/
theorem nothingBeyond_iff :
    NothingBeyond fs scanner root ↔ ∀ g, Relation.TransGen (IncludeEdge fs scanner) root g ↔
    g ∈ followed fs scanner root := by
  constructor
  · intro h g
    refine ⟨fun hreached => ?_, transGen_of_mem_followed⟩
    induction hreached with
    | single hedge => exact ⟨root, .root, hedge⟩
    | @tail f g _ hedge ih =>
        by_cases hscanned : Scanned fs scanner root f
        · exact ⟨f, hscanned, hedge⟩
        · exact h f ih hscanned g hedge
  · intro h f hf _ g hedge
    exact (h g).mp ((transGen_of_mem_followed hf).tail hedge)

/-- On one file system whose files have keys of their own, through whatever cache that scans of its files leave:
a scan returns the files it is to return if and only if no path is too long and no file that is reached only
through keywords that are not followed leads to a file outside. -/
theorem nofollow_exact {past : List (FileSystem × CString)} {cache : ScanCache} {file : Option (List UInt8)}
    (h : ScanHistory scanner past cache file) (hfs : ∀ scan ∈ past, scan.1 = fs)
    (hkeys : KeysApart fs scanner (involved fs scanner {f | f = root ∨ ∃ scan ∈ past, scan.2 = f})) :
    ScansFollowed fs scanner root cache ↔ (∀ f ∈ reachable fs scanner root, PathsFit fs scanner f) ∧
    NothingBeyond fs scanner root := by
  have hkeys' : KeysApart fs scanner (reachable fs scanner root) :=
    fun f hf g hg => hkeys f ⟨root, .inl rfl, hf⟩ g ⟨root, .inl rfl, hg⟩
  have htransparent := h.files_eq hfs hkeys
  constructor
  · rintro ⟨bound, hbound⟩
    obtain ⟨files, cache', hreturned, hfiles⟩ := hbound (bound + 1) (Nat.lt_succ_self bound)
    have hsearch := (scanLoop_eq closed_reachable hkeys' (bound + 1) ⟨.init, [root]⟩ (.init none) (cacheSound_init _)
      fun f hf => List.mem_singleton.mp hf ▸ .refl).1
    have hsame := htransparent (bound + 1)
    rw [hreturned] at hsame
    obtain ⟨hfit, hreached⟩ := searchLoop_root (hsearch.symm.trans hsame.symm)
    exact ⟨hfit, nothingBeyond_iff.mpr fun g => (hreached g).symm.trans (hfiles g)⟩
  · rintro ⟨hfit, hbeyond⟩
    obtain ⟨bound, hbound⟩ := scansClosure_of_reachable hkeys' hfit
    refine ⟨bound, fun fuel hfuel => ?_⟩
    obtain ⟨files, cache', hreturned, -, hfiles, -⟩ := hbound fuel hfuel
    have hsame := htransparent fuel
    rw [hreturned] at hsame
    cases hscan : scanImplicitDeps fs scanner fuel root cache with
    | croaked => cases hscan ▸ hsame
    | outOfFuel => cases hscan ▸ hsame
    | returned found cache'' =>
        rw [hscan] at hsame
        obtain rfl : found = files := Except.ok.inj hsame
        exact ⟨found, cache'', rfl, fun g => (hfiles g).trans (nothingBeyond_iff.mp hbeyond g)⟩

/-! ### A binary file -/

/-- A scanner of assembly files: `include` is followed and `incbin` is not. -/
def asmScanner : ScannerData := ⟨.generic true true false [⟨.lit "include", true⟩, ⟨.lit "incbin", false⟩], [], ⟨0, 0⟩⟩

/-- A source file that takes in a binary file with these contents. -/
def binaryIncluded (contents : String) : FileSystem := .ofFiles [("a", "\tincbin \"b\"\n"), ("b", contents), ("c", " ")]

theorem includesOf_binaryIncluded : includesOf (binaryIncluded "\n") asmScanner (.lit "a") = some [.lit "b"] ∧
    includesOf (binaryIncluded "\n") asmScanner (.lit "b") = some [] ∧
    includesOf (binaryIncluded "\tinclude \"c\"\n") asmScanner (.lit "a") = some [.lit "b"] := by
  decide +kernel

theorem reachable_binaryIncluded : reachable (binaryIncluded "\n") asmScanner (.lit "a") ⊆ {.lit "a", .lit "b"} := by
  obtain ⟨ha, hb, -⟩ := includesOf_binaryIncluded
  refine reachable_subset (.inl rfl) fun f hf g hedge => ?_
  rcases hf with rfl | rfl
  · rw [← mem_includesOf ha, List.mem_singleton] at hedge
    exact .inr hedge
  · rw [← mem_includesOf hb] at hedge
    cases hedge

/-- A binary file in which nothing looks like a directive. -/
theorem nofollow_exact_plain : ScansFollowed (binaryIncluded "\n") asmScanner (.lit "a") (.init none) := by
  obtain ⟨ha, hb, -⟩ := includesOf_binaryIncluded
  refine (nofollow_exact .start (fun scan hscan => by cases hscan) ?_).mpr ⟨fun f hf => ?_, fun f hf hnot g hedge => ?_⟩
  · have hinvolved : ∀ f ∈ involved (binaryIncluded "\n") asmScanner
      {f | f = .lit "a" ∨ ∃ scan ∈ ([] : List (FileSystem × CString)), scan.2 = f},
        f = .lit "a" ∨ f = .lit "b" := by
      rintro f ⟨root, rfl | ⟨scan, hscan, -⟩, hreachable⟩
      · exact reachable_binaryIncluded hreachable
      · cases hscan
    intro f hf g hg _ _ hkey _
    rcases hinvolved f hf with rfl | rfl <;> rcases hinvolved g hg with rfl | rfl
    · rfl
    · exact absurd hkey (by decide +kernel)
    · exact absurd hkey (by decide +kernel)
    · rfl
  · apply pathsFit_of_includesOf
    rcases reachable_binaryIncluded hf with rfl | rfl
    · rw [ha]
      exact Option.some_ne_none _
    · rw [hb]
      exact Option.some_ne_none _
  · rcases reachable_binaryIncluded (transGen_of_mem_followed hf).to_reflTransGen with rfl | rfl
    · exact absurd .root hnot
    · rw [← mem_includesOf hb] at hedge
      cases hedge

/-- A binary file with a line that looks like a directive is scanned. -/
theorem nofollow_ignored : ¬ ScansFollowed (binaryIncluded "\tinclude \"c\"\n") asmScanner (.lit "a") (.init none) := by
  rintro ⟨bound, hbound⟩
  obtain ⟨files, cache, hreturned, hfiles⟩ := hbound (4 + (bound + 1)) (by omega)
  have hends : scanImplicitDeps (binaryIncluded "\tinclude \"c\"\n") asmScanner 4 (.lit "a") (.init none) ≠
    .outOfFuel := by
    decide +kernel
  have hfound : ∀ found ∈ (scanImplicitDeps (binaryIncluded "\tinclude \"c\"\n") asmScanner 4 (.lit "a")
    (.init none)).files.toOption,
      CString.lit "c" ∈ found.map FileAndHash.filename := by
    decide +kernel
  rw [scanImplicitDeps, scanLoop_add _ _ _ _ hends] at hreturned
  rw [scanImplicitDeps, hreturned] at hfound
  have hmem := (hfiles _).mp (hfound files rfl)
  have honly : followed (binaryIncluded "\tinclude \"c\"\n") asmScanner (.lit "a") ⊆ {.lit "b"} := by
    refine followed_subset (· = .lit "a") rfl ?_ ?_
    · rintro f g rfl ⟨-, data, hread, -, inc, hinc, hfollow, -⟩
      have hdirectives : ∀ inc ∈ asmScanner.scannerType.scan (fileText (CString.lit "\tincbin \"b\"\n").bytes),
        inc.shouldFollow = false := by
        decide +kernel
      have hbytes : (binaryIncluded "\tinclude \"c\"\n").read (.lit "a") =
        .bytes (CString.lit "\tincbin \"b\"\n").bytes := by
        decide +kernel
      rw [hbytes, FileRead.bytes.injEq] at hread
      rw [hdirectives inc (hread ▸ hinc)] at hfollow
      cases hfollow
    · rintro f g rfl hedge
      rw [← mem_includesOf includesOf_binaryIncluded.2.2, List.mem_singleton] at hedge
      exact hedge
  have hne : CString.lit "c" ≠ .lit "b" := by decide +kernel
  exact hne (honly hmem)

end Tundra
