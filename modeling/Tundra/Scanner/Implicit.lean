import Tundra.Scanner.Closure

/-!
# What a scan returns

`ScanImplicitDeps` started on an empty cache. It always ends, because every file that a directive resolves to
has a path that fits into a path buffer and there are only finitely many of these; and what it returns are the
files that can be reached, unless two files share a key of the cache or a path is too long.
-/

namespace Tundra

variable {fs : FileSystem} {scanner : ScannerData} {cache : ScanCache} {fn root : CString}

theorem finite_paths : {path : CString | path.bytes.length < kMaxPathLength}.Finite :=
  have : Finite UInt8 := .of_injective UInt8.toFin fun _ _ h => UInt8.toFin_inj.mp h
  (List.finite_length_lt UInt8 kMaxPathLength).preimage fun s _ t _ hbytes => by
    cases s
    cases t
    cases hbytes
    rfl

/-- The files of a record have paths that fit into a path buffer, and come with their hash. -/
def ScanRecord.Bounded (record : ScanRecord) : Prop :=
  ∃ found : List CString, record.includes = found.map FileAndHash.ofPath ∧ ∀ g ∈ found, g.bytes.length < kMaxPathLength

def ScanCache.Bounded (cache : ScanCache) : Prop := ∀ record ∈ cache.records, record.Bounded

theorem includesOf_length {found : List CString} (h : includesOf fs scanner fn = some found) :
    ∀ g ∈ found, g.bytes.length < kMaxPathLength := by
  intro g hg
  obtain ⟨-, -, -, -, inc, -, hfind⟩ := (mem_includesOf h).mp hg
  exact findFile_length hfind

/-- One turn of the loop, whatever is in the cache. -/
theorem includedFiles_bounded {files : List FileAndHash} {cache' : ScanCache} (hcache : cache.Bounded)
    (h : includedFiles fs scanner cache fn = some (files, cache')) :
    cache'.Bounded ∧ ∃ found : List CString, files = found.map FileAndHash.ofPath ∧
    ∀ g ∈ found, g.bytes.length < kMaxPathLength := by
  rcases includedFiles_cases h with ⟨hrecords, -, record, hmem, -, -, rfl⟩ | ⟨found, hfound, rfl, hrecords⟩
  · exact ⟨fun record' hmem' => hcache record' (hrecords ▸ hmem'), hcache record hmem⟩
  · refine ⟨fun record hmem => ?_, found, rfl, includesOf_length hfound⟩
    rcases hrecords record hmem with hold | ⟨-, rfl⟩
    · exact hcache record hold
    · exact ⟨found, rfl, includesOf_length hfound⟩

/-- The list a scan returns names every file it has seen once, with its hash. -/
theorem listing_spec (seen : List CString) :
    ((listing seen).map FileAndHash.filename).Perm seen ∧
    ∀ file ∈ listing seen, file.filenameHash = djb2HashPath file.filename := by
  obtain ⟨-, hperm⟩ := fileSet_spec seen
  have hfiles : (listing seen).Perm (seen.map FileAndHash.ofPath) := by
    have hmap := hperm.map fun r : Record Unit => (⟨r.string, r.hash⟩ : FileAndHash)
    rw [List.map_map] at hmap
    exact hmap
  constructor
  · have hnames := hfiles.map FileAndHash.filename
    rwa [List.map_map, show FileAndHash.filename ∘ FileAndHash.ofPath = id from rfl, List.map_id] at hnames
  · intro file hfile
    obtain ⟨path, -, rfl⟩ := List.mem_map.mp (hfiles.mem_iff.mp hfile)
    rfl

/-- The loop ends, whatever is in the cache: what is on the stack and the paths that were not seen yet get less
with every turn. -/
theorem scanLoop_ends (fuel : Nat) : ∀ (w : Worklist.State CString) (cache : ScanCache), cache.Bounded → w.seen.Nodup →
    (∀ g ∈ w.seen, g.bytes.length < kMaxPathLength) →
    w.stack.length + finite_paths.toFinset.card < fuel + w.seen.length →
      scanLoop fs scanner fuel (.ofState w) cache = .croaked ∨
        ∃ seen cache', scanLoop fs scanner fuel (.ofState w) cache = .returned (listing seen) cache' ∧ seen.Nodup := by
  induction fuel with
  | zero =>
      intro w cache _ hnodup hseen hfuel
      have hle : w.seen.length ≤ finite_paths.toFinset.card := by
        rw [← List.toFinset_card_of_nodup hnodup]
        exact Finset.card_le_card fun g hg => finite_paths.mem_toFinset.mpr (hseen g (List.mem_toFinset.mp hg))
      omega
  | succ fuel ih =>
      intro w cache hcache hnodup hseen hfuel
      rw [scanLoop]
      cases hstack : w.stack with
      | nil =>
          simp only [IncludeSearch.ofState, hstack]
          exact .inr ⟨w.seen, cache, rfl, hnodup⟩
      | cons fn stack =>
          simp only [IncludeSearch.ofState, hstack]
          cases hincluded : includedFiles fs scanner cache fn with
          | none => exact .inl rfl
          | some result =>
              obtain ⟨files, cache'⟩ := result
              obtain ⟨hcache', found, rfl, hlength⟩ := includedFiles_bounded hcache hincluded
              obtain ⟨new, hvisit, hnew, hfound, -⟩ := Worklist.visit_spec found ⟨w.seen, stack⟩
              have hadd := addFiles_ofState found ⟨w.seen, stack⟩
              rw [hvisit] at hadd
              simp only [IncludeSearch.ofState] at hadd ih ⊢
              rw [hadd]
              refine ih ⟨w.seen ++ new, new.reverse ++ stack⟩ cache' hcache' ?_ ?_ ?_
              · exact hnodup.append hnew fun g hg hg' => (hfound g hg').2 hg
              · intro g hg
                rcases List.mem_append.mp hg with hg | hg
                · exact hseen g hg
                · exact hlength g (hfound g hg).1
              · rw [hstack, List.length_cons] at hfuel
                simp only [List.length_append, List.length_reverse]
                omega

/-! ### The files that can be reached -/

/-- The files that can be reached from a file, with the file itself. -/
def reachable (fs : FileSystem) (scanner : ScannerData) (root : CString) : Set CString :=
  {f | Relation.ReflTransGen (IncludeEdge fs scanner) root f}

theorem closed_reachable : Closed fs scanner (reachable fs scanner root) :=
  fun _ hf _ hfound _ hg => Relation.ReflTransGen.tail hf ((mem_includesOf hfound).mp hg)

/-- Where the paths fit, the search follows the include edges. -/
theorem reached_iff (hfit : ∀ f ∈ reachable fs scanner root, PathsFit fs scanner f) (g : CString) :
    Worklist.Reached (nextFiles fs scanner) root g ↔ Relation.TransGen (IncludeEdge fs scanner) root g := by
  have hedge : ∀ f ∈ reachable fs scanner root, ∀ g, g ∈ nextFiles fs scanner f ↔ IncludeEdge fs scanner f g := by
    intro f hf g
    obtain ⟨found, hfound⟩ := includesOf_of_pathsFit (hfit f hf)
    rw [nextFiles, hfound, Option.getD_some, mem_includesOf hfound]
  constructor
  · intro hreached
    induction hreached with
    | single h => exact .single ((hedge root .refl _).mp h)
    | tail _ h ih => exact ih.tail ((hedge _ ih.to_reflTransGen _).mp h)
  · intro hreached
    induction hreached with
    | single h => exact .single ((hedge root .refl _).mpr h)
    | tail hpath h ih => exact ih.tail ((hedge _ hpath.to_reflTransGen _).mpr h)

theorem reachable_subset {files : Set CString} (hroot : root ∈ files)
    (hclosed : ∀ f ∈ files, ∀ g, IncludeEdge fs scanner f g → g ∈ files) :
    reachable fs scanner root ⊆ files := by
  intro f hf
  induction hf with
  | refl => exact hroot
  | tail _ hedge ih => exact hclosed _ ih _ hedge

/-- A scan that starts with an empty cache returns the files that can be reached, each once and with its hash. -/
def ScansClosure (fs : FileSystem) (scanner : ScannerData) (root : CString) : Prop :=
  ∃ bound, ∀ fuel > bound, ∃ files cache, scanImplicitDeps fs scanner fuel root (.init none) = .returned files cache ∧
    (files.map FileAndHash.filename).Nodup ∧
    (∀ g, g ∈ files.map FileAndHash.filename ↔ Relation.TransGen (IncludeEdge fs scanner) root g) ∧
    ∀ file ∈ files, file.filenameHash = djb2HashPath file.filename

theorem bounded_init : (ScanCache.init none).Bounded := fun record hmem => by cases hmem

theorem cacheSound_init (files : Set CString) :
    CacheSound fs scanner files (.init none) := fun record hmem => by cases hmem

theorem scansClosure_of_reachable (hkeys : KeysApart fs scanner (reachable fs scanner root))
    (hfit : ∀ f ∈ reachable fs scanner root, PathsFit fs scanner f) : ScansClosure fs scanner root := by
  refine ⟨finite_paths.toFinset.card + 1, fun fuel hfuel => ?_⟩
  have hbound : ∀ g, Worklist.Reached (nextFiles fs scanner) root g → g ∈ finite_paths.toFinset := by
    intro g hreached
    rw [reached_iff hfit] at hreached
    obtain ⟨f, -, hedge⟩ := Relation.TransGen.tail'_iff.mp hreached
    obtain ⟨-, -, -, -, inc, -, hfind⟩ := hedge
    exact finite_paths.mem_toFinset.mpr (findFile_length hfind)
  obtain ⟨seen, hrun, hnodup, hseen⟩ := Worklist.run_eq_some hbound hfuel
  have hstack : ∀ f ∈ [root], f ∈ reachable fs scanner root := fun f hf => by
    rw [List.mem_singleton.mp hf]
    exact .refl
  have hnext : ∀ f ∈ reachable fs scanner root, includesOf fs scanner f = some (nextFiles fs scanner f) := by
    intro f hf
    obtain ⟨found, hfound⟩ := includesOf_of_pathsFit (hfit f hf)
    rw [nextFiles, hfound, Option.getD_some]
  have hsearch := searchLoop_eq closed_reachable hnext fuel ⟨[], [root]⟩ hstack seen hrun
  obtain ⟨hfiles, -⟩ := scanLoop_eq closed_reachable hkeys fuel (.ofState ⟨[], [root]⟩) (.init none)
    (cacheSound_init _) hstack
  rw [hsearch] at hfiles
  obtain ⟨hnames, hhashes⟩ := listing_spec seen
  cases hscan : scanLoop fs scanner fuel (.ofState ⟨[], [root]⟩) (.init none) with
  | croaked => cases hscan ▸ hfiles
  | outOfFuel => cases hscan ▸ hfiles
  | returned files cache =>
      rw [hscan] at hfiles
      obtain rfl : files = listing seen := Except.ok.inj hfiles
      refine ⟨listing seen, cache, hscan, hnames.nodup_iff.mpr hnodup, fun g => ?_, hhashes⟩
      rw [hnames.mem_iff, hseen, reached_iff hfit]

/-- Every scan that starts with an empty cache returns, with no file twice and every file with its hash, or ends
the program because of a path that is too long; and it returns exactly the files that can be reached if none of
the files that can be reached has such a path and no two of them share a key and a timestamp. -/
theorem implicit_deps_closure (fs : FileSystem) (scanner : ScannerData) (root : CString) :
    (∃ bound, ∀ fuel > bound, scanImplicitDeps fs scanner fuel root (.init none) = .croaked ∨
      ∃ files cache, scanImplicitDeps fs scanner fuel root (.init none) = .returned files cache ∧
        (files.map FileAndHash.filename).Nodup ∧ ∀ file ∈ files, file.filenameHash = djb2HashPath file.filename) ∧
    (KeysApart fs scanner (reachable fs scanner root) → (∀ f ∈ reachable fs scanner root, PathsFit fs scanner f) →
      ScansClosure fs scanner root) := by
  refine ⟨⟨finite_paths.toFinset.card + 1, fun fuel hfuel => ?_⟩, scansClosure_of_reachable⟩
  rcases scanLoop_ends fuel ⟨[], [root]⟩ (.init none) bounded_init List.nodup_nil (fun g hg => by cases hg)
    (by simp only [List.length_singleton, List.length_nil]; omega) with hcroaked | ⟨seen, cache, hreturned, hnodup⟩
  · exact .inl hcroaked
  · obtain ⟨hnames, hhashes⟩ := listing_spec seen
    exact .inr ⟨listing seen, cache, hreturned, hnames.nodup_iff.mpr hnodup, hhashes⟩

theorem scanLoop_add (more : Nat) :
    ∀ (fuel : Nat) (s : IncludeSearch) (cache : ScanCache), scanLoop fs scanner fuel s cache ≠ .outOfFuel →
    scanLoop fs scanner (fuel + more) s cache = scanLoop fs scanner fuel s cache := by
  intro fuel
  induction fuel with
  | zero => exact fun s cache h => absurd rfl h
  | succ fuel ih =>
      intro s cache h
      rw [Nat.succ_add]
      rw [scanLoop] at h ⊢
      rw [scanLoop]
      cases hstack : s.filenameStack with
      | nil => rfl
      | cons fn stack =>
          simp only [hstack] at h
          cases hincluded : includedFiles fs scanner cache fn with
          | none => simp only [hincluded]
          | some result =>
              simp only [hincluded] at h ⊢
              exact ih _ _ h

theorem ScansClosure.ends (h : ScansClosure fs scanner root) (fuel : Nat)
    (hends : scanImplicitDeps fs scanner fuel root (.init none) ≠ .outOfFuel) :
    ∃ files cache, scanImplicitDeps fs scanner fuel root (.init none) = .returned files cache ∧
      ∀ g, g ∈ files.map FileAndHash.filename ↔ Relation.TransGen (IncludeEdge fs scanner) root g := by
  obtain ⟨bound, hbound⟩ := h
  obtain ⟨files, cache, hreturned, -, hfiles, -⟩ := hbound (fuel + (bound + 1)) (by omega)
  rw [scanImplicitDeps, scanLoop_add _ _ _ _ hends] at hreturned
  exact ⟨files, cache, hreturned, hfiles⟩

/-! ### Small file systems -/

def FileSystem.ofFiles (files : List (String × String)) : FileSystem where
  stat path := match files.find? fun file => CString.lit file.1 = path with
    | some _ => .found .regular 1 1
    | none => .failed true
  read path := match files.find? fun file => CString.lit file.1 = path with
    | some file => .bytes (CString.lit file.2).bytes
    | none => .cannotOpen

def cppScanner : ScannerData := ⟨.cpp, [], ⟨0, 0⟩⟩

def cyclicHeaders : FileSystem := .ofFiles [("a", "#include \"b\""), ("b", "#include \"a\"")]

theorem cyclicHeaders_includes : includesOf cyclicHeaders cppScanner (.lit "a") = some [.lit "b"] ∧
    includesOf cyclicHeaders cppScanner (.lit "b") = some [.lit "a"] := by
  decide +kernel

theorem reachable_cyclicHeaders : reachable cyclicHeaders cppScanner (.lit "a") ⊆ {.lit "a", .lit "b"} := by
  obtain ⟨ha, hb⟩ := cyclicHeaders_includes
  refine reachable_subset (.inl rfl) fun f hf g hedge => ?_
  rcases hf with rfl | rfl
  · rw [← mem_includesOf ha, List.mem_singleton] at hedge
    exact .inr hedge
  · rw [← mem_includesOf hb, List.mem_singleton] at hedge
    exact .inl hedge

theorem keysApart_cyclicHeaders : KeysApart cyclicHeaders cppScanner
    (reachable cyclicHeaders cppScanner (.lit "a")) := by
  intro f hf g hg _ _ hkey _
  rcases reachable_cyclicHeaders hf with rfl | rfl <;> rcases reachable_cyclicHeaders hg with rfl | rfl
  · rfl
  · exact absurd hkey (by decide +kernel)
  · exact absurd hkey (by decide +kernel)
  · rfl

theorem implicit_deps_closure_cyclic : ScansClosure cyclicHeaders cppScanner (.lit "a") := by
  refine (implicit_deps_closure cyclicHeaders cppScanner (.lit "a")).2 keysApart_cyclicHeaders ?_
  intro f hf hexists data hread hne inc hinc hfind
  have hnone : scanFile cyclicHeaders cppScanner f data = none :=
    Option.map_eq_none_iff.mpr (Bytes.mapM_eq_none_iff.mpr ⟨inc, hinc, hfind⟩)
  have hincludes : includesOf cyclicHeaders cppScanner f = none := by
    cases data with
    | nil => exact absurd rfl hne
    | cons b data => simp [includesOf, hexists, hread, hnone]
  obtain ⟨ha, hb⟩ := cyclicHeaders_includes
  rcases reachable_cyclicHeaders hf with rfl | rfl
  · cases ha ▸ hincludes
  · cases hb ▸ hincludes

/-- Two headers of one age whose names have the same hash. -/
def collidingHeaders : FileSystem := .ofFiles
  [("r", "#include \"aq\"\n#include \"bP\""), ("aq", "#include \"x\""), ("bP", "#include \"y\""), ("x", " "),
    ("y", " ")]

/-- A directive with more segments than a path may have. -/
def longDirective : FileSystem :=
  .ofFiles [("r", "#include \"a/a/a/a/a/a/a/a/a/a/a/a/a/a/a/a/a/a/a/a/a/a/a/a/a/a/a/a/a/a/a/a/a/a/a/a/a/a/a/a/a/a/a/a/a/a/a/a/a/a/a/a/a/a/a/a/a/a/a/a/a/a/a/a/a\"")]

/-- The file that only the second one of two files with one key includes is missed, and a path that is too long
ends the program. -/
theorem implicit_deps_missed : ¬ ScansClosure collidingHeaders cppScanner
    (.lit "r") ∧ ¬ ScansClosure longDirective cppScanner (.lit "r") := by
  constructor
  · intro h
    obtain ⟨files, cache, hreturned, hfiles⟩ := h.ends 6 (by decide +kernel)
    have hincludes : includesOf collidingHeaders cppScanner (.lit "r") = some [.lit "aq", .lit "bP"] ∧
        includesOf collidingHeaders cppScanner (.lit "aq") = some [.lit "x"] := by
      decide +kernel
    have hreached : Relation.TransGen (IncludeEdge collidingHeaders cppScanner) (.lit "r") (.lit "x") :=
      .tail (.single ((mem_includesOf hincludes.1).mp List.mem_cons_self))
        ((mem_includesOf hincludes.2).mp (List.mem_singleton_self _))
    have hmissed : ∀ found ∈ (scanImplicitDeps collidingHeaders cppScanner 6 (.lit "r") (.init none)).files.toOption,
        CString.lit "x" ∉ found.map FileAndHash.filename := by
      decide +kernel
    rw [hreturned] at hmissed
    exact hmissed files rfl ((hfiles _).mpr hreached)
  · intro h
    obtain ⟨files, cache, hreturned, -⟩ := h.ends 2 (by decide +kernel)
    have hcroaked : scanImplicitDeps longDirective cppScanner 2 (.lit "r") (.init none) = .croaked := by
      decide +kernel
    cases hcroaked ▸ hreturned

end Tundra
