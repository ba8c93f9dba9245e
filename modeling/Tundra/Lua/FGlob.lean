import Tundra.Lua.FilterList
import Tundra.Lua.Pattern
import Mathlib.Data.List.Induction
import Mathlib.Data.List.Perm.Lattice

/-!
# Globs with filters

`FGlob` of `syntax/glob.lua` on the files `Glob` gives. Its filters are kept in a table by their patterns, which
`pairs` goes over in an order of its own.
-/

namespace Tundra.Lua

/-- An item of `args.Filters`. -/
structure FilterItem (κ : Type) where
  pattern : Option (List UInt8)
  config : Option κ

/-- What `FGlob` can raise. The first one says that no `Config` is specified, with the pattern there is. -/
inductive FGlobError where
  | noConfig (pattern : Option (List UInt8))
  | noPattern
  | pattern (err : PatternError)

/-- `pats`, with the places in `result` of the tables in it, and those tables. -/
structure FilterTables (κ : Type) where
  pats : List (List UInt8 × Nat)
  tables : List (κ × List (List UInt8))

/-- An order for `pairs`, for each table. It is the same whenever a table is gone over that has not changed. -/
structure PairsOrder where
  enumerate : List (List UInt8 × Nat) → List (List UInt8 × Nat)
  perm : ∀ pats, (enumerate pats).Perm pats

/-- The table as it is. -/
def pairsForward : PairsOrder := ⟨id, List.Perm.refl⟩

/-- `f:match(filter)` as a condition. -/
def patternMatches (f filter : List UInt8) : Except PatternError Bool := (·.isSome) <$> strMatch f filter

/-- `pats[p] = tab`. -/
def setPattern (pats : List (List UInt8 × Nat)) (p : List UInt8) (tab : Nat) : List (List UInt8 × Nat) :=
  (p, tab) :: pats.filter fun entry => entry.1 ≠ p

section

variable {κ : Type}

def collectFilters : List (FilterItem κ) → FilterTables κ → Except FGlobError (FilterTables κ)
  | [], t => .ok t
  | fitem :: filters, t =>
      match fitem.config with
      | none => .error (.noConfig fitem.pattern)
      | some config =>
          match fitem.pattern with
          | none => .error .noPattern
          | some pattern =>
              collectFilters filters ⟨setPattern t.pats pattern t.tables.length, t.tables ++ [(config, [])]⟩

/-- The loop over `pats` for a file. -/
def findTable (f : List UInt8) : List (List UInt8 × Nat) → Except PatternError (Option Nat)
  | [] => .ok none
  | (filter, list) :: pats => do
      if ← patternMatches f filter then return some list else findTable f pats

/-- The loop over the files; `pats` is in the order of `pairs`. -/
def placeFiles (pats : List (List UInt8 × Nat)) :
    List (List UInt8) → List (κ × List (List UInt8)) → List (List UInt8) → Except PatternError
    (List (κ × List (List UInt8)) × List (List UInt8))
  | [], tables, unfiltered => .ok (tables, unfiltered)
  | f :: files, tables, unfiltered => do
      match ← findTable f pats with
      | some list => placeFiles pats files (tables.modify list fun tab => (tab.1, tab.2 ++ [f])) unfiltered
      | none => placeFiles pats files tables (unfiltered ++ [f])

/-- `result`: the tables of the filters, and behind them the files without one. -/
def globResult (tables : List (κ × List (List UInt8))) (unfiltered : List (List UInt8)) :
    List (Item κ (List UInt8) (List UInt8)) :=
  tables.map (fun tab => .table (some tab.1) (tab.2.map .leaf) []) ++ unfiltered.map .leaf

def fglob (pairs : PairsOrder) (filters : List (FilterItem κ)) (files : List (List UInt8)) :
    Except FGlobError (List (Item κ (List UInt8) (List UInt8))) := do
  let t ← collectFilters filters ⟨[], []⟩
  match placeFiles (pairs.enumerate t.pats) files t.tables [] with
  | .error err => .error (.pattern err)
  | .ok (tables, unfiltered) => .ok (globResult tables unfiltered)

/-! ### The pattern table -/

/-- The filters there are, each with a pattern and a config. -/
def FilterItem.given (filter : List UInt8 × κ) : FilterItem κ := ⟨some filter.1, some filter.2⟩

def LastWith (filters : List (List UInt8 × κ)) (p : List UInt8) (i : Nat) : Prop :=
  (∃ config, filters[i]? = some (p, config)) ∧ ∀ j config, i < j → filters[j]? ≠ some (p, config)

theorem getElem?_append_singleton_iff {α : Type} {xs : List α} {x v : α} {k : Nat} :
    (xs ++ [x])[k]? = some v ↔ xs[k]? = some v ∨ (k = xs.length ∧ x = v) := by
  rcases Nat.lt_trichotomy k xs.length with hlt | rfl | hgt
  · rw [List.getElem?_append_left hlt]
    simp [hlt.ne]
  · simp
  · rw [List.getElem?_eq_none (by simp; omega), List.getElem?_eq_none hgt.le]
    simp [hgt.ne']

theorem LastWith.lt {filters : List (List UInt8 × κ)} {p : List UInt8} {i : Nat} (h : LastWith filters p i) :
    i < filters.length := by
  obtain ⟨⟨config, hi⟩, -⟩ := h
  exact (List.getElem?_eq_some_iff.mp hi).1

theorem LastWith.exists_mem {filters : List (List UInt8 × κ)} {p : List UInt8} {i : Nat} (h : LastWith filters p i) :
    ∃ config, (p, config) ∈ filters := by
  obtain ⟨⟨config, hi⟩, -⟩ := h
  exact ⟨config, List.mem_of_getElem? hi⟩

theorem LastWith.unique {filters : List (List UInt8 × κ)} {p : List UInt8} {i j : Nat} (hi : LastWith filters p i)
    (hj : LastWith filters p j) : i = j := by
  obtain ⟨⟨config, hfirst⟩, hlast⟩ := hi
  obtain ⟨⟨config', hfirst'⟩, hlast'⟩ := hj
  rcases Nat.lt_trichotomy i j with hlt | rfl | hgt
  · exact absurd hfirst' (hlast j config' hlt)
  · rfl
  · exact absurd hfirst (hlast' i config hgt)

theorem lastWith_append {filters : List (List UInt8 × κ)} {p q : List UInt8} {config : κ} {i : Nat} :
    LastWith (filters ++ [(p, config)]) q i ↔ (q = p ∧ i = filters.length) ∨ (q ≠ p ∧ LastWith filters q i) := by
  constructor
  · rintro ⟨⟨config', hi⟩, hlater⟩
    rcases getElem?_append_singleton_iff.mp hi with hold | ⟨rfl, heq⟩
    · refine .inr ⟨?_, ⟨config', hold⟩, fun j config'' hj hsome => ?_⟩
      · rintro rfl
        have hlt : i < filters.length := (List.getElem?_eq_some_iff.mp hold).1
        exact hlater filters.length config hlt (getElem?_append_singleton_iff.mpr (.inr ⟨rfl, rfl⟩))
      · exact hlater j config'' hj (getElem?_append_singleton_iff.mpr (.inl hsome))
    · exact .inl ⟨(Prod.mk.inj heq).1.symm, rfl⟩
  · rintro (⟨rfl, rfl⟩ | ⟨hne, h⟩)
    · refine ⟨⟨config, getElem?_append_singleton_iff.mpr (.inr ⟨rfl, rfl⟩)⟩, fun j config' hj hsome => ?_⟩
      rcases getElem?_append_singleton_iff.mp hsome with hsome | ⟨heq, -⟩
      · have hlt := (List.getElem?_eq_some_iff.mp hsome).1
        omega
      · omega
    · obtain ⟨⟨config', hi⟩, hlater⟩ := h
      refine ⟨⟨config', getElem?_append_singleton_iff.mpr (.inl hi)⟩, fun j config'' hj hsome => ?_⟩
      rcases getElem?_append_singleton_iff.mp hsome with hsome | ⟨-, heq⟩
      · exact hlater j config'' hj hsome
      · exact hne (Prod.mk.inj heq).1.symm

theorem exists_lastWith {filters : List (List UInt8 × κ)} {p : List UInt8} {config : κ} (h : (p, config) ∈ filters) :
    ∃ i, LastWith filters p i := by
  induction filters using List.reverseRecOn with
  | nil => cases h
  | append_singleton filters filter ih =>
      obtain ⟨q, config'⟩ := filter
      by_cases hp : p = q
      · exact ⟨filters.length, lastWith_append.mpr (.inl ⟨hp, rfl⟩)⟩
      · have hmem : (p, config) ∈ filters := by
          rcases List.mem_append.mp h with h | h
          · exact h
          · exact absurd (Prod.mk.inj (List.mem_singleton.mp h)).1 hp
        obtain ⟨i, hi⟩ := ih hmem
        exact ⟨i, lastWith_append.mpr (.inr ⟨hp, hi⟩)⟩

/-- The tables when some filters have been looked at. -/
structure Collected (filters : List (List UInt8 × κ)) (t : FilterTables κ) : Prop where
  tables : t.tables = filters.map fun filter => (filter.2, [])
  pats : ∀ p i, (p, i) ∈ t.pats ↔ LastWith filters p i

theorem Collected.step {filters : List (List UInt8 × κ)} {t : FilterTables κ} (h : Collected filters t)
    (p : List UInt8) (config : κ) :
    Collected (filters ++ [(p, config)]) ⟨setPattern t.pats p t.tables.length, t.tables ++ [(config, [])]⟩ where
  tables := by simp [h.tables]
  pats := by
    intro q i
    have hlen : t.tables.length = filters.length := by rw [h.tables, List.length_map]
    rw [lastWith_append, setPattern, List.mem_cons, List.mem_filter, h.pats, Prod.mk.injEq, hlen]
    simp [and_comm]

theorem collectFilters_given {done : List (List UInt8 × κ)} {t : FilterTables κ} (h : Collected done t)
    (rest : List (List UInt8 × κ)) :
    ∃ t', collectFilters (rest.map .given) t = .ok t' ∧ Collected (done ++ rest) t' := by
  induction rest generalizing done t with
  | nil => exact ⟨t, rfl, (List.append_nil done).symm ▸ h⟩
  | cons filter rest ih =>
      obtain ⟨t', hcollect, hcollected⟩ := ih (h.step filter.1 filter.2)
      refine ⟨t', hcollect, ?_⟩
      rwa [List.append_assoc] at hcollected

theorem collectFilters_start (filters : List (List UInt8 × κ)) :
    ∃ t, collectFilters (filters.map .given) ⟨[], []⟩ = .ok t ∧ Collected filters t := by
  have hstart : Collected ([] : List (List UInt8 × κ)) ⟨[], []⟩ := ⟨rfl, fun p i => by simp [LastWith]⟩
  exact collectFilters_given hstart filters

/-! ### Files -/

def matchesFile (f p : List UInt8) : Bool :=
  match patternMatches f p with
  | .ok b => b
  | .error _ => false

theorem patternMatches_eq {f p : List UInt8} {b : Bool} (h : patternMatches f p = .ok b) : matchesFile f p = b := by
  rw [matchesFile, h]

/-- Without errors, a file goes to the first table whose pattern lets it through. -/
theorem findTable_eq {f : List UInt8} {pats : List (List UInt8 × Nat)}
    (htotal : ∀ entry ∈ pats, ∃ b, patternMatches f entry.1 = .ok b) :
    findTable f pats = .ok ((pats.find? fun entry => matchesFile f entry.1).map Prod.snd) := by
  induction pats with
  | nil => rfl
  | cons entry pats ih =>
      obtain ⟨b, hb⟩ := htotal entry List.mem_cons_self
      have hrest := ih fun entry hentry => htotal entry (List.mem_cons_of_mem _ hentry)
      rw [findTable, List.find?_cons, hb, patternMatches_eq hb]
      cases b with
      | true => rfl
      | false => exact hrest

theorem findTable_of_placeFiles {pats : List (List UInt8 × Nat)} {files : List (List UInt8)}
    {tables : List (κ × List (List UInt8))} {unfiltered : List (List UInt8)}
    {result : List (κ × List (List UInt8)) × List (List UInt8)}
    (h : placeFiles pats files tables unfiltered = .ok result) :
    ∀ f ∈ files, ∃ list, findTable f pats = .ok list := by
  induction files generalizing tables unfiltered with
  | nil => exact fun f hf => absurd hf List.not_mem_nil
  | cons f files ih =>
      rw [placeFiles] at h
      cases hfind : findTable f pats with
      | error err =>
          rw [hfind] at h
          cases h
      | ok list =>
          intro f' hf'
          rcases List.mem_cons.mp hf' with rfl | hf'
          · exact ⟨list, hfind⟩
          · rw [hfind] at h
            cases list with
            | none => exact ih h f' hf'
            | some list => exact ih h f' hf'

theorem placeFiles_eq {pats : List (List UInt8 × Nat)} {place : List UInt8 → Option Nat} {files : List (List UInt8)}
    (hplace : ∀ f ∈ files, findTable f pats = .ok (place f)) (tables : List (κ × List (List UInt8)))
    (unfiltered : List (List UInt8)) :
    placeFiles pats files tables unfiltered =
      .ok (tables.mapIdx fun i tab => (tab.1, tab.2 ++ files.filter fun f => place f = some i),
      unfiltered ++ files.filter fun f => place f = none) := by
  induction files generalizing tables unfiltered with
  | nil =>
      have hid : (tables.mapIdx fun _ tab => (tab.1, tab.2)) = tables := by
        refine List.ext_getElem? fun i => ?_
        rw [List.getElem?_mapIdx]
        cases tables[i]? <;> simp
      simp only [placeFiles, List.filter_nil, hid, List.append_nil]
  | cons f files ih =>
      have hrest := ih fun f hf => hplace f (List.mem_cons_of_mem _ hf)
      rw [placeFiles, hplace f List.mem_cons_self]
      cases hf : place f with
      | none =>
          show placeFiles pats files tables (unfiltered ++ [f]) = _
          rw [hrest]
          simp [hf]
      | some list =>
          show placeFiles pats files (tables.modify list fun tab => (tab.1, tab.2 ++ [f])) unfiltered = _
          rw [hrest]
          congr 2
          · refine List.ext_getElem? fun i => ?_
            rw [List.getElem?_mapIdx, List.getElem?_mapIdx, List.getElem?_modify]
            by_cases hi : list = i
            · subst hi
              cases tables[list]? with
              | none => rfl
              | some tab => simp [hf]
            · cases tables[i]? with
              | none => rfl
              | some tab => simp [hf, hi]
          · simp [hf]

/-! ### What each file is under -/

/-- The files of an element of the result, each with the `Config` it is under. -/
def assigned : Item κ (List UInt8) (List UInt8) → List (Option κ × List UInt8)
  | .leaf f => [(none, f)]
  | .table config items fields => (flatten (.table config items fields)).map fun f => (config, f)

/-- The files in tables and beside them, each with its `Config`. -/
def underConfigs (tables : List (κ × List (List UInt8))) (unfiltered : List (List UInt8)) :
    List (Option κ × List UInt8) :=
  (tables.flatMap fun tab => tab.2.map fun f => (some tab.1, f)) ++ unfiltered.map fun f => (none, f)

theorem plainIterAll_leaves (files accum : List (List UInt8)) :
    plainIterAll (files.map (Item.leaf : List UInt8 → Item κ (List UInt8) (List UInt8))) accum = accum ++ files := by
  induction files generalizing accum with
  | nil => exact (List.append_nil accum).symm
  | cons f files ih =>
      rw [List.map_cons, plainIterAll, plainIter, ih, List.append_assoc]
      rfl

theorem assigned_globResult (tables : List (κ × List (List UInt8))) (unfiltered : List (List UInt8)) :
    (globResult tables unfiltered).flatMap assigned = underConfigs tables unfiltered := by
  have htable : ∀ tab : κ × List (List UInt8), assigned (.table (some tab.1) (tab.2.map .leaf) []) = tab.2.map
    fun f => (some tab.1, f) := by
    intro tab
    rw [assigned, flatten, plainIter, plainIterAll_leaves, List.nil_append]
  have hleaves : (unfiltered.map (Item.leaf : List UInt8 → Item κ (List UInt8) (List UInt8))).flatMap assigned =
    unfiltered.map fun f => (none, f) := by
    rw [List.flatMap_map]
    exact List.map_eq_flatMap.symm
  rw [globResult, List.flatMap_append, List.flatMap_map, hleaves, underConfigs]
  simp only [htable]

/-- A file that is put into a table is under its `Config`. -/
theorem underConfigs_modify (f : List UInt8) (unfiltered : List (List UInt8)) {list : Nat}
    {tables : List (κ × List (List UInt8))} {tab : κ × List (List UInt8)} (hlist : tables[list]? = some tab) :
    (underConfigs (tables.modify list fun tab => (tab.1, tab.2 ++ [f])) unfiltered).Perm
    ((some tab.1, f) :: underConfigs tables unfiltered) := by
  induction tables generalizing list with
  | nil => cases hlist
  | cons first tables ih =>
      cases list with
      | zero =>
          obtain rfl : first = tab := Option.some.inj hlist
          simp only [underConfigs, List.modify_zero_cons, List.flatMap_cons, List.map_append, List.append_assoc]
          exact List.perm_middle
      | succ list =>
          have hrest := ih hlist
          simp only [underConfigs, List.modify_succ_cons, List.flatMap_cons, List.append_assoc] at hrest ⊢
          exact (hrest.append_left _).trans List.perm_middle

theorem underConfigs_append (f : List UInt8) (tables : List (κ × List (List UInt8))) (unfiltered : List (List UInt8)) :
    (underConfigs tables (unfiltered ++ [f])).Perm ((none, f) :: underConfigs tables unfiltered) := by
  rw [underConfigs, List.map_append, ← List.append_assoc]
  exact List.perm_append_singleton _ _

/-- A run puts each file under the `Config` of its table, once. -/
theorem placeFiles_perm {pats : List (List UInt8 × Nat)} {place : List UInt8 → Option Nat}
    {configOf : List UInt8 → Option κ} {files : List (List UInt8)}
    (hplace : ∀ f ∈ files, findTable f pats = .ok (place f)) (tables : List (κ × List (List UInt8)))
    (unfiltered : List (List UInt8))
    (hconfig : ∀ f ∈ files, ∀ list, place f = some list → ∃ tab, tables[list]? = some tab ∧ configOf f = some tab.1)
    (hnone : ∀ f ∈ files, place f = none → configOf f = none) :
    ∃ result, placeFiles pats files tables unfiltered = .ok result ∧
      (underConfigs result.1 result.2).Perm (underConfigs tables unfiltered ++ files.map fun f => (configOf f, f)) := by
  induction files generalizing tables unfiltered with
  | nil => exact ⟨(tables, unfiltered), rfl, by rw [List.map_nil, List.append_nil]⟩
  | cons f files ih =>
      have hfiles : ∀ f' ∈ files, findTable f' pats = .ok (place f') :=
        fun f' hf' => hplace f' (List.mem_cons_of_mem _ hf')
      have hnones : ∀ f' ∈ files, place f' = none → configOf f' = none :=
        fun f' hf' => hnone f' (List.mem_cons_of_mem _ hf')
      rw [placeFiles, hplace f List.mem_cons_self]
      cases hf : place f with
      | none =>
          have hconfigs : ∀ f' ∈ files, ∀ list, place f' = some list → ∃ tab, tables[list]? = some tab ∧
            configOf f' = some tab.1 :=
            fun f' hf' => hconfig f' (List.mem_cons_of_mem _ hf')
          obtain ⟨result, hrun, hperm⟩ := ih hfiles tables (unfiltered ++ [f]) hconfigs hnones
          refine ⟨result, hrun, hperm.trans ?_⟩
          rw [List.map_cons, hnone f List.mem_cons_self hf]
          exact ((underConfigs_append f tables unfiltered).append_right _).trans List.perm_middle.symm
      | some list =>
          obtain ⟨tab, htab, hfirst⟩ := hconfig f List.mem_cons_self list hf
          have hconfigs : ∀ f' ∈ files, ∀ list', place f' = some list' →
              ∃ tab', (tables.modify list fun tab => (tab.1, tab.2 ++ [f]))[list']? = some tab' ∧
                configOf f' = some tab'.1 := by
            intro f' hf' list' hlist'
            obtain ⟨tab', htab', hconfig'⟩ := hconfig f' (List.mem_cons_of_mem _ hf') list' hlist'
            rw [List.getElem?_modify, htab']
            by_cases heq : list = list'
            · exact ⟨(tab'.1, tab'.2 ++ [f]), by simp [heq], hconfig'⟩
            · exact ⟨tab', by simp [heq], hconfig'⟩
          obtain ⟨result, hrun, hperm⟩ := ih hfiles _ unfiltered hconfigs hnones
          refine ⟨result, hrun, hperm.trans ?_⟩
          rw [List.map_cons, hfirst]
          exact ((underConfigs_modify f unfiltered htab).append_right _).trans List.perm_middle.symm

/-! ### Orders of the table -/

/-- The `Config` of the first filter that lets a file through. -/
def firstConfig (filters : List (List UInt8 × κ)) (f : List UInt8) :
    Option κ := (filters.find? fun filter => matchesFile f filter.1).map Prod.snd

/-- The `Config` of the last one. -/
def lastConfig (filters : List (List UInt8 × κ)) (f : List UInt8) : Option κ :=
  (filters.reverse.find? fun filter => matchesFile f filter.1).map Prod.snd

/-- The filters let a file through with one pattern at most, and the first and the last filter with it say the
same. No pattern raises an error. -/
structure Unambiguous (filters : List (List UInt8 × κ)) (f : List UInt8) : Prop where
  total : ∀ filter ∈ filters, ∃ b, patternMatches f filter.1 = .ok b
  apart : ∀ filter ∈ filters, ∀ filter' ∈ filters, matchesFile f filter.1 = true → matchesFile f filter'.1 = true →
    filter.1 = filter'.1
  repeated : firstConfig filters f = lastConfig filters f

/-- `FGlob` gives the same structure for every order of `pairs`, with each file in it once, under the `Config`
of the first filter that lets it through. -/
def AssignsOnce (filters : List (List UInt8 × κ)) (files : List (List UInt8)) : Prop :=
  (∀ pairs pairs' : PairsOrder, fglob pairs (filters.map .given) files = fglob pairs' (filters.map .given) files) ∧
    ∀ pairs : PairsOrder, ∃ result, fglob pairs (filters.map .given) files = .ok result ∧
      (result.flatMap assigned).Perm (files.map fun f => (firstConfig filters f, f))

/-- The table a file goes to. -/
def placeOf (pats : List (List UInt8 × Nat)) (f : List UInt8) :
    Option Nat := (pats.find? fun entry => matchesFile f entry.1).map Prod.snd

variable {filters : List (List UInt8 × κ)} {t : FilterTables κ} {files : List (List UInt8)} {f : List UInt8}

theorem Collected.entry (h : Collected filters t) {pats : List (List UInt8 × Nat)} (hperm : pats.Perm t.pats)
    {entry : List UInt8 × Nat} (hentry : entry ∈ pats) :
    LastWith filters entry.1 entry.2 := (h.pats entry.1 entry.2).mp (hperm.mem_iff.mp hentry)

theorem Collected.entry_total (h : Collected filters t) {pats : List (List UInt8 × Nat)} (hperm : pats.Perm t.pats)
    (htotal : ∀ filter ∈ filters, ∃ b, patternMatches f filter.1 = .ok b) :
    ∀ entry ∈ pats, ∃ b, patternMatches f entry.1 = .ok b := by
  intro entry hentry
  obtain ⟨config, hfilter⟩ := (h.entry hperm hentry).exists_mem
  exact htotal _ hfilter

/-- Among filters that let a file through with one pattern, the last one with this pattern is the last one. -/
theorem LastWith.lastConfig {p : List UInt8} {i : Nat} (h : LastWith filters p i) (hmatch : matchesFile f p = true)
    (hapart : ∀ filter ∈ filters, matchesFile f filter.1 = true → filter.1 = p) :
    ∃ config, filters[i]? = some (p, config) ∧ lastConfig filters f = some config := by
  obtain ⟨⟨config, hi⟩, hlater⟩ := h
  refine ⟨config, hi, ?_⟩
  have hfind : filters.reverse.find? (fun filter => matchesFile f filter.1) = some (p, config) := by
    rw [List.find?_eq_some_iff_append]
    refine ⟨hmatch, (filters.drop (i + 1)).reverse, (filters.take i).reverse, ?_, fun filter hfilter => ?_⟩
    · obtain ⟨hlt, hget⟩ := List.getElem?_eq_some_iff.mp hi
      have hsplit : filters = filters.take i ++ (p, config) :: filters.drop (i + 1) := by
        rw [← hget, List.getElem_cons_drop, List.take_append_drop]
      calc filters.reverse = (filters.take i ++ (p, config) :: filters.drop (i + 1)).reverse :=
             congrArg List.reverse hsplit
        _ = (filters.drop (i + 1)).reverse ++ (p, config) :: (filters.take i).reverse := by simp
    · rw [Bool.not_eq_true', Bool.eq_false_iff]
      intro hfalse
      obtain ⟨j, hj⟩ := List.mem_iff_getElem?.mp (List.mem_reverse.mp hfilter)
      rw [List.getElem?_drop] at hj
      have heq := hapart filter (List.mem_of_getElem? hj) hfalse
      exact hlater (i + 1 + j) filter.2 (by omega) (heq ▸ hj)
  rw [Tundra.Lua.lastConfig, hfind]
  rfl

theorem matches_of_placeOf {pats : List (List UInt8 × Nat)} {list : Nat} (h : placeOf pats f = some list) :
    ∃ p, (p, list) ∈ pats ∧ matchesFile f p = true := by
  rw [placeOf, Option.map_eq_some_iff] at h
  obtain ⟨⟨p, list'⟩, hfind, rfl⟩ := h
  have hmatch := List.find?_some (p := fun entry : List UInt8 × Nat => matchesFile f entry.1) hfind
  exact ⟨p, List.mem_of_find?_eq_some hfind, hmatch⟩

/-- A file goes to the table of the last filter that lets it through. -/
theorem Collected.placeOf_some (h : Collected filters t) {pats : List (List UInt8 × Nat)} (hperm : pats.Perm t.pats)
    (hapart : ∀ filter ∈ filters, ∀ filter' ∈ filters, matchesFile f filter.1 = true →
    matchesFile f filter'.1 = true → filter.1 = filter'.1)
    {list : Nat} (hplace : placeOf pats f = some list) :
    ∃ tab, t.tables[list]? = some tab ∧ lastConfig filters f = some tab.1 := by
  obtain ⟨p, hmem, hmatch⟩ := matches_of_placeOf hplace
  have hlast := h.entry hperm hmem
  obtain ⟨config, hfilter⟩ := hlast.exists_mem
  obtain ⟨config', hi, hconfig⟩ :=
    hlast.lastConfig hmatch fun filter' hfilter' hf => hapart filter' hfilter' _ hfilter hf hmatch
  refine ⟨(config', []), ?_, hconfig⟩
  rw [h.tables, List.getElem?_map, hi]
  rfl

theorem Collected.placeOf_none (h : Collected filters t) {pats : List (List UInt8 × Nat)} (hperm : pats.Perm t.pats)
    (hplace : placeOf pats f = none) :
    lastConfig filters f = none := by
  rw [lastConfig, Option.map_eq_none_iff, List.find?_eq_none]
  intro filter hfilter hmatch
  obtain ⟨i, hi⟩ := exists_lastWith (List.mem_reverse.mp hfilter)
  rw [placeOf, Option.map_eq_none_iff, List.find?_eq_none] at hplace
  exact hplace (filter.1, i) (hperm.mem_iff.mpr ((h.pats _ _).mpr hi)) hmatch

/-- Where one pattern at most lets a file through, its table does not depend on the order. -/
theorem Collected.placeOf_eq (h : Collected filters t) {pats pats' : List (List UInt8 × Nat)}
    (hperm : pats.Perm t.pats) (hperm' : pats'.Perm t.pats)
    (hapart : ∀ filter ∈ filters, ∀ filter' ∈ filters, matchesFile f filter.1 = true →
    matchesFile f filter'.1 = true → filter.1 = filter'.1) :
    placeOf pats f = placeOf pats' f := by
  have hle : ∀ {pats pats' : List (List UInt8 × Nat)}, pats.Perm t.pats → pats'.Perm t.pats →
      ∀ list, placeOf pats f = some list → placeOf pats' f = some list := by
    intro pats pats' hperm hperm' list hplace
    obtain ⟨p, hmem, hmatch⟩ := matches_of_placeOf hplace
    have hlast := h.entry hperm hmem
    cases hplace' : placeOf pats' f with
    | none =>
        rw [placeOf, Option.map_eq_none_iff, List.find?_eq_none] at hplace'
        exact absurd hmatch (hplace' (p, list) (hperm'.mem_iff.mpr (hperm.mem_iff.mp hmem)))
    | some list' =>
        obtain ⟨p', hmem', hmatch'⟩ := matches_of_placeOf hplace'
        have hlast' := h.entry hperm' hmem'
        obtain ⟨config, hfilter⟩ := hlast.exists_mem
        obtain ⟨config', hfilter'⟩ := hlast'.exists_mem
        obtain rfl : p' = p := hapart _ hfilter' _ hfilter hmatch' hmatch
        exact congrArg some (hlast'.unique hlast)
  refine Option.ext fun list => ⟨hle hperm hperm' list, hle hperm' hperm list⟩

/-! ### The structure -/

theorem fglob_eq (hcollect : collectFilters (filters.map .given) ⟨[], []⟩ = .ok t) (pairs : PairsOrder)
    {result : List (κ × List (List UInt8)) × List (List UInt8)}
    (hplace : placeFiles (pairs.enumerate t.pats) files t.tables [] = .ok result) :
    fglob pairs (filters.map .given) files = .ok (globResult result.1 result.2) := by
  rw [fglob, hcollect]
  simp only [bind, Except.bind, hplace]

theorem placeFiles_of_fglob (hcollect : collectFilters (filters.map .given) ⟨[], []⟩ = .ok t) {pairs : PairsOrder}
    {result : List (Item κ (List UInt8) (List UInt8))} (h : fglob pairs (filters.map .given) files = .ok result) :
    ∃ placed, placeFiles (pairs.enumerate t.pats) files t.tables [] = .ok placed := by
  rw [fglob, hcollect] at h
  simp only [bind, Except.bind] at h
  cases hplace : placeFiles (pairs.enumerate t.pats) files t.tables [] with
  | error err =>
      rw [hplace] at h
      cases h
  | ok placed => exact ⟨placed, rfl⟩

/-- Nothing is lost when the tables and the files beside them are put together. -/
theorem globResult_inj {tables tables' : List (κ × List (List UInt8))} {unfiltered unfiltered' : List (List UInt8)}
    (hlen : tables.length = tables'.length) (h : globResult tables unfiltered = globResult tables' unfiltered') :
    tables = tables' := by
  have hleaf : Function.Injective (Item.leaf : List UInt8 → Item κ (List UInt8) (List UInt8)) :=
    fun f f' heq => Item.leaf.inj heq
  have htable : Function.Injective fun tab : κ × List (List UInt8) =>
      (Item.table (some tab.1) (tab.2.map .leaf) [] : Item κ (List UInt8) (List UInt8)) := by
    intro tab tab' heq
    obtain ⟨hconfig, hitems, -⟩ := Item.table.inj heq
    exact Prod.ext (Option.some.inj hconfig) (List.map_injective_iff.mpr hleaf hitems)
  have hlen' : (tables.map fun tab =>
    (Item.table (some tab.1) (tab.2.map .leaf) [] : Item κ (List UInt8) (List UInt8))).length =
      (tables'.map fun tab => (Item.table (some tab.1) (tab.2.map .leaf) [] :
        Item κ (List UInt8) (List UInt8))).length := by
    rw [List.length_map, List.length_map, hlen]
  exact List.map_injective_iff.mpr htable (List.append_inj h hlen').1

theorem entryFirst_perm (entry : List UInt8 × Nat) (pats : List (List UInt8 × Nat)) :
    (if entry ∈ pats then entry :: pats.erase entry else pats).Perm pats := by
  split_ifs with hmem
  · exact (List.perm_cons_erase hmem).symm
  · exact .refl _

/-- An order that begins with an entry. -/
def entryFirst (entry : List UInt8 × Nat) : PairsOrder where
  enumerate pats := if entry ∈ pats then entry :: pats.erase entry else pats
  perm := entryFirst_perm entry

theorem entryFirst_eq {entry : List UInt8 × Nat} {pats : List (List UInt8 × Nat)} (hmem : entry ∈ pats) :
    (entryFirst entry).enumerate pats = entry :: pats.erase entry := if_pos hmem

/-- `FGlob` on files that one pattern at most lets through. -/
theorem Collected.places (h : Collected filters t)
    (htotal : ∀ f ∈ files, ∀ filter ∈ filters, ∃ b, patternMatches f filter.1 = .ok b) (pairs : PairsOrder) :
    ∀ f ∈ files, findTable f (pairs.enumerate t.pats) = .ok (placeOf (pairs.enumerate t.pats) f) := by
  intro f hf
  exact findTable_eq (h.entry_total (pairs.perm _) (htotal f hf))

theorem Collected.fglob_perm (hcollect : collectFilters (filters.map .given) ⟨[], []⟩ = .ok t) (h : Collected filters t)
    (htotal : ∀ f ∈ files, ∀ filter ∈ filters, ∃ b, patternMatches f filter.1 = .ok b)
    (hapart : ∀ f ∈ files, ∀ filter ∈ filters, ∀ filter' ∈ filters,
      matchesFile f filter.1 = true → matchesFile f filter'.1 = true → filter.1 = filter'.1)
    (pairs : PairsOrder) : ∃ result, fglob pairs (filters.map .given) files = .ok result ∧
      (result.flatMap assigned).Perm (files.map fun f => (lastConfig filters f, f)) := by
  have hperm := pairs.perm t.pats
  obtain ⟨placed, hplace, hplaced⟩ := placeFiles_perm (h.places htotal pairs) t.tables []
    (fun f hf list hlist => h.placeOf_some hperm (hapart f hf) hlist) fun f hf hnone => h.placeOf_none hperm hnone
  refine ⟨globResult placed.1 placed.2, fglob_eq hcollect pairs hplace, ?_⟩
  have hempty : underConfigs t.tables [] = [] := by simp [underConfigs, h.tables]
  rw [assigned_globResult]
  rwa [hempty, List.nil_append] at hplaced

theorem placeFiles_congr {pats pats' : List (List UInt8 × Nat)}
    (hsame : ∀ f ∈ files, findTable f pats = findTable f pats') (tables : List (κ × List (List UInt8)))
    (unfiltered : List (List UInt8)) :
    placeFiles pats files tables unfiltered = placeFiles pats' files tables unfiltered := by
  induction files generalizing tables unfiltered with
  | nil => rfl
  | cons f files ih =>
      have hrest := ih fun f hf => hsame f (List.mem_cons_of_mem _ hf)
      rw [placeFiles, placeFiles, hsame f List.mem_cons_self]
      simp only [hrest]

/-- No pattern raises an error where every order has a result. -/
theorem Collected.total (hcollect : collectFilters (filters.map .given) ⟨[], []⟩ = .ok t) (h : Collected filters t)
    (hok : ∀ pairs : PairsOrder, ∃ result, fglob pairs (filters.map .given) files = .ok result) (hf : f ∈ files) :
    ∀ filter ∈ filters, ∃ b, patternMatches f filter.1 = .ok b := by
  intro filter hfilter
  obtain ⟨i, hi⟩ := exists_lastWith hfilter
  have hmem := (h.pats _ _).mpr hi
  obtain ⟨result, hresult⟩ := hok (entryFirst (filter.1, i))
  obtain ⟨placed, hplaced⟩ := placeFiles_of_fglob hcollect hresult
  obtain ⟨list, hfind⟩ := findTable_of_placeFiles hplaced f hf
  rw [entryFirst_eq hmem, findTable] at hfind
  cases hb : patternMatches f filter.1 with
  | ok b => exact ⟨b, rfl⟩
  | error err =>
      rw [hb] at hfind
      cases hfind

theorem mem_table_entryFirst (hcollect : collectFilters (filters.map .given) ⟨[], []⟩ = .ok t) (h : Collected filters t)
    (htotal : ∀ f ∈ files, ∀ filter ∈ filters, ∃ b, patternMatches f filter.1 = .ok b) (pairs : PairsOrder) :
    ∃ unfiltered, fglob pairs (filters.map .given) files =
      .ok (globResult (t.tables.mapIdx
      fun i tab => (tab.1, tab.2 ++ files.filter fun f => placeOf (pairs.enumerate t.pats) f = some i)) unfiltered) :=
  ⟨_, fglob_eq hcollect pairs (placeFiles_eq (h.places htotal pairs) t.tables [])⟩

/-- Two patterns that let one file through give it to two tables. -/
theorem Collected.apart (hcollect : collectFilters (filters.map .given) ⟨[], []⟩ = .ok t) (h : Collected filters t)
    (htotal : ∀ f ∈ files, ∀ filter ∈ filters, ∃ b, patternMatches f filter.1 = .ok b)
    (hsame : ∀ pairs pairs' : PairsOrder, fglob pairs (filters.map .given) files =
    fglob pairs' (filters.map .given) files)
    (hf : f ∈ files) :
    ∀ filter ∈ filters, ∀ filter' ∈ filters, matchesFile f filter.1 = true → matchesFile f filter'.1 = true →
    filter.1 = filter'.1 := by
  intro filter hfilter filter' hfilter' hmatch hmatch'
  obtain ⟨i, hi⟩ := exists_lastWith hfilter
  obtain ⟨i', hi'⟩ := exists_lastWith hfilter'
  have hplace : ∀ (p : List UInt8) (j : Nat), LastWith filters p j → matchesFile f p = true →
      placeOf ((entryFirst (p, j)).enumerate t.pats) f = some j := by
    intro p j hj hp
    rw [entryFirst_eq ((h.pats p j).mpr hj), placeOf, List.find?_cons, hp]
    rfl
  obtain ⟨unfiltered, hrun⟩ := mem_table_entryFirst hcollect h htotal (entryFirst (filter.1, i))
  obtain ⟨unfiltered', hrun'⟩ := mem_table_entryFirst hcollect h htotal (entryFirst (filter'.1, i'))
  have hresults := Except.ok.inj ((hrun.symm.trans (hsame _ _)).trans hrun')
  have htables := globResult_inj (by rw [List.length_mapIdx, List.length_mapIdx]) hresults
  have hlt : i < t.tables.length := by
    rw [h.tables, List.length_map]
    exact hi.lt
  have htable := congrArg (·[i]?) htables
  simp only [List.getElem?_mapIdx, List.getElem?_eq_getElem hlt, Option.map_some, Option.some.injEq, Prod.mk.injEq,
    true_and,
    List.append_cancel_left_eq] at htable
  have hmem : f ∈ files.filter fun f => placeOf ((entryFirst (filter.1, i)).enumerate t.pats) f = some i :=
    List.mem_filter.mpr ⟨hf, decide_eq_true (hplace _ _ hi hmatch)⟩
  rw [htable] at hmem
  have hother := of_decide_eq_true (List.mem_filter.mp hmem).2
  obtain rfl : i' = i := Option.some.inj ((hplace _ _ hi' hmatch').symm.trans hother)
  obtain ⟨⟨config, hget⟩, -⟩ := hi
  obtain ⟨⟨config', hget'⟩, -⟩ := hi'
  exact (Prod.mk.inj (Option.some.inj (hget.symm.trans hget'))).1

/-- `FGlob` assigns each file once, whatever the order of `pairs`, just when the filters are unambiguous on it. -/
theorem fglob_assignsOnce_iff (filters : List (List UInt8 × κ)) (files : List (List UInt8)) :
    AssignsOnce filters files ↔ ∀ f ∈ files, Unambiguous filters f := by
  obtain ⟨t, hcollect, h⟩ := collectFilters_start filters
  constructor
  · rintro ⟨hsame, hassigned⟩ f hf
    have htotal : ∀ f ∈ files, ∀ filter ∈ filters, ∃ b, patternMatches f filter.1 = .ok b := fun f hf =>
      h.total hcollect (fun pairs => (hassigned pairs).imp fun result hresult => hresult.1) hf
    have hapart : ∀ f ∈ files, ∀ filter ∈ filters, ∀ filter' ∈ filters,
        matchesFile f filter.1 = true → matchesFile f filter'.1 = true → filter.1 = filter'.1 :=
          fun f hf => h.apart hcollect htotal hsame hf
    refine ⟨htotal f hf, hapart f hf, ?_⟩
    obtain ⟨result, hresult, hlast⟩ := h.fglob_perm hcollect htotal hapart pairsForward
    obtain ⟨result', hresult', hfirst⟩ := hassigned pairsForward
    obtain rfl : result = result' := Except.ok.inj (hresult.symm.trans hresult')
    have hmem : (firstConfig filters f, f) ∈ files.map fun f => (lastConfig filters f, f) :=
      (hfirst.symm.trans hlast).mem_iff.mp (List.mem_map_of_mem hf)
    obtain ⟨f', -, heq⟩ := List.mem_map.mp hmem
    obtain ⟨hconfig, rfl⟩ := Prod.mk.inj heq
    exact hconfig.symm
  · intro hall
    have htotal : ∀ f ∈ files, ∀ filter ∈ filters, ∃ b, patternMatches f filter.1 = .ok b :=
      fun f hf => (hall f hf).total
    refine ⟨fun pairs pairs' => ?_, fun pairs => ?_⟩
    · have hplaces : ∀ f ∈ files, findTable f (pairs.enumerate t.pats) = findTable f (pairs'.enumerate t.pats) := by
        intro f hf
        rw [h.places htotal pairs f hf, h.places htotal pairs' f hf,
          h.placeOf_eq (pairs.perm _) (pairs'.perm _) (hall f hf).apart]
      rw [fglob, fglob, hcollect]
      simp only [bind, Except.bind, placeFiles_congr hplaces]
    · obtain ⟨result, hresult, hlast⟩ := h.fglob_perm hcollect htotal (fun f hf => (hall f hf).apart) pairs
      have hconfigs : (files.map fun f => (firstConfig filters f, f)) = files.map fun f => (lastConfig filters f, f) :=
        List.map_congr_left fun f hf => by rw [(hall f hf).repeated]
      exact ⟨result, hresult, hconfigs ▸ hlast⟩

end

/-! ### Ambiguous filters -/

/-- The files of what `FGlob` gives back, each with its `Config`. -/
def assignments {κ : Type} : Except FGlobError (List (Item κ (List UInt8) (List UInt8))) → List (Option κ × List UInt8)
  | .ok result => result.flatMap assigned
  | .error _ => []

/-- The table from its end. -/
def pairsBackward : PairsOrder := ⟨List.reverse, List.reverse_perm⟩

/-- The file `ab` under the patterns `a` and `b`, and the file `a` under the pattern `a` twice. -/
theorem fglob_ambiguous :
    ¬AssignsOnce [([97], "linux-*"), ([98], "macosx-*")] [[97, 98]] ∧ ¬AssignsOnce
    [([97], "linux-*"), ([97], "macosx-*")] [[97]] := by
  constructor
  · rintro ⟨hsame, -⟩
    have hforward : assignments (fglob pairsForward ([([97], "linux-*"), ([98], "macosx-*")].map .given) [[97, 98]]) =
      [(some "macosx-*", [97, 98])] := by
      decide +kernel
    have hbackward : assignments
      (fglob pairsBackward ([([97], "linux-*"), ([98], "macosx-*")].map .given) [[97, 98]]) =
      [(some "linux-*", [97, 98])] := by
      decide +kernel
    rw [hsame pairsForward pairsBackward, hbackward] at hforward
    exact absurd hforward (by decide)
  · rintro ⟨-, hassigned⟩
    obtain ⟨result, hresult, hperm⟩ := hassigned pairsForward
    have hlast : assignments (fglob pairsForward ([([97], "linux-*"), ([97], "macosx-*")].map .given) [[97]]) =
      [(some "macosx-*", [97])] := by
      decide +kernel
    have hfirst : ([[97]].map fun f => (firstConfig [([97], "linux-*"), ([97], "macosx-*")] f, f)) =
      [(some "linux-*", [97])] := by
      decide +kernel
    rw [hresult, assignments] at hlast
    rw [hlast, hfirst] at hperm
    exact absurd hperm (by decide)

end Tundra.Lua
