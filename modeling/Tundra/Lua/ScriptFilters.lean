import Tundra.Lib.Checked
import Tundra.Lua.ConfigMatch
import Tundra.Lua.Nodegen

/-!
# Filters of declarations

The declarations of units have filters and nested lists of their own. Seen as values of the script,
`config_matches`, `flatten_list` and `filter_structure` give the same for them, unless the script raises an
error on a filter.
-/

namespace Tundra.Nodegen

open Lua (ConfigFilter PatternCache Item filterMatches tableMatches flattenIter flattenIterAll filterStructureAll)

mutual

/-- A `Config` attribute in the script. -/
def ConfigPattern.toFilter : ConfigPattern → ConfigFilter
  | .pattern text => .string text
  | .any patterns => .table (toFilters patterns)

def ConfigPattern.toFilters : List ConfigPattern → List ConfigFilter
  | [] => []
  | first :: rest => first.toFilter :: toFilters rest

end

mutual

/-- A nested list in the script. -/
def FilterTree.toItem {α : Type} : FilterTree α → Item ConfigFilter (List UInt8) α
  | .leaf a => .leaf a
  | .table config items => .table (config.map ConfigPattern.toFilter) (toItems items) []

def FilterTree.toItems {α : Type} : List (FilterTree α) → List (Item ConfigFilter (List UInt8) α)
  | [] => []
  | item :: items => item.toItem :: toItems items

end

/-- The `SourceDir` of a table. -/
def sourceDirField (sourceDir : Option (List UInt8)) : List (List UInt8 × Item ConfigFilter (List UInt8) SourceTree) :=
  sourceDir.toList.map fun dir => (lit "SourceDir", .leaf (.file dir))

mutual

/-- A list of sources in the script. -/
def SourceTree.toItem : SourceTree → Item ConfigFilter (List UInt8) SourceTree
  | .table config sourceDir items => .table (config.map ConfigPattern.toFilter) (toItems items) (sourceDirField sourceDir)
  | .file name => .leaf (.file name)
  | .unit index => .leaf (.unit index)
  | .node index => .leaf (.node index)

def SourceTree.toItems : List SourceTree → List (Item ConfigFilter (List UInt8) SourceTree)
  | [] => []
  | item :: items => item.toItem :: toItems items

end

def patternMatches (text buildId : List UInt8) : Bool :=
  match filterMatches (.string text) buildId with
  | .ok found => found
  | .error _ => false

variable {α : Type} {buildId : List UInt8}

mutual

theorem accepts_script {cache : PatternCache} {found : Bool} : ∀ config : ConfigPattern,
    (Lua.configMatches buildId config.toFilter cache).1 = .ok found → config.accepts patternMatches buildId = found
  | .pattern text, h => by
      rw [Lua.tableMatches_configMatches] at h
      have hmatches : filterMatches (.string text) buildId = .ok found := h
      rw [ConfigPattern.accepts, patternMatches, hmatches]
  | .any patterns, h => acceptsAny_script patterns h

theorem acceptsAny_script {cache : PatternCache} {found : Bool} : ∀ patterns : List ConfigPattern,
    (Lua.configMatchesAny buildId (ConfigPattern.toFilters patterns) cache).1 = .ok found →
      ConfigPattern.acceptsAny patternMatches buildId patterns = found
  | [], h => Except.ok.inj h
  | first :: rest, h => by
      rw [ConfigPattern.toFilters, Lua.configMatchesAny] at h
      rw [ConfigPattern.acceptsAny]
      rcases hfirst : Lua.configMatches buildId first.toFilter cache with ⟨result, after⟩
      rw [hfirst] at h
      cases result with
      | error err => cases h
      | ok matched =>
          rw [accepts_script first (congrArg Prod.fst hfirst)]
          cases matched with
          | true => exact Except.ok.inj h
          | false => exact acceptsAny_script rest h

end

/-- `config_matches` on the filter of a declaration. -/
theorem configMatches_script {config : Option ConfigPattern} {found : Bool}
    (h : tableMatches filterMatches (config.map ConfigPattern.toFilter) buildId = .ok found) :
    configMatches patternMatches buildId config = found := by
  cases config with
  | none => exact Except.ok.inj h
  | some config => exact accepts_script config h

mutual

theorem flattenIter_script {accum items : List α} {filtered : Bool} : ∀ tree : FilterTree α,
    flattenIter filterMatches (some buildId) false tree.toItem accum filtered = .ok items →
      items = accum ++ flattenList (configMatches patternMatches buildId) tree
  | .leaf a, h => (Except.ok.inj h).symm
  | .table config trees, h => by
      rw [FilterTree.toItem, flattenIter, Lua.passes] at h
      obtain ⟨found, hmatches, h⟩ := Checked.bind_eq_ok.mp h
      rw [flattenList, configMatches_script hmatches]
      cases found with
      | false => exact (Except.ok.inj h).symm.trans (List.append_nil accum).symm
      | true => exact flattenIterAll_script trees h

theorem flattenIterAll_script {accum items : List α} {filtered : Bool} : ∀ trees : List (FilterTree α),
    flattenIterAll filterMatches (some buildId) false (FilterTree.toItems trees) accum filtered = .ok items →
      items = accum ++ flattenItems (configMatches patternMatches buildId) trees
  | [], h => (Except.ok.inj h).symm.trans (List.append_nil accum).symm
  | tree :: trees, h => by
      rw [FilterTree.toItems, flattenIterAll] at h
      obtain ⟨first, hfirst, hrest⟩ := Checked.bind_eq_ok.mp h
      rw [flattenItems, flattenIterAll_script trees hrest, flattenIter_script tree hfirst, List.append_assoc]

end

/-- `flatten_list` on a nested list of a declaration. -/
theorem flattenList_script {tree : FilterTree α} {items : List α}
    (h : Lua.flattenList filterMatches (some buildId) tree.toItem false = .ok items) :
    flattenList (configMatches patternMatches buildId) tree = items :=
  (flattenIter_script tree h).symm

mutual

/-- `filter_structure` on the sources of a declaration. -/
theorem filterStructure_script {result : Item ConfigFilter (List UInt8) SourceTree} : ∀ tree : SourceTree,
    Lua.filterStructure filterMatches buildId tree.toItem = .ok result →
      (filterStructure (configMatches patternMatches buildId) tree).toItem = result
  | .file name, h => Except.ok.inj h
  | .unit index, h => Except.ok.inj h
  | .node index, h => Except.ok.inj h
  | .table config sourceDir trees, h => by
      rw [SourceTree.toItem, Lua.filterStructure] at h
      obtain ⟨found, hmatches, h⟩ := Checked.bind_eq_ok.mp h
      rw [filterStructure, configMatches_script hmatches]
      cases found with
      | false => exact Except.ok.inj h
      | true =>
          obtain ⟨items, hitems, h⟩ := Checked.bind_eq_ok.mp h
          have hresult := Except.ok.inj h
          rw [← hresult, ← filterItems_script trees hitems]
          rfl

theorem filterItems_script {results : List (Item ConfigFilter (List UInt8) SourceTree)} : ∀ trees : List SourceTree,
    filterStructureAll filterMatches buildId (SourceTree.toItems trees) = .ok results →
      SourceTree.toItems (filterItems (configMatches patternMatches buildId) trees) = results
  | [], h => Except.ok.inj h
  | tree :: trees, h => by
      rw [SourceTree.toItems, filterStructureAll] at h
      obtain ⟨first, hfirst, h⟩ := Checked.bind_eq_ok.mp h
      obtain ⟨rest, hrest, h⟩ := Checked.bind_eq_ok.mp h
      have hresults := Except.ok.inj h
      rw [← hresults, filterItems, SourceTree.toItems, filterStructure_script tree hfirst, filterItems_script trees hrest]

end

end Tundra.Nodegen
