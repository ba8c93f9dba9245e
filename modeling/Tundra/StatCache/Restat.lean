import Tundra.StatCache
import Mathlib.Data.Finset.Card
import Mathlib.Data.List.Dedup

/-!
# One record per path

The stat cache has one record for each path as long as no path is stat'ed again that was marked dirty. The miss
path inserts a record whether or not there is a dirty one, so the first such stat leaves a second record behind.
-/

namespace Tundra

open scoped List

namespace StatSession

/-- The paths passed to `StatCacheStat`. -/
def statPaths (ops : List StatCacheOp) : List CString :=
  ops.filterMap fun op => match op with
    | .stat path _ => some path
    | .markDirty _ => none

/-- The path was stat'ed, and marked dirty after that. -/
def Stale (path : CString) (ops : List StatCacheOp) : Prop := ∃ now, [.stat path now, .markDirty path] <+ ops

/-- No path is stat'ed, marked dirty and stat'ed again. -/
def NoRestat (ops : List StatCacheOp) :
    Prop := ¬ ∃ path now now', [.stat path now, .markDirty path, .stat path now'] <+ ops

/-- There are as many records as paths were stat'ed. -/
def OneRecordPerPath (ops : List StatCacheOp) : Prop :=
  ∀ pre, pre <+: ops → (run pre).cache.recordCount = (statPaths pre).toFinset.card

/-- What was stat'ed is not asked of the file system again until it is marked dirty. -/
def ServedFromCache (ops : List StatCacheOp) : Prop :=
  ∀ pre path now between now', pre ++ .stat path now :: between ++ [.stat path now'] <+: ops →
    .markDirty path ∉ between →
    (statCacheStat (run (pre ++ .stat path now :: between)).cache path (djb2HashPath path) now').missed = false

variable {s : StatSession} {ops pre : List StatCacheOp} {op : StatCacheOp} {path other : CString} {now : StatResult}

theorem run_append_singleton (ops : List StatCacheOp) (op : StatCacheOp) : run (ops ++ [op]) = (run ops).step op := by
  rw [run, List.foldl_append]
  rfl

/-! ### What has happened to a path -/

theorem concat_sublist_concat {α : Type} {l l' : List α} {a b : α} :
    l ++ [a] <+ l' ++ [b] ↔ l ++ [a] <+ l' ∨ a = b ∧ l <+ l' := by
  rw [← List.reverse_sublist, List.reverse_append, List.reverse_append, List.reverse_singleton, List.reverse_singleton,
    List.singleton_append, List.singleton_append, List.cons_sublist_cons', List.reverse_sublist, ← List.reverse_concat, List.reverse_sublist]

theorem mem_statPaths : path ∈ statPaths ops ↔ ∃ now, .stat path now ∈ ops := by
  rw [statPaths, List.mem_filterMap]
  constructor
  · rintro ⟨op, hop, hpath⟩
    cases op with
    | stat other now =>
        obtain rfl := Option.some.inj hpath
        exact ⟨now, hop⟩
    | markDirty other => cases hpath
  · rintro ⟨now, hop⟩
    exact ⟨_, hop, rfl⟩

theorem statPaths_stat (ops : List StatCacheOp) (path : CString) (now : StatResult) :
    statPaths (ops ++ [.stat path now]) = statPaths ops ++ [path] := by
  simp [statPaths]

theorem statPaths_mark (ops : List StatCacheOp) (path : CString) :
    statPaths (ops ++ [.markDirty path]) = statPaths ops := by
  simp [statPaths]

theorem stale_stat : Stale path (ops ++ [.stat other now]) ↔ Stale path ops := by
  have hconcat : ∀ now', [StatCacheOp.stat path now', .markDirty path] = [.stat path now'] ++ [.markDirty path] :=
    fun _ => rfl
  simp only [Stale, hconcat, concat_sublist_concat, reduceCtorEq, false_and, or_false]

theorem stale_mark : Stale path (ops ++ [.markDirty other]) ↔ Stale path ops ∨ path = other ∧ path ∈ statPaths ops := by
  have hconcat : ∀ now', [StatCacheOp.stat path now', .markDirty path] = [.stat path now'] ++ [.markDirty path] :=
    fun _ => rfl
  simp only [Stale, hconcat, concat_sublist_concat, StatCacheOp.markDirty.injEq, List.singleton_sublist,
    mem_statPaths, exists_or,
    exists_and_left]

theorem NoRestat.of_isPrefix (h : NoRestat ops) (hpre : pre <+: ops) : NoRestat pre := by
  rintro ⟨path, now, now', hsub⟩
  exact h ⟨path, now, now', hsub.trans hpre.sublist⟩

theorem noRestat_stat : NoRestat (ops ++ [.stat path now]) ↔ NoRestat ops ∧ ¬ Stale path ops := by
  have hconcat : ∀ path now' now'', [StatCacheOp.stat path now', .markDirty path, .stat path now''] =
      [.stat path now', .markDirty path] ++ [.stat path now''] := fun _ _ _ => rfl
  simp only [NoRestat, Stale, hconcat, concat_sublist_concat, StatCacheOp.stat.injEq]
  rw [← not_or, not_iff_not]
  constructor
  · rintro ⟨path', now', now'', hsub | ⟨⟨rfl, rfl⟩, hsub⟩⟩
    · exact .inl ⟨path', now', now'', hsub⟩
    · exact .inr ⟨now', hsub⟩
  · rintro (⟨path', now', now'', hsub⟩ | ⟨now', hsub⟩)
    · exact ⟨path', now', now'', .inl hsub⟩
    · exact ⟨path, now', now, .inr ⟨⟨rfl, rfl⟩, hsub⟩⟩

theorem noRestat_mark : NoRestat (ops ++ [.markDirty path]) ↔ NoRestat ops := by
  have hconcat : ∀ path now' now'', [StatCacheOp.stat path now', .markDirty path, .stat path now''] =
      [.stat path now', .markDirty path] ++ [.stat path now''] := fun _ _ _ => rfl
  simp only [NoRestat, hconcat, concat_sublist_concat, reduceCtorEq, false_and, or_false]

theorem Stale.mem_statPaths (h : Stale path ops) : path ∈ statPaths ops := by
  obtain ⟨now, hsub⟩ := h
  exact StatSession.mem_statPaths.mpr ⟨now, hsub.subset List.mem_cons_self⟩

/-! ### The records -/

/-- There is one record for each path that was stat'ed, and it is dirty if the path was marked since. -/
structure OneEach (ops : List StatCacheOp) (s : StatSession) : Prop where
  distinct : s.cache.Distinct djb2HashPath
  strings : ∀ path, path ∈ s.cache.walk.map Record.string ↔ path ∈ statPaths ops
  dirty : ∀ path info, s.cache.lookup (djb2HashPath path) path = some info → (info.isDirty = true ↔ Stale path ops)

theorem oneEach_init : OneEach [] init where
  distinct := .init
  strings := fun _ => .rfl
  dirty := fun path info h => by
    cases h

theorem OneEach.recordCount_eq (h : OneEach ops s) : s.cache.recordCount = (statPaths ops).toFinset.card := by
  have hperm : (s.cache.walk.map Record.string).Perm (statPaths ops).dedup := by
    refine (List.perm_ext_iff_of_nodup h.distinct.strings (List.nodup_dedup _)).mpr fun path => ?_
    rw [h.strings, List.mem_dedup]
  have hcount : s.cache.walk.length = s.cache.recordCount := h.distinct.valid.count
  rw [← hcount, List.card_toFinset, ← hperm.length_eq, List.length_map]

theorem OneEach.exists_lookup (h : OneEach ops s) (hpath : path ∈ statPaths ops) :
    ∃ info, s.cache.lookup (djb2HashPath path) path = some info := by
  obtain ⟨r, hr, hstring⟩ := List.mem_map.mp ((h.strings path).mpr hpath)
  exact ⟨r.payload, h.distinct.lookup_eq_some_iff.mpr ⟨r, hr, hstring, rfl⟩⟩

theorem lookup_mark (hv : s.cache.Valid) (path other : CString) :
    (s.step (.markDirty path)).cache.lookup (djb2HashPath other) other =
      if path = other then (s.cache.lookup (djb2HashPath other) other).map
      fun info => { info with flags := FileInfo.kFlagDirty }
      else s.cache.lookup (djb2HashPath other) other := by
  obtain ⟨hv', hself, hothers⟩ :=
    hv.modify_spec (djb2HashPath path) path fun info => { info with flags := FileInfo.kFlagDirty }
  change (HashTable.modify s.cache _ _ _).lookup _ _ = _
  rw [hv'.lookup_eq, hv.lookup_eq]
  split_ifs with hpath
  · subst hpath
    rw [hself, List.head?_modifyHead]
  · rw [hothers _ _ fun h => hpath h.2]

theorem OneEach.mark (h : OneEach ops s) (path : CString) :
    OneEach (ops ++ [.markDirty path]) (s.step (.markDirty path)) where
  distinct := h.distinct.modify (djb2HashPath path) path fun info => { info with flags := FileInfo.kFlagDirty }
  strings := fun other => by
    have hkeys := congrArg (List.map Prod.snd)
      (s.cache.walk_modify_keys (djb2HashPath path) path fun info => { info with flags := FileInfo.kFlagDirty })
    rw [List.map_map, List.map_map] at hkeys
    rw [statPaths_mark, ← h.strings]
    exact iff_of_eq (congrArg (other ∈ ·) hkeys)
  dirty := fun other info hlookup => by
    rw [lookup_mark h.distinct.valid] at hlookup
    split_ifs at hlookup with hpath
    · subst hpath
      obtain ⟨old, hold, rfl⟩ := Option.map_eq_some_iff.mp hlookup
      obtain ⟨r, hr, hstring, -⟩ := h.distinct.lookup_eq_some_iff.mp hold
      have hmem := (h.strings path).mp (List.mem_map.mpr ⟨r, hr, hstring⟩)
      have hdirty : ∀ info : FileInfo, FileInfo.isDirty { info with flags := FileInfo.kFlagDirty } = true := fun _ => by
        simp only [FileInfo.isDirty]
        decide
      exact iff_of_true (hdirty old) (stale_mark.mpr (.inr ⟨rfl, hmem⟩))
    · rw [h.dirty other info hlookup, stale_mark, or_iff_left fun h => hpath h.1.symm]

theorem OneEach.insert (h : OneEach ops s) (hnew : path ∉ statPaths ops) (now : StatResult)
    {log : List StatCacheEvent} :
    OneEach (ops ++ [.stat path now]) ⟨s.cache.insert (djb2HashPath path) path (getFileInfo now), log⟩ := by
  have hfresh : ∀ r ∈ s.cache.walk, r.string ≠ path := by
    rintro r hr rfl
    exact hnew ((h.strings r.string).mp (List.mem_map_of_mem hr))
  have hdistinct := h.distinct.insert (djb2HashPath_ne_zero path) hfresh (getFileInfo now)
  obtain ⟨-, hperm, -⟩ := h.distinct.valid.insert_spec (djb2HashPath_ne_zero path) path (getFileInfo now)
  refine ⟨hdistinct, fun other => ?_, fun other info hlookup => ?_⟩
  · rw [(hperm.map _).mem_iff, statPaths_stat, List.map_cons, List.mem_cons, List.mem_append, List.mem_singleton,
      h.strings, or_comm]
  · obtain ⟨r, hr, hstring, hpayload⟩ := hdistinct.lookup_eq_some_iff.mp hlookup
    rw [stale_stat]
    rcases List.mem_cons.mp (hperm.mem_iff.mp hr) with rfl | hr
    · subst hstring hpayload
      exact iff_of_false (by simp [isDirty_getFileInfo]) fun hstale => hnew hstale.mem_statPaths
    · exact h.dirty other info (h.distinct.lookup_eq_some_iff.mpr ⟨r, hr, hstring, hpayload⟩)

theorem OneEach.stat (h : OneEach ops s) (hclean : ¬ Stale path ops) (now : StatResult) :
    OneEach (ops ++ [.stat path now]) (s.step (.stat path now)) := by
  rcases statCacheStat_cases s.cache path (djb2HashPath path) now with ⟨info, hfound, -, hreply⟩ | ⟨hdirty, hreply⟩
  · obtain ⟨r, hr, hstring, -⟩ := h.distinct.lookup_eq_some_iff.mp hfound
    have hmem := (h.strings path).mp (List.mem_map.mpr ⟨r, hr, hstring⟩)
    have hsame : s.step (.stat path now) = s := by simp [step, hreply]
    rw [hsame]
    refine ⟨h.distinct, fun other => ?_, fun other info hlookup => ?_⟩
    · rw [h.strings, statPaths_stat, List.mem_append, List.mem_singleton]
      refine ⟨.inl, ?_⟩
      rintro (hother | rfl)
      · exact hother
      · exact hmem
    · rw [h.dirty other info hlookup, stale_stat]
  · have hnew : path ∉ statPaths ops := by
      intro hmem
      obtain ⟨info, hlookup⟩ := h.exists_lookup hmem
      exact hclean ((h.dirty path info hlookup).mp (hdirty info hlookup))
    have hstep : s.step (.stat path now) =
        ⟨s.cache.insert (djb2HashPath path) path (getFileInfo now), s.log ++ [.fileInfo path (getFileInfo now)]⟩ := by
      simp [step, hreply]
    rw [hstep]
    exact h.insert hnew now

/-- As long as no stale path is stat'ed again, there is one record each. -/
theorem oneEach_run (h : NoRestat ops) : OneEach ops (run ops) := by
  induction ops using List.reverseRecOn with
  | nil => exact oneEach_init
  | append_singleton ops op ih =>
      rw [run_append_singleton]
      cases op with
      | markDirty path => exact (ih (noRestat_mark.mp h)).mark path
      | stat path now =>
          obtain ⟨hops, hclean⟩ := noRestat_stat.mp h
          exact (ih hops).stat hclean now

/-- A stat of a stale path makes a record too many. -/
theorem OneEach.recordCount_restat (h : OneEach ops s) (hstale : Stale path ops) (now : StatResult) :
    (s.step (.stat path now)).cache.recordCount ≠ (statPaths (ops ++ [.stat path now])).toFinset.card := by
  obtain ⟨info, hlookup⟩ := h.exists_lookup hstale.mem_statPaths
  have hdirty := (h.dirty path info hlookup).mpr hstale
  rcases statCacheStat_cases s.cache path (djb2HashPath path) now with ⟨info', hfound, hclean, -⟩ | ⟨-, hreply⟩
  · rw [hlookup, Option.some.injEq] at hfound
    rw [← hfound, hdirty] at hclean
    cases hclean
  · have hcount : (s.step (.stat path now)).cache.recordCount = s.cache.recordCount + 1 := by
      simp only [step, hreply, HashTable.insert]
      split_ifs <;> rfl
    have hsame : (statPaths (ops ++ [.stat path now])).toFinset = (statPaths ops).toFinset := by
      rw [statPaths_stat, List.toFinset_append, List.toFinset_cons, List.toFinset_nil, insert_empty_eq]
      exact Finset.union_eq_left.mpr (Finset.singleton_subset_iff.mpr (List.mem_toFinset.mpr hstale.mem_statPaths))
    rw [hcount, hsame, h.recordCount_eq]
    omega

/-- What was stat'ed and not marked since is served from the cache. -/
theorem OneEach.served (h : OneEach ops s) (hmem : path ∈ statPaths ops) (hclean : ¬ Stale path ops)
    (now : StatResult) :
    (statCacheStat s.cache path (djb2HashPath path) now).missed = false := by
  obtain ⟨info, hlookup⟩ := h.exists_lookup hmem
  rcases statCacheStat_cases s.cache path (djb2HashPath path) now with ⟨_, -, -, hreply⟩ | ⟨hdirty, -⟩
  · rw [hreply]
  · exact absurd ((h.dirty path info hlookup).mp (hdirty info hlookup)) hclean

end StatSession

/-- The stat cache keeps one record per path, and serves every path from it until the path is marked dirty,
exactly if no path is stat'ed again that was marked dirty after an earlier stat. -/
theorem stat_cache_one_record (ops : List StatCacheOp) :
    StatSession.OneRecordPerPath ops ∧ StatSession.ServedFromCache ops ↔ StatSession.NoRestat ops := by
  constructor
  · rintro ⟨hcount, -⟩
    -- the first restat makes a record too many
    induction ops using List.reverseRecOn with
    | nil =>
        rintro ⟨path, now, now', hsub⟩
        cases hsub
    | append_singleton ops op ih =>
        have hops := ih fun pre hpre => hcount pre (hpre.trans (List.prefix_append ops [op]))
        cases op with
        | markDirty path => exact StatSession.noRestat_mark.mpr hops
        | stat path now =>
            refine StatSession.noRestat_stat.mpr ⟨hops, fun hstale => ?_⟩
            refine (StatSession.oneEach_run hops).recordCount_restat hstale now ?_
            rw [← StatSession.run_append_singleton]
            exact hcount _ List.prefix_rfl
  · intro hops
    refine ⟨fun pre hpre => (StatSession.oneEach_run (hops.of_isPrefix hpre)).recordCount_eq, ?_⟩
    intro pre path now between now' hpre hmark
    have hlast := hops.of_isPrefix hpre
    obtain ⟨hbefore, hclean⟩ := StatSession.noRestat_stat.mp hlast
    refine (StatSession.oneEach_run hbefore).served (StatSession.mem_statPaths.mpr ⟨now, ?_⟩) hclean now'
    exact List.mem_append_right _ List.mem_cons_self

/-- One path: stat'ed, marked dirty and stat'ed again. -/
def restatOnce :
    List StatCacheOp := [.stat .lastSlot (.writtenAt 0), .markDirty .lastSlot, .stat .lastSlot (.writtenAt 1)]

/-- There are two records for the one path, and the next stat goes to the file system again. -/
theorem stat_cache_two_records :
    (StatSession.run restatOnce).cache.recordCount = 2 ∧ (StatSession.statPaths restatOnce).toFinset.card = 1 ∧
    (statCacheStat (StatSession.run restatOnce).cache .lastSlot (djb2HashPath .lastSlot) (.writtenAt 1)).missed = true ∧
    ¬ StatSession.OneRecordPerPath restatOnce := by
  have hcount : (StatSession.run restatOnce).cache.recordCount = 2 := by decide +kernel
  have hpaths : (StatSession.statPaths restatOnce).toFinset.card = 1 := by decide
  refine ⟨hcount, hpaths, by decide +kernel, fun hone => ?_⟩
  have hrestat := hone restatOnce List.prefix_rfl
  rw [hcount, hpaths] at hrestat
  exact absurd hrestat (by decide)

end Tundra
