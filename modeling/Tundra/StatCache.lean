import Tundra.HashTable

/-!
# The stat cache

`StatCacheStat` remembers what `GetFileInfo` said about a path until the path is marked dirty. A record is never
replaced: the next stat of a dirty path inserts a second record for it behind the first, and the first stays
dirty. So a lookup keeps finding the dirty one, and every later stat goes to the file system again. A mark
writes to the first record only; the record behind it stays clean, whatever it says, and a growth of the table
may put it in front.
-/

namespace Tundra

structure FileInfo where
  flags : UInt32
  size : UInt64
  timestamp : UInt64
deriving DecidableEq

namespace FileInfo

def kFlagExists : UInt32 := 1
def kFlagError : UInt32 := 2
def kFlagFile : UInt32 := 4
def kFlagDirectory : UInt32 := 8
def kFlagDirty : UInt32 := 0x40000000

/-- The flag of the stat cache. -/
def isDirty (info : FileInfo) : Bool := info.flags &&& kFlagDirty != 0

end FileInfo

/-- The kind of a file that `stat` found. -/
inductive FileKind where
  | regular
  | directory
  | other
deriving DecidableEq

/-- What `stat` says about a path. -/
inductive StatResult where
  | found (kind : FileKind) (mtime size : UInt64)
  | failed (notFound : Bool)
deriving DecidableEq

def getFileInfo : StatResult → FileInfo
  | .found kind mtime size =>
      let flags := match kind with
        | .directory => FileInfo.kFlagExists ||| FileInfo.kFlagDirectory
        | .regular => FileInfo.kFlagExists ||| FileInfo.kFlagFile
        | .other => FileInfo.kFlagExists
      ⟨flags, size, mtime⟩
  | .failed notFound => ⟨if notFound then 0 else FileInfo.kFlagError, 0, 0⟩

theorem isDirty_getFileInfo (st : StatResult) : (getFileInfo st).isDirty = false := by
  cases st with
  | found kind mtime size => cases kind <;> simp only [getFileInfo, FileInfo.isDirty] <;> decide
  | failed notFound => cases notFound <;> decide

/-- `m_Files` of the `StatCache`. -/
abbrev StatCache := HashTable FileInfo

def statCacheMarkDirty (self : StatCache) (path : CString) (hash : UInt32) : StatCache :=
  self.modify hash path fun info => { info with flags := FileInfo.kFlagDirty }

/-- What `StatCacheStat` returns, whether it missed and called `GetFileInfo`, and the cache after it. -/
structure StatReply where
  info : FileInfo
  missed : Bool
  cache : StatCache

/-- `StatCacheStat`: the cached information if there is any and it is clean, else what `GetFileInfo` says now,
which is inserted. -/
def statCacheStat (self : StatCache) (path : CString) (hash : UInt32) (now : StatResult) : StatReply :=
  match self.lookup hash path with
  | some info =>
      if info.isDirty then ⟨getFileInfo now, true, self.insert hash path (getFileInfo now)⟩ else ⟨info, false, self⟩
  | none => ⟨getFileInfo now, true, self.insert hash path (getFileInfo now)⟩

/-- The operations on one cache. A stat comes with what the file system would say at that time. -/
inductive StatCacheOp where
  | stat (path : CString) (now : StatResult)
  | markDirty (path : CString)

inductive StatCacheEvent where
  | fileInfo (path : CString) (info : FileInfo)
  | marked (path : CString)

/-- A cache and what has happened to it, the oldest event first. -/
structure StatSession where
  cache : StatCache
  log : List StatCacheEvent

namespace StatSession

def init : StatSession := ⟨.init, []⟩

/-- Every path is passed with its own hash. -/
def step (s : StatSession) : StatCacheOp → StatSession
  | .stat path now =>
      let reply := statCacheStat s.cache path (djb2HashPath path) now
      ⟨reply.cache, if reply.missed then s.log ++ [.fileInfo path (getFileInfo now)] else s.log⟩
  | .markDirty path => ⟨statCacheMarkDirty s.cache path (djb2HashPath path), s.log ++ [.marked path]⟩

def run (ops : List StatCacheOp) : StatSession := ops.foldl step init

end StatSession

/-- What `GetFileInfo` has said about a path since the path was last marked dirty. -/
def saidSinceMark (path : CString) (log : List StatCacheEvent) : List FileInfo :=
  log.foldl (fun infos event => match event with
    | .fileInfo p info => if p = path then infos ++ [info] else infos
    | .marked p => if p = path then [] else infos) []

namespace StatSession

/-- Whatever is asked now, the answer is something `GetFileInfo` said since the path was last marked. -/
def Fresh (s : StatSession) : Prop :=
  ∀ path now, (statCacheStat s.cache path (djb2HashPath path) now).info ∈
    saidSinceMark path (s.step (.stat path now)).log

/-- If the operation makes the table grow, then for no path the first record in the order of the slots is a
clean one from before the last mark. -/
def GrowsInOrder (s : StatSession) (op : StatCacheOp) : Prop :=
  ∀ path now, op = .stat path now → (statCacheStat s.cache path (djb2HashPath path) now).missed = true →
    s.cache.grows = true →
    ∀ other info, (s.cache.walkRecords (djb2HashPath other) other).head? = some info →
      info.isDirty = true ∨ info ∈ saidSinceMark other (s.step op).log

/-- The clean record a lookup finds is something `GetFileInfo` said since the path was last marked. -/
def CleanFresh (s : StatSession) : Prop :=
  ∀ path info, s.cache.lookup (djb2HashPath path) path = some info → info.isDirty = false →
    info ∈ saidSinceMark path s.log

end StatSession

variable {self : StatCache} {s : StatSession} {path other : CString} {hash : UInt32} {now : StatResult}
  {info : FileInfo}
  {log : List StatCacheEvent}

@[simp] theorem saidSinceMark_fileInfo : saidSinceMark path (log ++ [.fileInfo other info]) =
    if other = path then saidSinceMark path log ++ [info] else saidSinceMark path log := by
  simp only [saidSinceMark, List.foldl_append, List.foldl_cons, List.foldl_nil]

@[simp] theorem saidSinceMark_marked : saidSinceMark path (log ++ [.marked other]) =
    if other = path then [] else saidSinceMark path log := by
  simp only [saidSinceMark, List.foldl_append, List.foldl_cons, List.foldl_nil]

/-- A stat is a hit, which changes nothing, or a miss, which asks the file system. -/
theorem statCacheStat_cases (self : StatCache) (path : CString) (hash : UInt32) (now : StatResult) :
    (∃ info, self.lookup hash path = some info ∧ info.isDirty = false ∧
    statCacheStat self path hash now = ⟨info, false, self⟩) ∨
    (∀ info, self.lookup hash path = some info → info.isDirty = true) ∧
      statCacheStat self path hash now = ⟨getFileInfo now, true, self.insert hash path (getFileInfo now)⟩ := by
  unfold statCacheStat
  cases hfound : self.lookup hash path with
  | none => exact .inr ⟨fun _ h => (Option.some_ne_none _ h.symm).elim, rfl⟩
  | some info =>
      cases hdirty : info.isDirty with
      | true =>
          refine .inr ⟨fun info' h => ?_, by simp [hdirty]⟩
          rw [← Option.some.inj h, hdirty]
      | false => exact .inl ⟨info, rfl, hdirty, by simp [hdirty]⟩

namespace StatSession

theorem fresh_iff : s.Fresh ↔ s.CleanFresh := by
  constructor
  · intro hfresh path info hfound hclean
    have hanswer := hfresh path (.failed true)
    rcases statCacheStat_cases s.cache path (djb2HashPath path) (.failed true) with ⟨info', hfound', -, hreply⟩ |
      ⟨hdirty, -⟩
    · rw [hfound, Option.some.injEq] at hfound'
      simpa [step, hreply, ← hfound'] using hanswer
    · rw [hdirty info hfound] at hclean
      cases hclean
  · intro hclean path now
    rcases statCacheStat_cases s.cache path (djb2HashPath path) now with ⟨info, hfound, hinfo, hreply⟩ | ⟨-, hreply⟩
    · simpa [step, hreply] using hclean path info hfound hinfo
    · simp [step, hreply]

theorem valid_step (hv : s.cache.Valid) (op : StatCacheOp) : (s.step op).cache.Valid := by
  cases op with
  | stat path now =>
      rcases statCacheStat_cases s.cache path (djb2HashPath path) now with ⟨info, -, -, hreply⟩ | ⟨-, hreply⟩
      · simpa [step, hreply] using hv
      · simpa [step, hreply] using (hv.insert_spec (djb2HashPath_ne_zero path) path (getFileInfo now)).1
  | markDirty path =>
      exact (hv.modify_spec (djb2HashPath path) path fun info => { info with flags := FileInfo.kFlagDirty }).1

theorem valid_run (ops : List StatCacheOp) : (run ops).cache.Valid := by
  induction ops using List.reverseRecOn with
  | nil => exact HashTable.valid_init
  | append_singleton ops op ih => simpa [run] using valid_step ih op

theorem lookup_miss (hv : s.cache.Valid) (path other : CString) (info : FileInfo) :
    (s.cache.insert (djb2HashPath path) path info).lookup (djb2HashPath other) other =
      ((if s.cache.grows then s.cache.walkRecords (djb2HashPath other) other
      else s.cache.records (djb2HashPath other) other) ++
        if path = other then [info] else []).head? := by
  obtain ⟨hv', -, hrecords⟩ := hv.insert_spec (djb2HashPath_ne_zero path) path info
  rw [hv'.lookup_eq, hrecords]
  congr 3
  exact propext ⟨fun h => h.2, fun h => ⟨congrArg _ h, h⟩⟩

/-- A mark leaves the path's first record dirty and changes no other path. -/
theorem cleanFresh_mark (hv : s.cache.Valid) (hclean : s.CleanFresh) (path : CString) :
    (s.step (.markDirty path)).CleanFresh := by
  intro other info hfound hinfo
  obtain ⟨hv', hself, hothers⟩ :=
    hv.modify_spec (djb2HashPath path) path fun info => { info with flags := FileInfo.kFlagDirty }
  change HashTable.lookup (HashTable.modify _ _ _ _) _ _ = _ at hfound
  rw [hv'.lookup_eq] at hfound
  by_cases hpath : path = other
  · subst hpath
    rw [hself, List.head?_modifyHead] at hfound
    obtain ⟨first, -, rfl⟩ := Option.map_eq_some_iff.mp hfound
    exact absurd hinfo (by simp only [FileInfo.isDirty]; decide)
  · rw [hothers _ _ fun h => hpath h.2, ← hv.lookup_eq] at hfound
    simpa [step, hpath] using hclean other info hfound hinfo

/-- A step keeps the clean records fresh exactly when it grows the table in order. -/
theorem cleanFresh_step_iff (hv : s.cache.Valid) (hclean : s.CleanFresh) (op : StatCacheOp) :
    (s.step op).CleanFresh ↔ s.GrowsInOrder op := by
  cases op with
  | markDirty path => exact iff_of_true (cleanFresh_mark hv hclean path) fun _ _ h => by cases h
  | stat path now =>
      rcases statCacheStat_cases s.cache path (djb2HashPath path) now with ⟨info, -, -, hreply⟩ | ⟨hdirty, hreply⟩
      · have hsame : s.step (.stat path now) = s := by simp [step, hreply]
        rw [hsame]
        refine iff_of_true hclean fun path' now' hop hmiss => ?_
        cases hop
        rw [hreply] at hmiss
        cases hmiss
      have hcache : (s.step (.stat path now)).cache = s.cache.insert (djb2HashPath path) path (getFileInfo now) := by
        simp [step, hreply]
      have hlog : (s.step (.stat path now)).log = s.log ++ [.fileInfo path (getFileInfo now)] := by
        simp [step, hreply]
      constructor
      · intro hclean' path' now' _ _ hgrows other info hfirst
        cases hinfo : info.isDirty with
        | true => exact .inl rfl
        | false =>
            refine .inr (hclean' other info ?_ hinfo)
            rw [hcache, lookup_miss hv, if_pos hgrows, List.head?_append, hfirst]
            rfl
      · intro horder other info hfound hinfo
        rw [hcache, lookup_miss hv, List.head?_append] at hfound
        rw [Option.or_eq_some_iff] at hfound
        rcases hfound with hfirst | ⟨-, hnew⟩
        · split_ifs at hfirst with hgrows
          · rcases horder path now rfl (by rw [hreply]) hgrows other info hfirst with h | h
            · rw [h] at hinfo
              cases hinfo
            · exact h
          · have hsaid := hclean other info (by rw [hv.lookup_eq, hfirst]) hinfo
            rw [hlog, saidSinceMark_fileInfo]
            split_ifs
            · exact List.mem_append_left _ hsaid
            · exact hsaid
        · split_ifs at hnew with hpath
          · subst hpath
            rw [List.head?_cons, Option.some.injEq] at hnew
            simp [hlog, hnew]
          · cases hnew

end StatSession

/-- In a sequence of operations every stat answers with something `GetFileInfo` said since the path was last
marked dirty, whatever path is asked next, exactly when no growth of the table puts a clean record from before a
path's last mark in front of the others of that path. -/
theorem stat_cache_fresh (ops : List StatCacheOp) :
    (∀ pre, pre <+: ops → (StatSession.run pre).Fresh) ↔
      ∀ pre op, pre ++ [op] <+: ops → (StatSession.run pre).GrowsInOrder op := by
  have hsnoc : ∀ pre op, StatSession.run (pre ++ [op]) = (StatSession.run pre).step op := by
    intro pre op
    simp [StatSession.run]
  simp only [StatSession.fresh_iff]
  constructor
  · intro hfresh pre op hprefix
    have hpre := hfresh pre ((List.prefix_append pre [op]).trans hprefix)
    exact (StatSession.cleanFresh_step_iff (StatSession.valid_run pre) hpre op).mp (hsnoc pre op ▸ hfresh _ hprefix)
  · intro horder pre
    induction pre using List.reverseRecOn with
    | nil => exact fun _ _ _ h => by cases h
    | append_singleton pre op ih =>
        intro hprefix
        have hpre := ih ((List.prefix_append pre [op]).trans hprefix)
        rw [hsnoc]
        exact (StatSession.cleanFresh_step_iff (StatSession.valid_run pre) hpre op).mpr (horder pre op hprefix)

/-- A path whose records start in the last slot of a table of 128 slots. -/
def CString.lastSlot : CString := ⟨[90], by decide⟩

/-- A file that was last written at this time. -/
def StatResult.writtenAt (time : UInt64) : StatResult := .found .regular time 0

/-- One path, marked dirty twice and then asked for until the table grows. -/
def restatOps : List StatCacheOp :=
  [.stat .lastSlot (.writtenAt 0), .markDirty .lastSlot, .stat .lastSlot (.writtenAt 1), .markDirty .lastSlot] ++
    List.replicate 39 (.stat .lastSlot (.writtenAt 2))

/-- The second record is clean and from before the second mark. It stands in slot 0, the first one in slot 127;
the growth puts it in front, and it is what the next stat returns. -/
theorem stat_cache_stale :
    (statCacheStat (StatSession.run restatOps).cache .lastSlot (djb2HashPath .lastSlot) (.writtenAt 2)).info ∉
    saidSinceMark .lastSlot ((StatSession.run restatOps).step (.stat .lastSlot (.writtenAt 2))).log := by
  decide +kernel

end Tundra
