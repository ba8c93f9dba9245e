import Tundra.Terminal.Lines
import Mathlib.Data.List.Nodup

/-!
# What a thread can do while it holds the lock

A summary of every step of the system, `Moves`, for the results about all runs. The queue is not kept in order:
`FlushOutputQueue` moves its last buffers to where it has taken buffers out. So what is said about the queue is
said about the buffers of one job, up to their order.
-/

namespace Tundra.Terminal

/-! ### Flushing -/

/-- Taking an element out by moving the last one to its place. -/
theorem perm_set_getLast {α : Type} {l : List α} {i : Nat} {b : α} (h : l[i]? = some b) :
    l.Perm (b :: (l.set i (l.getLastD b)).dropLast) ∧ ((l.set i (l.getLastD b)).dropLast).take i = l.take i := by
  obtain ⟨hi, hb⟩ := List.getElem?_eq_some_iff.mp h
  obtain ⟨before, after, hl, hlength⟩ : ∃ before after, l = before ++ b :: after ∧ before.length = i :=
    ⟨l.take i, l.drop (i + 1), by rw [← hb, List.getElem_cons_drop, List.take_append_drop], by simp; omega⟩
  subst hl hlength
  rcases List.eq_nil_or_concat after with rfl | ⟨after, last, rfl⟩
  · simp
  · have hset : ((before ++ b :: (after ++ [last])).set before.length
      ((before ++ b :: (after ++ [last])).getLastD b)).dropLast = before ++ last :: after := by
      have hlast : (before ++ b :: (after ++ [last])).getLastD b = last := by
        rw [← List.cons_append, ← List.append_assoc, List.getLastD_concat]
      rw [hlast, List.set_append_right _ _ le_rfl, Nat.sub_self, List.set_cons_zero, ← List.cons_append,
        ← List.append_assoc, List.dropLast_concat]
    rw [List.concat_eq_append, hset]
    refine ⟨?_, by simp⟩
    refine List.perm_middle.trans (List.Perm.cons b ?_)
    exact (List.perm_append_singleton last after).append_left before

variable {own : LinebufPtr → Bool}

theorem compact_done {i : Nat} {queued : List LinebufPtr} (free : List LinebufPtr) (hi : queued.length ≤ i)
    (hbefore : ∀ b ∈ queued.take i, own b = false) :
    queued.Perm (queued.filter fun b => !own b) ∧ free.Perm (free ++ queued.filter own) := by
  rw [List.take_of_length_le hi] at hbefore
  rw [List.filter_eq_self.mpr (by simpa using hbefore), List.filter_eq_nil_iff.mpr (by simpa using hbefore),
    List.append_nil]
  exact ⟨.refl _, .refl _⟩

/-- The buffers of the job leave the queue and are free, whatever the order. -/
theorem compactLoop_spec {fuel i : Nat} {queued : List LinebufPtr} (free : List LinebufPtr)
    (hfuel : queued.length ≤ i + fuel) (hbefore : ∀ b ∈ queued.take i, own b = false) :
    (compactLoop own fuel i queued free).1.Perm (queued.filter fun b => !own b) ∧
      (compactLoop own fuel i queued free).2.Perm (free ++ queued.filter own) := by
  induction fuel generalizing i queued free with
  | zero => exact compact_done free hfuel hbefore
  | succ fuel ih =>
      rw [compactLoop]
      split
      · next hnone => exact compact_done free (by simpa using hnone) hbefore
      · next b hb =>
        split_ifs with hown
        · obtain ⟨hperm, htake⟩ := perm_set_getLast hb
          have hlength : queued.length = ((queued.set i (queued.getLastD b)).dropLast).length + 1 := hperm.length_eq
          have hfuel' : ((queued.set i (queued.getLastD b)).dropLast).length ≤ i + fuel := by omega
          have hrest := ih (free ++ [b]) hfuel' (by rw [htake]; exact hbefore)
          have hothers := hperm.filter fun b => !own b
          have howns := hperm.filter own
          rw [List.filter_cons_of_neg (by simp [hown])] at hothers
          rw [List.filter_cons_of_pos hown] at howns
          refine ⟨hrest.1.trans hothers.symm, hrest.2.trans ?_⟩
          rw [List.append_assoc, List.singleton_append]
          exact howns.symm.append_left free
        · refine ih free (by omega) ?_
          rw [List.take_add_one, hb, Option.toList_some]
          simp only [List.mem_append, List.mem_singleton]
          rintro b' (hb' | rfl)
          · exact hbefore b' hb'
          · simpa using hown

namespace Lines

variable {qsort : Qsort} {woken jobId : Nat} {lines : Lines}

/-- Every buffer is free or queued, and it is so once. -/
def Partition (lines : Lines) : Prop := (lines.freeLinebufs ++ lines.queuedLinebufs).Perm (List.finRange kLineBufCount)

def queuedOf (lines : Lines) (jobId : Nat) : List LineBuffer := (lines.buffers jobId).map lines.linebufs

theorem partition_init : init.Partition := by
  rw [Partition, init, List.append_nil]

theorem Partition.length (h : lines.Partition) :
    lines.freeLinebufs.length + lines.queuedLinebufs.length = kLineBufCount := by
  rw [← List.length_append, h.length_eq, List.length_finRange]

theorem Partition.nodup (h : lines.Partition) :
    (lines.freeLinebufs ++ lines.queuedLinebufs).Nodup := h.nodup_iff.mpr (List.nodup_finRange _)

/-- What `qsort` does with any comparison, even if the comparison makes no sense. -/
def Permutes (qsort : Qsort) : Prop := ∀ compare array, (qsort compare array).Perm array

/-- What `FlushOutputQueue` leaves. -/
structure Flushed (jobId : Nat) (lines lines' : Lines) : Prop where
  printingJobIndex : lines'.printingJobIndex = lines.printingJobIndex
  partition : lines.Partition → lines'.Partition
  own : lines'.queuedOf jobId = []
  others : ∀ k, k ≠ jobId → (lines'.queuedOf k).Perm (lines.queuedOf k)
  canPrint : lines'.canPrint ⊆ lines.canPrint

theorem flushed_compact {lines' : Lines} (hprinting : lines'.printingJobIndex = lines.printingJobIndex)
    (hlinebufs : lines'.linebufs = lines.linebufs) (hcanPrint : lines'.canPrint ⊆ lines.canPrint)
    (hqueued : lines'.queuedLinebufs.Perm
    (lines.queuedLinebufs.filter fun b => !decide ((lines.linebufs b).jobId = jobId)))
    (hfree : lines'.freeLinebufs.Perm
    (lines.freeLinebufs ++ lines.queuedLinebufs.filter fun b => (lines.linebufs b).jobId = jobId)) :
    Flushed jobId lines lines' where
  printingJobIndex := hprinting
  partition h := by
    refine List.Perm.trans ?_ h
    refine (hfree.append hqueued).trans ?_
    rw [List.append_assoc]
    exact (List.filter_append_perm _ lines.queuedLinebufs).append_left _
  own := by
    have hnone : lines'.buffers jobId = [] := by
      rw [buffers, List.filter_eq_nil_iff]
      intro b hb
      simpa [hlinebufs] using (List.mem_filter.mp (hqueued.mem_iff.mp hb)).2
    rw [queuedOf, hnone, List.map_nil]
  others k hk := by
    rw [queuedOf, queuedOf, hlinebufs, buffers, buffers, hlinebufs]
    refine ((hqueued.filter _).map _).trans ?_
    rw [List.filter_filter]
    refine List.Perm.of_eq (congrArg _ (List.filter_congr fun b _ => ?_))
    by_cases hb : (lines.linebufs b).jobId = k
    · simp [hb, hk]
    · simp [hb]
  canPrint := hcanPrint

theorem condSignal_subset (lines : Lines) (woken : Nat) : (lines.condSignal woken).canPrint ⊆ lines.canPrint := by
  rw [condSignal]
  dsimp only
  split_ifs
  · exact List.erase_subset
  · exact (List.tail_sublist _).subset

theorem flushOutputQueue_flushed (qsort : Qsort) (woken jobId : Nat) (lines : Lines) :
    Flushed jobId lines (lines.flushOutputQueue qsort woken jobId).1 := by
  obtain ⟨hqueued, hfree⟩ :=
    @compactLoop_spec (fun b => (lines.linebufs b).jobId = jobId) lines.queuedLinebufs.length 0 lines.queuedLinebufs
    lines.freeLinebufs (by omega) (by simp)
  rw [flushOutputQueue]
  dsimp only
  split_ifs
  · exact flushed_compact rfl rfl (condSignal_subset _ _) hqueued hfree
  · exact flushed_compact rfl rfl (List.nil_subset _) hqueued hfree
  · exact flushed_compact rfl rfl (List.Subset.refl _) hqueued hfree

/-- The buffers of a job as `qsort` puts them. -/
def sortedOf (qsort : Qsort) (lines : Lines) (jobId : Nat) : List LineBuffer :=
  (qsort lines.compareBuffers (lines.buffers jobId)).map lines.linebufs

theorem sortedOf_perm (hqsort : Permutes qsort) (lines : Lines) (jobId : Nat) :
    (lines.sortedOf qsort jobId).Perm (lines.queuedOf jobId) :=
  (hqsort _ _).map _

/-- What is written for a list of buffers. -/
def writesOf (jobId : Nat) (queue : List LineBuffer) :
    List TerminalEvent := queue.map fun line => .write jobId line.isStderr line.data

theorem flushOutputQueue_writes (qsort : Qsort) (woken jobId : Nat) (lines : Lines) :
    (lines.flushOutputQueue qsort woken jobId).2 = writesOf jobId (lines.sortedOf qsort jobId) := by
  rw [writesOf, sortedOf, List.map_map]
  rfl

/-! ### Queueing -/

theorem buffers_queueLine {b : LinebufPtr} (hb : b ∉ lines.queuedLinebufs) (line : LineBuffer) (k : Nat) :
    (lines.queueLine b line).buffers k = lines.buffers k ++ if line.jobId = k then [b] else [] := by
  have hold : lines.queuedLinebufs.filter (fun c => (Function.update lines.linebufs b line c).jobId = k) =
    lines.buffers k := by
    refine List.filter_congr fun c hc => ?_
    rw [Function.update_of_ne (ne_of_mem_of_not_mem hc hb)]
  rw [buffers, queueLine]
  dsimp only
  rw [List.filter_append, hold, List.filter_singleton]
  simp

/-- A buffer that is filled and queued is the last of its job. -/
theorem queuedOf_queueLine {b : LinebufPtr} (hb : b ∉ lines.queuedLinebufs) (line : LineBuffer) (k : Nat) :
    (lines.queueLine b line).queuedOf k = lines.queuedOf k ++ if line.jobId = k then [line] else [] := by
  have hold : (lines.buffers k).map (Function.update lines.linebufs b line) = lines.queuedOf k := by
    refine List.map_congr_left fun c hc => ?_
    rw [Function.update_of_ne (ne_of_mem_of_not_mem (List.mem_filter.mp hc).1 hb)]
  rw [queuedOf, buffers_queueLine hb, queueLine]
  dsimp only
  rw [List.map_append, hold]
  split_ifs
  · rw [List.map_singleton, Function.update_self]
  · rfl

/-- Data that is put into buffers, one by one, while another job has the TTY. -/
inductive Buffered (jobId : Nat) (sortKey : Int32) (isStderr : Bool) : Lines → List UInt8 → Lines → List UInt8 → Prop
  | refl (lines : Lines) (data : List UInt8) : Buffered jobId sortKey isStderr lines data lines data
  | queue {lines lines' : Lines} {data rest : List UInt8} {free : List LinebufPtr} {b : LinebufPtr}
      (hother : ¬lines.ttyFor jobId)
      (hfree : lines.freeLinebufs = free ++ [b])
      (h : Buffered jobId sortKey isStderr
        (queueLine { lines with freeLinebufs := free } b ⟨jobId, sortKey, isStderr, data.take (kLineBufSize - 1)⟩)
        (data.drop (kLineBufSize - 1)) lines' rest) : Buffered jobId sortKey isStderr lines data lines' rest

structure Queued (jobId : Nat) (sortKey : Int32) (isStderr : Bool) (lines : Lines) (data : List UInt8)
    (lines' : Lines) (rest : List UInt8) : Prop where
  printingJobIndex : lines'.printingJobIndex = lines.printingJobIndex
  canPrint : lines'.canPrint = lines.canPrint
  partition : lines'.Partition
  own : ∃ chunks : List (List UInt8), data = chunks.flatten ++ rest ∧
    lines'.queuedOf jobId = lines.queuedOf jobId ++ chunks.map fun chunk => ⟨jobId, sortKey, isStderr, chunk⟩
  others : ∀ k, k ≠ jobId → lines'.queuedOf k = lines.queuedOf k

theorem Buffered.queued {sortKey : Int32} {isStderr : Bool} {lines' : Lines} {data rest : List UInt8}
    (h : Buffered jobId sortKey isStderr lines data lines' rest) (hpartition : lines.Partition) :
    Queued jobId sortKey isStderr lines data lines' rest := by
  induction h with
  | refl lines data => exact ⟨rfl, rfl, hpartition, ⟨[], rfl, (List.append_nil _).symm⟩, fun _ _ => rfl⟩
  | @queue lines lines' data rest free b hother hfree h ih =>
      have hnodup := hpartition.nodup
      have hmid : Partition (queueLine { lines with freeLinebufs := free } b
        ⟨jobId, sortKey, isStderr, data.take (kLineBufSize - 1)⟩) := by
        refine List.Perm.trans ?_ hpartition
        rw [hfree, queueLine]
        dsimp only
        rw [List.append_assoc]
        exact (List.perm_append_singleton b _).append_left free
      have hb : b ∉ lines.queuedLinebufs := by
        rw [hfree, List.append_assoc, List.nodup_append] at hnodup
        exact (List.nodup_cons.mp hnodup.2.1).1
      have hqueue := @queuedOf_queueLine { lines with freeLinebufs := free } b hb
        ⟨jobId, sortKey, isStderr, data.take (kLineBufSize - 1)⟩
      have hrest := ih hmid
      obtain ⟨chunks, hchunks, hown⟩ := hrest.own
      refine ⟨hrest.printingJobIndex, hrest.canPrint, hrest.partition,
        ⟨data.take (kLineBufSize - 1) :: chunks, ?_, ?_⟩, fun k hk => ?_⟩
      · rw [List.flatten_cons, List.append_assoc, ← hchunks, List.take_append_drop]
      · rw [hown, hqueue, if_pos rfl, List.append_assoc]
        rfl
      · rw [hrest.others k hk, hqueue, if_neg (Ne.symm hk), List.append_nil]
        rfl

/-- How `TerminalIoEmit` releases the lock. -/
inductive Emits (qsort : Qsort) (woken jobId : Nat) (sortKey : Int32) (isStderr : Bool) (lines : Lines)
    (data : List UInt8) :
    Lines → List TerminalEvent → Phase → Prop
  | done {lines' : Lines} (h : Buffered jobId sortKey isStderr lines data lines' []) :
      Emits qsort woken jobId sortKey isStderr lines data lines' [] .idle
  | sleep {lines' : Lines} {rest : List UInt8} {k : Nat} (h : Buffered jobId sortKey isStderr lines data lines' rest)
      (hother : lines'.printingJobIndex = some k) : Emits qsort woken jobId sortKey isStderr lines data
        (lines'.condWait jobId) [] (.emitting sortKey isStderr rest)
  | direct (hdata : data ≠ []) (howner : lines.printingJobIndex = some jobId) :
      Emits qsort woken jobId sortKey isStderr lines data lines [] (.printing isStderr data)
  | take (hdata : data ≠ []) (hnone : lines.printingJobIndex = none) :
      Emits qsort woken jobId sortKey isStderr lines data (lines.takeTty qsort woken jobId).1
        (lines.takeTty qsort woken jobId).2 (.printing isStderr data)

theorem ttyFor_iff :
    lines.ttyFor jobId = true ↔ lines.printingJobIndex = none ∨ lines.printingJobIndex = some jobId := by
  rw [ttyFor, decide_eq_true_iff]

theorem printing_of_not_ttyFor (h : ¬lines.ttyFor jobId = true) : ∃ k, k ≠ jobId ∧ lines.printingJobIndex = some k := by
  rw [ttyFor_iff, not_or] at h
  obtain ⟨k, hk⟩ := Option.ne_none_iff_exists'.mp h.1
  exact ⟨k, fun heq => h.2 (heq ▸ hk), hk⟩

theorem Emits.queue {sortKey : Int32} {isStderr : Bool} {lines' : Lines} {data : List UInt8}
    {taken : List TerminalEvent} {phase : Phase} {free : List LinebufPtr} {b : LinebufPtr}
    (hother : ¬lines.ttyFor jobId = true) (hfree : lines.freeLinebufs = free ++ [b])
    (h : Emits qsort woken jobId sortKey isStderr
    (queueLine { lines with freeLinebufs := free } b ⟨jobId, sortKey, isStderr, data.take (kLineBufSize - 1)⟩) (data.drop (kLineBufSize - 1)) lines' taken phase) :
    Emits qsort woken jobId sortKey isStderr lines data lines' taken phase := by
  cases h with
  | done h => exact .done (.queue hother hfree h)
  | sleep h hk => exact .sleep (.queue hother hfree h) hk
  | direct hdata howner => exact absurd (ttyFor_iff.mpr (.inr howner)) hother
  | take hdata hnone => exact absurd (ttyFor_iff.mpr (.inl hnone)) hother

section Turn

variable {sortKey : Int32} {isStderr : Bool} {fuel : Nat} {buf : Option LinebufPtr} {data : List UInt8}
  {events : List TerminalEvent}

theorem emitLoop_tty (hdata : data ≠ []) (htty : lines.ttyFor jobId = true) :
    lines.emitLoop qsort woken jobId sortKey isStderr (fuel + 1) none data events =
      if lines.printingJobIndex = none then
        some ((lines.takeTty qsort woken jobId).1, events ++ (lines.takeTty qsort woken jobId).2,
        .printing isStderr data)
      else some (lines, events, .printing isStderr data) := by
  rw [emitLoop, if_neg hdata, if_pos htty]
  dsimp only
  rw [if_neg (by simp [htty])]
  split_ifs
  · rfl
  · rw [List.append_nil]

/-- A turn of the loop without the TTY and without a buffer. -/
theorem emitLoop_full (hdata : data ≠ []) (hother : ¬lines.ttyFor jobId = true) (hpartition : lines.Partition)
    (hfree : lines.freeLinebufs = []) :
    lines.emitLoop qsort woken jobId sortKey isStderr (fuel + 1) buf data events =
      some (lines.condWait jobId, events, .emitting sortKey isStderr data) := by
  have halloc : lines.allocLineBuffer = some (none, lines) := by
    rw [allocLineBuffer, if_pos hpartition.length, hfree]
    exact congrArg (fun free => some (none, { lines with freeLinebufs := free })) hfree.symm
  rw [emitLoop, if_neg hdata, if_neg hother, halloc]
  exact if_pos ⟨hother, rfl⟩

theorem emitLoop_queue {free : List LinebufPtr} {b : LinebufPtr} (hdata : data ≠ [])
    (hother : ¬lines.ttyFor jobId = true) (hpartition : lines.Partition) (hfree : lines.freeLinebufs = free ++ [b]) :
    lines.emitLoop qsort woken jobId sortKey isStderr (fuel + 1) buf data events =
      (queueLine { lines with freeLinebufs := free } b
      ⟨jobId, sortKey, isStderr, data.take (kLineBufSize - 1)⟩).emitLoop qsort woken jobId sortKey isStderr
        fuel (some b) (data.drop (kLineBufSize - 1)) events := by
  have halloc : lines.allocLineBuffer = some (some b, { lines with freeLinebufs := free }) := by
    rw [allocLineBuffer, if_pos hpartition.length, hfree, List.getLast?_concat, List.dropLast_concat]
  have hprinting : lines.printingJobIndex ≠ none := fun hnone => hother (ttyFor_iff.mpr (.inl hnone))
  rw [emitLoop, if_neg hdata, if_neg hother, halloc]
  dsimp only
  rw [if_neg (by simp), if_neg hprinting]
  dsimp only
  rw [List.append_nil]

end Turn

/-- `TerminalIoEmit` does not fail, and this is what it does. A buffer is left over from the turn before only as
long as another job has the TTY. -/
theorem emitLoop_emits (qsort : Qsort) (woken : Nat) (sortKey : Int32) (isStderr : Bool) {fuel : Nat}
    {buf : Option LinebufPtr} {data : List UInt8} (events : List TerminalEvent) {lines : Lines}
    (hpartition : lines.Partition) (hfuel : data.length < fuel) (hbuf : buf ≠ none → ¬lines.ttyFor jobId = true) :
    ∃ lines' taken phase, lines.emitLoop qsort woken jobId sortKey isStderr fuel buf data events = some
    (lines', events ++ taken, phase) ∧
      Emits qsort woken jobId sortKey isStderr lines data lines' taken phase := by
  induction fuel generalizing buf data lines with
  | zero => exact absurd hfuel (Nat.not_lt_zero _)
  | succ fuel ih =>
      by_cases hdata : data = []
      · refine ⟨lines, [], .idle, ?_, hdata ▸ .done (.refl _ _)⟩
        rw [emitLoop, if_pos hdata, List.append_nil]
      · by_cases htty : lines.ttyFor jobId = true
        · obtain rfl : buf = none := by
            by_contra hne
            exact hbuf hne htty
          rw [emitLoop_tty hdata htty]
          by_cases hnone : lines.printingJobIndex = none
          · exact ⟨_, _, _, if_pos hnone, .take hdata hnone⟩
          · have howner := (ttyFor_iff.mp htty).resolve_left hnone
            exact ⟨lines, [], _, by rw [if_neg hnone, List.append_nil], .direct hdata howner⟩
        · rcases List.eq_nil_or_concat lines.freeLinebufs with hfree | ⟨free, b, hfree⟩
          · obtain ⟨k, -, hk⟩ := printing_of_not_ttyFor htty
            refine ⟨_, [], _, ?_, .sleep (.refl lines data) hk⟩
            rw [emitLoop_full hdata htty hpartition hfree, List.append_nil]
          · rw [List.concat_eq_append] at hfree
            have hqueued := @Buffered.queue jobId sortKey isStderr _ _ data _ free b htty hfree (.refl _ _)
            have hlength : (data.drop (kLineBufSize - 1)).length < fuel := by
              have hpos := List.length_pos_iff.mpr hdata
              have hsize : kLineBufSize = 8192 := rfl
              rw [List.length_drop]
              omega
            rw [emitLoop_queue hdata htty hpartition hfree]
            obtain ⟨lines', taken, phase, hloop, hemits⟩ :=
              ih (hqueued.queued hpartition).partition hlength fun _ => htty
            exact ⟨lines', taken, phase, hloop, hemits.queue htty hfree⟩

end Lines

/-! ### Steps -/

/-- A thread is in `TerminalIoEmit`: it calls the function, or it has slept there. -/
inductive Calls (s : State) : Action → Nat → Int32 → Bool → List UInt8 → Nat → List TerminalEvent → Prop
  | call {jobId woken : Nat} {sortKey : Int32} {isStderr : Bool} {data : List UInt8} (hidle : s.phase jobId = .idle) :
      Calls s (.emit jobId sortKey isStderr data woken) jobId sortKey isStderr data woken
        [.emit jobId sortKey isStderr data]
  | resume {jobId woken : Nat} {sortKey : Int32} {isStderr : Bool} {data : List UInt8}
      (hphase : s.phase jobId = .emitting sortKey isStderr data) :
      Calls s (.resume jobId woken) jobId sortKey isStderr data woken []

/-- A thread is in `TerminalIoJobExit`: it calls the function, or it has slept there. -/
inductive Exits (s : State) : Action → Nat → Nat → Prop
  | call {jobId woken : Nat} (hidle : s.phase jobId = .idle) : Exits s (.exit jobId woken) jobId woken
  | resume {jobId woken : Nat} (hphase : s.phase jobId = .exiting) : Exits s (.resume jobId woken) jobId woken

/-- Everything a step can do. -/
inductive Moves (qsort : Qsort) (s : State) : Action → State → List TerminalEvent → Prop
  | emit {a : Action} {jobId woken : Nat} {sortKey : Int32} {isStderr : Bool} {data : List UInt8}
      {events taken : List TerminalEvent} {lines' : Lines}
      {phase : Phase} (hcall : Calls s a jobId sortKey isStderr data woken events)
      (h : Lines.Emits qsort woken jobId sortKey isStderr s.lines data lines' taken phase) :
      Moves qsort s a ⟨lines', Function.update s.phase jobId phase⟩ (events ++ taken)
  | exitSleep {a : Action} {jobId woken k : Nat} (hexit : Exits s a jobId woken)
      (hother : s.lines.printingJobIndex = some k) :
      Moves qsort s a ⟨s.lines.condWait jobId, Function.update s.phase jobId .exiting⟩ []
  | exitPrint {a : Action} {jobId woken : Nat} (hexit : Exits s a jobId woken)
      (htty : s.lines.printingJobIndex = none ∨ s.lines.printingJobIndex = some jobId) :
      Moves qsort s a ⟨(s.lines.exitPrint qsort woken jobId).1, Function.update s.phase jobId .signalling⟩
        (s.lines.exitPrint qsort woken jobId).2.1
  | print {jobId : Nat} {isStderr : Bool} {data : List UInt8} (hphase : s.phase jobId = .printing isStderr data) :
      Moves qsort s (.print jobId) ⟨s.lines, Function.update s.phase jobId .idle⟩ [.write jobId isStderr data]
  | broadcast {jobId : Nat} (hphase : s.phase jobId = .signalling) :
      Moves qsort s (.broadcast jobId) ⟨s.lines.condBroadcast, Function.update s.phase jobId .idle⟩ [.exited jobId]
  | wake (jobId : Nat) : Moves qsort s (.wake jobId)
      ⟨{ s.lines with canPrint := s.lines.canPrint.erase jobId }, s.phase⟩ []

variable {qsort : Qsort} {s s' : State} {a : Action} {es : List TerminalEvent}

theorem emit_moves {jobId woken : Nat} {sortKey : Int32} {isStderr : Bool} {data : List UInt8}
    {events : List TerminalEvent} (hpartition : s.lines.Partition)
    (hcall : Calls s a jobId sortKey isStderr data woken events) :
    ∃ s' es, (s.lines.emit qsort woken jobId sortKey isStderr data events).map (s.leave jobId) = some
    (s', es) ∧ Moves qsort s a s' es := by
  obtain ⟨lines', taken, phase, hloop, hemits⟩ :=
    Lines.emitLoop_emits qsort woken sortKey isStderr events hpartition (Nat.lt_succ_self _)
    (fun hne => absurd rfl hne)
  refine ⟨_, _, ?_, .emit hcall hemits⟩
  rw [Lines.emit, hloop]
  rfl

theorem exitWait_moves {jobId woken : Nat} (hexit : Exits s a jobId woken) :
    Moves qsort s a (s.leave jobId (s.lines.exitWait qsort woken jobId)).1
    (s.leave jobId (s.lines.exitWait qsort woken jobId)).2 := by
  rw [Lines.exitWait]
  split_ifs with hprinting
  · obtain ⟨k, hk⟩ := Option.ne_none_iff_exists'.mp hprinting
    exact .exitSleep hexit hk
  · exact .exitPrint hexit (.inl (not_not.mp hprinting))

theorem jobExit_moves {jobId woken : Nat} (hexit : Exits s a jobId woken) :
    Moves qsort s a (s.leave jobId (s.lines.jobExit qsort woken jobId)).1
    (s.leave jobId (s.lines.jobExit qsort woken jobId)).2 := by
  rw [Lines.jobExit]
  split_ifs with hprinting
  · exact exitWait_moves hexit
  · exact .exitPrint hexit (.inr (not_not.mp hprinting))

theorem step_moves (hpartition : s.lines.Partition) (h : (terminal qsort).step s a = some (s', es)) :
    Moves qsort s a s' es := by
  rw [terminal] at h
  dsimp only at h
  cases a with
  | emit jobId sortKey isStderr data woken =>
      rw [State.step] at h
      split_ifs at h with hidle
      obtain ⟨s'', es'', hemit, hmoves⟩ := @emit_moves qsort s _ _ _ _ _ _ _ hpartition (.call hidle)
      rw [hemit] at h
      cases h
      exact hmoves
  | exit jobId woken =>
      rw [State.step] at h
      split_ifs at h with hidle
      cases h
      exact jobExit_moves (.call hidle)
  | resume jobId woken =>
      rw [State.step] at h
      split_ifs at h with hasleep
      split at h
      · next sortKey isStderr data hphase =>
        obtain ⟨s'', es'', hemit, hmoves⟩ := @emit_moves qsort s _ _ _ _ _ _ _ hpartition (.resume hphase)
        rw [hemit] at h
        cases h
        exact hmoves
      · next hphase =>
        cases h
        exact exitWait_moves (.resume hphase)
      · cases h
  | print jobId =>
      rw [State.step] at h
      split at h
      · next isStderr data hphase =>
        cases h
        exact .print hphase
      · cases h
  | broadcast jobId =>
      rw [State.step] at h
      split_ifs at h with hphase
      cases h
      exact .broadcast hphase
  | wake jobId =>
      cases h
      exact .wake jobId

end Tundra.Terminal
