import Mathlib.Algebra.Group.Int.Defs
import Tundra.Terminal.Order

/-!
# Buffers that can be told apart

When no call has more data than fits into one buffer and no key of a job is too far above another one of it, the
buffers of a job can always be told apart, so its output is in order in every run: what is assumed is a property
of the calls alone, not of what is queued when the buffers are flushed.
-/

namespace Tundra.Terminal

open Transition

/-- A call with data for one buffer, and with a key that is not too far above those before it. -/
def Fits (before : List TerminalEvent) : TerminalEvent → Prop
  | .emit jobId sortKey _ data => data.length ≤ kLineBufSize - 1 ∧
  ∀ key ∈ keys jobId before, sortKey.toInt - key.toInt < 2 ^ 31
  | _ => True

/-- What a call does to the buffers of its job when its data fits into one buffer. -/
inductive OneBuffer (jobId : Nat) (sortKey : Int32) (isStderr : Bool) (data : List UInt8) (queue : List LineBuffer) :
    List LineBuffer → Phase → Prop
  | kept {phase : Phase} (hphase : ∀ sortKey isStderr data, phase ≠ .emitting sortKey isStderr data) :
      OneBuffer jobId sortKey isStderr data queue queue phase
  | flushed {phase : Phase} (hphase : ∀ sortKey isStderr data, phase ≠ .emitting sortKey isStderr data) :
      OneBuffer jobId sortKey isStderr data queue [] phase
  | queued : OneBuffer jobId sortKey isStderr data queue (queue ++ [⟨jobId, sortKey, isStderr, data⟩]) .idle
  | sleep : OneBuffer jobId sortKey isStderr data queue queue (.emitting sortKey isStderr data)

variable {qsort : Qsort} {s s' : State} {a : Action} {tr es events : List TerminalEvent} {jobId woken : Nat}
  {sortKey : Int32} {isStderr : Bool}
  {data : List UInt8}

theorem emit_oneBuffer (qsort : Qsort) (woken jobId : Nat) (sortKey : Int32) (isStderr : Bool)
    (events : List TerminalEvent) {lines : Lines} (hpartition : lines.Partition)
    (hdata : data.length ≤ kLineBufSize - 1) :
    ∃ left, lines.emit qsort woken jobId sortKey isStderr data events = some left ∧
      OneBuffer jobId sortKey isStderr data (lines.queuedOf jobId) (left.1.queuedOf jobId) left.2.2 := by
  rw [Lines.emit]
  by_cases hempty : data = []
  · refine ⟨(lines, events, .idle), by rw [Lines.emitLoop, if_pos hempty], .kept (by simp)⟩
  · by_cases htty : lines.ttyFor jobId = true
    · rw [Lines.emitLoop_tty hempty htty]
      split_ifs
      · refine ⟨_, rfl, ?_⟩
        dsimp only
        rw [(Lines.takeTty_flushed qsort woken jobId lines).own]
        exact .flushed (by simp)
      · exact ⟨_, rfl, .kept (by simp)⟩
    · rcases List.eq_nil_or_concat lines.freeLinebufs with hfree | ⟨free, b, hfree⟩
      · exact ⟨_, Lines.emitLoop_full hempty htty hpartition hfree, .sleep⟩
      · rw [List.concat_eq_append] at hfree
        have hpos := List.length_pos_iff.mpr hempty
        have hb : b ∉ ({ lines with freeLinebufs := free } : Lines).queuedLinebufs := by
          have hnodup := hpartition.nodup
          rw [hfree, List.append_assoc, List.nodup_append] at hnodup
          exact (List.nodup_cons.mp hnodup.2.1).1
        rw [Lines.emitLoop_queue hempty htty hpartition hfree, List.drop_of_length_le hdata,
          List.take_of_length_le hdata]
        obtain ⟨fuel, hfuel⟩ := Nat.exists_eq_succ_of_ne_zero (Nat.pos_iff_ne_zero.mp hpos)
        refine ⟨_, by rw [hfuel, Lines.emitLoop, if_pos rfl], ?_⟩
        dsimp only
        rw [Lines.queuedOf_queueLine hb, if_pos rfl]
        exact .queued

/-- The buffers of a job can be told apart, also from the data that its thread waits with. -/
structure Apart (j : Nat) (s : State) : Prop where
  queued : Distinguished (s.lines.queuedOf j)
  emitting : ∀ sortKey isStderr data, s.phase j = .emitting sortKey isStderr data → data.length ≤ kLineBufSize - 1 ∧
    ∀ line ∈ s.lines.queuedOf j, line.sortKey < sortKey ∧ sortKey.toInt - line.sortKey.toInt < 2 ^ 31

theorem Distinguished.perm {queue queue' : List LineBuffer} (h : Distinguished queue) (hperm : queue'.Perm queue) :
    Distinguished queue' := by
  refine (hperm.pairwise_iff (fun {l r} h => ⟨h.1.symm, ?_⟩)).mpr h
  omega

theorem Distinguished.nil : Distinguished [] := List.Pairwise.nil

theorem Distinguished.concat {queue : List LineBuffer} {line : LineBuffer} (h : Distinguished queue)
    (hline : ∀ l ∈ queue, l.sortKey < line.sortKey ∧ line.sortKey.toInt - l.sortKey.toInt < 2 ^ 31) :
    Distinguished (queue ++ [line]) := by
  refine List.pairwise_append.mpr ⟨h, List.pairwise_singleton _ _, fun l hl r hr => ?_⟩
  obtain rfl := List.mem_singleton.mp hr
  obtain ⟨hlt, hnear⟩ := hline l hl
  rw [Int32.lt_iff_toInt_lt] at hlt
  refine ⟨fun heq => ?_, by omega⟩
  rw [heq] at hlt
  omega

theorem apart_leave (lines' : Lines) (phase : Phase) (hqueue : Distinguished (lines'.queuedOf jobId))
    (hphase : ∀ sortKey isStderr data, phase ≠ .emitting sortKey isStderr data) (phases : Nat → Phase) :
    Apart jobId ⟨lines', Function.update phases jobId phase⟩ := by
  refine ⟨hqueue, fun sortKey isStderr data hemitting => ?_⟩
  dsimp only at hemitting
  rw [Function.update_self] at hemitting
  exact absurd hemitting (hphase sortKey isStderr data)

theorem OneBuffer.apart {queue : List LineBuffer} {phase : Phase} {lines' : Lines}
    (h : OneBuffer jobId sortKey isStderr data queue (lines'.queuedOf jobId) phase) (hqueue : Distinguished queue)
    (hdata : data.length ≤ kLineBufSize - 1)
    (hkeys : ∀ line ∈ queue, line.sortKey < sortKey ∧ sortKey.toInt - line.sortKey.toInt < 2 ^ 31)
    (phases : Nat → Phase) :
    Apart jobId ⟨lines', Function.update phases jobId phase⟩ := by
  generalize hqueue' : lines'.queuedOf jobId = queue' at h
  cases h with
  | kept hphase => exact apart_leave lines' _ (hqueue'.symm ▸ hqueue) hphase phases
  | flushed hphase => exact apart_leave lines' _ (hqueue'.symm ▸ .nil) hphase phases
  | queued => exact apart_leave lines' _ (hqueue'.symm ▸ hqueue.concat hkeys) (by simp) phases
  | sleep =>
      refine ⟨hqueue'.symm ▸ hqueue, fun key fd rest hemitting => ?_⟩
      dsimp only at hemitting ⊢
      rw [Function.update_self] at hemitting
      cases hemitting
      rw [hqueue']
      exact ⟨hdata, hkeys⟩

/-- What is known of the data and the key of a call, when the function begins or goes on. -/
theorem calls_fit (hcall : Calls s a jobId sortKey isStderr data woken events) (hknown : KeysKnown jobId s tr)
    (hapart : Apart jobId s) (hincrease : Along Increases tr events) (hfits : Along Fits tr events) :
    data.length ≤ kLineBufSize - 1 ∧ ∀ line ∈ s.lines.queuedOf jobId, line.sortKey < sortKey ∧
    sortKey.toInt - line.sortKey.toInt < 2 ^ 31 := by
  cases hcall with
  | call hidle =>
      exact ⟨hfits.1.1, fun line hline => ⟨hincrease.1 _ (hknown.queued line hline),
        hfits.1.2 _ (hknown.queued line hline)⟩⟩
  | resume hphase => exact hapart.emitting sortKey isStderr data hphase

theorem calls_apart (hpartition : s.lines.Partition) (hcall : Calls s a jobId sortKey isStderr data woken events)
    (hapart : Apart jobId s)
    (hfit : data.length ≤ kLineBufSize - 1 ∧ ∀ line ∈ s.lines.queuedOf jobId, line.sortKey < sortKey ∧
    sortKey.toInt - line.sortKey.toInt < 2 ^ 31)
    (hstep : s.step qsort a = some (s', es)) : Apart jobId s' := by
  obtain ⟨left, hemit, hone⟩ := emit_oneBuffer qsort woken jobId sortKey isStderr events hpartition hfit.1
  cases hcall with
  | call hidle =>
      rw [State.step, if_pos hidle, hemit] at hstep
      cases hstep
      exact hone.apart hapart.queued hfit.1 hfit.2 s.phase
  | resume hphase =>
      rw [State.step] at hstep
      split_ifs at hstep
      simp only [hphase, hemit] at hstep
      cases hstep
      exact hone.apart hapart.queued hfit.1 hfit.2 s.phase

theorem step_apart {j : Nat} (hpartition : s.lines.Partition) (hknown : KeysKnown j s tr) (hapart : Apart j s)
    (hincrease : Along Increases tr es) (hfits : Along Fits tr es)
    (hstep : (terminal qsort).step s a = some (s', es)) : Apart j s' := by
  have hmoves := step_moves hpartition hstep
  by_cases hj : j = a.jobId
  · cases hmoves with
    | emit hcall hemits =>
        obtain rfl := hj.trans hcall.jobId_eq
        have hmoves := step_moves hpartition hstep
        exact calls_apart hpartition hcall hapart
          (calls_fit hcall hknown hapart (calls_along hcall hmoves hincrease) (calls_along hcall hmoves hfits)) hstep
    | exitSleep hexit hother =>
        obtain rfl := hj.trans hexit.jobId_eq
        exact apart_leave (s.lines.condWait j) .exiting hapart.queued (by simp) s.phase
    | @exitPrint a jobId woken hexit htty =>
        obtain rfl := hj.trans hexit.jobId_eq
        refine apart_leave (s.lines.exitPrint qsort woken j).1 .signalling ?_ (by simp) s.phase
        rw [(s.lines.exitPrint_flushed qsort woken j).1]
        exact .nil
    | print hphase =>
        obtain rfl := hj
        exact apart_leave s.lines .idle hapart.queued (by simp) s.phase
    | broadcast hphase =>
        obtain rfl := hj
        exact apart_leave s.lines.condBroadcast .idle hapart.queued (by simp) s.phase
    | wake jobId => exact ⟨hapart.queued, hapart.emitting⟩
  · have huntouched := moves_untouched hmoves hpartition hj
    refine ⟨hapart.queued.perm huntouched.queued, fun sortKey isStderr data hphase => ?_⟩
    obtain ⟨hdata, hkeys⟩ := hapart.emitting sortKey isStderr data (huntouched.phase ▸ hphase)
    exact ⟨hdata, fun line hline => hkeys line (huntouched.queued.mem_iff.mp hline)⟩

/-- In every run with such calls the buffers can be told apart whenever they are flushed. -/
theorem reach_apart (h : Reach (terminal qsort) anything s tr) (hincrease : KeysIncrease tr)
    (hfits : Along Fits [] tr) :
    Reach (terminal qsort) FlushesInOrder s tr ∧ ∀ j, KeysKnown j s tr ∧ Apart j s := by
  induction h with
  | init =>
      refine ⟨.init, fun j => ⟨⟨fun line hline => ?_, fun sortKey isStderr data hphase => ?_⟩, .nil,
        fun sortKey isStderr data hphase => ?_⟩⟩
      · cases hline
      · cases hphase
      · cases hphase
  | @step s s' tr es a hreach hallowed hstep ih =>
      obtain ⟨hincrease, hincrease'⟩ := along_append.mp hincrease
      obtain ⟨hfits, hfits'⟩ := along_append.mp hfits
      obtain ⟨hordered, hall⟩ := ih hincrease hfits
      have hpartition := reach_partition hreach
      rw [List.nil_append] at hincrease' hfits'
      refine ⟨.step hordered (fun j _ => (hall j).2.queued) hstep, fun j => ⟨?_, ?_⟩⟩
      · exact moves_keysKnown (step_moves hpartition hstep) hpartition (reach_owned hreach) hincrease' (hall j).1
      · exact step_apart hpartition (hall j).1 (hall j).2 hincrease' hfits' hstep

end Tundra.Terminal
