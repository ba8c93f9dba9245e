import Tundra.Terminal.Exclusive
import Mathlib.Data.List.Sort

/-!
# Everything is written once

What a job emits is in one of three places: written, in the queue, or with the thread. A step of the job takes
some of it from one place to the next one, and a step of another job leaves it where it is. `moves_account` is
this for any relation between what was taken in and what is written and queued, so that it holds for the pieces
in any order here, and for the pieces in the order of the calls later.
-/

namespace Tundra.Terminal

open Transition

/-- What a job has emitted, call by call: where to, and the data. -/
def emits (jobId : Nat) (tr : List TerminalEvent) : List (Bool × List UInt8) :=
  tr.filterMap fun
    | .emit j _ isStderr data => if j = jobId then some (isStderr, data) else none
    | _ => none

def writes (jobId : Nat) (tr : List TerminalEvent) : List (Bool × List UInt8) :=
  tr.filterMap fun
    | .write j isStderr data => if j = jobId then some (isStderr, data) else none
    | _ => none

/-- The bytes of some pieces, each with where it goes to. -/
def bytesOf (pieces : List (Bool × List UInt8)) :
    List (Bool × UInt8) := pieces.flatMap fun piece => piece.2.map (Prod.mk piece.1)

def piece (line : LineBuffer) : Bool × List UInt8 := (line.isStderr, line.data)

/-- What a thread has taken in and neither queued nor written. -/
def pending : Phase → List (Bool × List UInt8)
  | .emitting _ isStderr data => [(isStderr, data)]
  | .printing isStderr data => [(isStderr, data)]
  | _ => []

theorem emits_append (jobId : Nat) (tr es : List TerminalEvent) :
    emits jobId (tr ++ es) = emits jobId tr ++ emits jobId es := List.filterMap_append

theorem writes_append (jobId : Nat) (tr es : List TerminalEvent) :
    writes jobId (tr ++ es) = writes jobId tr ++ writes jobId es := List.filterMap_append

theorem bytesOf_append (pieces pieces' : List (Bool × List UInt8)) :
    bytesOf (pieces ++ pieces') = bytesOf pieces ++ bytesOf pieces' :=
  List.flatMap_append

theorem bytesOf_chunks (isStderr : Bool) (chunks : List (List UInt8)) (rest : List UInt8) :
    bytesOf [(isStderr, chunks.flatten ++ rest)] = bytesOf (chunks.map (Prod.mk isStderr)) ++ bytesOf
    [(isStderr, rest)] := by
  induction chunks with
  | nil => rfl
  | cons chunk chunks ih =>
      simp only [bytesOf, List.flatMap_cons, List.flatMap_nil, List.append_nil, List.flatten_cons, List.append_assoc,
        List.map_append, List.map_cons] at ih ⊢
      rw [ih]

theorem emits_writesOf (j jobId : Nat) (queue : List LineBuffer) : emits j (Lines.writesOf jobId queue) = [] := by
  rw [emits, Lines.writesOf, List.filterMap_map]
  exact List.filterMap_none queue

theorem writes_writesOf (jobId : Nat) (queue : List LineBuffer) :
    writes jobId (Lines.writesOf jobId queue) = queue.map piece := by
  rw [writes, Lines.writesOf, List.filterMap_map]
  refine (List.filterMap_congr fun line _ => ?_).trans (congrFun List.filterMap_eq_map queue)
  exact if_pos rfl

theorem writes_writesOf_of_ne {j jobId : Nat} (hj : j ≠ jobId) (queue : List LineBuffer) :
    writes j (Lines.writesOf jobId queue) = [] := by
  rw [writes, Lines.writesOf, List.filterMap_map]
  refine (List.filterMap_congr fun line _ => ?_).trans (List.filterMap_none queue)
  exact if_neg (Ne.symm hj)

/-! ### A step of another job -/

/-- The job whose thread takes the step. -/
def Action.jobId : Action → Nat
  | .emit jobId _ _ _ _ => jobId
  | .exit jobId _ => jobId
  | .resume jobId _ => jobId
  | .print jobId => jobId
  | .broadcast jobId => jobId
  | .wake jobId => jobId

section Moves

variable {qsort : Qsort} {s s' : State} {a : Action} {tr es events taken : List TerminalEvent} {jobId woken : Nat}
  {sortKey : Int32} {isStderr : Bool}
  {data : List UInt8} {lines' : Lines} {phase : Phase}

theorem Calls.jobId_eq (h : Calls s a jobId sortKey isStderr data woken events) : a.jobId = jobId := by
  cases h with
  | call hidle => rfl
  | resume hphase => rfl

theorem Exits.jobId_eq (h : Exits s a jobId woken) : a.jobId = jobId := by
  cases h with
  | call hidle => rfl
  | resume hphase => rfl

/-- A thread that takes the TTY writes what is queued for it. -/
theorem Lines.Emits.taken_eq (h : Lines.Emits qsort woken jobId sortKey isStderr s.lines data lines' taken phase) :
    taken = [] ∨ taken = .take jobId :: Lines.writesOf jobId (s.lines.sortedOf qsort jobId) := by
  cases h with
  | done h => exact .inl rfl
  | sleep h hother => exact .inl rfl
  | direct hdata howner => exact .inl rfl
  | take hdata hnone => exact .inr (Lines.takeTty_events qsort woken jobId s.lines)

/-- What a step leaves of the other jobs. -/
structure Untouched (j : Nat) (s s' : State) (es : List TerminalEvent) : Prop where
  phase : s'.phase j = s.phase j
  queued : (s'.lines.queuedOf j).Perm (s.lines.queuedOf j)
  emits : emits j es = []
  writes : writes j es = []

theorem untouched_leave {j : Nat} (hj : j ≠ jobId) (hleaves : Lines.Leaves jobId s.lines lines')
    (hemits : emits j es = []) (hwrites : writes j es = []) :
    Untouched j s ⟨lines', Function.update s.phase jobId phase⟩ es where
  phase := Function.update_of_ne hj ..
  queued := hleaves.others j hj
  emits := hemits
  writes := hwrites

theorem moves_untouched {j : Nat} (hmoves : Moves qsort s a s' es) (hpartition : s.lines.Partition)
    (hj : j ≠ a.jobId) : Untouched j s s' es := by
  cases hmoves with
  | @emit a jobId woken sortKey isStderr data events taken lines' phase hcall hemits =>
      rw [hcall.jobId_eq] at hj
      have hcalled : emits j events = [] ∧ writes j events = [] := by
        cases hcall with
        | call hidle => exact ⟨by simp [emits, Ne.symm hj], rfl⟩
        | resume hphase => exact ⟨rfl, rfl⟩
      have htaken : emits j taken = [] ∧ writes j taken = [] := by
        rcases hemits.taken_eq with rfl | rfl
        · exact ⟨rfl, rfl⟩
        · exact ⟨emits_writesOf j jobId _, writes_writesOf_of_ne hj _⟩
      refine untouched_leave hj (hemits.leaves hpartition) ?_ ?_
      · rw [emits_append, hcalled.1, htaken.1, List.append_nil]
      · rw [writes_append, hcalled.2, htaken.2, List.append_nil]
  | exitSleep hexit hother =>
      rw [hexit.jobId_eq] at hj
      exact untouched_leave hj ⟨hpartition, fun _ _ => .refl _⟩ rfl rfl
  | @exitPrint a jobId woken hexit htty =>
      rw [hexit.jobId_eq] at hj
      refine untouched_leave hj ((s.lines.exitPrint_flushed qsort woken jobId).2 hpartition) ?_ ?_
      · rw [Lines.exitPrint_events, emits_append, emits_append, emits_writesOf]
        split_ifs <;> rfl
      · rw [Lines.exitPrint_events, writes_append, writes_append, writes_writesOf_of_ne hj]
        split_ifs <;> rfl
  | @print jobId isStderr data hphase =>
      have hne : jobId ≠ j := Ne.symm hj
      exact untouched_leave hj ⟨hpartition, fun _ _ => .refl _⟩ rfl (by simp [writes, hne])
  | broadcast hphase => exact untouched_leave hj ⟨hpartition, fun _ _ => .refl _⟩ rfl rfl
  | wake jobId => exact ⟨rfl, .refl _, rfl, rfl⟩

/-! ### A step of the job -/

/-- What a job has emitted is what was taken in, and what its thread still has. What was taken in is related to
what is written and queued. -/
def Accounts (R : List (Bool × List UInt8) → List (Bool × List UInt8) → List LineBuffer → Prop) (jobId : Nat)
    (s : State) (tr : List TerminalEvent) : Prop :=
  ∃ pieces, bytesOf (emits jobId tr) = bytesOf pieces ++ bytesOf (pending (s.phase jobId)) ∧
    R pieces (writes jobId tr) (s.lines.queuedOf jobId)

/-- A step in which the queue is flushed for a job. -/
inductive Flushes (s : State) (a : Action) (jobId : Nat) : Prop
  | emit {woken : Nat} {sortKey : Int32} {isStderr : Bool} {data : List UInt8} {events : List TerminalEvent}
      (hcall : Calls s a jobId sortKey isStderr data woken events) (hdata : data ≠ [])
        (hnone : s.lines.printingJobIndex = none)
  | exit {woken : Nat} (hexit : Exits s a jobId woken)
      (htty : s.lines.printingJobIndex = none ∨ s.lines.printingJobIndex = some jobId)

/-- What a relation has to do with a step: filling buffers, flushing the queue, and writing when nothing is queued. -/
structure Follows (qsort : Qsort) (s : State) (a : Action)
    (R : List (Bool × List UInt8) → List (Bool × List UInt8) → List LineBuffer → Prop) :
    Prop where
  perm : ∀ {pieces written queue queue'}, queue.Perm queue' → R pieces written queue → R pieces written queue'
  queue : ∀ {jobId woken sortKey isStderr data events pieces written} (chunks : List (List UInt8)), Calls s a jobId
    sortKey isStderr data woken events →
    R pieces written (s.lines.queuedOf jobId) → R (pieces ++ chunks.map (Prod.mk isStderr)) written
      (s.lines.queuedOf jobId ++ chunks.map fun chunk => ⟨jobId, sortKey, isStderr, chunk⟩)
  flush : ∀ {jobId pieces written}, Flushes s a jobId → R pieces written (s.lines.queuedOf jobId) →
    R pieces (written ++ (s.lines.sortedOf qsort jobId).map piece) []
  print : ∀ {pieces written} (x : Bool × List UInt8), R pieces written [] → R (pieces ++ [x]) (written ++ [x]) []

variable {R : List (Bool × List UInt8) → List (Bool × List UInt8) → List LineBuffer → Prop}

/-- The data of a call, when the function begins or goes on. -/
theorem calls_account (hcall : Calls s a jobId sortKey isStderr data woken events) (h : Accounts R jobId s tr) :
    ∃ pieces, bytesOf (emits jobId (tr ++ events)) = bytesOf pieces ++ bytesOf [(isStderr, data)] ∧ writes jobId
    (tr ++ events) = writes jobId tr ∧
      R pieces (writes jobId tr) (s.lines.queuedOf jobId) := by
  obtain ⟨pieces, hbytes, hr⟩ := h
  refine ⟨pieces, ?_, ?_, hr⟩
  · cases hcall with
    | call hidle =>
        rw [hidle] at hbytes
        rw [emits_append, bytesOf_append, hbytes]
        simp [emits, pending, bytesOf]
    | resume hphase =>
        rw [hphase] at hbytes
        rw [List.append_nil]
        exact hbytes
  · cases hcall with
    | call hidle => rw [writes_append]; exact List.append_nil _
    | resume hphase => rw [List.append_nil]

theorem emits_account (hcall : Calls s a jobId sortKey isStderr data woken events)
    (hemits : Lines.Emits qsort woken jobId sortKey isStderr s.lines data lines' taken phase)
    (hpartition : s.lines.Partition) (hfollows : Follows qsort s a R) (h : Accounts R jobId s tr) :
    Accounts R jobId ⟨lines', Function.update s.phase jobId phase⟩ (tr ++ (events ++ taken)) := by
  obtain ⟨pieces, hbytes, hwrites, hr⟩ := calls_account hcall h
  rw [Accounts, ← List.append_assoc]
  dsimp only
  rw [Function.update_self]
  cases hemits with
  | done hbuffered =>
      obtain ⟨chunks, rfl, hqueued⟩ := (hbuffered.queued hpartition).own
      refine ⟨pieces ++ chunks.map (Prod.mk isStderr), ?_, ?_⟩
      · rw [List.append_nil, hbytes, bytesOf_chunks, bytesOf_append, List.append_assoc]
        rfl
      · rw [List.append_nil, hwrites, hqueued]
        exact hfollows.queue chunks hcall hr
  | @sleep mid rest k hbuffered hother =>
      obtain ⟨chunks, rfl, hqueued⟩ := (hbuffered.queued hpartition).own
      refine ⟨pieces ++ chunks.map (Prod.mk isStderr), ?_, ?_⟩
      · rw [List.append_nil, hbytes, bytesOf_chunks, bytesOf_append, List.append_assoc]
        rfl
      · rw [List.append_nil, hwrites]
        exact hqueued ▸ hfollows.queue chunks hcall hr
  | direct hdata howner =>
      exact ⟨pieces, by rw [List.append_nil, hbytes]; rfl, by rw [List.append_nil, hwrites]; exact hr⟩
  | take hdata hnone =>
      have htaken : emits jobId (s.lines.takeTty qsort woken jobId).2 = [] ∧
          writes jobId (s.lines.takeTty qsort woken jobId).2 = (s.lines.sortedOf qsort jobId).map piece := by
        rw [Lines.takeTty_events]
        exact ⟨emits_writesOf jobId jobId _, writes_writesOf jobId _⟩
      refine ⟨pieces, ?_, ?_⟩
      · rw [emits_append, htaken.1, List.append_nil, hbytes]
        rfl
      · rw [writes_append, hwrites, htaken.2, (Lines.takeTty_flushed qsort woken jobId s.lines).own]
        exact hfollows.flush (.emit hcall hdata hnone) hr

theorem exits_pending (hexit : Exits s a jobId woken) : pending (s.phase jobId) = [] := by
  cases hexit with
  | call hidle => rw [hidle]; rfl
  | resume hphase => rw [hphase]; rfl

theorem moves_account (hmoves : Moves qsort s a s' es) (hpartition : s.lines.Partition) (howned : Owned s)
    (hfollows : Follows qsort s a R) {j : Nat} (h : Accounts R j s tr) : Accounts R j s' (tr ++ es) := by
  by_cases hj : j = a.jobId
  · cases hmoves with
    | emit hcall hemits =>
        obtain rfl := hj.trans hcall.jobId_eq
        exact emits_account hcall hemits hpartition hfollows h
    | exitSleep hexit hother =>
        obtain rfl := hj.trans hexit.jobId_eq
        obtain ⟨pieces, hbytes, hr⟩ := h
        rw [exits_pending hexit] at hbytes
        refine ⟨pieces, ?_, ?_⟩
        · dsimp only
          rw [List.append_nil, hbytes, Function.update_self]
          rfl
        · rw [List.append_nil]
          exact hr
    | @exitPrint a jobId woken hexit htty =>
        obtain rfl := hj.trans hexit.jobId_eq
        obtain ⟨pieces, hbytes, hr⟩ := h
        rw [exits_pending hexit] at hbytes
        have hevents : emits j (s.lines.exitPrint qsort woken j).2.1 = [] ∧
            writes j (s.lines.exitPrint qsort woken j).2.1 = (s.lines.sortedOf qsort j).map piece := by
          rw [Lines.exitPrint_events, emits_append, emits_append, emits_writesOf, writes_append, writes_append,
            writes_writesOf]
          split_ifs
          · exact ⟨rfl, List.append_nil _⟩
          · exact ⟨rfl, List.append_nil _⟩
        refine ⟨pieces, ?_, ?_⟩
        · dsimp only
          rw [emits_append, hevents.1, List.append_nil, hbytes, Function.update_self]
          rfl
        · dsimp only
          rw [writes_append, hevents.2, (s.lines.exitPrint_flushed qsort woken j).1]
          exact hfollows.flush (.exit hexit htty) hr
    | @print jobId isStderr data hphase =>
        obtain rfl : j = jobId := hj
        have hqueued := howned.flushed j (howned.printing j isStderr data hphase)
        obtain ⟨pieces, hbytes, hr⟩ := h
        rw [hphase] at hbytes
        rw [hqueued] at hr
        refine ⟨pieces ++ [(isStderr, data)], ?_, ?_⟩
        · dsimp only
          rw [emits_append, Function.update_self, bytesOf_append pieces]
          exact (congrArg bytesOf (List.append_nil _)).trans (hbytes.trans (List.append_nil _).symm)
        · dsimp only
          rw [writes_append, hqueued]
          have hwrite : writes j [.write j isStderr data] = [(isStderr, data)] := by simp [writes]
          rw [hwrite]
          exact hfollows.print _ hr
    | @broadcast jobId hphase =>
        obtain rfl : j = jobId := hj
        obtain ⟨pieces, hbytes, hr⟩ := h
        rw [hphase] at hbytes
        refine ⟨pieces, ?_, ?_⟩
        · dsimp only
          rw [emits_append, Function.update_self]
          exact (congrArg bytesOf (List.append_nil _)).trans hbytes
        · rw [writes_append]
          exact (List.append_nil (writes j tr)).symm ▸ hr
    | wake jobId => rwa [List.append_nil]
  · have huntouched := moves_untouched hmoves hpartition hj
    obtain ⟨pieces, hbytes, hr⟩ := h
    refine ⟨pieces, ?_, ?_⟩
    · rw [emits_append, huntouched.emits, List.append_nil, huntouched.phase, hbytes]
    · rw [writes_append, huntouched.writes, List.append_nil]
      exact hfollows.perm huntouched.queued.symm hr

end Moves

/-! ### Runs -/

variable {qsort : Qsort} {s : State} {tr : List TerminalEvent}

/-- The pieces, in whatever order. -/
def Mixed (pieces written : List (Bool × List UInt8)) (queue : List LineBuffer) :
    Prop := pieces.Perm (written ++ queue.map piece)

theorem follows_mixed (hqsort : Lines.Permutes qsort) (s : State) (a : Action) : Follows qsort s a Mixed where
  perm hperm hmixed := hmixed.trans ((hperm.map piece).append_left _)
  queue {jobId woken sortKey isStderr data events pieces written} chunks hcall hmixed := by
    rw [Mixed, List.map_append, List.map_map, ← List.append_assoc]
    exact hmixed.append_right _
  flush {jobId pieces written} hflushes hmixed := by
    rw [Mixed, List.map_nil, List.append_nil]
    exact hmixed.trans (((s.lines.sortedOf_perm hqsort jobId).map piece).symm.append_left _)
  print x hmixed := by
    rw [Mixed, List.map_nil, List.append_nil] at hmixed ⊢
    exact hmixed.append_right _

/-- What was written for a job are the pieces of what it has emitted, each of them once. -/
def WrittenOnce (jobId : Nat) (tr : List TerminalEvent) : Prop :=
  ∃ pieces : List (Bool × List UInt8), bytesOf pieces = bytesOf (emits jobId tr) ∧ (writes jobId tr).Perm pieces

theorem reach_accounts (hqsort : Lines.Permutes qsort) {allowed : State → Action → Prop}
    (h : Reach (terminal qsort) allowed s tr) (j : Nat) :
    Accounts Mixed j s tr := by
  refine reach_moves (P := fun s tr => Accounts Mixed j s tr) ⟨[], rfl, .refl _⟩
    (fun s tr a s' es hreach haccounts _ hmoves => ?_) h
  exact moves_account hmoves (reach_partition hreach) (reach_owned hreach) (follows_mixed hqsort s a) haccounts

theorem exited_accounts {R : List (Bool × List UInt8) → List (Bool × List UInt8) → List LineBuffer → Prop}
    {jobId : Nat} (howned : Owned s) (hphase : s.phase jobId = .signalling) (h : Accounts R jobId s tr) :
    ∃ pieces, bytesOf (emits jobId tr) = bytesOf pieces ∧ R pieces (writes jobId tr) [] := by
  obtain ⟨pieces, hbytes, hr⟩ := h
  rw [hphase] at hbytes
  rw [howned.signalling jobId hphase] at hr
  exact ⟨pieces, hbytes.trans (List.append_nil _), hr⟩

theorem moves_exited {s' : State} {a : Action} {es : List TerminalEvent} (hmoves : Moves qsort s a s' es) :
    (∃ jobId, s.phase jobId = .signalling ∧ es = [.exited jobId]) ∨ ∀ jobId, .exited jobId ∉ es := by
  have hwrites : ∀ (j k : Nat) (queue : List LineBuffer), TerminalEvent.exited j ∉ Lines.writesOf k queue := by
    intro j k queue hmem
    obtain ⟨line, -, hline⟩ := List.mem_map.mp hmem
    cases hline
  cases hmoves with
  | emit hcall hemits =>
      refine .inr fun j hmem => ?_
      rcases List.mem_append.mp hmem with hmem | hmem
      · cases hcall with
        | call hidle => simp at hmem
        | resume hphase => cases hmem
      · rcases hemits.taken_eq with rfl | rfl
        · cases hmem
        · exact hwrites _ _ _ (List.mem_of_ne_of_mem (by simp) hmem)
  | exitSleep hexit hother => exact .inr fun j hmem => by cases hmem
  | @exitPrint a jobId woken hexit htty =>
      refine .inr fun j hmem => ?_
      rw [Lines.exitPrint_events] at hmem
      simp only [List.mem_append, hwrites, or_false, List.mem_singleton, reduceCtorEq] at hmem
      split_ifs at hmem <;> simp at hmem
  | print hphase => exact .inr fun j hmem => by simp at hmem
  | @broadcast jobId hphase => exact .inl ⟨jobId, hphase, rfl⟩
  | wake jobId => exact .inr fun j hmem => by cases hmem

/-- What holds whenever a thread is about to broadcast holds whenever an exit returns. -/
theorem reach_exited {allowed : State → Action → Prop} {P : Nat → List TerminalEvent → Prop}
    (hsignalling : ∀ s tr jobId, Reach (terminal qsort) allowed s tr → s.phase jobId = .signalling → P jobId tr)
    (h : Reach (terminal qsort) allowed s tr) {jobId : Nat} {before after : List TerminalEvent}
    (htr : tr = before ++ .exited jobId :: after) :
    P jobId before := by
  have halong : Along (fun before e => ∀ jobId, e = TerminalEvent.exited jobId → P jobId before) [] tr := by
    refine reach_moves (P := fun _ tr => Along
      (fun before e => ∀ jobId, e = TerminalEvent.exited jobId → P jobId before) [] tr) trivial
      (fun s tr a s' es hreach halong _ hmoves => along_append.mpr ⟨halong, ?_⟩) h
    rw [List.nil_append]
    rcases moves_exited hmoves with ⟨j, hphase, rfl⟩ | hnone
    · refine ⟨fun k hk => ?_, trivial⟩
      cases hk
      exact hsignalling s tr j hreach hphase
    · exact along_of_forall fun e he past k hk => absurd (hk ▸ he) (hnone k)
  subst htr
  exact halong.here jobId rfl

theorem count_partition (h : s.lines.Partition) (b : LinebufPtr) :
    s.lines.freeLinebufs.count b + s.lines.queuedLinebufs.count b = 1 := by
  rw [← List.count_append, h.count_eq]
  exact List.count_eq_one_of_mem (List.nodup_finRange _) (List.mem_finRange b)

/-- Whenever the lock is free, every buffer is free or queued, and no thread sleeps while the TTY is free
without a broadcast to come. Until an exit returns everything that the job has emitted is written, each piece
once, and while a job owns the TTY nobody else writes. -/
theorem terminal_output (hqsort : Lines.Permutes qsort) (h : Reach (terminal qsort) anything s tr) :
    (s.lines.freeLinebufs.length + s.lines.queuedLinebufs.length = kLineBufCount ∧
      ∀ b, s.lines.freeLinebufs.count b + s.lines.queuedLinebufs.count b = 1) ∧
    (∀ jobId before after, tr = before ++ .exited jobId :: after → WrittenOnce jobId before) ∧
    (owner tr = s.lines.printingJobIndex ∧ ∀ jobId k isStderr data before between after,
      tr = before ++ .take jobId :: (between ++ .write k isStderr data :: after) → .release jobId ∉ between → k = jobId) ∧
    (s.lines.printingJobIndex = none → ∀ jobId ∈ s.lines.canPrint, ∃ k, s.phase k = .signalling) := by
  have hpartition := reach_partition h
  have hseen := reach_seen h
  refine ⟨⟨hpartition.length, count_partition hpartition⟩, ?_, ⟨hseen.owner, ?_⟩, reach_awakes h⟩
  · intro jobId before after htr
    refine reach_exited (P := WrittenOnce) (fun s tr jobId hreach hphase => ?_) h htr
    obtain ⟨pieces, hbytes, hmixed⟩ := exited_accounts (reach_owned hreach) hphase (reach_accounts hqsort hreach jobId)
    rw [Mixed, List.map_nil, List.append_nil] at hmixed
    exact ⟨pieces, hbytes.symm, hmixed.symm⟩
  · intro jobId k isStderr data before between after htr hrelease
    have hrightful := hseen.rightful
    rw [htr, ← List.cons_append, ← List.append_assoc] at hrightful
    have howner := owner_between (along_append.mp hrightful).1 hrelease
    have hwrite := hrightful.here
    exact Option.some.inj (hwrite.symm.trans howner)

/-- A sort that `qsort` may be. -/
def insertionSort : Qsort := fun compare array => array.insertionSort fun l r => compare l r ≤ 0

theorem permutes_insertionSort : Lines.Permutes insertionSort := fun _ array => List.perm_insertionSort _ array

/-- A job that sleeps in its exit while another job owns the TTY, and is woken up by the broadcast of the other one. -/
theorem terminal_output_twoJobs : ∃ s tr, Reach (terminal insertionSort) anything s tr ∧
    (writes 1 tr = [(false, [97])] ∧ tr.getLast? = some (.exited 1)) ∧
    s.lines.freeLinebufs.length + s.lines.queuedLinebufs.length = kLineBufCount := by
  have hexec : (exec (terminal insertionSort)
    [.emit 0 0 false [120] 0, .emit 1 0 false [97] 0, .exit 1 0, .print 0, .exit 0 0, .broadcast 0,
      .resume 1 0, .broadcast 1] ((terminal insertionSort).init, [])).map (fun c => (writes 1 c.2, c.2.getLast?)) =
      some ([(false, [97])], some (.exited 1)) := by decide +kernel
  obtain ⟨s, tr, hreach, hview⟩ := exists_reach_of_exec (fun _ _ _ => trivial) hexec
  exact ⟨s, tr, hreach, Prod.mk.inj hview, (terminal_output permutes_insertionSort hreach).1.1⟩

end Tundra.Terminal
