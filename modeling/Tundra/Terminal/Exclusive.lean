import Tundra.Terminal.Spec
import Mathlib.Data.List.Induction

/-!
# The TTY belongs to one job at a time

What holds of every run of the jobs: no buffer is lost, nothing is written while another job owns the TTY, and
no thread sleeps through the release of the TTY.
-/

namespace Tundra.Terminal

open Transition

/-! ### What a run has done -/

/-- The owner of the TTY, by what was seen of it. -/
def ownerStep (current : Option Nat) : TerminalEvent → Option Nat
  | .take jobId => some jobId
  | .release _ => none
  | _ => current

def owner (tr : List TerminalEvent) : Option Nat := tr.foldl ownerStep none

theorem owner_append (tr es : List TerminalEvent) :
    owner (tr ++ es) = es.foldl ownerStep (owner tr) := List.foldl_append

variable {qsort : Qsort} {s s' : State} {a : Action} {tr es : List TerminalEvent}

namespace Lines

variable {woken jobId k : Nat} {lines lines' : Lines} {sortKey : Int32} {isStderr : Bool} {data rest : List UInt8}
  {taken : List TerminalEvent} {phase : Phase}

/-- What a thread leaves when it has held the lock. -/
structure Leaves (jobId : Nat) (lines lines' : Lines) : Prop where
  partition : lines'.Partition
  others : ∀ k, k ≠ jobId → (lines'.queuedOf k).Perm (lines.queuedOf k)

theorem takeTty_flushed (qsort : Qsort) (woken jobId : Nat) (lines : Lines) :
    Flushed jobId { lines with printingJobIndex := some jobId } (lines.takeTty qsort woken jobId).1 :=
  flushOutputQueue_flushed qsort woken jobId _

theorem takeTty_events (qsort : Qsort) (woken jobId : Nat) (lines : Lines) :
    (lines.takeTty qsort woken jobId).2 = .take jobId :: writesOf jobId (lines.sortedOf qsort jobId) :=
  congrArg _ (flushOutputQueue_writes qsort woken jobId _)

theorem Emits.leaves (h : Emits qsort woken jobId sortKey isStderr lines data lines' taken phase)
    (hpartition : lines.Partition) :
    Leaves jobId lines lines' := by
  cases h with
  | done h =>
      have hqueued := h.queued hpartition
      exact ⟨hqueued.partition, fun k hk => .of_eq (hqueued.others k hk)⟩
  | sleep h hother =>
      have hqueued := h.queued hpartition
      exact ⟨hqueued.partition, fun k hk => .of_eq (hqueued.others k hk)⟩
  | direct hdata howner => exact ⟨hpartition, fun _ _ => .refl _⟩
  | take hdata hnone =>
      have hflushed := takeTty_flushed qsort woken jobId lines
      exact ⟨hflushed.partition hpartition, hflushed.others⟩

theorem exitPrint_flushed (qsort : Qsort) (woken jobId : Nat) (lines : Lines) :
    (lines.exitPrint qsort woken jobId).1.queuedOf jobId = [] ∧
    (lines.Partition → Leaves jobId lines (lines.exitPrint qsort woken jobId).1) := by
  have hflushed := flushOutputQueue_flushed qsort woken jobId { lines with printingJobIndex := some jobId }
  exact ⟨hflushed.own, fun hpartition => ⟨hflushed.partition hpartition, hflushed.others⟩⟩

theorem exitPrint_events (qsort : Qsort) (woken jobId : Nat) (lines : Lines) : (lines.exitPrint qsort woken jobId).2.1 =
    (if lines.printingJobIndex = some jobId then [] else [.take jobId]) ++ writesOf jobId
    (lines.sortedOf qsort jobId) ++ [.release jobId] :=
  congrArg (fun writes => (if lines.printingJobIndex = some jobId then [] else [.take jobId]) ++ writes ++
    [.release jobId])
    (flushOutputQueue_writes qsort woken jobId _)

theorem Buffered.eq_of_owner (h : Buffered jobId sortKey isStderr lines data lines' rest)
    (howner : lines.printingJobIndex = some jobId) :
    lines' = lines := by
  cases h with
  | refl => rfl
  | queue hother hfree h => exact absurd (ttyFor_iff.mpr (.inr howner)) hother

end Lines

/-! ### No buffer is lost -/

theorem moves_partition (hmoves : Moves qsort s a s' es) (h : s.lines.Partition) : s'.lines.Partition := by
  cases hmoves with
  | emit hcall hemits => exact (hemits.leaves h).partition
  | @exitPrint a jobId woken hexit htty => exact ((s.lines.exitPrint_flushed qsort woken jobId).2 h).partition
  | exitSleep hexit hother => exact h
  | print hphase => exact h
  | broadcast hphase => exact h
  | wake jobId => exact h

theorem reach_partition {allowed : State → Action → Prop} (h : Reach (terminal qsort) allowed s tr) :
    s.lines.Partition :=
  h.state_invariant Lines.partition_init
    fun _ _ _ _ hpartition hstep => moves_partition (step_moves hpartition hstep) hpartition

/-- The one induction over runs: what is kept by everything that a step can do. -/
theorem reach_moves {allowed : State → Action → Prop} {P : State → List TerminalEvent → Prop}
    (hinit : P (terminal qsort).init [])
    (hkeep : ∀ s tr a s' es, Reach (terminal qsort) allowed s tr → P s tr → allowed s a → Moves qsort s a s' es →
    P s' (tr ++ es))
    (h : Reach (terminal qsort) allowed s tr) : P s tr :=
  h.invariant hinit fun s tr a s' es hreach hp hallowed hstep => hkeep s tr a s' es hreach hp hallowed
    (step_moves (reach_partition hreach) hstep)

/-! ### Who owns the TTY -/

/-- The owner of the TTY and the threads. -/
structure Owned (s : State) : Prop where
  printing : ∀ jobId isStderr data, s.phase jobId = .printing isStderr data → s.lines.printingJobIndex = some jobId
  flushed : ∀ jobId, s.lines.printingJobIndex = some jobId → s.lines.queuedOf jobId = []
  signalling : ∀ jobId, s.phase jobId = .signalling → s.lines.queuedOf jobId = []

theorem Calls.phase {jobId woken : Nat} {sortKey : Int32} {isStderr : Bool} {data : List UInt8}
    {events : List TerminalEvent} (h : Calls s a jobId sortKey isStderr data woken events) :
    s.phase jobId ≠ .signalling := by
  cases h with
  | call hidle => simp [hidle]
  | resume hphase => simp [hphase]

theorem Exits.phase {jobId woken : Nat} (h : Exits s a jobId woken) : s.phase jobId ≠ .signalling := by
  cases h with
  | call hidle => simp [hidle]
  | resume hphase => simp [hphase]

/-- A thread has held the lock. Another job keeps the TTY if it had it. -/
theorem Owned.leave {jobId : Nat} {lines' : Lines} {phase : Phase} (h : Owned s)
    (hleaves : Lines.Leaves jobId s.lines lines')
    (hothers : ∀ k, k ≠ jobId → (lines'.printingJobIndex = some k ↔ s.lines.printingJobIndex = some k))
    (hprinting : ∀ isStderr data, phase = .printing isStderr data → lines'.printingJobIndex = some jobId)
    (hflushed : lines'.printingJobIndex = some jobId ∨ phase = .signalling → lines'.queuedOf jobId = []) :
    Owned ⟨lines', Function.update s.phase jobId phase⟩ := by
  constructor
  · intro k isStderr data hphase
    dsimp only at hphase
    by_cases hk : k = jobId
    · subst hk
      rw [Function.update_self] at hphase
      exact hprinting isStderr data hphase
    · rw [Function.update_of_ne hk] at hphase
      exact (hothers k hk).mpr (h.printing k isStderr data hphase)
  · intro k howner
    by_cases hk : k = jobId
    · subst hk
      exact hflushed (.inl howner)
    · have hnil := hleaves.others k hk
      rw [h.flushed k ((hothers k hk).mp howner)] at hnil
      exact hnil.eq_nil
  · intro k hphase
    dsimp only at hphase
    by_cases hk : k = jobId
    · subst hk
      rw [Function.update_self] at hphase
      exact hflushed (.inr hphase)
    · rw [Function.update_of_ne hk] at hphase
      have hnil := hleaves.others k hk
      rw [h.signalling k hphase] at hnil
      exact hnil.eq_nil

theorem emits_owned {jobId woken : Nat} {sortKey : Int32} {isStderr : Bool} {data : List UInt8}
    {taken : List TerminalEvent} {lines' : Lines} {phase : Phase} (hpartition : s.lines.Partition)
    (howned : Owned s) (h : Lines.Emits qsort woken jobId sortKey isStderr s.lines data lines' taken phase) :
    Owned ⟨lines', Function.update s.phase jobId phase⟩ := by
  have hleaves := h.leaves hpartition
  -- a job that only fills buffers does not change who owns the TTY, and it is not this job
  have hbuffered : ∀ {mid rest}, Lines.Buffered jobId sortKey isStderr s.lines data mid rest →
      mid.printingJobIndex = s.lines.printingJobIndex ∧
        (mid.printingJobIndex = some jobId → mid.queuedOf jobId = []) := by
    intro mid rest h
    have hsame := (h.queued hpartition).printingJobIndex
    refine ⟨hsame, fun howner => ?_⟩
    rw [hsame] at howner
    rw [h.eq_of_owner howner]
    exact howned.flushed jobId howner
  cases h with
  | done h =>
      obtain ⟨hsame, hflushed⟩ := hbuffered h
      exact howned.leave hleaves (fun k _ => by rw [hsame]) (by simp) fun h => hflushed (h.resolve_right (by simp))
  | sleep h hother =>
      obtain ⟨hsame, hflushed⟩ := hbuffered h
      exact howned.leave hleaves (fun k _ => by rw [Lines.condWait, hsame]) (by simp)
        fun h => hflushed (h.resolve_right (by simp))
  | direct hdata howner =>
      exact howned.leave hleaves (fun _ _ => Iff.rfl) (fun _ _ _ => howner) fun _ => howned.flushed jobId howner
  | take hdata hnone =>
      have hflushed := Lines.takeTty_flushed qsort woken jobId s.lines
      refine howned.leave hleaves (fun k hk => ?_) (fun _ _ _ => hflushed.printingJobIndex) fun _ => hflushed.own
      rw [hflushed.printingJobIndex, hnone]
      simpa using Ne.symm hk

theorem moves_owned (hmoves : Moves qsort s a s' es) (hpartition : s.lines.Partition) (howned : Owned s) :
    Owned s' := by
  cases hmoves with
  | emit hcall hemits => exact emits_owned hpartition howned hemits
  | @exitSleep a jobId woken k hexit hother =>
      exact howned.leave ⟨hpartition, fun _ _ => .refl _⟩ (fun _ _ => Iff.rfl) (by simp)
        fun h => howned.flushed jobId (h.resolve_right (by simp))
  | @exitPrint a jobId woken hexit htty =>
      obtain ⟨hnil, hleaves⟩ := s.lines.exitPrint_flushed qsort woken jobId
      refine howned.leave (hleaves hpartition) (fun k hk => ?_) (by simp) fun _ => hnil
      -- nobody has the TTY then, and nobody else had it
      refine iff_of_false (Option.some_ne_none k).symm fun hother => ?_
      rcases htty with hnone | howner
      · simp [hnone] at hother
      · exact hk (Option.some.inj (hother.symm.trans howner))
  | @print jobId isStderr data hphase =>
      exact howned.leave ⟨hpartition, fun _ _ => .refl _⟩ (fun _ _ => Iff.rfl) (by simp)
        fun h => howned.flushed jobId (h.resolve_right (by simp))
  | @broadcast jobId hphase =>
      exact @Owned.leave s jobId s.lines.condBroadcast _ howned ⟨hpartition, fun _ _ => .refl _⟩ (fun _ _ => Iff.rfl)
        (by simp) fun _ =>
        howned.signalling jobId hphase
  | wake jobId => exact ⟨howned.printing, howned.flushed, howned.signalling⟩

theorem reach_owned {allowed : State → Action → Prop} (h : Reach (terminal qsort) allowed s tr) : Owned s := by
  refine reach_moves (P := fun s _ => Owned s) ⟨?_, ?_, ?_⟩ (fun s tr a s' es hreach howned _ hmoves => ?_) h
  · intro jobId isStderr data hphase
    cases hphase
  · intro jobId howner
    cases howner
  · intro jobId hphase
    cases hphase
  · exact moves_owned hmoves (reach_partition hreach) howned

/-! ### No thread sleeps through the release -/

/-- When the TTY is free and a thread sleeps, there is a thread in front of its `CondBroadcast`. -/
def Awakes (s : State) :
    Prop := s.lines.printingJobIndex = none → ∀ jobId ∈ s.lines.canPrint, ∃ k, s.phase k = .signalling

theorem Awakes.leave {jobId : Nat} {lines' : Lines} {phase : Phase} (h : Awakes s)
    (hphase : s.phase jobId ≠ .signalling)
    (hprinting : lines'.printingJobIndex = none → s.lines.printingJobIndex = none)
    (hcanPrint : lines'.canPrint ⊆ s.lines.canPrint) :
    Awakes ⟨lines', Function.update s.phase jobId phase⟩ := by
  intro hnone j hj
  obtain ⟨k, hk⟩ := h (hprinting hnone) j (hcanPrint hj)
  refine ⟨k, ?_⟩
  dsimp only
  rw [Function.update_of_ne, hk]
  rintro rfl
  exact hphase hk

theorem moves_awakes (hmoves : Moves qsort s a s' es) (hpartition : s.lines.Partition) (h : Awakes s) : Awakes s' := by
  cases hmoves with
  | @emit a jobId woken sortKey isStderr data events taken lines' phase hcall hemits =>
      cases hemits with
      | done hbuffered =>
          have hqueued := hbuffered.queued hpartition
          exact h.leave hcall.phase (fun hnone => hqueued.printingJobIndex ▸ hnone)
            (hqueued.canPrint ▸ List.Subset.refl _)
      | sleep hbuffered hother => exact fun hnone => absurd (hother.symm.trans hnone) (by simp)
      | direct hdata howner => exact fun hnone => absurd (howner.symm.trans hnone) (by simp)
      | take hdata hnone =>
          have howner := (Lines.takeTty_flushed qsort woken jobId s.lines).printingJobIndex
          exact fun hnone => absurd (howner.symm.trans hnone) (by simp)
  | exitSleep hexit hother => exact fun hnone => absurd (hother.symm.trans hnone) (by simp)
  | @exitPrint a jobId woken hexit htty => exact fun _ _ _ => ⟨jobId, Function.update_self ..⟩
  | print hphase => exact h.leave (by simp [hphase]) id (List.Subset.refl _)
  | broadcast hphase => exact fun _ j hj => absurd hj (by simp [Lines.condBroadcast])
  | wake jobId => exact fun hnone j hj => h hnone j (List.mem_of_mem_erase hj)

theorem reach_awakes {allowed : State → Action → Prop} (h : Reach (terminal qsort) allowed s tr) : Awakes s := by
  refine reach_moves (P := fun s _ => Awakes s) ?_
    (fun s tr a s' es hreach hp _ hmoves => moves_awakes hmoves (reach_partition hreach) hp) h
  intro _ j hj
  cases hj

/-! ### Nothing is written while another job owns the TTY -/

/-- The TTY is taken when nobody has it, and only its owner writes to it and releases it. -/
def Rightful (before : List TerminalEvent) : TerminalEvent → Prop
  | .take _ => owner before = none
  | .write jobId _ _ => owner before = some jobId
  | .release jobId => owner before = some jobId
  | _ => True

/-- What was seen is what is the case, and it was rightful. -/
structure Seen (lines : Lines) (tr : List TerminalEvent) : Prop where
  owner : owner tr = lines.printingJobIndex
  rightful : Along Rightful [] tr

theorem Seen.append {lines lines' : Lines} (h : Seen lines tr)
    (howner : Terminal.owner (tr ++ es) = lines'.printingJobIndex) (hrightful : Along Rightful tr es) :
    Seen lines' (tr ++ es) := ⟨howner, along_append.mpr ⟨h.rightful, hrightful⟩⟩

theorem Seen.same {lines lines' : Lines} (h : Seen lines tr)
    (hsame : lines'.printingJobIndex = lines.printingJobIndex) : Seen lines' tr :=
  ⟨h.owner.trans hsame.symm, h.rightful⟩

theorem along_writesOf {jobId : Nat} (queue : List LineBuffer) {before : List TerminalEvent}
    (howner : owner before = some jobId) :
    Along Rightful before (Lines.writesOf jobId queue) ∧ owner (before ++ Lines.writesOf jobId queue) = some jobId := by
  induction queue generalizing before with
  | nil => exact ⟨trivial, by rwa [Lines.writesOf, List.map_nil, List.append_nil]⟩
  | cons line queue ih =>
      have hnext : owner (before ++ [.write jobId line.isStderr line.data]) = some jobId := by
        rw [owner_append]
        exact howner
      obtain ⟨halong, hlast⟩ := ih hnext
      refine ⟨⟨howner, halong⟩, ?_⟩
      rw [List.append_assoc] at hlast
      exact hlast

/-- A job that exits takes the TTY if it does not have it. -/
theorem along_taken {jobId : Nat} {lines : Lines} (h : Seen lines tr)
    (htty : lines.printingJobIndex = none ∨ lines.printingJobIndex = some jobId) :
    Along Rightful tr (if lines.printingJobIndex = some jobId then [] else [.take jobId]) ∧
      owner (tr ++ if lines.printingJobIndex = some jobId then [] else [.take jobId]) = some jobId := by
  split_ifs with howner
  · exact ⟨trivial, by rw [List.append_nil, h.owner, howner]⟩
  · refine ⟨⟨h.owner.trans (htty.resolve_right howner), trivial⟩, ?_⟩
    rw [owner_append]
    rfl

theorem seen_calls {jobId woken : Nat} {sortKey : Int32} {isStderr : Bool} {data : List UInt8}
    {events : List TerminalEvent} (hcall : Calls s a jobId sortKey isStderr data woken events) (h : Seen s.lines tr) :
    Seen s.lines (tr ++ events) := by
  cases hcall with
  | call hidle => exact h.append (by rw [owner_append]; exact h.owner) ⟨trivial, trivial⟩
  | resume hphase => rwa [List.append_nil]

theorem moves_seen (hmoves : Moves qsort s a s' es) (hpartition : s.lines.Partition) (howned : Owned s)
    (h : Seen s.lines tr) :
    Seen s'.lines (tr ++ es) := by
  cases hmoves with
  | @emit a jobId woken sortKey isStderr data events taken lines' phase hcall hemits =>
      have hcalled := seen_calls hcall h
      rw [← List.append_assoc]
      cases hemits with
      | done hbuffered =>
          rw [List.append_nil]
          exact hcalled.same (hbuffered.queued hpartition).printingJobIndex
      | sleep hbuffered hother =>
          rw [List.append_nil]
          exact hcalled.same (hbuffered.queued hpartition).printingJobIndex
      | direct hdata howner =>
          rw [List.append_nil]
          exact hcalled
      | take hdata hnone =>
          have howner : owner (tr ++ events ++ [.take jobId]) = some jobId := by
            rw [owner_append]
            rfl
          obtain ⟨halong, hlast⟩ := along_writesOf (s.lines.sortedOf qsort jobId) howner
          rw [Lines.takeTty_events]
          refine hcalled.append ?_ ⟨hcalled.owner.trans hnone, halong⟩
          rw [(Lines.takeTty_flushed qsort woken jobId s.lines).printingJobIndex, ← hlast]
          simp
  | exitSleep hexit hother =>
      rw [List.append_nil]
      exact h.same rfl
  | @exitPrint a jobId woken hexit htty =>
      obtain ⟨htaken, howner⟩ := along_taken h htty
      obtain ⟨hwrites, hlast⟩ := along_writesOf (s.lines.sortedOf qsort jobId) howner
      rw [Lines.exitPrint_events]
      refine h.append ?_ (along_append.mpr ⟨along_append.mpr ⟨htaken, hwrites⟩, ?_, trivial⟩)
      · rw [← List.append_assoc, owner_append]
        rfl
      · rwa [← List.append_assoc]
  | @print jobId isStderr data hphase =>
      have howner := h.owner.trans (howned.printing jobId isStderr data hphase)
      exact h.append (by rw [owner_append]; exact h.owner) ⟨howner, trivial⟩
  | broadcast hphase => exact h.append (by rw [owner_append]; exact h.owner) ⟨trivial, trivial⟩
  | wake jobId =>
      rw [List.append_nil]
      exact h.same rfl

theorem reach_seen {allowed : State → Action → Prop} (h : Reach (terminal qsort) allowed s tr) : Seen s.lines tr :=
  reach_moves (P := fun s tr => Seen s.lines tr) ⟨rfl, trivial⟩
    (fun _ _ _ _ _ hreach hseen _ hmoves => moves_seen hmoves (reach_partition hreach) (reach_owned hreach) hseen) h

/-- A job that has taken the TTY has it until it releases it. -/
theorem owner_between {jobId : Nat} {before between : List TerminalEvent}
    (hrightful : Along Rightful [] (before ++ .take jobId :: between)) (hrelease : .release jobId ∉ between) :
    owner (before ++ .take jobId :: between) = some jobId := by
  induction between using List.reverseRecOn with
  | nil => rw [owner_append]; rfl
  | append_singleton between e ih =>
      rw [← List.cons_append, ← List.append_assoc] at hrightful ⊢
      obtain ⟨hbefore, hlast⟩ := along_append.mp hrightful
      have howner := ih hbefore (fun hmem => hrelease (List.mem_append_left _ hmem))
      have he := hlast.1
      rw [List.nil_append] at he
      rw [owner_append, howner]
      cases e with
      | take k => exact absurd (howner.symm.trans he) (by simp)
      | release k =>
          obtain rfl := Option.some.inj (howner.symm.trans he)
          exact absurd (List.mem_append_right _ (List.mem_singleton.mpr rfl)) hrelease
      | emit | write | exited => rfl

end Tundra.Terminal
