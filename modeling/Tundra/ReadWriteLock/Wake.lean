import Tundra.ReadWriteLock.Inv

/-!
# Nobody sleeps for nothing

The protocol between a broadcast and the threads it wakes, and why a thread that sleeps on one of the condition
variables will be woken: the lock is taken in a way that keeps it out, or somebody is on the way who wakes it or
takes the lock first.
-/

namespace Tundra.ReadWriteLock

open Transition Census

variable {n : Nat} {s s' : State n} {t u : Fin n} {a : Action n} {kind : LockKind} {pc b : Pc} {es : List Empty}

/-- How many threads stand at a place. -/
@[simp] abbrev State.count (s : State n) (b : Pc) : Int := (census b s.thread : Int)

theorem count_pos (hpc : s.thread t = b) : 0 < (census b s.thread : Int) :=
  Int.natCast_pos.mpr (census_pos_iff.mpr ⟨t, hpc⟩)

/-- What the event, the flag and the semaphore of a condition variable say while a broadcast goes on and while
none does. Only `m_Read` is ever broadcast. -/
structure Broadcasting (s : State n) : Prop where
  calm : s.count (.unlockBroadcast .waitDone) = 0 → s.count (.unlockBroadcast .reset) = 0 →
    (s.cond .read).wasBroadcast = false ∧ (s.cond .read).waitersDone = false ∧ s.count (.lockWait .read .signalDone) = 0
  waiting : 0 < s.count (.unlockBroadcast .waitDone) → (s.cond .read).wasBroadcast = true ∧
    s.count (.lockWait .read .wait) ≤ (s.cond .read).sema ∧
    s.count (.lockWait .read .signalDone) + (if (s.cond .read).waitersDone then 1 else 0) =
      if (s.cond .read).waitersCount = 0 then 1 else 0
  reset : 0 < s.count (.unlockBroadcast .reset) → (s.cond .read).wasBroadcast = true ∧
    (s.cond .read).waitersDone = false ∧
    (s.cond .read).waitersCount = 0 ∧ s.count (.lockWait .read .signalDone) = 0
  write : (s.cond .write).wasBroadcast = false ∧ s.count (.lockWait .write .signalDone) = 0

/-- The threads on the way into the semaphore, or at it. -/
@[simp] def State.asleep (s : State n) (kind : LockKind) : Int :=
  s.count (.lockWait kind .enter) + s.count (.lockWait kind .release) + s.count (.lockWait kind .wait)

/-- The threads through the semaphore that will look at the lock again. -/
@[simp] def State.awake (s : State n) (kind : LockKind) : Int :=
  s.count (.lockWait kind .leave) + s.count (.lockWait kind .signalDone) + s.count (.lockWait kind .reacquire) +
    s.count (.lockLoop kind)

/-- The threads that are about to wake a writer. -/
@[simp] def State.signalling (s : State n) : Int :=
  s.count (.unlockSignal .read .test) + s.count (.unlockSignal .read (.release true)) +
    s.count (.unlockSignal .write .test) + s.count (.unlockSignal .write (.release true))

/-- The threads that wake the readers. -/
@[simp] def State.broadcasting (s : State n) : Int :=
  s.count (.unlockBroadcast .release) + s.count (.unlockBroadcast .waitDone) + s.count (.unlockBroadcast .reset)

/-- Why a sleeping reader will be woken. -/
def ReadersWake (s : State n) : Prop := 0 < s.asleep .read →
  0 < s.active .write ∨ 0 < s.count (.unlockBroadcast .release) ∨ 0 < s.count (.unlockBroadcast .waitDone)

/-- Why a sleeping writer will be woken. -/
def WritersWake (s : State n) : Prop := 0 < s.asleep .write →
  0 < s.active .read ∨ 0 < s.active .write ∨ 0 < (s.cond .write).sema ∨
    0 < s.awake .write ∨ 0 < s.awake .read ∨ 0 < s.signalling ∨ 0 < s.broadcasting

/-- A broadcast finds a reader, and a signal is only left out when no writer is counted. -/
structure Wakers (s : State n) : Prop where
  broadcaster : 0 < s.broadcasting → 0 < s.waiting .read
  nobody : 0 < s.count (.unlockSignal .read (.release false)) + s.count (.unlockSignal .write (.release false)) →
    (s.cond .write).waitersCount = 0

/-- While a thread owns the mutex, nobody else stands where its owner could. -/
theorem Owned.count_eq (h : Owned s.mutex s.thread) (hpc : s.thread t = pc) (hholds : pc.holdsMutex = true)
    (hb : b.holdsMutex = true) :
    (census b s.thread : Int) = if pc = b then 1 else 0 := by
  split_ifs with hne
  · exact congrArg Nat.cast (h.census_eq_one (hne ▸ hpc) hb)
  · exact congrArg Nat.cast (h.census_eq_zero hpc hholds hb hne)

theorem Moves.broadcasting (hmoves : Moves s a s') (howned : Owned s.mutex s.thread) (hcounts : Counts s)
    (h : Broadcasting s) :
    Broadcasting s' := by
  obtain ⟨hcalm, hwaiting, hreset, hwrite⟩ := h
  have hcounted := hcounts.waiters .read
  rw [tally_counted] at hcounted
  cases hmoves with
  | croak hcause => exact ⟨hcalm, hwaiting, hreset, hwrite⟩
  | enter hpc | sleep hpc | broadcast hpc | waitDone hpc | reset hpc =>
      have hrelease := howned.count_eq (b := .lockWait .read .release) hpc rfl rfl
      have hwaitDone := howned.count_eq (b := .unlockBroadcast .waitDone) hpc rfl rfl
      have hreset := howned.count_eq (b := .unlockBroadcast .reset) hpc rfl rfl
      constructor <;> simp [hpc, Function.update_apply] <;> grind
  | _ hpc =>
      have hself := count_pos hpc
      constructor <;> simp [hpc, Function.update_apply] <;> grind

theorem busy_iff : s.busy kind = true ↔ 0 < s.active .write ∨ (kind = .write ∧ 0 < s.active .read) := by
  cases kind
  · simp [State.busy]
  · simp [State.busy, or_comm]

theorem Moves.wakers (hmoves : Moves s a s') (howned : Owned s.mutex s.thread) (hcounts : Counts s) (h : Wakers s) :
    Wakers s' := by
  obtain ⟨hbroadcaster, hnobody⟩ := h
  have hwaitingRead := hcounts.waiting .read
  have hcountedWrite := hcounts.waiters .write
  rw [tally_waiting] at hwaitingRead
  rw [tally_counted] at hcountedWrite
  simp only [State.broadcasting, State.count] at hbroadcaster hnobody
  cases hmoves with
  | croak hcause => exact ⟨hbroadcaster, hnobody⟩
  | @queue t kind hpc | @obtain t kind hpc | @obtainLate t kind hpc | @enter t kind hpc =>
      -- the thread owns the mutex, so nobody is in a broadcast or in front of a signal
      have hrelease : census (.unlockBroadcast .release) s.thread = 0 := howned.census_eq_zero hpc rfl rfl (by simp)
      have hwaitDone : census (.unlockBroadcast .waitDone) s.thread = 0 := howned.census_eq_zero hpc rfl rfl (by simp)
      have hreset : census (.unlockBroadcast .reset) s.thread = 0 := howned.census_eq_zero hpc rfl rfl (by simp)
      have hnobodyRead : census (.unlockSignal .read (.release false)) s.thread = 0 :=
        howned.census_eq_zero hpc rfl rfl (by simp)
      have hnobodyWrite : census (.unlockSignal .write (.release false)) s.thread = 0 :=
        howned.census_eq_zero hpc rfl rfl (by simp)
      cases kind <;> constructor <;> simp [hpc] <;> omega
  | @signalTest t kind hpc =>
      by_cases hsome : 0 < (s.cond .write).waitersCount <;> cases kind <;> constructor <;> simp [hpc, hsome] <;> omega
  | @lockEnter t kind hpc | @wait t kind hpc | @sleep t kind hpc | @wake t kind hpc | @leave t kind hpc | @leaveLast t kind hpc
  | @signalDone t kind hpc | @reacquire t kind hpc | @signal t kind hpc | @signalNobody t kind hpc =>
      have hself := count_pos hpc
      cases kind <;> constructor <;> simp [hpc] <;> omega
  | _ hpc =>
      have hself := count_pos hpc
      constructor <;> simp [hpc] <;> omega

theorem Moves.readersWake (hmoves : Moves s a s') (howned : Owned s.mutex s.thread) (hcounts : Counts s)
    (hbroadcasting : Broadcasting s) (h : ReadersWake s) : ReadersWake s' := by
  have hactiveWrite := hcounts.active .write
  have hwaitingRead := hcounts.waiting .read
  have hcountedRead := hcounts.waiters .read
  rw [tally_waiting] at hwaitingRead
  rw [tally_counted] at hcountedRead
  have hdone := hbroadcasting.waiting
  simp only [ReadersWake, State.asleep, State.count] at h hdone ⊢
  cases hmoves with
  | croak hcause => exact h
  | @wait t kind hpc hbusy =>
      cases kind <;> simp only [busy_iff, reduceCtorEq, true_and, false_and, or_false] at hbusy <;> simp [hpc] <;> omega
  | broadcastNobody hpc | waitDone hpc =>
      -- nobody is counted any more, and nobody can be about to count itself
      have hself := count_pos hpc
      have henter : census (.lockWait .read .enter) s.thread = 0 := howned.census_eq_zero hpc rfl rfl (by simp)
      simp [hpc]
      grind
  | @queue t kind hpc | @obtain t kind hpc | @obtainLate t kind hpc | @enter t kind hpc | @sleep t kind hpc | @wake t kind hpc
  | @leave t kind hpc | @leaveLast t kind hpc | @signalDone t kind hpc | @reacquire t kind hpc =>
      have hself := count_pos hpc
      cases kind <;> simp [hpc] <;> omega
  | _ hpc =>
      have hself := count_pos hpc
      simp [hpc] <;> omega

theorem Moves.writersWake (hmoves : Moves s a s') (howned : Owned s.mutex s.thread) (hcounts : Counts s)
    (hbroadcasting : Broadcasting s) (hwakers : Wakers s) (h : WritersWake s) : WritersWake s' := by
  have hactiveRead := hcounts.active .read
  have hactiveWrite := hcounts.active .write
  have hwaitingRead := hcounts.waiting .read
  have hwaitingWrite := hcounts.waiting .write
  have hcountedRead := hcounts.waiters .read
  have hcountedWrite := hcounts.waiters .write
  rw [tally_waiting] at hwaitingRead hwaitingWrite
  rw [tally_counted] at hcountedRead hcountedWrite
  have hreset := hbroadcasting.reset
  obtain ⟨hbroadcaster, hnobody⟩ := hwakers
  simp only [WritersWake, State.asleep, State.awake, State.signalling, State.broadcasting, State.count] at h hreset hbroadcaster hnobody ⊢
  cases hmoves with
  | croak hcause => exact h
  | @wait t kind hpc hbusy =>
      cases kind <;> simp only [busy_iff, reduceCtorEq, true_and, false_and, or_false] at hbusy <;> simp [hpc] <;> omega
  | @signalTest t kind hpc =>
      have henter : census (.lockWait .write .enter) s.thread = 0 := howned.census_eq_zero hpc rfl rfl (by simp)
      by_cases hsome : 0 < (s.cond .write).waitersCount <;> cases kind <;> simp [hpc, hsome] <;> omega
  | signalNobody hpc =>
      have hself := count_pos hpc
      have henter : census (.lockWait .write .enter) s.thread = 0 := howned.census_eq_zero hpc rfl rfl (by simp)
      rename_i kind
      cases kind <;> simp [hpc] <;> omega
  | broadcastNobody hpc | reset hpc =>
      -- the broadcast found a reader, and it is through the semaphore by now
      have hself := count_pos hpc
      have henter : census (.lockWait .read .enter) s.thread = 0 := howned.census_eq_zero hpc rfl rfl (by simp)
      have hloop : census (.lockLoop .read) s.thread = 0 := howned.census_eq_zero hpc rfl rfl (by simp)
      simp [hpc]
      omega
  | @queue t kind hpc | @obtain t kind hpc | @obtainLate t kind hpc | @enter t kind hpc | @sleep t kind hpc | @wake t kind hpc
  | @leave t kind hpc | @leaveLast t kind hpc | @signalDone t kind hpc | @reacquire t kind hpc | @signal t kind hpc =>
      have hself := count_pos hpc
      cases kind <;> simp [hpc] <;> omega
  | _ hpc =>
      have hself := count_pos hpc
      simp [hpc]
      omega

end Tundra.ReadWriteLock
