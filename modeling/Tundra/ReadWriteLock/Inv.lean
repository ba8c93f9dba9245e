import Tundra.ReadWriteLock.Moves

/-!
# What holds whenever a thread moves

Who owns the mutex, what the counters count, and the protocol between a broadcast and its waiters.
-/

namespace Tundra.ReadWriteLock

open Transition Census

variable {n : Nat} {s s' : State n} {t u : Fin n} {a : Action n} {kind : LockKind} {pc b : Pc} {es : List Empty}

/-! ### The mutex -/

/-- The places where a thread owns the mutex. -/
def Pc.holdsMutex : Pc → Bool
  | .lockTest _ | .lockLoop _ | .lockExit _ | .unlockBody _ | .unlockSignal _ _ | .unlockBroadcast _ |
  .unlockExit _ => true
  | .lockWait _ .enter | .lockWait _ .release => true
  | _ => false

/-- The owner of the mutex is the thread at one of these places. -/
def Owned (mutex : Option (Fin n)) (thread : Fin n → Pc) : Prop := ∀ t, mutex = some t ↔ (thread t).holdsMutex = true

theorem Owned.stay (h : Owned s.mutex s.thread) (hpc : pc.holdsMutex = (s.thread t).holdsMutex) :
    Owned s.mutex (Function.update s.thread t pc) := by
  intro u
  rw [h u, Function.update_apply]
  split_ifs with hut
  · rw [hut, hpc]
  · rfl

theorem Owned.take (h : Owned s.mutex s.thread) (hfree : s.mutex = none) (hpc : pc.holdsMutex = true) :
    Owned (some t) (Function.update s.thread t pc) := by
  intro u
  rw [Function.update_apply]
  split_ifs with hut
  · simp [hut, hpc]
  · have hnot := h u
    simp only [hfree, reduceCtorEq, false_iff, Bool.not_eq_true] at hnot
    simp [hnot, Ne.symm hut]

theorem Owned.drop (h : Owned s.mutex s.thread) (howner : s.mutex = some t) (hpc : pc.holdsMutex = false) :
    Owned none (Function.update s.thread t pc) := by
  intro u
  rw [Function.update_apply]
  split_ifs with hut
  · simp [hpc]
  · have hnot := h u
    rw [howner] at hnot
    simpa [Ne.symm hut] using hnot

theorem Moves.owned (hmoves : Moves s a s') (h : Owned s.mutex s.thread) : Owned s'.mutex s'.thread := by
  cases hmoves with
  | lockEnter hpc hfree | reacquire hpc hfree | unlockEnter hpc hfree => exact h.take hfree rfl
  | sleep hpc howner | lockExit hpc howner | unlockExit hpc howner => exact h.drop howner rfl
  | croak hcause => exact h
  | _ => exact h.stay (by simp [*, Pc.holdsMutex])

/-- Nobody else stands where the owner of the mutex could stand. -/
theorem Owned.census_eq_zero (h : Owned s.mutex s.thread) (hpc : s.thread t = pc) (hholds : pc.holdsMutex = true)
    (hb : b.holdsMutex = true) (hne : pc ≠ b) : census b s.thread = 0 := by
  by_contra hpos
  obtain ⟨u, hu⟩ := census_pos_iff.mp (Nat.pos_of_ne_zero hpos)
  have ht := (h t).mpr (hpc ▸ hholds)
  have hu' := (h u).mpr (hu ▸ hb)
  rw [ht] at hu'
  rw [← Option.some.inj hu', hpc] at hu
  exact hne hu

theorem Owned.census_eq_one (h : Owned s.mutex s.thread) (hpc : s.thread t = b) (hholds : b.holdsMutex = true) :
    census b s.thread = 1 := by
  refine Census.census_eq_one hpc fun u hu => ?_
  have ht := (h t).mpr (hpc ▸ hholds)
  have hu' := (h u).mpr (hu ▸ hholds)
  rw [ht] at hu'
  exact (Option.some.inj hu').symm

/-! ### The counters -/

/-- Between `++m_ActiveReaders` or `++m_ActiveWriters` and the matching decrement. -/
def Pc.active (kind : LockKind) : Pc → Nat
  | .lockExit k | .holding k | .unlockEnter k | .unlockBody k => if k = kind then 1 else 0
  | _ => 0

/-- Between `++m_WaitingReaders` or `++m_WaitingWriters` and the matching decrement. -/
def Pc.waiting (kind : LockKind) : Pc → Nat
  | .lockLoop k | .lockWait k _ => if k = kind then 1 else 0
  | _ => 0

/-- Between `waiters_count_++` and `waiters_count_--`. -/
def Pc.counted (kind : LockKind) : Pc → Nat
  | .lockWait k .release | .lockWait k .wait | .lockWait k .leave => if k = kind then 1 else 0
  | _ => 0

/-- The counters are what their names say. -/
structure Counts (s : State n) : Prop where
  active : ∀ kind, s.active kind = tally (Pc.active kind) s.thread
  waiting : ∀ kind, s.waiting kind = tally (Pc.waiting kind) s.thread
  waiters : ∀ kind, (s.cond kind).waitersCount = tally (Pc.counted kind) s.thread

theorem tally_active (kind : LockKind) (thread : Fin n → Pc) : tally (Pc.active kind) thread =
    census (.lockExit kind) thread + census (.holding kind) thread + census (.unlockEnter kind) thread + census
    (.unlockBody kind) thread := by
  simp only [census, tally, ← Finset.sum_add_distrib]
  refine Finset.sum_congr rfl fun t _ => ?_
  cases thread t <;> simp [Pc.active]

theorem tally_waiting (kind : LockKind) (thread : Fin n → Pc) : tally (Pc.waiting kind) thread =
    census (.lockLoop kind) thread + census (.lockWait kind .enter) thread + census (.lockWait kind .release) thread +
      census (.lockWait kind .wait) thread + census (.lockWait kind .leave) thread + census
      (.lockWait kind .signalDone) thread +
      census (.lockWait kind .reacquire) thread := by
  simp only [census, tally, ← Finset.sum_add_distrib]
  refine Finset.sum_congr rfl fun t _ => ?_
  cases thread t with
  | lockWait k place => cases place <;> simp [Pc.waiting]
  | _ => simp [Pc.waiting]

theorem tally_counted (kind : LockKind) (thread : Fin n → Pc) : tally (Pc.counted kind) thread =
    census (.lockWait kind .release) thread + census (.lockWait kind .wait) thread + census
    (.lockWait kind .leave) thread := by
  simp only [census, tally, ← Finset.sum_add_distrib]
  refine Finset.sum_congr rfl fun t _ => ?_
  cases thread t with
  | lockWait k place => cases place <;> simp [Pc.counted]
  | _ => simp [Pc.counted]

theorem Moves.counts (hmoves : Moves s a s') (h : Counts s) : Counts s' := by
  obtain ⟨hactive, hwaiting, hwaiters⟩ := h
  constructor
  · intro kind
    have hold := hactive kind
    cases hmoves with
    | croak hcause => exact hold
    | _ hpc =>
        simp [hpc, Pc.active, Function.update_apply]
        grind
  · intro kind
    have hold := hwaiting kind
    cases hmoves with
    | croak hcause => exact hold
    | _ hpc =>
        simp [hpc, Pc.waiting, Function.update_apply]
        grind
  · intro kind
    have hold := hwaiters kind
    cases hmoves with
    | croak hcause => exact hold
    | _ hpc =>
        simp [hpc, Pc.counted, Function.update_apply]
        grind

/-! ### Exclusion -/

structure Exclusive (s : State n) : Prop where
  one : s.active .write ≤ 1
  alone : 0 < s.active .write → s.active .read = 0

theorem not_busy_read (h : s.busy .read = false) : ¬0 < s.active .write := by
  simpa [State.busy] using h

theorem not_busy_write (h : s.busy .write = false) : ¬0 < s.active .read ∧ ¬0 < s.active .write := by
  simpa [State.busy] using h

theorem Moves.exclusive (hmoves : Moves s a s') (hcounts : Counts s) (h : Exclusive s) : Exclusive s' := by
  obtain ⟨hone, halone⟩ := h
  have hreaders := hcounts.active .read
  have hwriters := hcounts.active .write
  have hplaces := tally_active .read s.thread
  cases hmoves with
  | @obtain t kind hpc hbusy | @obtainLate t kind hpc hbusy =>
      cases kind with
      | read =>
          have hnone := not_busy_read hbusy
          constructor <;> simp <;> omega
      | write =>
          have hnone := not_busy_write hbusy
          constructor <;> simp <;> omega
  | @readSignal t hpc | @readQuiet t hpc =>
      have hself : 0 < census (.unlockBody .read) s.thread := census_pos_iff.mpr ⟨t, hpc⟩
      constructor <;> simp <;> omega
  | writeBroadcast hpc | writeSignal hpc | writeQuiet hpc =>
      constructor <;> simp <;> omega
  | _ => exact ⟨hone, halone⟩

end Tundra.ReadWriteLock
