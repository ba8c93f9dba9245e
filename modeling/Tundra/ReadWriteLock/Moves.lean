import Tundra.ReadWriteLock

/-!
# What a step of a thread does

One constructor for each way through the code at each place. The invariants go by these cases and not by the
definitions.
-/

namespace Tundra.ReadWriteLock

open Transition Census

variable {n : Nat}

/-- What made a thread croak: it released a mutex it did not own, or a semaphore over its maximum. -/
def Croaks (s : State n) (t : Fin n) : Prop :=
  ((∃ kind, s.thread t = .lockWait kind .release ∨ s.thread t = .lockExit kind ∨ s.thread t = .unlockExit kind) ∧
    s.mutex ≠ some t) ∨
  (∃ kind, s.thread t = .unlockSignal kind (.release true) ∧ 0x7fffffff < (s.cond .write).sema + 1) ∨
  (s.thread t = .unlockBroadcast .release ∧ 0x7fffffff < (s.cond .read).sema + (s.cond .read).waitersCount.toNat)

inductive Moves (s : State n) : Action n → State n → Prop
  | request {t kind} (hpc : s.thread t = .idle) : Moves s (.lock t kind) (s.goto t (.lockEnter kind))
  | giveBack {t kind} (hpc : s.thread t = .holding kind) : Moves s (.unlock t) (s.goto t (.unlockEnter kind))
  | lockEnter {t kind} (hpc : s.thread t = .lockEnter kind) (hfree : s.mutex = none) :
      Moves s (.run t) ((s.setMutex (some t)).goto t (.lockTest kind))
  | queue {t kind} (hpc : s.thread t = .lockTest kind) (hbusy : s.busy kind = true) :
      Moves s (.run t) ((s.addWaiting kind 1).goto t (.lockLoop kind))
  | obtain {t kind} (hpc : s.thread t = .lockTest kind) (hbusy : s.busy kind = false) :
      Moves s (.run t) ((s.addActive kind 1).goto t (.lockExit kind))
  | wait {t kind} (hpc : s.thread t = .lockLoop kind) (hbusy : s.busy kind = true) :
      Moves s (.run t) (s.goto t (.lockWait kind .enter))
  | obtainLate {t kind} (hpc : s.thread t = .lockLoop kind) (hbusy : s.busy kind = false) :
      Moves s (.run t) (((s.addWaiting kind (-1)).addActive kind 1).goto t (.lockExit kind))
  | enter {t kind} (hpc : s.thread t = .lockWait kind .enter) :
      Moves s (.run t) ((s.setCond kind { s.cond kind with waitersCount := (s.cond kind).waitersCount + 1 }).goto t
        (.lockWait kind .release))
  | sleep {t kind} (hpc : s.thread t = .lockWait kind .release) (howner : s.mutex = some t) :
      Moves s (.run t) ((s.setMutex none).goto t (.lockWait kind .wait))
  | wake {t kind} (hpc : s.thread t = .lockWait kind .wait) (hsema : 0 < (s.cond kind).sema) :
      Moves s (.run t) ((s.setCond kind { s.cond kind with sema := (s.cond kind).sema - 1 }).goto t
        (.lockWait kind .leave))
  | leave {t kind} (hpc : s.thread t = .lockWait kind .leave)
      (hmore : ¬((s.cond kind).wasBroadcast = true ∧ (s.cond kind).waitersCount - 1 = 0)) :
      Moves s (.run t) ((s.setCond kind { s.cond kind with waitersCount := (s.cond kind).waitersCount - 1 }).goto t
        (.lockWait kind .reacquire))
  | leaveLast {t kind} (hpc : s.thread t = .lockWait kind .leave) (hbroadcast : (s.cond kind).wasBroadcast = true)
      (hlast : (s.cond kind).waitersCount - 1 = 0) :
      Moves s (.run t) ((s.setCond kind { s.cond kind with waitersCount := (s.cond kind).waitersCount - 1 }).goto t
        (.lockWait kind .signalDone))
  | signalDone {t kind} (hpc : s.thread t = .lockWait kind .signalDone) :
      Moves s (.run t) ((s.setCond kind { s.cond kind with waitersDone := true }).goto t (.lockWait kind .reacquire))
  | reacquire {t kind} (hpc : s.thread t = .lockWait kind .reacquire) (hfree : s.mutex = none) :
      Moves s (.run t) ((s.setMutex (some t)).goto t (.lockLoop kind))
  | lockExit {t kind} (hpc : s.thread t = .lockExit kind) (howner : s.mutex = some t) :
      Moves s (.run t) ((s.setMutex none).goto t (.holding kind))
  | unlockEnter {t kind} (hpc : s.thread t = .unlockEnter kind) (hfree : s.mutex = none) :
      Moves s (.run t) ((s.setMutex (some t)).goto t (.unlockBody kind))
  | readSignal {t} (hpc : s.thread t = .unlockBody .read) (hlast : s.active .read + -1 = 0)
      (hwaiting : 0 < s.waiting .write) :
      Moves s (.run t) ((s.addActive .read (-1)).goto t (.unlockSignal .read .test))
  | readQuiet {t} (hpc : s.thread t = .unlockBody .read) (hnot : ¬(s.active .read + -1 = 0 ∧ 0 < s.waiting .write)) :
      Moves s (.run t) ((s.addActive .read (-1)).goto t (.unlockExit .read))
  | writeBroadcast {t} (hpc : s.thread t = .unlockBody .write) (hwaiting : s.waiting .read ≠ 0) :
      Moves s (.run t) ((s.addActive .write (-1)).goto t (.unlockBroadcast .release))
  | writeSignal {t} (hpc : s.thread t = .unlockBody .write) (hnone : s.waiting .read = 0)
      (hwaiting : s.waiting .write ≠ 0) :
      Moves s (.run t) ((s.addActive .write (-1)).goto t (.unlockSignal .write .test))
  | writeQuiet {t} (hpc : s.thread t = .unlockBody .write) (hnone : s.waiting .read = 0)
      (hnone' : s.waiting .write = 0) :
      Moves s (.run t) ((s.addActive .write (-1)).goto t (.unlockExit .write))
  | signalTest {t kind} (hpc : s.thread t = .unlockSignal kind .test) :
      Moves s (.run t) (s.goto t (.unlockSignal kind (.release (decide (0 < (s.cond .write).waitersCount)))))
  | signalNobody {t kind} (hpc : s.thread t = .unlockSignal kind (.release false)) :
      Moves s (.run t) (s.goto t (.unlockExit kind))
  | signal {t kind} (hpc : s.thread t = .unlockSignal kind (.release true)) :
      Moves s (.run t) ((s.setCond .write { s.cond .write with sema := (s.cond .write).sema + 1 }).goto t
        (.unlockExit kind))
  | broadcastNobody {t} (hpc : s.thread t = .unlockBroadcast .release) (hnone : ¬0 < (s.cond .read).waitersCount) :
      Moves s (.run t) (s.goto t (.unlockExit .write))
  | broadcast {t} (hpc : s.thread t = .unlockBroadcast .release) (hsome : 0 < (s.cond .read).waitersCount) :
      Moves s (.run t) ((s.setCond .read { s.cond .read with
        wasBroadcast := true, sema := (s.cond .read).sema + (s.cond .read).waitersCount.toNat }).goto t (.unlockBroadcast .waitDone))
  | waitDone {t} (hpc : s.thread t = .unlockBroadcast .waitDone) (hdone : (s.cond .read).waitersDone = true) :
      Moves s (.run t) ((s.setCond .read { s.cond .read with waitersDone := false }).goto t (.unlockBroadcast .reset))
  | reset {t} (hpc : s.thread t = .unlockBroadcast .reset) :
      Moves s (.run t) ((s.setCond .read { s.cond .read with wasBroadcast := false }).goto t (.unlockExit .write))
  | unlockExit {t kind} (hpc : s.thread t = .unlockExit kind) (howner : s.mutex = some t) :
      Moves s (.run t) ((s.setMutex none).goto t .idle)
  | croak {t} (hcause : Croaks s t) : Moves s (.run t) { s with croaked := true }

variable {s s' : State n} {t : Fin n} {a : Action n} {es : List Empty} {pc : Pc}

@[simp] theorem State.setCond_self (s : State n) (kind : LockKind) : s.setCond kind (s.cond kind) = s := by
  rw [State.setCond, Function.update_eq_self]

theorem mutexLock_next (h : s.mutexLock t pc = .next s') : s.mutex = none ∧ s' = (s.setMutex (some t)).goto t pc := by
  unfold State.mutexLock at h
  split_ifs at h with hfree
  cases h
  exact ⟨hfree, rfl⟩

theorem mutexLock_ne_croak : s.mutexLock t pc ≠ .croak := by
  unfold State.mutexLock
  split_ifs <;> simp

theorem mutexUnlock_next (h : s.mutexUnlock t pc = .next s') : s.mutex = some t ∧ s' = (s.setMutex none).goto t pc := by
  unfold State.mutexUnlock at h
  split_ifs at h with howner
  cases h
  exact ⟨howner, rfl⟩

theorem mutexUnlock_croak (h : s.mutexUnlock t pc = .croak) : s.mutex ≠ some t := by
  unfold State.mutexUnlock at h
  split_ifs at h with howner
  exact howner

theorem condWait_moves {kind : LockKind} {place : CondWaitPc} (hpc : s.thread t = .lockWait kind place)
    (h : s.run t = .next s') :
    Moves s (.run t) s' := by
  simp only [State.run, hpc] at h
  cases place with
  | enter =>
      cases h
      exact .enter hpc
  | release =>
      by_cases howner : s.mutex = some t
      · simp only [ConditionVariable.condWait, if_pos howner] at h
        cases h
        rw [show s.cond kind = (s.setMutex none).cond kind from rfl, State.setCond_self]
        exact .sleep hpc howner
      · simp [ConditionVariable.condWait, if_neg howner] at h
  | wait =>
      by_cases hsema : 0 < (s.cond kind).sema
      · simp only [ConditionVariable.condWait, if_pos hsema] at h
        cases h
        exact .wake hpc hsema
      · simp [ConditionVariable.condWait, if_neg hsema] at h
  | leave =>
      simp only [ConditionVariable.condWait] at h
      by_cases hlast : (s.cond kind).wasBroadcast = true ∧ (s.cond kind).waitersCount - 1 = 0
      · rw [if_pos (by simpa using hlast)] at h
        cases h
        exact .leaveLast hpc hlast.1 hlast.2
      · rw [if_neg (by simpa using hlast)] at h
        cases h
        exact .leave hpc hlast
  | signalDone =>
      cases h
      exact .signalDone hpc
  | reacquire =>
      by_cases hfree : s.mutex = none
      · simp only [ConditionVariable.condWait, if_pos hfree] at h
        cases h
        rw [show s.cond kind = (s.setMutex (some t)).cond kind from rfl, State.setCond_self]
        exact .reacquire hpc hfree
      · simp [ConditionVariable.condWait, if_neg hfree] at h

theorem condSignal_moves {kind : LockKind} {place : CondSignalPc} (hpc : s.thread t = .unlockSignal kind place)
    (h : s.run t = .next s') :
    Moves s (.run t) s' := by
  simp only [State.run, hpc] at h
  cases place with
  | test =>
      cases h
      rw [State.setCond_self]
      exact .signalTest hpc
  | release haveWaiters =>
      cases haveWaiters with
      | false =>
          cases h
          rw [State.setCond_self]
          exact .signalNobody hpc
      | true =>
          simp only [ConditionVariable.condSignal] at h
          cases hrelease : (s.cond .write).releaseSemaphore 1 with
          | none => simp [hrelease] at h
          | some var =>
              simp only [hrelease] at h
              cases h
              rw [ConditionVariable.releaseSemaphore_eq hrelease]
              exact .signal hpc

theorem condBroadcast_moves {place : CondBroadcastPc} (hpc : s.thread t = .unlockBroadcast place)
    (h : s.run t = .next s') :
    Moves s (.run t) s' := by
  simp only [State.run, hpc] at h
  cases place with
  | release =>
      simp only [ConditionVariable.condBroadcast] at h
      by_cases hsome : 0 < (s.cond .read).waitersCount
      · rw [if_pos hsome] at h
        cases hrelease : ({ s.cond .read with wasBroadcast := true } : ConditionVariable).releaseSemaphore
          (s.cond .read).waitersCount with
        | none => simp [hrelease] at h
        | some var =>
            simp only [hrelease] at h
            cases h
            rw [ConditionVariable.releaseSemaphore_eq hrelease]
            exact .broadcast hpc hsome
      · rw [if_neg hsome] at h
        cases h
        rw [State.setCond_self]
        exact .broadcastNobody hpc hsome
  | waitDone =>
      by_cases hdone : (s.cond .read).waitersDone = true
      · simp only [ConditionVariable.condBroadcast, if_pos hdone] at h
        cases h
        exact .waitDone hpc hdone
      · simp [ConditionVariable.condBroadcast, if_neg hdone] at h
  | reset =>
      cases h
      exact .reset hpc

theorem unlockBody_moves {kind : LockKind} (hpc : s.thread t = .unlockBody kind) :
    Moves s (.run t) (s.unlockBody t kind) := by
  cases kind with
  | read =>
      simp only [State.unlockBody]
      split_ifs with hsignal
      · exact .readSignal hpc (by simpa [State.addActive] using hsignal.1) hsignal.2
      · exact .readQuiet hpc (by simpa [State.addActive] using hsignal)
  | write =>
      simp only [State.unlockBody]
      split_ifs with hreaders hwriters
      · exact .writeBroadcast hpc hreaders
      · exact .writeSignal hpc (by simpa [State.addActive] using hreaders) hwriters
      · exact .writeQuiet hpc (by simpa [State.addActive] using hreaders) (by simpa [State.addActive] using hwriters)

theorem run_moves (h : s.run t = .next s') : Moves s (.run t) s' := by
  cases hpc : s.thread t with
  | idle => simp [State.run, hpc] at h
  | holding kind => simp [State.run, hpc] at h
  | lockEnter kind =>
      simp only [State.run, hpc] at h
      obtain ⟨hfree, rfl⟩ := mutexLock_next h
      exact .lockEnter hpc hfree
  | lockTest kind =>
      simp only [State.run, hpc] at h
      cases h
      unfold State.lockBody
      split_ifs with hbusy
      · exact .queue hpc hbusy
      · exact .obtain hpc (by simpa using hbusy)
  | lockLoop kind =>
      simp only [State.run, hpc] at h
      cases h
      unfold State.lockAgain
      split_ifs with hbusy
      · exact .wait hpc hbusy
      · exact .obtainLate hpc (by simpa using hbusy)
  | lockWait kind place => exact condWait_moves hpc h
  | lockExit kind =>
      simp only [State.run, hpc] at h
      obtain ⟨howner, rfl⟩ := mutexUnlock_next h
      exact .lockExit hpc howner
  | unlockEnter kind =>
      simp only [State.run, hpc] at h
      obtain ⟨hfree, rfl⟩ := mutexLock_next h
      exact .unlockEnter hpc hfree
  | unlockBody kind =>
      simp only [State.run, hpc] at h
      cases h
      exact unlockBody_moves hpc
  | unlockSignal kind place => exact condSignal_moves hpc h
  | unlockBroadcast place => exact condBroadcast_moves hpc h
  | unlockExit kind =>
      simp only [State.run, hpc] at h
      obtain ⟨howner, rfl⟩ := mutexUnlock_next h
      exact .unlockExit hpc howner

theorem run_croaks (h : s.run t = .croak) : Croaks s t := by
  cases hpc : s.thread t with
  | idle => simp [State.run, hpc] at h
  | holding kind => simp [State.run, hpc] at h
  | lockEnter kind => exact absurd (by simpa only [State.run, hpc] using h) mutexLock_ne_croak
  | lockTest kind => simp [State.run, hpc] at h
  | lockLoop kind => simp [State.run, hpc] at h
  | lockWait kind place =>
      simp only [State.run, hpc] at h
      cases place with
      | release =>
          by_cases howner : s.mutex = some t
          · simp [ConditionVariable.condWait, if_pos howner] at h
          · exact .inl ⟨⟨kind, .inl hpc⟩, howner⟩
      | enter => simp [ConditionVariable.condWait] at h
      | wait => by_cases hsema : 0 < (s.cond kind).sema <;> simp [ConditionVariable.condWait, hsema] at h
      | leave => simp [ConditionVariable.condWait] at h
      | signalDone => simp [ConditionVariable.condWait] at h
      | reacquire => by_cases hfree : s.mutex = none <;> simp [ConditionVariable.condWait, hfree] at h
  | lockExit kind => exact .inl ⟨⟨kind, .inr (.inl hpc)⟩, mutexUnlock_croak (by simpa only [State.run, hpc] using h)⟩
  | unlockEnter kind => exact absurd (by simpa only [State.run, hpc] using h) mutexLock_ne_croak
  | unlockBody kind => simp [State.run, hpc] at h
  | unlockSignal kind place =>
      simp only [State.run, hpc] at h
      cases place with
      | test => simp [ConditionVariable.condSignal] at h
      | release haveWaiters =>
          cases haveWaiters with
          | false => simp [ConditionVariable.condSignal] at h
          | true =>
              cases hrelease : (s.cond .write).releaseSemaphore 1 with
              | none =>
                  exact .inr (.inl ⟨kind, hpc, ConditionVariable.lt_of_releaseSemaphore_none Int.one_pos hrelease⟩)
              | some var => simp [ConditionVariable.condSignal, hrelease] at h
  | unlockBroadcast place =>
      simp only [State.run, hpc] at h
      cases place with
      | release =>
          by_cases hsome : 0 < (s.cond .read).waitersCount
          · cases hrelease : ({ s.cond .read with wasBroadcast := true } : ConditionVariable).releaseSemaphore
              (s.cond .read).waitersCount with
            | none =>
                have hover := ConditionVariable.lt_of_releaseSemaphore_none hsome hrelease
                exact .inr (.inr ⟨hpc, hover⟩)
            | some var => simp [ConditionVariable.condBroadcast, hsome, hrelease] at h
          · simp [ConditionVariable.condBroadcast, hsome] at h
      | waitDone => by_cases hdone : (s.cond .read).waitersDone = true <;>
          simp [ConditionVariable.condBroadcast, hdone] at h
      | reset => simp [ConditionVariable.condBroadcast] at h
  | unlockExit kind => exact .inl ⟨⟨kind, .inr (.inr hpc)⟩, mutexUnlock_croak (by simpa only [State.run, hpc] using h)⟩

theorem step_moves (h : s.step a = some (s', es)) : s.croaked = false ∧ Moves s a s' := by
  unfold State.step at h
  split_ifs at h with hcroaked
  refine ⟨by simpa using hcroaked, ?_⟩
  cases a with
  | lock t kind =>
      dsimp only at h
      split_ifs at h with hpc
      cases h
      exact .request hpc
  | unlock t =>
      dsimp only at h
      split at h
      · rename_i kind hpc
        cases h
        exact .giveBack hpc
      · simp at h
  | run t =>
      dsimp only at h
      split at h
      · simp at h
      · rename_i hcroak
        cases h
        exact .croak (run_croaks hcroak)
      · rename_i s'' hnext
        cases h
        exact run_moves hnext

end Tundra.ReadWriteLock
