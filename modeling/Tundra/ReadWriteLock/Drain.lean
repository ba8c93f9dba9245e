import Tundra.ReadWriteLock.Wake

/-!
# The lock works

Every reachable state satisfies the invariants. From them: a writer has the lock to itself, a broadcast returns
only when its waiters are through, no thread sleeps when it could have the lock, and when no new thread asks for
the lock every schedule ends, with every thread through.
-/

namespace Tundra.ReadWriteLock

open Transition Census

variable {n : Nat} {s s' : State n} {t u : Fin n} {a : Action n} {kind : LockKind} {pc b : Pc} {es tr tr' : List Empty}

/-- Everything that holds in every reachable state. -/
structure Inv (s : State n) : Prop where
  owned : Owned s.mutex s.thread
  counts : Counts s
  exclusive : Exclusive s
  broadcasting : Broadcasting s
  wakers : Wakers s
  readersWake : ReadersWake s
  writersWake : WritersWake s

theorem inv_init : Inv (State.init n) := by
  have hzero : ∀ b, b ≠ .idle → census b (State.init n).thread = 0 := by
    intro b hb
    exact tally_eq_zero_iff.mpr fun t => if_neg (Ne.symm hb)
  have htally : ∀ w : Pc → Nat, w .idle = 0 → tally w (State.init n).thread = 0 := by
    intro w hw
    exact tally_eq_zero_iff.mpr fun t => hw
  have hcond : ∀ kind, (State.init n).cond kind = .init := fun _ => rfl
  refine ⟨?_, ⟨?_, ?_, ?_⟩, ⟨by simp [State.init], by simp [State.init]⟩, ⟨?_, ?_, ?_, ?_⟩, ⟨?_, ?_⟩, ?_, ?_⟩
  · intro t
    simp [State.init, Pc.holdsMutex]
  · intro kind
    rw [htally _ rfl]
    rfl
  · intro kind
    rw [htally _ rfl]
    rfl
  · intro kind
    rw [htally _ rfl]
    rfl
  all_goals simp [State.count, hzero, hcond, State.broadcasting, ReadersWake, WritersWake, State.asleep,
    ConditionVariable.init]

theorem Moves.inv (hmoves : Moves s a s') (h : Inv s) : Inv s' :=
  ⟨hmoves.owned h.owned, hmoves.counts h.counts, hmoves.exclusive h.counts h.exclusive,
    hmoves.broadcasting h.owned h.counts h.broadcasting,
    hmoves.wakers h.owned h.counts h.wakers, hmoves.readersWake h.owned h.counts h.broadcasting h.readersWake,
    hmoves.writersWake h.owned h.counts h.broadcasting h.wakers h.writersWake⟩

theorem Reaches.inv (h : Reaches s) : Inv s := by
  obtain ⟨tr, hreach⟩ := h
  refine hreach.state_invariant (P := Inv) inv_init ?_
  intro s a s' es hinv hstep
  exact (step_moves hstep).2.inv hinv

/-! ### Exclusion -/

theorem Counts.active_pos (h : Counts s) (hpc : s.thread t = .holding kind) : 0 < s.active kind := by
  have hle : Pc.active kind (s.thread t) ≤ tally (Pc.active kind) s.thread := le_tally
  rw [hpc, Pc.active, if_pos rfl] at hle
  rw [h.active kind]
  omega

/-- A thread that has the lock for writing is the only one that has it, in every reachable state of any number
of threads; and when the mutex is free the two counters are the numbers of the threads that have the lock. -/
theorem readWriteLock_exclusive (hreach : Reaches s) :
    (∀ t u, s.thread t = .holding .write → (∃ kind, s.thread u = .holding kind) → u = t) ∧
    (s.mutex = none → ∀ kind, s.active kind = census (.holding kind) s.thread +
    census (.unlockEnter kind) s.thread) := by
  have hinv := hreach.inv
  constructor
  · rintro t u ht ⟨kind, hu⟩
    have hwriter := hinv.counts.active_pos ht
    cases kind with
    | read =>
        have hreader := hinv.counts.active_pos hu
        have hnone := hinv.exclusive.alone hwriter
        omega
    | write =>
        by_contra hut
        have htwo : Pc.active .write (s.thread u) + Pc.active .write (s.thread t) ≤
          tally (Pc.active .write) s.thread := add_le_tally hut
        have hone := hinv.exclusive.one
        rw [hinv.counts.active .write] at hone
        rw [ht, hu, Pc.active, if_pos rfl] at htwo
        omega
  · intro hfree kind
    have hnobody : ∀ b : Pc, b.holdsMutex = true → census b s.thread = 0 := by
      intro b hb
      by_contra hpos
      obtain ⟨u, hu⟩ := census_pos_iff.mp (Nat.pos_of_ne_zero hpos)
      have howner := (hinv.owned u).mpr (hu ▸ hb)
      rw [hfree] at howner
      cases howner
    rw [hinv.counts.active kind, tally_active, hnobody (.lockExit kind) rfl, hnobody (.unlockBody kind) rfl]
    omega

/-- A thread takes the lock for writing and has it to itself. -/
theorem readWriteLock_exclusive_two : ∃ s : State 2, s.thread 0 = .holding .write ∧
    ∀ t u, s.thread t = .holding .write → (∃ kind, s.thread u = .holding kind) → u = t := by
  have hexec : (exec (system 2) [.lock 0 .write, .run 0, .run 0, .run 0] ((system 2).init, [])).map
    (fun c => c.1.thread 0) =
    some (.holding .write) := rfl
  obtain ⟨s, tr, hreach, hholding⟩ := exists_reach_of_exec (fun _ _ _ => trivial) hexec
  exact ⟨s, hholding, (readWriteLock_exclusive ⟨tr, hreach⟩).1⟩

/-- A semaphore would go over its maximum. -/
def State.Overflows (s : State n) : Prop :=
  0x7fffffff < (s.cond .write).sema + 1 ∨ 0x7fffffff < (s.cond .read).sema + (s.cond .read).waitersCount.toNat

/-- The mutex is only ever released by its owner, so the program croaks for one reason alone. -/
theorem Croaks.overflows (hcause : Croaks s t) (howned : Owned s.mutex s.thread) : s.Overflows := by
  rcases hcause with ⟨⟨kind, hpc | hpc | hpc⟩, hnot⟩ | ⟨kind, -, hover⟩ | ⟨-, hover⟩
  · exact absurd ((howned t).mpr (by rw [hpc]; rfl)) hnot
  · exact absurd ((howned t).mpr (by rw [hpc]; rfl)) hnot
  · exact absurd ((howned t).mpr (by rw [hpc]; rfl)) hnot
  · exact .inl hover
  · exact .inr hover

theorem Moves.overflows (hmoves : Moves s a s') (howned : Owned s.mutex s.thread) (hrunning : s.croaked = false)
    (hcroaked : s'.croaked = true) : s'.Overflows := by
  cases hmoves with
  | croak hcause => exact hcause.overflows howned
  | _ hpc => exact absurd (hrunning.symm.trans hcroaked) Bool.false_ne_true

theorem Reaches.overflows (h : Reaches s) (hcroaked : s.croaked = true) : s.Overflows := by
  obtain ⟨tr, hreach⟩ := h
  refine (hreach.state_invariant (P := fun s => Inv s ∧ (s.croaked = true → s.Overflows))
    ⟨inv_init, fun h => absurd h Bool.false_ne_true⟩ ?_).2 hcroaked
  intro s a s' es hinv hstep
  obtain ⟨hrunning, hmoves⟩ := step_moves hstep
  exact ⟨hmoves.inv hinv.1, hmoves.overflows hinv.1.owned hrunning⟩

/-! ### What a broadcast does -/

/-- Where a broadcast returns: nobody is counted, and nobody has the event left to set. -/
theorem broadcast_returns (hinv : Inv s) {place : CondBroadcastPc} (hpc : s.thread t = .unlockBroadcast place)
    (hmoves : Moves s (.run t) s') (hreturn : ∀ place, s'.thread t ≠ .unlockBroadcast place) :
    (s.cond .read).waitersCount = 0 ∧ s.count (.lockWait .read .signalDone) = 0 ∧
      s'.thread = Function.update s.thread t (.unlockExit .write) := by
  cases hmoves with
  | broadcastNobody hpc' hnone =>
      have hwaitDone : census (.unlockBroadcast .waitDone) s.thread = 0 :=
        hinv.owned.census_eq_zero hpc' rfl rfl (by simp)
      have hreset : census (.unlockBroadcast .reset) s.thread = 0 := hinv.owned.census_eq_zero hpc' rfl rfl (by simp)
      have hcalm := hinv.broadcasting.calm (by simp [State.count, hwaitDone]) (by simp [State.count, hreset])
      have hcounted := hinv.counts.waiters .read
      exact ⟨by omega, hcalm.2.2, rfl⟩
  | reset hpc' =>
      obtain ⟨-, -, hnone, hdone⟩ := hinv.broadcasting.reset (count_pos hpc')
      exact ⟨hnone, hdone, rfl⟩
  | broadcast hpc' hsome => exact absurd (Function.update_self ..) (hreturn .waitDone)
  | waitDone hpc' hdone => exact absurd (Function.update_self ..) (hreturn .reset)
  | croak hcause => exact absurd hpc (hreturn place)
  | _ hpc' => simp [hpc] at hpc'

/-- When `CondBroadcast` returns, every thread that still waits for the lock to be readable is through the
semaphore and out of the counts: it only needs the mutex. -/
theorem condBroadcast_wakesAll (hreach : Reaches s) {place : CondBroadcastPc}
    (hpc : s.thread t = .unlockBroadcast place) (hstep : s.run t = .next s')
    (hreturn : ∀ place, s'.thread t ≠ .unlockBroadcast place) (u : Fin n) (place' : CondWaitPc)
    (hu : s'.thread u = .lockWait .read place') : place' = .reacquire := by
  have hinv := hreach.inv
  obtain ⟨hnone, hdone, hthread⟩ := broadcast_returns hinv hpc (run_moves hstep) hreturn
  have hut : u ≠ t := by
    rintro rfl
    rw [hthread, Function.update_self] at hu
    cases hu
  rw [hthread, Function.update_of_ne hut] at hu
  have hpos := count_pos hu
  have hcounted := hinv.counts.waiters .read
  rw [tally_counted] at hcounted
  cases place' with
  | reacquire => rfl
  | enter =>
      have henter : census (.lockWait .read .enter) s.thread = 0 := hinv.owned.census_eq_zero hpc rfl rfl (by simp)
      omega
  | release => omega
  | wait => omega
  | leave => omega
  | signalDone =>
      simp only [State.count] at hdone
      omega

/-- A reader that slept while another thread had the lock for writing. -/
theorem condBroadcast_wakesAll_two : ∃ s s' : State 2, s.thread 0 = .unlockBroadcast .reset ∧ s.run 0 = .next s' ∧
    ∃ place, s'.thread 1 = .lockWait .read place ∧ place = .reacquire := by
  have hexec : (exec (system 2)
    [.lock 0 .write, .run 0, .run 0, .run 0, .lock 1 .read, .run 1, .run 1, .run 1, .run 1, .run 1, .unlock 0,
    .run 0, .run 0, .run 0, .run 1, .run 1, .run 1, .run 0] ((system 2).init, [])).map (fun c => (c.1.thread 0, c.1.thread 1)) =
    some (.unlockBroadcast .reset, .lockWait .read .reacquire) := rfl
  obtain ⟨s, tr, hreach, hview⟩ := exists_reach_of_exec (fun _ _ _ => trivial) hexec
  simp only [Prod.mk.injEq] at hview
  obtain ⟨hpc, hreader⟩ := hview
  have hstep : s.run 0 = .next
    ((s.setCond .read { s.cond .read with wasBroadcast := false }).goto 0 (.unlockExit .write)) := by
    simp only [State.run, hpc]
    rfl
  exact ⟨s, _, hpc, hstep, .reacquire, hreader,
    condBroadcast_wakesAll ⟨tr, hreach⟩ hpc hstep (by simp [State.goto]) 1 .reacquire hreader⟩

/-! ### Nobody sleeps for nothing -/

theorem run_blocked (h : s.run t = .blocked) : s.thread t = .idle ∨ (∃ kind, s.thread t = .holding kind) ∨
    (s.mutex ≠ none ∧ ((∃ kind, s.thread t = .lockEnter kind) ∨ (∃ kind, s.thread t = .unlockEnter kind) ∨
      ∃ kind, s.thread t = .lockWait kind .reacquire)) ∨
    (∃ kind, s.thread t = .lockWait kind .wait ∧ (s.cond kind).sema = 0) ∨
    (s.thread t = .unlockBroadcast .waitDone ∧ (s.cond .read).waitersDone = false) := by
  cases hpc : s.thread t with
  | idle => exact .inl rfl
  | holding kind => exact .inr (.inl ⟨kind, rfl⟩)
  | lockEnter kind =>
      simp only [State.run, hpc, State.mutexLock] at h
      split_ifs at h with hfree
      exact .inr (.inr (.inl ⟨hfree, .inl ⟨kind, rfl⟩⟩))
  | unlockEnter kind =>
      simp only [State.run, hpc, State.mutexLock] at h
      split_ifs at h with hfree
      exact .inr (.inr (.inl ⟨hfree, .inr (.inl ⟨kind, rfl⟩)⟩))
  | lockTest kind => simp [State.run, hpc] at h
  | lockLoop kind => simp [State.run, hpc] at h
  | unlockBody kind => simp [State.run, hpc] at h
  | lockExit kind =>
      simp only [State.run, hpc, State.mutexUnlock] at h
      split_ifs at h
  | unlockExit kind =>
      simp only [State.run, hpc, State.mutexUnlock] at h
      split_ifs at h
  | lockWait kind place =>
      simp only [State.run, hpc] at h
      cases place with
      | enter => simp [ConditionVariable.condWait] at h
      | release => by_cases howner : s.mutex = some t <;> simp [ConditionVariable.condWait, howner] at h
      | wait =>
          by_cases hsema : 0 < (s.cond kind).sema
          · simp [ConditionVariable.condWait, hsema] at h
          · exact .inr (.inr (.inr (.inl ⟨kind, rfl, by omega⟩)))
      | leave => simp [ConditionVariable.condWait] at h
      | signalDone => simp [ConditionVariable.condWait] at h
      | reacquire =>
          by_cases hfree : s.mutex = none
          · simp [ConditionVariable.condWait, hfree] at h
          · exact .inr (.inr (.inl ⟨hfree, .inr (.inr ⟨kind, rfl⟩)⟩))
  | unlockSignal kind place =>
      simp only [State.run, hpc] at h
      cases place with
      | test => simp [ConditionVariable.condSignal] at h
      | release haveWaiters =>
          cases haveWaiters with
          | false => simp [ConditionVariable.condSignal] at h
          | true =>
              cases hrelease : (s.cond .write).releaseSemaphore 1 <;> simp [ConditionVariable.condSignal, hrelease] at h
  | unlockBroadcast place =>
      simp only [State.run, hpc] at h
      cases place with
      | release =>
          by_cases hsome : 0 < (s.cond .read).waitersCount
          · cases hrelease : ({ s.cond .read with wasBroadcast := true } : ConditionVariable).releaseSemaphore
              (s.cond .read).waitersCount <;>
              simp [ConditionVariable.condBroadcast, hsome, hrelease] at h
          · simp [ConditionVariable.condBroadcast, hsome] at h
      | waitDone =>
          by_cases hdone : (s.cond .read).waitersDone = true
          · simp [ConditionVariable.condBroadcast, hdone] at h
          · exact .inr (.inr (.inr (.inr ⟨rfl, by simpa using hdone⟩)))
      | reset => simp [ConditionVariable.condBroadcast] at h

theorem census_of_blocked (hblocked : ∀ t, s.run t = .blocked) (hruns : ∀ t, s.thread t = b → s.run t ≠ .blocked) :
    census b s.thread = 0 := by
  by_contra hpos
  obtain ⟨t, ht⟩ := census_pos_iff.mp (Nat.pos_of_ne_zero hpos)
  exact hruns t ht (hblocked t)

theorem sema_of_blocked (hblocked : ∀ t, s.run t = .blocked) (hpos : 0 < census (.lockWait kind .wait) s.thread) :
    (s.cond kind).sema = 0 := by
  obtain ⟨t, hpc⟩ := census_pos_iff.mp hpos
  have hstop := run_blocked (hblocked t)
  simpa [hpc] using hstop

theorem mutex_free (hinv : Inv s) (hblocked : ∀ t, s.run t = .blocked) : s.mutex = none := by
  by_contra hsome
  obtain ⟨u, hu⟩ := Option.ne_none_iff_exists'.mp hsome
  have hholds := (hinv.owned u).mp hu
  rcases run_blocked (hblocked u) with hpc | ⟨kind, hpc⟩ | ⟨-, ⟨kind, hpc⟩ | ⟨kind, hpc⟩ | ⟨kind, hpc⟩⟩ |
    ⟨kind, hpc, -⟩ | ⟨hpc, hdone⟩
  case inr.inr.inr.inr =>
    -- a broadcast that waits for its waiters: one of them can go on
    obtain ⟨-, hsema, hsum⟩ := hinv.broadcasting.waiting (count_pos hpc)
    have hrelease : census (.lockWait .read .release) s.thread = 0 := census_of_blocked hblocked fun t ht hstop => by
      simpa [ht] using run_blocked hstop
    have hleave : census (.lockWait .read .leave) s.thread = 0 := census_of_blocked hblocked fun t ht hstop => by
      simpa [ht] using run_blocked hstop
    have hlast : census (.lockWait .read .signalDone) s.thread = 0 := census_of_blocked hblocked fun t ht hstop => by
      simpa [ht] using run_blocked hstop
    have hcounted := hinv.counts.waiters .read
    rw [tally_counted] at hcounted
    simp only [State.count, hdone, hlast] at hsema hsum
    have hsome : (s.cond .read).waitersCount ≠ 0 := by
      intro hnone
      simp [hnone] at hsum
    have hwait : 0 < census (.lockWait .read .wait) s.thread := by omega
    have hempty := sema_of_blocked hblocked hwait
    omega
  all_goals simp [hpc, Pc.holdsMutex] at hholds

/-- Where the threads are when every one of them is stopped where it stands. -/
theorem places_of_blocked (hinv : Inv s) (hblocked : ∀ t, s.run t = .blocked) (t : Fin n) :
    s.thread t = .idle ∨ (∃ kind, s.thread t = .holding kind) ∨ ∃ kind, s.thread t = .lockWait kind .wait ∧
    (s.cond kind).sema = 0 := by
  have hfree := mutex_free hinv hblocked
  rcases run_blocked (hblocked t) with hpc | hpc | ⟨hheld, -⟩ | hpc | ⟨hpc, -⟩
  · exact .inl hpc
  · exact .inr (.inl hpc)
  · exact absurd hfree hheld
  · exact .inr (.inr hpc)
  · have howner := (hinv.owned t).mpr (by rw [hpc]; rfl)
    rw [hfree] at howner
    cases howner

theorem stopped_of_blocked (hinv : Inv s) (hblocked : ∀ t, s.run t = .blocked) (t : Fin n) :
    s.thread t = .idle ∨ (∃ kind, s.thread t = .holding kind) ∨
    (s.thread t = .lockWait .read .wait ∧ ∃ u, s.thread u = .holding .write) ∨
    (s.thread t = .lockWait .write .wait ∧ ∃ u kind, s.thread u = .holding kind) := by
  have hplaces := places_of_blocked hinv hblocked
  have hempty : ∀ b : Pc, b ≠ .idle → (∀ kind, b ≠ .holding kind) → (∀ kind, b ≠ .lockWait kind .wait) →
    census b s.thread = 0 := by
    intro b hidle hholding hwait
    by_contra hpos
    obtain ⟨u, hu⟩ := census_pos_iff.mp (Nat.pos_of_ne_zero hpos)
    rcases hplaces u with hpc | ⟨kind, hpc⟩ | ⟨kind, hpc, -⟩
    · exact hidle (hu.symm.trans hpc)
    · exact hholding kind (hu.symm.trans hpc)
    · exact hwait kind (hu.symm.trans hpc)
  have hactive : ∀ kind, 0 < s.active kind → ∃ u, s.thread u = .holding kind := by
    intro kind hpos
    rw [hinv.counts.active kind, tally_active, hempty (.lockExit kind) (by simp) (by simp) (by simp),
      hempty (.unlockEnter kind) (by simp) (by simp) (by simp), hempty (.unlockBody kind) (by simp) (by simp) (by simp)] at hpos
    exact census_pos_iff.mp (by omega)
  rcases hplaces t with hpc | hpc | ⟨kind, hpc, hsema⟩
  · exact .inl hpc
  · exact .inr (.inl hpc)
  · have hasleep : 0 < s.asleep kind := by
      have hpos := count_pos hpc
      simp only [State.asleep, State.count]
      omega
    cases kind with
    | read =>
        refine .inr (.inr (.inl ⟨hpc, ?_⟩))
        rcases hinv.readersWake hasleep with hwriter | hrelease | hwaitDone
        · exact hactive .write hwriter
        · simp [State.count, hempty] at hrelease
        · simp [State.count, hempty] at hwaitDone
    | write =>
        refine .inr (.inr (.inr ⟨hpc, ?_⟩))
        rcases hinv.writersWake hasleep with hreader | hwriter | hpermit | hawake | hawake | hsignal | hbroadcast
        · obtain ⟨u, hu⟩ := hactive .read hreader
          exact ⟨u, .read, hu⟩
        · obtain ⟨u, hu⟩ := hactive .write hwriter
          exact ⟨u, .write, hu⟩
        · omega
        · simp [State.awake, State.count, hempty] at hawake
        · simp [State.awake, State.count, hempty] at hawake
        · simp [State.signalling, State.count, hempty] at hsignal
        · simp [State.broadcasting, State.count, hempty] at hbroadcast

/-- No deadlock and no lost wakeup: when no thread can go on, each one either has nothing to do with the lock,
or has it, or sleeps for a good reason: a reader because a thread has the lock for writing, a writer because a
thread has the lock. -/
theorem readWriteLock_noLostWakeup (hreach : Reaches s) (hblocked : ∀ t, s.run t = .blocked) (t : Fin n) :
    s.thread t = .idle ∨ (∃ kind, s.thread t = .holding kind) ∨
    (s.thread t = .lockWait .read .wait ∧ ∃ u, s.thread u = .holding .write) ∨
    (s.thread t = .lockWait .write .wait ∧ ∃ u kind, s.thread u = .holding kind) :=
  stopped_of_blocked hreach.inv hblocked t

/-- A reader sleeps while another thread has the lock for writing. -/
theorem readWriteLock_noLostWakeup_two : ∃ s : State 2, s.thread 1 = .lockWait .read .wait ∧ (∀ t, s.run t = .blocked) ∧
    (s.thread 1 = .idle ∨ (∃ kind, s.thread 1 = .holding kind) ∨
      (s.thread 1 = .lockWait .read .wait ∧ ∃ u, s.thread u = .holding .write) ∨
      (s.thread 1 = .lockWait .write .wait ∧ ∃ u kind, s.thread u = .holding kind)) := by
  have hexec : (exec (system 2)
    [.lock 0 .write, .run 0, .run 0, .run 0, .lock 1 .read, .run 1, .run 1, .run 1, .run 1, .run 1]
    ((system 2).init, [])).map (fun c => (c.1.thread 1, (c.1.run 0).isBlocked, (c.1.run 1).isBlocked)) =
    some (.lockWait .read .wait, true, true) := rfl
  obtain ⟨s, tr, hreach, hview⟩ := exists_reach_of_exec (fun _ _ _ => trivial) hexec
  simp only [Prod.mk.injEq] at hview
  have hblocked : ∀ t, s.run t = .blocked :=
    Fin.forall_fin_two.mpr ⟨Attempt.eq_blocked hview.2.1, Attempt.eq_blocked hview.2.2⟩
  exact ⟨s, hview.1, hblocked, readWriteLock_noLostWakeup ⟨tr, hreach⟩ hblocked 1⟩

/-! ### Every schedule ends -/

/-- What a thread still costs from where it stands to the end of `ReadWriteUnlock…`. The release of a semaphore
pays for the rounds that the woken threads make. -/
def Pc.weight (n : Nat) : Pc → Nat
  | .idle => 0
  | .unlockExit _ => 1
  | .unlockSignal _ (.release _) => 10
  | .unlockSignal _ .test => 11
  | .unlockBroadcast .reset => 2
  | .unlockBroadcast .waitDone => 3
  | .unlockBroadcast .release => 8 * n + 4
  | .unlockBody _ => 8 * n + 12
  | .unlockEnter _ => 8 * n + 13
  | .holding _ => 8 * n + 14
  | .lockExit _ => 8 * n + 15
  | .lockWait _ .wait => 8 * n + 16
  | .lockWait _ .release => 8 * n + 17
  | .lockWait _ .enter => 8 * n + 18
  | .lockLoop _ => 8 * n + 19
  | .lockWait _ .reacquire => 8 * n + 20
  | .lockWait _ .signalDone => 8 * n + 21
  | .lockWait _ .leave => 8 * n + 22
  | .lockTest _ => 8 * n + 20
  | .lockEnter _ => 8 * n + 21

/-- A bound on the steps that are left when nobody asks for the lock any more. -/
def State.potential (s : State n) : Nat :=
  tally (Pc.weight n) s.thread + 8 * ((s.cond .read).sema + (s.cond .write).sema) + (!s.croaked).toNat

/-- The steps that ask for the lock. -/
def Action.asks : Action n → Bool
  | .lock _ _ => true
  | _ => false

theorem counted_le (thread : Fin n → Pc) : tally (Pc.counted kind) thread ≤ n := by
  have hle : tally (Pc.counted kind) thread ≤ ∑ _t : Fin n, 1 := Finset.sum_le_sum fun t _ => by
    cases thread t with
    | lockWait k place => cases place <;> simp [Pc.counted] <;> split_ifs <;> simp
    | _ => simp [Pc.counted]
  simpa using hle

/-- One thread has moved, and before that some fields have changed. -/
theorem potential_goto_lt {mid : State n}
    (h : mid.potential + Pc.weight n pc < s.potential + Pc.weight n (mid.thread t)) :
    (mid.goto t pc).potential < s.potential := by
  have hmove := @tally_update _ _ _ (Pc.weight n) mid.thread t pc _
  simp only [State.potential, State.goto] at h ⊢
  omega

theorem potential_setCond_lt {var : ConditionVariable}
    (h : 8 * var.sema + Pc.weight n pc < 8 * (s.cond kind).sema + Pc.weight n (s.thread t)) :
    ((s.setCond kind var).goto t pc).potential < s.potential := by
  refine potential_goto_lt ?_
  cases kind <;> simp [State.potential, State.setCond] <;> omega

theorem Moves.potential_lt (hmoves : Moves s a s') (hcounts : Counts s) (hrunning : s.croaked = false)
    (hasks : a.asks = false) :
    s'.potential < s.potential := by
  have hcounted := hcounts.waiters .read
  have hle := @counted_le n .read s.thread
  cases hmoves with
  | request hpc => cases hasks
  | croak hcause => simp [State.potential, hrunning]
  | enter hpc | leave hpc | leaveLast hpc | signalDone hpc | signal hpc | waitDone hpc | reset hpc =>
      refine potential_setCond_lt ?_
      simp only [hpc, Pc.weight]
      omega
  | wake hpc hsema =>
      refine potential_setCond_lt ?_
      simp only [hpc, Pc.weight]
      omega
  | broadcast hpc hsome =>
      refine potential_setCond_lt ?_
      simp only [hpc, Pc.weight]
      omega
  | _ hpc =>
      refine potential_goto_lt ?_
      simp only [State.setMutex, State.addActive, State.addWaiting, State.potential, hpc, Pc.weight]
      omega

/-- Nothing but a request can move a program only when everybody is through. -/
theorem idle_of_stuck (hinv : Inv s) (hrunning : s.croaked = false)
    (hstuck : ∀ a : Action n, a.asks = false → s.step a = none) (t : Fin n) :
    s.thread t = .idle := by
  have hblocked : ∀ t, s.run t = .blocked := by
    intro t
    have hrun := hstuck (.run t) rfl
    cases hattempt : s.run t with
    | blocked => rfl
    | croak => simp [State.step, hrunning, hattempt] at hrun
    | next s' => simp [State.step, hrunning, hattempt] at hrun
  have hnot : ∀ t kind, s.thread t ≠ .holding kind := by
    intro t kind hpc
    have hunlock := hstuck (.unlock t) rfl
    simp [State.step, hrunning, hpc] at hunlock
  rcases stopped_of_blocked hinv hblocked t with hpc | ⟨kind, hpc⟩ | ⟨-, u, hu⟩ | ⟨-, u, kind, hu⟩
  · exact hpc
  · exact absurd hpc (hnot t kind)
  · exact absurd hu (hnot u .write)
  · exact absurd hu (hnot u kind)

/-- When nobody asks for the lock any more, every interleaving comes to an end, and it can only end when the
program has croaked, because a semaphore would go over its maximum, or when every thread has had the lock and is
through. -/
theorem readWriteLock_drains (hreach : Reaches s) (as : List (Action n)) (hasks : ∀ a ∈ as, a.asks = false)
    (hrun : exec (system n) as (s, tr) = some (s', tr')) :
    as.length ≤ s.potential ∧
    ((∀ a, a.asks = false → s'.step a = none) → (s'.croaked = true ∧ s'.Overflows) ∨ ∀ t, s'.thread t = .idle) := by
  have hinv := hreach.inv
  have hover := hreach.overflows
  clear hreach
  induction as generalizing s tr with
  | nil =>
      simp only [exec, Option.some.injEq, Prod.mk.injEq] at hrun
      obtain ⟨rfl, rfl⟩ := hrun
      refine ⟨Nat.zero_le _, fun hstuck => ?_⟩
      cases hcroaked : s.croaked with
      | true => exact .inl ⟨rfl, hover hcroaked⟩
      | false => exact .inr (idle_of_stuck hinv hcroaked hstuck)
  | cons a as ih =>
      rw [exec, Option.bind_eq_some_iff] at hrun
      obtain ⟨⟨mid, es⟩, hstep, hrest⟩ := hrun
      obtain ⟨hrunning, hmoves⟩ := step_moves hstep
      have hless := hmoves.potential_lt hinv.counts hrunning (hasks a List.mem_cons_self)
      obtain ⟨hlength, hend⟩ :=
        ih (fun b hb => hasks b (List.mem_cons_of_mem a hb)) hrest (hmoves.inv hinv)
          (hmoves.overflows hinv.owned hrunning)
      exact ⟨by rw [List.length_cons]; omega, hend⟩

/-- A writer gives the lock back to a reader that sleeps, and waits until the reader is awake; then the reader
gives it back as well. -/
def handOver : List (Action 2) :=
  [.unlock 0, .run 0, .run 0, .run 0, .run 1, .run 1, .run 1, .run 0, .run 0, .run 0, .run 1, .run 1, .run 1,
    .unlock 1, .run 1, .run 1, .run 1]

theorem readWriteLock_drains_two : ∃ s s' : State 2, s.thread 0 = .holding .write ∧ s.thread 1 = .lockWait .read .wait ∧
    exec (system 2) handOver (s, []) = some (s', []) ∧ handOver.length ≤ s.potential ∧ ∀ t, s'.thread t = .idle := by
  obtain ⟨s, hs⟩ : ∃ s, exec (system 2)
    [.lock 0 .write, .run 0, .run 0, .run 0, .lock 1 .read, .run 1, .run 1, .run 1, .run 1, .run 1]
    ((system 2).init, []) = some (s, []) := ⟨_, rfl⟩
  obtain ⟨s', hs', hcroaked, hunlock, hrun⟩ : ∃ s', exec (system 2) handOver (s, []) = some (s', []) ∧
    s'.croaked = false ∧
      ((s'.step (.unlock 0)).isNone = true ∧ (s'.step (.unlock 1)).isNone = true) ∧
      ((s'.step (.run 0)).isNone = true ∧ (s'.step (.run 1)).isNone = true) := by
    cases hs
    exact ⟨_, rfl, rfl, ⟨rfl, rfl⟩, rfl, rfl⟩
  have hreach : Reaches s := ⟨[], Reach.init.exec (fun _ _ _ => trivial) hs⟩
  obtain ⟨hlength, hend⟩ := readWriteLock_drains hreach _ (by simp [handOver, Action.asks]) hs'
  have hstuck : ∀ a : Action 2, a.asks = false → s'.step a = none := by
    intro a ha
    rw [← Option.isNone_iff_eq_none]
    cases a with
    | lock t kind => cases ha
    | unlock t => exact (Fin.forall_fin_two (p := fun t => (s'.step (.unlock t)).isNone = true)).mpr hunlock t
    | run t => exact (Fin.forall_fin_two (p := fun t => (s'.step (.run t)).isNone = true)).mpr hrun t
  have hidle := (hend hstuck).resolve_left fun h => Bool.false_ne_true (hcroaked.symm.trans h.1)
  cases hs
  exact ⟨_, s', rfl, rfl, hs', hlength, hidle⟩

end Tundra.ReadWriteLock
