import Tundra.Queue.Expensive

/-!
# No lost wakeup

A thread goes to sleep with the lock in its hands and the ring empty, and whoever puts a node into the ring is
awake. So while the ring is not empty somebody is awake, unless the build is told to stop. When the ring is
empty and nobody works, the nodes left over wait for each other, which an acyclic table rules out.
-/

namespace Tundra

variable {tbl : NodeTable} {cfg : Config} {s s' : State} {a a' : Spec.State} {tr es : List Event} {act : Action}
  {i t : Nat}

/-- The workers have been told to stop. -/
def State.Stopping (cfg : Config) (s : State) : Prop :=
  s.signalReason ≠ none ∨ (0 < s.failedNodeCount ∧ cfg.continueOnError = false) ∨ s.quitSignalled = true

/-- While the main thread is in `BuildLoop` and the ring is not empty, somebody is awake. -/
def State.Awake (tbl : NodeTable) (cfg : Config) (s : State) : Prop :=
  ∀ p, s.driver = .loop p → (s.spec tbl).ring ≠ [] →
    s.Stopping cfg ∨ ∃ t < cfg.threadCount, s.thread t ≠ .asleep ∧ s.thread t ≠ .exited

theorem Spec.ThreadStep.start_inv {c : Choice} (hstep : Spec.ThreadStep tbl cfg a t c a' es)
    (hstart : a'.thread t = .start) :
    a.thread t = .start ∨ a'.ring = [] := by
  cases hstep with
  | idle hpc => exact .inl hpc
  | sleep hpc hkeep hring => exact .inr hring
  | unblock hpc hprogress hready => simp [hpc] at hstart
  | succeed hpc hprogress => simp [hpc] at hstart
  | fail hpc hprogress => simp [hpc] at hstart
  | @runEmpty i hpc hprogress hempty =>
      obtain ⟨_, _, _, _, heq, -⟩ := (a.setNode i { a.nodes i with progress := .succeeded }).release_eq tbl i
      rw [heq] at hstart
      simp [hpc] at hstart
  | @finishAction i result hpc hlock =>
      obtain ⟨_, _, _, _, heq, -⟩ := ((((a.childSignal result).setLock (some t)).setThread t (.advance i)).setNode i
          { a.nodes i with progress := Spec.State.exitProgress result }).release_eq tbl i
      rw [heq] at hstart
      simp at hstart
  | _ => simp at hstart

/-- A thread that is not at work takes the lock or wakes up. -/
theorem threadStep_start {c : Choice} (hstep : State.threadStep tbl cfg s t c = some (s', es))
    (hquiet : (s.thread t).quiet = .start) :
    s'.thread t ≠ .asleep ∧ s'.thread t ≠ .exited := by
  unfold State.threadStep at hstep
  cases hpc : s.thread t with
  | start | waking =>
      simp only [hpc] at hstep
      split at hstep
      · obtain ⟨rfl, rfl⟩ := Prod.mk.inj (Option.some.inj hstep)
        simp
      · cases hstep
  | asleep =>
      simp only [hpc] at hstep
      obtain ⟨rfl, rfl⟩ := Prod.mk.inj (Option.some.inj hstep)
      simp
  | _ => simp [hpc, ThreadPc.quiet] at hquiet

theorem Spec.Sched.ring_nil (h : Spec.Sched tbl a) (hinv : Spec.NodeInv tbl cfg a) (hpending : a.pendingNodeCount ≤ 0) :
    a.ring = [] := by
  refine List.eq_nil_iff_forall_not_mem.mpr fun i hi => ?_
  obtain ⟨hpass, hopen⟩ := h.ring_pass hinv hi
  exact hopen ((h.finished hinv hpass.symm hpending).2 i (hinv.ring_lt i hi) le_rfl)

theorem driverStep_loop {p : Nat} (hstep : State.driverStep tbl cfg s = some s') (hdriver : s'.driver = .loop p) :
    s'.thread 0 = .start := by
  unfold State.driverStep at hstep
  cases hpc : s.driver <;> simp only [hpc] at hstep
  case wake q =>
    obtain rfl := Option.some.inj hstep
    simp
  all_goals
    repeat' split at hstep
    all_goals first
      | (obtain rfl := Option.some.inj hstep; cases hdriver)
      | cases hstep

theorem Spec.Inv.running_of_runAction (hinv : Spec.Inv tbl cfg a) (hlock : a.lock = none) (hheld : a.Held t i)
    (hprogress : (a.nodes i).progress = .runAction) : (a.thread t).running? = some i := by
  have hcheck : a.thread t ≠ .checkInput i := by
    intro hpc
    have := (hinv.node.node i (hinv.node.held_lt t i hheld)).check_progress t hpc
    simp [hprogress] at this
  have hadvance : a.thread t ≠ .advance i := by
    intro hpc
    have := (hinv.lock t).mp (by rw [hpc]; rfl)
    simp [hlock] at this
  rw [Spec.State.Held] at hheld
  cases hpc : a.thread t <;> simp_all [ThreadPc.node?, ThreadPc.running?]

theorem Spec.Inv.driver_loop (hinv : Spec.Inv tbl cfg a) (hmain : a.thread 0 ≠ .exited) :
    ∃ p, a.driver = .loop p ∧ a.currentPassIndex = some p := by
  have hdriver := hinv.driver
  cases hpc : a.driver with
  | loop p =>
      rw [hpc] at hdriver
      exact ⟨p, rfl, hdriver.2.1⟩
  | done r =>
      rw [hpc] at hdriver
      exact absurd (hdriver.1 0) hmain
  | _ =>
      rw [hpc] at hdriver
      exact absurd hdriver.1 hmain

theorem State.Awake.step (hrep : Rep tbl s (s.spec tbl)) (hinv : Spec.Inv tbl cfg (s.spec tbl))
    (hstep : State.step tbl cfg s act = some (s', es)) : s'.Awake tbl cfg := by
  intro p hdriver hring
  cases act with
  | thread t c =>
      simp only [State.step] at hstep
      split at hstep
      · next ht =>
        obtain ⟨a', hspec, hrep'⟩ := hrep.threadStep hinv.node hinv.sched ht hstep
        obtain rfl := hrep'.spec
        have hthread : (s'.spec tbl).thread t = (s'.thread t).quiet := rfl
        by_cases hasleep : s'.thread t = .asleep
        · rw [hasleep] at hthread
          rcases hspec.start_inv hthread with hidle | hempty
          · exact absurd hasleep (threadStep_start hstep hidle).1
          · exact absurd hempty hring
        by_cases hexit : s'.thread t = .exited
        · left
          rw [hexit] at hthread
          have hinv' := hspec.inv ht hinv
          obtain ⟨hkeep, heq⟩ := hspec.exit_inv hthread
          by_contra hgo
          simp only [State.Stopping, not_or, not_not, Bool.not_eq_true] at hgo
          obtain ⟨hsignal, hfailed, hquit⟩ := hgo
          have hsignal' : (s'.spec tbl).signalReason = none := hsignal
          have hfailed' : ¬ (0 < (s'.spec tbl).failedNodeCount ∧ cfg.continueOnError = false) := hfailed
          have hquit' : (s'.spec tbl).quitSignalled = false := hquit
          rw [heq] at hsignal' hfailed' hquit'
          apply hkeep
          refine ⟨hsignal', hfailed', hquit', ?_⟩
          by_contra hmain
          simp only [not_or, not_not, not_lt] at hmain
          have hpending : (s'.spec tbl).pendingNodeCount ≤ 0 := by
            rw [heq]
            exact hmain.2
          exact hring (hinv'.sched.ring_nil hinv'.node hpending)
        · exact .inr ⟨t, ht, hasleep, hexit⟩
      · cases hstep
  | signal reason =>
      obtain ⟨rfl, rfl⟩ := Prod.mk.inj (Option.some.inj hstep)
      exact .inl (.inl (by simp [State.signalSet]))
  | driver =>
      obtain ⟨s₁, hd, heq⟩ := Option.map_eq_some_iff.mp hstep
      obtain ⟨rfl, rfl⟩ := Prod.mk.inj heq
      have hmain := driverStep_loop hd hdriver
      exact .inr ⟨0, cfg.threadCount_pos, by simp [hmain], by simp [hmain]⟩

theorem reach_awake (hreach : Reaches tbl cfg s tr) : s.Awake tbl cfg := by
  cases hreach with
  | init =>
      intro p hdriver
      cases hdriver
  | step hreach hallowed hstep =>
      obtain ⟨hrep, hinv⟩ := reach_inv hreach
      exact State.Awake.step hrep hinv hstep

theorem reach_parked (hreach : Reaches tbl cfg s tr) : Spec.Parked tbl (s.spec tbl) := by
  obtain ⟨a, hrep, -, -, hparked⟩ := reach_invariant
    (P := fun a _ => a.expensiveRunning ≤ (Spec.expensiveNodes tbl a).card ∧ Spec.Parked tbl a)
    ⟨by rw [Spec.expensiveNodes_init]; rfl, fun hne => absurd rfl hne⟩
    (fun _ _ _ _ _ _ _ hinv hP _ hstep => ⟨hstep.expensive_le hinv hP.1, hstep.parked hinv hP.1 hP.2⟩) hreach
  rw [hrep.spec]
  exact hparked

/-- A node in `kRunAction` that is not parked is in the ring or in the hands of a thread. -/
theorem Spec.Inv.runAction_somewhere (hinv : Spec.Inv tbl cfg a) (hi : i < tbl.maxNodes)
    (hprogress : (a.nodes i).progress = .runAction) (hparked : i ∉ a.expensiveWaitList) :
    i ∈ a.ring ∨ ∃ t, a.Held t i := by
  have hnode := hinv.node.node i hi
  rw [hnode.parked_iff] at hparked
  cases hq : (a.nodes i).queued <;> cases ha : (a.nodes i).active
  · have := hnode.idle_progress hq ha
    simp [hprogress] at this
  · rcases hnode.held_or_done hq ha with hdone | hheld
    · simp [Spec.State.Completed, hprogress] at hdone
    · exact .inr hheld
  · exact .inl (hnode.ring_iff.mpr ⟨hq, ha⟩)
  · exact absurd ⟨hq, ha⟩ hparked

/-- With nobody at work and the ring empty, an acyclic pass is done. -/
theorem Spec.Inv.all_completed {p : Nat} (hinv : Spec.Inv tbl cfg a) (hacyclic : tbl.Acyclic)
    (hparked : Spec.Parked tbl a) (hpass : a.currentPassIndex = some p) (hring : a.ring = [])
    (hnobody : ∀ t i, ¬ a.Held t i) :
    ∀ i < tbl.maxNodes, tbl.pass i ≤ p → a.Completed i := by
  have hnotParked : a.expensiveWaitList = [] := by
    by_contra hne
    obtain ⟨i, hi, -, -, hprogress, hout⟩ := hparked hne
    rcases hinv.runAction_somewhere hi hprogress hout with hmem | ⟨t, hheld⟩
    · simp [hring] at hmem
    · exact hnobody t i hheld
  refine hacyclic.induction fun i hi hdeps hle => ?_
  rcases Nat.lt_or_eq_of_le hle with hlt | heq
  · exact (hinv.sched.early p hpass i hi hlt).1
  · have hnode := hinv.node.node i hi
    have hready : a.Ready tbl i := fun d hd => hdeps d hd (le_trans (NodeTable.pass_le_of_mem_deps hi hd) hle)
    cases hq : (a.nodes i).queued <;> cases ha : (a.nodes i).active
    · rcases hnode.idle_progress hq ha with hp | hp
      · exact absurd ⟨hq, ha, hp⟩ (hinv.sched.begun p hpass i hi heq)
      · rcases hinv.sched.waits i hi hq ha hp with hnot | ⟨t, d, ht, -, -⟩
        · exact absurd hready hnot
        · exact absurd (Spec.held_advance ht) (hnobody t d)
    · rcases hnode.held_or_done hq ha with hdone | ⟨t, hheld⟩
      · exact hdone
      · exact absurd hheld (hnobody t i)
    · have := hnode.ring_iff.mpr ⟨hq, ha⟩
      simp [hring] at this
    · have := hnode.parked_iff.mpr ⟨hq, ha⟩
      simp [hnotParked] at this

/-- While nodes are pending and nothing tells the build to stop, not all threads sleep. When nobody holds the
lock, no node waits for dependencies that are all completed, and while a node is parked an expensive node runs
or one that was unparked is in the ring. -/
theorem no_lost_wakeup (hacyclic : tbl.Acyclic) (hreach : Reaches tbl cfg s tr) :
    (0 < s.pendingNodeCount → s.signalReason = none → s.quitSignalled = false →
      s.failedNodeCount = 0 ∨ cfg.continueOnError = true → ¬ ∀ t < cfg.threadCount, s.thread t = .asleep) ∧
    (s.lock = none →
      (∀ i < tbl.maxNodes, (s.nodes i).queued = false → (s.nodes i).active = false → (s.nodes i).progress = .blocked →
        ∃ d ∈ tbl.deps i, (s.nodes d).progress ≠ .completed) ∧
      (s.expensiveWaitList ≠ [] →
        (∃ t i, (s.thread t).running? = some i ∧ (tbl.data i).expensive = true) ∨
        ∃ i ∈ Ring.contents s.queue tbl.queueCapacity s.queueReadIndex s.queueWriteIndex, (s.nodes i).progress = .runAction)) := by
  obtain ⟨hrep, hinv⟩ := reach_inv hreach
  have hparked := reach_parked hreach
  refine ⟨fun hpending hsignal hquit hgo hasleep => ?_, fun hlock => ⟨fun i hi hq ha hp => ?_, fun hne => ?_⟩⟩
  · have hidle : ∀ t, (s.spec tbl).thread t = .start ∨ (s.spec tbl).thread t = .exited := by
      intro t
      by_cases ht : t < cfg.threadCount
      · exact .inl (by rw [hrep.thread t, hasleep t ht]; rfl)
      · exact .inr (hinv.node.thread_lt t (not_lt.mp ht))
    have hnobody : ∀ t i, ¬ (s.spec tbl).Held t i := by
      intro t i hheld
      rcases hidle t with ht | ht <;> simp [Spec.State.Held, ht, ThreadPc.node?] at hheld
    have hmain : (s.spec tbl).thread 0 ≠ .exited := by
      rw [hrep.thread 0, hasleep 0 cfg.threadCount_pos]
      simp [ThreadPc.quiet]
    obtain ⟨p, hdriver, hpass⟩ := hinv.driver_loop hmain
    have hring : (s.spec tbl).ring = [] := by
      by_contra hring
      rcases reach_awake hreach p hdriver hring with hstop | ⟨t, ht, hnot, -⟩
      · rcases hstop with hset | ⟨hpos, hstopOn⟩ | hset
        · exact hset hsignal
        · rcases hgo with hzero | hcont
          · omega
          · simp [hcont] at hstopOn
        · simp [hquit] at hset
      · exact hnot (hasleep t ht)
    have hall := hinv.all_completed hacyclic hparked hpass hring hnobody
    have hcount := hinv.sched.pending
    have hempty : Spec.openNodes tbl (s.spec tbl) = ∅ := by
      refine Finset.eq_empty_iff_forall_notMem.mpr fun i hi => ?_
      obtain ⟨hlt, hcur, hopen | ⟨t, hheld⟩⟩ := Spec.mem_openNodes.mp hi
      · rw [hpass, Option.some.injEq] at hcur
        exact hopen (hall i hlt hcur.le)
      · exact hnobody t i hheld
    rw [hempty, Finset.card_empty] at hcount
    have : s.pendingNodeCount = 0 := hcount
    omega
  · rcases hinv.sched.waits i hi hq ha hp with hnot | ⟨t, d, ht, -, -⟩
    · simp only [Spec.State.Ready, not_forall, exists_prop] at hnot
      exact hnot
    · have := (hinv.lock t).mp (by rw [ht]; rfl)
      have hfree : (s.spec tbl).lock = none := hlock
      simp [hfree] at this
  · obtain ⟨i, hi, hexp, -, hprogress, hout⟩ := hparked hne
    rcases hinv.runAction_somewhere hi hprogress hout with hmem | ⟨t, hheld⟩
    · exact .inr ⟨i, hmem, hprogress⟩
    · left
      refine ⟨t, i, ?_, hexp⟩
      rw [← quiet_running, ← hrep.thread t]
      exact hinv.running_of_runAction hlock hheld hprogress

/-- The main thread runs the first node of the pair. A worker has taken the second one, found it blocked, and
sleeps: the thread that runs the first node is awake, and the blocked node waits for it. -/
theorem no_lost_wakeup_pair : ∃ s tr, Reaches .pair .double s tr ∧ 0 < s.pendingNodeCount ∧ s.signalReason = none ∧
    s.quitSignalled = false ∧ s.failedNodeCount = 0 ∧ s.thread 1 = .asleep ∧ (s.nodes 1).progress = .blocked ∧
    (¬ ∀ t < Config.double.threadCount, s.thread t = .asleep) ∧
    ∃ d ∈ NodeTable.pair.deps 1, (s.nodes d).progress ≠ .completed := by
  have hexec : (Transition.exec (buildSystem .pair .double)
      ([.driver, .driver] ++ List.replicate 7 (.thread 0 {}) ++ List.replicate 4 (.thread 1 {})) (.init .double, [])).map
      (fun c => ((c.1.pendingNodeCount, c.1.signalReason, c.1.quitSignalled, c.1.failedNodeCount),
        c.1.lock, c.1.thread 1, c.1.nodes 1)) =
      some ((2, none, false, 0), none, .asleep, ⟨false, false, .blocked, 0, ⟨0, 0⟩⟩) := by
    decide +kernel
  obtain ⟨s, tr, hreach, hview⟩ := Transition.exists_reach_of_exec (fun _ _ _ => trivial) hexec
  simp only [Prod.mk.injEq] at hview
  obtain ⟨⟨hpending, hsignal, hquit, hfailed⟩, hlock, hasleep, hnode⟩ := hview
  have hpos : 0 < s.pendingNodeCount := by omega
  obtain ⟨hawake, hqueue⟩ := no_lost_wakeup pair_acyclic hreach
  refine ⟨s, tr, hreach, hpos, hsignal, hquit, hfailed,
    hasleep, by rw [hnode], hawake hpos hsignal hquit (.inl hfailed), ?_⟩
  exact (hqueue hlock).1 1 (by decide) (by rw [hnode]) (by rw [hnode]) (by rw [hnode])

end Tundra
