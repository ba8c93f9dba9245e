import Tundra.Queue.Life

/-!
# Safety of the build queue

What holds of every reachable state and every step out of it: a node is checked and run only after its
dependencies, and once; the ring, the parked list and the counters are what they should be; passes do not
overlap, and the result of the build says what happened.
-/

namespace Tundra

variable {tbl : NodeTable} {cfg : Config} {s s' : State} {a a' : Spec.State} {tr es : List Event} {act : Action}
  {i t : Nat}

namespace Spec

/-- A node that is checked or launched has its dependencies completed. -/
theorem LifeStep.begun {c : Choice} {l l' : Life} {e : Event} (hstep : LifeStep tbl c i l l' es) (he : e ∈ es)
    (hmark : 0 < e.mark) :
    e.node = i ∧ l.progress ≠ .initial ∧ ∃ pc, l.pc = some pc := by
  cases hstep <;> simp_all [Event.node, Event.mark]

theorem Inv.ready_event (h : Inv tbl cfg a) (hstep : Step tbl cfg a act a' es) {e : Event} (he : e ∈ es)
    (hmark : 0 < e.mark) :
    e.node < tbl.maxNodes ∧ a.Ready tbl e.node := by
  rcases hstep.life h with ⟨rfl, -⟩ | ⟨t, c, i, -, hi, -, hmove, -⟩
  · cases he
  · obtain ⟨rfl, hprogress, pc, hpc⟩ := hmove.begun he hmark
    obtain ⟨u, -, hheld⟩ := holder_some hpc
    exact ⟨hi, h.sched.ready_held h.node hheld hprogress⟩

theorem Step.dequeue_inv (hstep : Step tbl cfg a act a' es) (he : .dequeue i ∈ es) :
    ∃ t, a.thread t = .loop ∧ a.Keep cfg t ∧ i ∈ a.ring := by
  cases hstep with
  | @thread t c _ _ ht hstep =>
      cases hstep with
      | dequeue hpc hkeep hring =>
          simp only [List.mem_singleton, Event.dequeue.injEq] at he
          exact ⟨t, hpc, hkeep, by simp [hring, he]⟩
      | _ => simp at he
  | signal reason => cases he
  | driver hstep => cases he

/-- A node whose progress is `kFailed` is in the hands of the thread that holds the lock. -/
theorem Inv.failed_advance (h : Inv tbl cfg a) (hi : i < tbl.maxNodes) (hfailed : (a.nodes i).progress = .failed) :
    ∃ t, a.thread t = .advance i := by
  have hnode := h.node.node i hi
  have hflags : (a.nodes i).queued = false ∧ (a.nodes i).active = true := by
    cases hq : (a.nodes i).queued <;> cases ha : (a.nodes i).active
    · have := hnode.idle_progress hq ha
      simp [hfailed] at this
    · exact ⟨rfl, rfl⟩
    · have := hnode.ring_progress hq ha
      simp [hfailed] at this
    · have := hnode.parked_progress hq ha
      simp [hfailed] at this
  rcases hnode.held_or_done hflags.1 hflags.2 with hdone | ⟨t, hheld⟩
  · simp [State.Completed, hfailed] at hdone
  · refine ⟨t, h.node.held_at hheld ?_ ?_⟩ <;> simp [hfailed]

theorem Inv.not_held_completed (h : Inv tbl cfg a) (hlock : a.lock = none) (hdone : a.Completed i) : ¬ a.Held t i := by
  intro hheld
  have hprogress : (a.nodes i).progress = .completed := hdone
  have hpc := h.node.held_at hheld (by simp [hprogress]) (by simp [hprogress])
  have := (h.lock t).mp (by rw [hpc]; rfl)
  simp [hlock] at this

theorem Counted.init (tbl : NodeTable) (cfg : Config) : Counted ((Tundra.State.init cfg).spec tbl) [] :=
  fun _ _ => ⟨by simp, fun _ => rfl⟩

end Spec

/-! ### Dependencies before dependents -/

theorem reach_counted (hreach : Reaches tbl cfg s tr) : Spec.Counted (s.spec tbl) tr := by
  obtain ⟨a, hrep, -, hcount⟩ := reach_invariant (P := Spec.Counted) (.init tbl cfg)
    (fun _ _ _ _ _ _ _ hinv hcount _ hstep => hstep.counted hinv hcount) hreach
  rw [hrep.spec]
  exact hcount

/-- A node enters `CheckInputSignature`, and `RunAction` launches its pre-action or its action, only when every
node in its `m_Dependencies` is completed, and each of these happens at most once to a node in the whole
build. -/
theorem dependency_order (hreach : Reaches tbl cfg s tr) :
    (∀ act s' es, State.step tbl cfg s act = some (s', es) →
      ∀ i, .checkInput i ∈ es ∨ .launchPre i ∈ es ∨ .launch i ∈ es →
        ∀ d ∈ (tbl.data i).dependencies, ∃ j, tbl.getStateForNode d = some j ∧ (s.nodes j).progress = .completed) ∧
      ∀ i, tr.count (.checkInput i) ≤ 1 ∧ tr.count (.launchPre i) ≤ 1 ∧ tr.count (.launch i) ≤ 1 := by
  obtain ⟨hrep, hinv⟩ := reach_inv hreach
  have hcount := reach_counted hreach
  refine ⟨fun act s' es hstep i he d hd => ?_, fun i => ⟨?_, ?_, ?_⟩⟩
  · obtain ⟨a', hspec, -⟩ := step_refines hrep hinv hstep
    obtain ⟨hi, hready⟩ : i < tbl.maxNodes ∧ (s.spec tbl).Ready tbl i := by
      rcases he with he | he | he
      · exact hinv.ready_event hspec he (Nat.succ_pos _)
      · exact hinv.ready_event hspec he (Nat.succ_pos _)
      · exact hinv.ready_event hspec he (Nat.succ_pos _)
    obtain ⟨j, hremap⟩ := Option.isSome_iff_exists.mp (tbl.closed i hi d hd)
    exact ⟨j, hremap, hready j (List.mem_filterMap.mpr ⟨d, hd, hremap⟩)⟩
  · exact (hcount (.checkInput i) (Nat.succ_pos _)).1
  · exact (hcount (.launchPre i) (Nat.succ_pos _)).1
  · exact (hcount (.launch i) (Nat.succ_pos _)).1

/-- Two nodes of one pass; the second is expensive and lists the first one twice. -/
def NodeTable.pair : NodeTable :=
  .whole [{ NodeData.empty with action := .run, backLinks := [1] },
    { NodeData.empty with action := .run, dependencies := [0, 0], expensive := true }] 1 (fun _ => none) (by decide)

theorem pair_acyclic : NodeTable.pair.Acyclic := NodeTable.acyclic_of_lt (by decide)

def Config.single : Config := ⟨false, 1, 1, by decide, by decide⟩

def Config.double : Config := ⟨false, 2, 1, by decide, by decide⟩

theorem pair_reaches : ∃ s tr, Reaches .pair .single s tr ∧ s.driver = .done .ok ∧ s.lock = none ∧
    tr = [.dequeue 0, .checkInput 0, .launch 0, .dequeue 1, .checkInput 1, .launch 1] := by
  have hexec : (Transition.exec (buildSystem .pair .single)
      ([.driver, .driver] ++ List.replicate 22 (.thread 0 {}) ++ List.replicate 6 .driver) (.init .single, [])).map
      (fun c => (c.1.driver, c.1.lock, c.2)) =
      some (.done .ok, none, [.dequeue 0, .checkInput 0, .launch 0, .dequeue 1, .checkInput 1, .launch 1]) := by
    decide +kernel
  obtain ⟨s, tr, hreach, hview⟩ := Transition.exists_reach_of_exec (fun _ _ _ => trivial) hexec
  simp only [Prod.mk.injEq] at hview
  exact ⟨s, tr, hreach, hview⟩

theorem dependency_order_pair : ∃ s tr, Reaches .pair .single s tr ∧ .launch 1 ∈ tr ∧ tr.count (.launch 1) ≤ 1 := by
  obtain ⟨s, tr, hreach, -, -, htr⟩ := pair_reaches
  exact ⟨s, tr, hreach, by simp [htr], ((dependency_order hreach).2 1).2.2⟩

/-! ### The queue -/

/-- The queue when nobody holds `m_Lock`, and the checks at any time: the ring and the parked list hold the
nodes their flags say, without repetition, the ring has room for all of them, and `m_PendingNodeCount` counts
the nodes of the pass that are not completed. -/
theorem queue_representation (hreach : Reaches tbl cfg s tr) :
    (s.lock = none →
      (Ring.contents s.queue tbl.queueCapacity s.queueReadIndex s.queueWriteIndex).Nodup ∧
      (∀ i, i ∈ Ring.contents s.queue tbl.queueCapacity s.queueReadIndex s.queueWriteIndex ↔
        i < tbl.maxNodes ∧ (s.nodes i).queued = true ∧ (s.nodes i).active = false) ∧
      s.expensiveWaitList.Nodup ∧
      (∀ i, i ∈ s.expensiveWaitList ↔ i < tbl.maxNodes ∧ (s.nodes i).queued = true ∧ (s.nodes i).active = true) ∧
      (∀ i ∈ s.expensiveWaitList, (s.nodes i).progress = .runAction) ∧
      s.availableNodeCount tbl = (Ring.contents s.queue tbl.queueCapacity s.queueReadIndex s.queueWriteIndex).length ∧
      s.availableNodeCount tbl ≤ tbl.maxNodes ∧ tbl.maxNodes < tbl.queueCapacity ∧
      s.pendingNodeCount = ((Finset.range tbl.maxNodes).filter fun i =>
        some (tbl.pass i) = s.currentPassIndex ∧ (s.nodes i).progress ≠ .completed).card) ∧
    ∀ site ∈ s.failedChecks, site = .expensiveRunning := by
  obtain ⟨hrep, hinv⟩ := reach_inv hreach
  refine ⟨fun hlock => ?_, hrep.checks⟩
  have hring : (s.spec tbl).ring = Ring.contents s.queue tbl.queueCapacity s.queueReadIndex s.queueWriteIndex := rfl
  have hparked : (s.spec tbl).expensiveWaitList = s.expensiveWaitList := rfl
  have hcount : s.availableNodeCount tbl = (s.spec tbl).ring.length := hrep.available
  rw [← hring, ← hparked]
  refine ⟨hinv.node.ring_nodup, fun i => ?_, hinv.node.parked_nodup, fun i => ?_, fun i hi => ?_, hcount, ?_,
    tbl.maxNodes_lt_queueCapacity, ?_⟩
  · constructor
    · intro hi
      have hlt := hinv.node.ring_lt i hi
      exact ⟨hlt, (hinv.node.node i hlt).ring_iff.mp hi⟩
    · rintro ⟨hlt, hflags⟩
      exact (hinv.node.node i hlt).ring_iff.mpr hflags
  · constructor
    · intro hi
      have hlt := hinv.node.parked_lt i hi
      exact ⟨hlt, (hinv.node.node i hlt).parked_iff.mp hi⟩
    · rintro ⟨hlt, hflags⟩
      exact (hinv.node.node i hlt).parked_iff.mpr hflags
  · have hnode := hinv.node.node i (hinv.node.parked_lt i hi)
    obtain ⟨hq, ha⟩ := hnode.parked_iff.mp hi
    exact hnode.parked_progress hq ha
  · have hsub : (s.spec tbl).ring ⊆ List.range tbl.maxNodes := fun i hi => List.mem_range.mpr (hinv.node.ring_lt i hi)
    have hle := (hinv.node.ring_nodup.subperm hsub).length_le
    rwa [List.length_range, ← hcount] at hle
  · have hset : Spec.openNodes tbl (s.spec tbl) = (Finset.range tbl.maxNodes).filter fun i =>
        some (tbl.pass i) = s.currentPassIndex ∧ (s.nodes i).progress ≠ .completed := by
      ext i
      rw [Spec.mem_openNodes, Finset.mem_filter, Finset.mem_range]
      have hiff : (¬ (s.spec tbl).Completed i ∨ ∃ t, (s.spec tbl).Held t i) ↔ (s.nodes i).progress ≠ .completed := by
        constructor
        · rintro (hopen | ⟨t, hheld⟩) hdone
          · exact hopen hdone
          · exact hinv.not_held_completed hlock hdone hheld
        · exact fun hopen => .inl hopen
      rw [hiff]
      rfl
    rw [← hset]
    exact hinv.sched.pending

/-- Four nodes of the first pass, the first two expensive, and one of the second pass. -/
def NodeTable.crowded : NodeTable :=
  .whole [{ NodeData.empty with action := .run, expensive := true },
    { NodeData.empty with action := .run, expensive := true }, { NodeData.empty with action := .run },
    { NodeData.empty with action := .run }, { NodeData.empty with action := .run, passIndex := 1 }] 2 (fun _ => none)
    (by decide)

/-- The main thread runs the first node, a worker has parked the second one and checks the third one: the fourth
one is left in the ring. -/
theorem queue_representation_crowded : ∃ s tr, Reaches .crowded .double s tr ∧ s.lock = none ∧
    s.expensiveWaitList = [1] ∧ (s.nodes 1).queued = true ∧ (s.nodes 1).active = true ∧
    s.availableNodeCount .crowded = 1 ∧ s.pendingNodeCount = 4 ∧
    Ring.contents s.queue NodeTable.crowded.queueCapacity s.queueReadIndex s.queueWriteIndex = [3] ∧
    s.pendingNodeCount = ((Finset.range NodeTable.crowded.maxNodes).filter fun i =>
      some (NodeTable.crowded.pass i) = s.currentPassIndex ∧ (s.nodes i).progress ≠ .completed).card := by
  have hexec : (Transition.exec (buildSystem .crowded .double)
      ([.driver, .driver] ++ List.replicate 7 (.thread 0 {}) ++ List.replicate 9 (.thread 1 {})) (.init .double, [])).map
      (fun c => (c.1.lock, c.1.expensiveWaitList, c.1.pendingNodeCount,
        Ring.contents c.1.queue NodeTable.crowded.queueCapacity c.1.queueReadIndex c.1.queueWriteIndex)) =
      some (none, [1], 4, [3]) := by
    decide +kernel
  obtain ⟨s, tr, hreach, hview⟩ := Transition.exists_reach_of_exec (fun _ _ _ => trivial) hexec
  simp only [Prod.mk.injEq] at hview
  obtain ⟨hlock, hwait, hpending, hring⟩ := hview
  obtain ⟨-, -, -, hparked, -, havailable, -, -, hcount⟩ := (queue_representation hreach).1 hlock
  obtain ⟨-, hqueued, hactive⟩ := (hparked 1).mp (by rw [hwait]; exact List.mem_singleton_self 1)
  rw [hring, List.length_singleton] at havailable
  exact ⟨s, tr, hreach, hlock, hwait, hqueued, hactive, havailable, hpending, hring, hcount⟩

/-! ### Passes and the result of the build -/

/-- What is left when `DriverBuild` returns without a signal, having gone on after failures or met none: the
first `passes` passes are completed, the others untouched, and the result says whether the last one failed. -/
structure Ended (tbl : NodeTable) (a : Spec.State) (r : BuildResult) (passes : Nat) : Prop where
  completed : ∀ i < tbl.maxNodes, tbl.pass i < passes → a.Completed i
  untouched : ∀ i < tbl.maxNodes, passes ≤ tbl.pass i → a.Untouched i
  early : ∀ i < tbl.maxNodes, tbl.pass i + 1 < passes → (a.nodes i).buildResult = 0
  ok : r = .ok → (∀ i < tbl.maxNodes, tbl.pass i < passes) ∧ ∀ i < tbl.maxNodes, (a.nodes i).buildResult = 0
  error : r ≠ .ok → r = .buildError ∧ ∃ i < tbl.maxNodes, tbl.pass i + 1 = passes ∧ (a.nodes i).buildResult ≠ 0

theorem ended_of_done {r : BuildResult} (hreach : Reaches tbl cfg s tr) (hdone : s.driver = .done r)
    (hsignal : s.signalReason = none)
    (hgo : cfg.continueOnError = true ∨ ∀ i < tbl.maxNodes, (s.nodes i).buildResult = 0) :
    ∃ passes, Ended tbl (s.spec tbl) r passes := by
  obtain ⟨-, hinv⟩ := reach_inv hreach
  have hok := hinv.driver
  rw [show (s.spec tbl).driver = .done r from hdone] at hok
  obtain ⟨-, p, hout, hend⟩ := hok
  have hlast : ∀ q, (s.spec tbl).currentPassIndex = some q → q + 1 = p := fun q hq => (hout.pass q).mp hq
  have huntouched : ∀ i < tbl.maxNodes, p ≤ tbl.pass i → (s.spec tbl).Untouched i := by
    intro i hi hle
    apply hinv.sched.late i hi
    intro q hq
    have := hlast q hq
    omega
  have hearly : ∀ i < tbl.maxNodes, tbl.pass i + 1 < p → ((s.spec tbl).nodes i).buildResult = 0 := by
    intro i hi hlt
    exact (hinv.sched.early (p - 1) ((hout.pass _).mpr (by omega)) i hi (by omega)).2
  cases r with
  | ok =>
      have hall := (hout.ok rfl).2.2
      have hp : ∀ i < tbl.maxNodes, tbl.pass i < p := by
        intro i hi
        have hlt := NodeTable.pass_lt hi
        have : ¬ p < tbl.passCount := fun hp => hend ⟨rfl, hp⟩
        omega
      refine ⟨p, fun i hi hlt => (hall i hi hlt).1, huntouched, hearly,
        fun _ => ⟨hp, fun i hi => (hall i hi (hp i hi)).2⟩, ?_⟩
      intro hne
      exact absurd rfl hne
  | interrupted =>
      have hseen := hout.interrupted rfl
      exact absurd hsignal (hinv.signal hseen)
  | setupError => exact absurd rfl hout.setupError
  | buildError =>
      obtain ⟨hpos, hpending⟩ := hout.buildError rfl
      rw [hinv.sched.failed] at hpos
      obtain ⟨i, hi⟩ := Finset.card_pos.mp (by exact_mod_cast hpos)
      obtain ⟨hlt, hpass, -, hresult⟩ := Spec.mem_failedNodes.mp hi
      have hcont : cfg.continueOnError = true := by
        rcases hgo with hcont | hzero
        · exact hcont
        · exact absurd (hzero i hlt) hresult
      have hfinished := (hinv.sched.finished hinv.node hpass.symm (hpending hcont)).2
      have hp := hlast _ hpass.symm
      refine ⟨p, fun j hj hlt => hfinished j hj (by omega), huntouched,
        hearly, by simp, fun _ => ⟨rfl, i, hlt, hp, hresult⟩⟩

/-- No node leaves the ring before the passes below its own are completed without a failure, and with the build
set to stop on errors none leaves it once a node has failed. `DriverBuild` returns `kOk` exactly when
`SignalGetReason` had nothing to say at the end of the last pass it ran and every node is completed without a
failure. -/
theorem pass_barrier (hreach : Reaches tbl cfg s tr) :
    (∀ act s' es i, State.step tbl cfg s act = some (s', es) → .dequeue i ∈ es →
      (∀ j < tbl.maxNodes, tbl.pass j < tbl.pass i → (s.nodes j).progress = .completed ∧ (s.nodes j).buildResult = 0) ∧
      (cfg.continueOnError = false → ∀ j < tbl.maxNodes, (s.nodes j).progress ≠ .failed ∧ (s.nodes j).buildResult = 0)) ∧
    (∀ r, s.driver = .done r →
      (r = .ok ↔ s.signalSeen = none ∧ ∀ i < tbl.maxNodes, (s.nodes i).progress = .completed ∧ (s.nodes i).buildResult = 0)) ∧
    (s.signalSeen ≠ none → s.signalReason ≠ none) := by
  obtain ⟨hrep, hinv⟩ := reach_inv hreach
  refine ⟨fun act s' es i hstep he => ?_, fun r hdone => ?_, hinv.signal⟩
  · obtain ⟨a', hspec, -⟩ := step_refines hrep hinv hstep
    obtain ⟨t, hpc, hkeep, hring⟩ := hspec.dequeue_inv he
    have hpass := (hinv.sched.ring_pass hinv.node hring).1
    refine ⟨fun j hj hlt => hinv.sched.early _ hpass.symm j hj hlt, fun hstop j hj => ⟨fun hfailed => ?_, ?_⟩⟩
    · -- a thread that is about to count a failure holds the lock, and so does the one that takes a node
      obtain ⟨u, hu⟩ := hinv.failed_advance hj hfailed
      have huniq : t = u := Spec.LockOk.unique hinv.lock (by rw [hpc]; rfl) (by rw [hu]; rfl)
      rw [← huniq, hpc] at hu
      cases hu
    · refine hinv.sched.no_failure ?_ hj
      by_contra hpos
      exact hkeep.2.1 ⟨not_le.mp hpos, hstop⟩
  · have hdriver : (s.spec tbl).driver = .done r := hdone
    have hok := hinv.driver
    rw [hdriver] at hok
    obtain ⟨-, p, hout, hend⟩ := hok
    constructor
    · intro hr
      obtain ⟨hseen, -, hall⟩ := hout.ok hr
      refine ⟨hseen, fun i hi => hall i hi ?_⟩
      have hlt := NodeTable.pass_lt hi
      have hp : ¬ p < tbl.passCount := fun hp => hend ⟨hr, hp⟩
      omega
    · rintro ⟨hseen, hall⟩
      cases r with
      | ok => rfl
      | interrupted => exact absurd hseen (hout.interrupted rfl)
      | buildError =>
          have hpos := (hout.buildError rfl).1
          rw [hinv.sched.failed] at hpos
          obtain ⟨i, hi⟩ := Finset.card_pos.mp (by exact_mod_cast hpos)
          obtain ⟨hlt, -, -, hresult⟩ := Spec.mem_failedNodes.mp hi
          exact absurd (hall i hlt).2 hresult
      | setupError => exact absurd rfl hout.setupError

/-- Two nodes of the first pass, the second after the first, and one of the second pass. -/
def NodeTable.staged : NodeTable :=
  .whole [{ NodeData.empty with action := .run, backLinks := [1] },
    { NodeData.empty with action := .run, dependencies := [0] },
    { NodeData.empty with action := .run, passIndex := 1 }] 2 (fun _ => none) (by decide)

/-- The main thread builds both passes of the staged table alone: the node of the second pass leaves the ring
when the two of the first pass are completed. -/
theorem pass_barrier_staged :
    (∃ s tr s', Reaches .staged .single s tr ∧ State.step .staged .single s (.thread 0 {}) = some (s', [.dequeue 2]) ∧
      (s.nodes 0).progress = .completed ∧ (s.nodes 0).buildResult = 0 ∧ (s.nodes 1).progress = .completed ∧
      (s.nodes 1).buildResult = 0) ∧
    (∃ s tr, Reaches .staged .single s tr ∧ s.driver = .done .ok ∧ s.signalSeen = none ∧
      ∀ i < NodeTable.staged.maxNodes, (s.nodes i).progress = .completed ∧ (s.nodes i).buildResult = 0) := by
  constructor
  · have hexec : (Transition.exec (buildSystem .staged .single)
        ([.driver, .driver] ++ List.replicate 22 (.thread 0 {}) ++ List.replicate 4 .driver ++ [.thread 0 {}])
        (.init .single, [])).map (fun c => (State.step .staged .single c.1 (.thread 0 {})).map Prod.snd) =
        some (some [.dequeue 2]) := by
      decide +kernel
    obtain ⟨s, tr, hreach, hview⟩ := Transition.exists_reach_of_exec (fun _ _ _ => trivial) hexec
    obtain ⟨⟨s', es⟩, hstep, rfl⟩ := Option.map_eq_some_iff.mp hview
    have hearlier := ((pass_barrier hreach).1 _ _ _ 2 hstep (List.mem_singleton_self _)).1
    obtain ⟨hfirst, hfirst'⟩ := hearlier 0 (by decide) (by decide)
    obtain ⟨hsecond, hsecond'⟩ := hearlier 1 (by decide) (by decide)
    exact ⟨s, tr, s', hreach, hstep, hfirst, hfirst', hsecond, hsecond'⟩
  · have hexec : (Transition.exec (buildSystem .staged .single)
        ([.driver, .driver] ++ List.replicate 22 (.thread 0 {}) ++ List.replicate 4 .driver ++
          List.replicate 12 (.thread 0 {}) ++ List.replicate 6 .driver) (.init .single, [])).map (fun c => c.1.driver) =
        some (.done .ok) := by
      decide +kernel
    obtain ⟨s, tr, hreach, hdone⟩ := Transition.exists_reach_of_exec (fun _ _ _ => trivial) hexec
    exact ⟨s, tr, hreach, hdone, ((pass_barrier hreach).2.1 .ok hdone).mp rfl⟩

/-- A signal that comes after `SignalGetReason` was asked for the last time is not seen: `DriverBuild` returns
`kOk` with a signal reason set. -/
theorem pass_barrier_late_signal : ¬ ∀ s tr, Reaches .staged .single s tr → ∀ r, s.driver = .done r →
    (r = .ok ↔ s.signalReason = none ∧
      ∀ i < NodeTable.staged.maxNodes, (s.nodes i).progress = .completed ∧ (s.nodes i).buildResult = 0) := by
  intro hclaim
  have hexec : (Transition.exec (buildSystem .staged .single)
      ([.driver, .driver] ++ List.replicate 22 (.thread 0 {}) ++ List.replicate 4 .driver ++
        List.replicate 12 (.thread 0 {}) ++ [.driver, .signal "SIGINT"] ++ List.replicate 5 .driver)
      (.init .single, [])).map (fun c => (c.1.driver, c.1.signalReason)) = some (.done .ok, some "SIGINT") := by
    decide +kernel
  obtain ⟨s, tr, hreach, hview⟩ := Transition.exists_reach_of_exec (fun _ _ _ => trivial) hexec
  simp only [Prod.mk.injEq] at hview
  obtain ⟨hdone, hsignal⟩ := hview
  have hnone := ((hclaim s tr hreach .ok hdone).mp rfl).1
  rw [hsignal] at hnone
  cases hnone

end Tundra
